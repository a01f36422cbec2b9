import LainOS.Net.Chunked

/-!
# Decoding inverts the chunked coding

The coding is stated on its own: a chunk is a size line and the data behind it, and a body is a list
of chunks with a last one of size 0. The decoder works in the buffer it reads from. That is safe
since it never writes at or behind the position it reads (`decodeChunked_safe`), so that what
is still to be read stays as it was.
-/

namespace Net

open Mem List

variable {n readPos : ℕ} {b : UInt8} {last : LastChunk} {body : Mem} {inSize capacity : ℕ}
  {s s' : ChunkCursor}

/-! ### Stores lie behind the read position -/

/-- Every store is in the buffer, and before the position that was read then. -/
def StoresBehind (inSize capacity : ℕ) (stores : List (ℕ × ℕ)) : Prop :=
  ∀ p ∈ stores, p.1 < p.2 ∧ p.2 ≤ inSize ∧ p.1 < capacity

lemma StoresBehind.append {stores : List (ℕ × ℕ)} {w r : ℕ}
    (h : StoresBehind inSize capacity stores) (hw : w < r) (hr : r ≤ inSize) (hcap : w < capacity) :
    StoresBehind inSize capacity (stores ++ [(w, r)]) := by
  intro p hp
  rcases mem_append.mp hp with hp | hp
  · exact h p hp
  · obtain rfl := mem_singleton.mp hp
    exact ⟨hw, hr, hcap⟩

@[simp] lemma copyBytes_readPos (n : ℕ) (s : ChunkCursor) :
    (s.copyBytes n).readPos = s.readPos + n := by
  induction n generalizing s with
  | zero => rfl
  | succ n ih =>
    rw [ChunkCursor.copyBytes, ih, ChunkCursor.copyByte]
    simp only
    omega

@[simp] lemma copyBytes_writePos (n : ℕ) (s : ChunkCursor) :
    (s.copyBytes n).writePos = s.writePos + n := by
  induction n generalizing s with
  | zero => rfl
  | succ n ih =>
    rw [ChunkCursor.copyBytes, ih, ChunkCursor.copyByte]
    simp only
    omega

/-- An invariant of the decoder: reading ahead keeps it, and so does moving a byte to a position
before it. -/
structure ChunkCursor.Kept (inSize capacity : ℕ) (I : ChunkCursor → Prop) : Prop where
  read : ∀ s r, I s → s.readPos ≤ r → I { s with readPos := r }
  copy : ∀ s, I s → s.writePos < s.readPos → s.readPos ≤ inSize → s.writePos < capacity →
    I s.copyByte

/-- What a `return` leaves: a failure stores nothing, a success at most the NUL. -/
def Decoded.Ends (inSize capacity : ℕ) (I : ChunkCursor → Prop) (result : Decoded) : Prop :=
  ∃ t, I t ∧ ((result.body = t.body ∧ result.stores = t.stores) ∨
    (result.ret = 0 ∧ t.writePos < t.readPos ∧ t.readPos ≤ inSize ∧ t.writePos < capacity ∧
      result.stores = t.stores ++ [(t.writePos, t.readPos)]))

/-- The invariant over one pass that either goes on, further ahead, or returns. -/
def PassKeeps (inSize capacity : ℕ) (I : ChunkCursor → Prop) (s : ChunkCursor) :
    Except Decoded ChunkCursor → Prop
  | .error result => result.Ends inSize capacity I
  | .ok s' => I s' ∧ s'.writePos ≤ s'.readPos ∧ s.readPos < s'.readPos

section

variable {I : ChunkCursor → Prop} (hI : ChunkCursor.Kept inSize capacity I)

lemma ends_fail (h : I s) (ret : ℤ) : (s.fail ret).Ends inSize capacity I := ⟨s, h, .inl ⟨rfl, rfl⟩⟩

include hI

lemma ChunkCursor.Kept.copyBytes (h : I s) (hlt : s.writePos < s.readPos)
    (hin : s.readPos + n ≤ inSize) (hcap : s.writePos + n ≤ capacity) : I (s.copyBytes n) := by
  induction n generalizing s with
  | zero => exact h
  | succ n ih =>
    have hcopy : I s.copyByte := hI.copy s h hlt (by omega) (by omega)
    refine ih hcopy (Nat.succ_lt_succ hlt) ?_ ?_ <;> simp only [ChunkCursor.copyByte] <;> omega

lemma chunkEnd_keeps (h : I s') (hle : s'.writePos ≤ s'.readPos) (hr : s.readPos < s'.readPos) :
    PassKeeps inSize capacity I s (chunkEnd inSize s') := by
  have hadvance : ∀ {t : ChunkCursor}, I t → t.writePos ≤ t.readPos → s.readPos < t.readPos →
      PassKeeps inSize capacity I s (.ok t.advance) :=
    fun ht hle hlt => ⟨hI.read _ _ ht (Nat.le_succ _), hle.trans (Nat.le_succ _),
      hlt.trans (Nat.lt_succ_self _)⟩
  obtain ⟨t, ⟨ht, htle, hlt⟩, htdef⟩ : ∃ t : ChunkCursor, PassKeeps inSize capacity I s (.ok t) ∧
      (if s'.readPos < inSize ∧ s'.body s'.readPos = 13 then s'.advance else s') = t := by
    split_ifs
    · exact ⟨_, hadvance h hle hr, rfl⟩
    · exact ⟨_, ⟨h, hle, hr⟩, rfl⟩
  simp only [chunkEnd, htdef]
  split_ifs
  · exact hadvance ht htle hlt
  · exact ends_fail ht _
  · exact ⟨ht, htle, hlt⟩

lemma chunkData_keeps {t : ChunkCursor} {chunkSize : ℕ} (h : I t) (hlt : t.writePos < t.readPos)
    (hin : t.readPos ≤ inSize) (hr : s.readPos < t.readPos) :
    PassKeeps inSize capacity I s (chunkData inSize capacity chunkSize t) := by
  simp only [chunkData]
  split_ifs with hzero hcap hfits hroom
  · exact ⟨t, h, .inr ⟨rfl, hlt, hin, hcap, rfl⟩⟩
  · exact ⟨t, h, .inl ⟨rfl, rfl⟩⟩
  · exact ends_fail h _
  · exact ends_fail h _
  have hcopied := hI.copyBytes (n := chunkSize) h hlt (by omega) (by omega)
  refine chunkEnd_keeps hI hcopied ?_ ?_
  · rw [copyBytes_readPos, copyBytes_writePos]
    omega
  · rw [copyBytes_readPos]
    omega

lemma decodeChunk_keeps (h : I s) (hle : s.writePos ≤ s.readPos) :
    PassKeeps inSize capacity I s (decodeChunk inSize capacity s) := by
  have hskip := skipWhile_bounds isLineEnd s.body (inSize - s.readPos) s.readPos
  simp only [decodeChunk]
  split
  · exact ends_fail h _
  next chunkSize sawDigit behind hsize =>
    have hbehind := readChunkSize_bounds hsize
    have hline := skipWhile_bounds (· ≠ 10) s.body (inSize - behind) behind
    split_ifs with hdigit hend
    · exact ends_fail h _
    · exact ends_fail h _
    · refine chunkData_keeps hI (hI.read s _ h (by omega)) ?_ ?_ ?_ <;> dsimp only <;> omega

/-- The rest of the run behind a pass that keeps the invariant. -/
lemma decodeChunks_of_pass {result : Decoded} (hpos : s.readPos < inSize)
    (hpass : PassKeeps inSize capacity I s (decodeChunk inSize capacity s))
    (h : decodeChunks inSize capacity n s = some result) : result.Ends inSize capacity I := by
  induction n generalizing s with
  | zero =>
    rw [decodeChunks, if_pos hpos] at h
    cases h
  | succ n ih =>
    rw [decodeChunks, if_pos hpos] at h
    split at h <;> rename_i heq <;> rw [heq] at hpass
    · cases h
      exact hpass
    next s' =>
      by_cases hpos' : s'.readPos < inSize
      · exact ih hpos' (decodeChunk_keeps hI hpass.1 hpass.2.1) h
      · have hend : decodeChunks inSize capacity n s' = some (s'.fail (-2)) := by
          cases n <;> rw [decodeChunks, if_neg hpos']
        cases hend.symm.trans h
        exact ends_fail hpass.1 _

/-- The loop ends: every pass that goes on has read something. -/
lemma decodeChunks_ends (h : I s) (hle : s.writePos ≤ s.readPos) (hn : inSize - s.readPos ≤ n) :
    ∃ result, decodeChunks inSize capacity n s = some result ∧ result.Ends inSize capacity I := by
  induction n generalizing s with
  | zero =>
    rw [decodeChunks, if_neg (by omega)]
    exact ⟨_, rfl, ends_fail h _⟩
  | succ n ih =>
    rw [decodeChunks]
    split_ifs with hpos
    · have hpass := decodeChunk_keeps hI h hle
      split <;> rename_i heq <;> rw [heq] at hpass
      · exact ⟨_, rfl, hpass⟩
      · have hlt := hpass.2.2
        exact ih hpass.1 hpass.2.1 (by omega)
    · exact ⟨_, rfl, ends_fail h _⟩

/-- The invariant rule: what holds at the start holds where the decoder returns. -/
lemma decode_ends (body : Mem) (hstart : I ⟨body, 0, 0, []⟩) :
    ∃ result, httpDecodeChunked body inSize capacity = some result ∧
      result.Ends inSize capacity I := by
  rw [httpDecodeChunked]
  split_ifs
  · exact ⟨_, rfl, _, hstart, .inl ⟨rfl, rfl⟩⟩
  · exact decodeChunks_ends hI hstart le_rfl (Nat.sub_le _ _)

end

lemma storesBehind_kept (inSize capacity : ℕ) :
    ChunkCursor.Kept inSize capacity fun s => StoresBehind inSize capacity s.stores :=
  ⟨fun _ _ h _ => h, fun _ h hlt hin hcap => h.append hlt hin hcap⟩

lemma Decoded.Ends.storesBehind {result : Decoded}
    (h : result.Ends inSize capacity fun s => StoresBehind inSize capacity s.stores) :
    StoresBehind inSize capacity result.stores := by
  obtain ⟨t, ht, ⟨-, hstores⟩ | ⟨-, hlt, hin, hcap, hstores⟩⟩ := h
  · exact hstores ▸ ht
  · exact hstores ▸ ht.append hlt hin hcap

/-- On any input decoding ends within `inSize` passes and stores only in the buffer, before what it
has read. -/
theorem decodeChunked_safe (body : Mem) (inSize capacity : ℕ) :
    ∃ result, httpDecodeChunked body inSize capacity = some result ∧
      StoresBehind inSize capacity result.stores := by
  obtain ⟨result, hresult, hends⟩ :=
    decode_ends (storesBehind_kept inSize capacity) body fun p hp => absurd hp not_mem_nil
  exact ⟨result, hresult, hends.storesBehind⟩

/-! ### The coding -/

structure HexDigit where
  value : Fin 16
  /-- The case of a letter. -/
  upper : Bool

def HexDigit.char (d : HexDigit) : UInt8 :=
  if d.value < 10 then 48 + UInt8.ofNat d.value
  else (if d.upper then 65 else 97) + UInt8.ofNat (d.value - 10)

/-- The digits `ds` behind those of the number `n`. -/
def hexNumber (n : ℕ) (ds : List HexDigit) : ℕ := ds.foldl (fun n d => 16 * n + d.value.val) n

/-- A size line as the decoder takes it: digits, and anything behind them up to the newline. -/
structure RawLine where
  digits : List HexDigit
  tail : List UInt8
  digits_ne_nil : digits ≠ []
  size_lt : hexNumber 0 digits < 2 ^ 32
  tail_head : ∀ b ∈ tail.head?, httpHexValue b = none
  tail_no_newline : 10 ∉ tail

def RawLine.encode (line : RawLine) : List UInt8 :=
  line.digits.map HexDigit.char ++ (line.tail ++ [10])

/-- A chunk as the decoder takes it, with line ends in front. -/
structure RawChunk extends RawLine where
  lead : List UInt8
  data : List UInt8
  /-- Whether the line behind the data ends with a carriage return. -/
  cr : Bool
  lead_lineEnds : ∀ b ∈ lead, isLineEnd b = true
  data_ne_nil : data ≠ []
  size_eq : hexNumber 0 digits = data.length

/-- The chunk up to the end of its data. -/
def RawChunk.front (c : RawChunk) : List UInt8 := c.lead ++ c.toRawLine.encode ++ c.data

/-- The end of the line of data. -/
def dataEnd (cr : Bool) : List UInt8 := if cr then [13, 10] else [10]

def RawChunk.encode (c : RawChunk) : List UInt8 := c.front ++ dataEnd c.cr

/-- The size in front of a chunk: up to eight digits and possibly an extension. -/
structure SizeLine where
  digits : List HexDigit
  ext : List UInt8
  digits_ne_nil : digits ≠ []
  digits_length : digits.length ≤ 8
  ext_head : ext = [] ∨ ext.head? = some 59
  ext_no_newline : 10 ∉ ext

def SizeLine.size (line : SizeLine) : ℕ := hexNumber 0 line.digits

def SizeLine.encode (line : SizeLine) : List UInt8 :=
  line.digits.map HexDigit.char ++ (line.ext ++ [13, 10])

structure Chunk extends SizeLine where
  data : List UInt8
  data_ne_nil : data ≠ []
  size_eq : toSizeLine.size = data.length

def Chunk.encode (c : Chunk) : List UInt8 := c.toSizeLine.encode ++ (c.data ++ [13, 10])

/-- The chunk of size 0, with all that follows it. -/
structure LastChunk extends SizeLine where
  size_eq_zero : toSizeLine.size = 0
  trailers : List UInt8

def LastChunk.encode (last : LastChunk) : List UInt8 := last.toSizeLine.encode ++ last.trailers

def encodeChunked (chunks : List Chunk) (last : LastChunk) : List UInt8 :=
  chunks.flatMap Chunk.encode ++ last.encode

/-! ### Reading a size line -/

lemma httpHexValue_char (d : HexDigit) : httpHexValue d.char = some d.value.val := by
  obtain ⟨value, upper⟩ := d
  revert value upper
  decide

lemma not_isLineEnd_char (d : HexDigit) : isLineEnd d.char = false := by
  obtain ⟨value, upper⟩ := d
  revert value upper
  decide

/-- Skipping stops at the first byte that does not satisfy `p`. -/
lemma skipWhile_text {p : UInt8 → Bool} {bs : List UInt8} (htext : Text body readPos (bs ++ [b]))
    (hbs : ∀ x ∈ bs, p x = true) (hb : p b = false) (hn : bs.length < n) :
    skipWhile p body n readPos = readPos + bs.length := by
  induction bs generalizing n readPos with
  | nil =>
    obtain ⟨m, rfl⟩ : ∃ m, n = m + 1 := ⟨n - 1, by simp at hn; omega⟩
    have hhead : body readPos = b := htext.1
    rw [skipWhile, hhead, hb, if_neg Bool.false_ne_true]
    rfl
  | cons x bs ih =>
    obtain ⟨m, rfl⟩ : ∃ m, n = m + 1 := ⟨n - 1, by omega⟩
    have hhead : body readPos = x := htext.1
    rw [length_cons] at hn
    rw [skipWhile, hhead, hbs x mem_cons_self, if_pos rfl,
      ih htext.2 (fun y hy => hbs y (mem_cons_of_mem x hy)) (by omega), length_cons]
    omega

lemma le_hexNumber (n : ℕ) (ds : List HexDigit) : n ≤ hexNumber n ds := by
  induction ds generalizing n with
  | nil => exact le_rfl
  | cons d ds ih => exact le_trans (by omega) (ih (16 * n + d.value.val))

lemma hexNumber_lt {k : ℕ} (ds : List HexDigit) (h : n < 16 ^ k) :
    hexNumber n ds < 16 ^ (k + ds.length) := by
  induction ds generalizing n k with
  | nil => exact h
  | cons d ds ih =>
    have hd := d.value.isLt
    have hstep : 16 * n + d.value.val < 16 ^ (k + 1) := by
      rw [Nat.pow_succ]
      omega
    rw [length_cons, show k + (ds.length + 1) = k + 1 + ds.length by omega]
    exact ih hstep

lemma shiftLeft_or_digit (n : ℕ) (d : HexDigit) : n <<< 4 ||| d.value.val = 16 * n + d.value := by
  have hd := d.value.isLt
  rw [← Nat.shiftLeft_add_eq_or_of_lt (by omega : d.value.val < 2 ^ 4), Nat.shiftLeft_eq,
    Nat.mul_comm]

/-- Digits are read as the number they stand for, if it is a 32-bit number. -/
lemma readChunkSize_text {ds : List HexDigit} (chunkSize : ℕ) (sawDigit : Bool)
    (htext : Text body readPos (ds.map HexDigit.char ++ [b])) (hb : httpHexValue b = none)
    (hn : ds.length < n) (hsize : hexNumber chunkSize ds < 2 ^ 32) :
    readChunkSize body n readPos chunkSize sawDigit =
      some (hexNumber chunkSize ds, sawDigit || !ds.isEmpty, readPos + ds.length) := by
  induction ds generalizing n readPos chunkSize sawDigit with
  | nil =>
    obtain ⟨m, rfl⟩ : ∃ m, n = m + 1 := ⟨n - 1, by simp at hn; omega⟩
    have hhead : body readPos = b := htext.1
    rw [readChunkSize, hhead, hb]
    simp [hexNumber]
  | cons d ds ih =>
    rw [length_cons] at hn
    obtain ⟨m, rfl⟩ : ∃ m, n = m + 1 := ⟨n - 1, by omega⟩
    have hhead : body readPos = d.char := htext.1
    -- the number does not get smaller behind this digit
    have hle : 16 * chunkSize + d.value.val ≤ hexNumber chunkSize (d :: ds) := le_hexNumber _ ds
    rw [readChunkSize, hhead, httpHexValue_char]
    simp only
    rw [if_neg (by omega), shiftLeft_or_digit, ih _ _ htext.2 (by omega) hsize]
    simp [hexNumber, Nat.add_comm, Nat.add_left_comm]

/-- A size line is read in one go. -/
lemma decodeChunk_line {line : RawLine} (lead : List UInt8)
    (hlead : ∀ b ∈ lead, isLineEnd b = true)
    (htext : Text s.body s.readPos (lead ++ line.encode))
    (hin : s.readPos + (lead ++ line.encode).length ≤ inSize) :
    decodeChunk inSize capacity s = chunkData inSize capacity (hexNumber 0 line.digits)
      { s with readPos := s.readPos + (lead ++ line.encode).length } := by
  obtain ⟨d, ds, hdigits⟩ := exists_cons_of_ne_nil line.digits_ne_nil
  obtain ⟨b, rest, hrest, hb⟩ : ∃ b rest, line.tail ++ [10] = b :: rest ∧
      httpHexValue b = none := by
    cases htail : line.tail with
    | nil => exact ⟨10, [], rfl, by decide⟩
    | cons b tail =>
      exact ⟨b, tail ++ [10], rfl, line.tail_head b (by rw [htail, head?_cons]; exact rfl)⟩
  have hlength : line.encode.length = line.digits.length + line.tail.length + 1 := by
    simp [RawLine.encode]
    omega
  rw [length_append, hlength] at hin ⊢
  rw [RawLine.encode, text_append, text_append, length_map] at htext
  obtain ⟨htextLead, htextDigits, htextTail⟩ := htext
  have hdigitsEnd : Text s.body (s.readPos + lead.length) (line.digits.map HexDigit.char ++ [b]) := by
    rw [hrest] at htextTail
    rw [text_append, length_map]
    exact ⟨htextDigits, htextTail.1, trivial⟩
  have hskip : skipWhile isLineEnd s.body (inSize - s.readPos) s.readPos =
      s.readPos + lead.length := by
    rw [hdigits] at htextDigits
    exact skipWhile_text (text_append.mpr ⟨htextLead, htextDigits.1, trivial⟩) hlead
      (not_isLineEnd_char d) (by omega)
  have hsize := readChunkSize_text 0 false hdigitsEnd hb
    (n := inSize - (s.readPos + lead.length)) (by omega) line.size_lt
  have hline : skipWhile (· ≠ 10) s.body (inSize - (s.readPos + lead.length + line.digits.length))
      (s.readPos + lead.length + line.digits.length) =
        s.readPos + lead.length + line.digits.length + line.tail.length := by
    refine skipWhile_text htextTail (fun x hx => ?_) (by decide) (by omega)
    have hne : x ≠ 10 := fun h => line.tail_no_newline (h ▸ hx)
    simpa using hne
  have hsaw : (false || !line.digits.isEmpty) = true := by rw [hdigits]; rfl
  rw [decodeChunk]
  simp only [hskip, hsize, hsaw, hline]
  rw [if_neg (by simp), if_neg (by omega)]
  congr 2
  omega

/-! ### Moving the data -/

/-- The bytes that are read end up at the write position, and no others change. -/
lemma copyBytes_body {data : List UInt8} (hle : s.writePos ≤ s.readPos)
    (htext : Text s.body s.readPos data) : Text (s.copyBytes data.length).body s.writePos data ∧
      ∀ x, x < s.writePos ∨ s.writePos + data.length ≤ x →
        (s.copyBytes data.length).body x = s.body x := by
  induction data generalizing s with
  | nil => exact ⟨trivial, fun _ _ => rfl⟩
  | cons b data ih =>
    have hbyte : s.body s.readPos = b := htext.1
    have hbody : s.copyByte.body = s.body.set s.writePos b := by rw [← hbyte]; rfl
    -- the bytes still to be read lie behind the one written
    have hunread : Text s.copyByte.body s.copyByte.readPos data := by
      refine htext.2.congr fun x hx _ => ?_
      rw [hbody, set_of_ne _ _ (by omega)]
    obtain ⟨hwritten, hothers⟩ := ih (s := s.copyByte) (Nat.succ_le_succ hle) hunread
    rw [show s.copyByte.writePos = s.writePos + 1 from rfl] at hwritten hothers
    rw [length_cons, ChunkCursor.copyBytes]
    refine ⟨⟨?_, hwritten⟩, fun x hx => ?_⟩
    · rw [hothers _ (by omega), hbody, set_self]
    · rw [hothers _ (by omega), hbody, set_of_ne _ _ (by omega)]

/-- What a pass has done when it comes to the line end behind the data of a chunk. -/
structure Took (s : ChunkCursor) (c : RawChunk) (u : ChunkCursor) : Prop where
  readPos : u.readPos = s.readPos + c.front.length
  writePos : u.writePos = s.writePos + c.data.length
  moved : Text u.body s.writePos c.data
  others : ∀ x, x < s.writePos ∨ s.writePos + c.data.length ≤ x → u.body x = s.body x

lemma RawChunk.data_length_lt (c : RawChunk) : c.data.length < c.front.length := by
  simp only [RawChunk.front, RawLine.encode, length_append, length_cons]
  omega

lemma decodeChunk_front {c : RawChunk} (hle : s.writePos ≤ s.readPos)
    (htext : Text s.body s.readPos c.front) (hin : s.readPos + c.front.length ≤ inSize)
    (hcap : s.writePos + c.data.length < capacity) :
    ∃ u, decodeChunk inSize capacity s = chunkEnd inSize u ∧ Took s c u := by
  rw [RawChunk.front, text_append] at htext
  obtain ⟨hline, hdata⟩ := htext
  rw [RawChunk.front, length_append] at hin
  have hpos : 0 < c.data.length := length_pos_of_ne_nil c.data_ne_nil
  -- the cursor behind the size line
  let t : ChunkCursor := { s with readPos := s.readPos + (c.lead ++ c.toRawLine.encode).length }
  obtain ⟨hmoved, hothers⟩ := copyBytes_body (s := t) (by simp only [t]; omega) hdata
  refine ⟨t.copyBytes c.data.length, ?_, ?_, copyBytes_writePos _ t, hmoved, hothers⟩
  · rw [decodeChunk_line c.lead c.lead_lineEnds hline (by omega), c.size_eq, chunkData,
      if_neg (by omega), if_neg (by simp only; omega), if_neg (by simp only; omega)]
  · rw [copyBytes_readPos, RawChunk.front, length_append, ← Nat.add_assoc]

lemma chunkEnd_text {cr : Bool} (htext : Text s.body s.readPos (dataEnd cr))
    (hin : s.readPos + (dataEnd cr).length ≤ inSize) :
    chunkEnd inSize s = .ok { s with readPos := s.readPos + (dataEnd cr).length } := by
  cases cr with
  | false =>
    have hlf : s.body s.readPos = 10 := htext.1
    have hlt : s.readPos < inSize := hin
    have hnocr : ¬ (s.readPos < inSize ∧ s.body s.readPos = 13) := by simp [hlf]
    simp only [chunkEnd, if_neg hnocr]
    exact if_pos ⟨hlt, hlf⟩
  | true =>
    obtain ⟨hcr, hlf, -⟩ := htext
    have hlt : s.readPos + 1 < inSize := hin
    have hstart : s.readPos < inSize ∧ s.body s.readPos = 13 := ⟨by omega, hcr⟩
    simp only [chunkEnd, if_pos hstart]
    exact if_pos ⟨hlt, hlf⟩

/-! ### The whole body -/

lemma SizeLine.size_lt (line : SizeLine) : line.size < 2 ^ 32 := by
  have hlt := hexNumber_lt (n := 0) (k := 0) line.digits (by decide)
  have hle : 16 ^ (0 + line.digits.length) ≤ 16 ^ 8 :=
    Nat.pow_le_pow_right (by decide) (by have := line.digits_length; omega)
  exact hlt.trans_le hle

lemma SizeLine.tail_head (line : SizeLine) : ∀ b ∈ (line.ext ++ [13]).head?, httpHexValue b = none := by
  intro b hb
  rcases line.ext_head with hext | hext
  · rw [hext] at hb
    obtain rfl := Option.some.inj hb
    decide
  · obtain ⟨ext, hext⟩ := head?_eq_some_iff.mp hext
    rw [hext, cons_append, head?_cons] at hb
    obtain rfl := Option.some.inj hb
    decide

lemma SizeLine.tail_no_newline (line : SizeLine) : 10 ∉ line.ext ++ [13] := by
  simpa using line.ext_no_newline

/-- The line without what distinguishes the coding from all the decoder takes. -/
def SizeLine.raw (line : SizeLine) : RawLine :=
  ⟨line.digits, line.ext ++ [13], line.digits_ne_nil, line.size_lt, line.tail_head,
    line.tail_no_newline⟩

lemma SizeLine.encode_raw (line : SizeLine) : line.raw.encode = line.encode := by
  simp [RawLine.encode, SizeLine.raw, SizeLine.encode]

def Chunk.raw (c : Chunk) : RawChunk :=
  ⟨c.toSizeLine.raw, [], c.data, true, by simp, c.data_ne_nil, c.size_eq⟩

lemma Chunk.encode_raw (c : Chunk) : c.raw.encode = c.encode := by
  simp only [RawChunk.encode, RawChunk.front, Chunk.raw, c.toSizeLine.encode_raw, nil_append,
    Chunk.encode, dataEnd, append_assoc, if_true]

/-- The decoder has written `out` and has `rest` still to read. -/
structure Decoding (inSize : ℕ) (s : ChunkCursor) (out rest : List UInt8) : Prop where
  written : Text s.body 0 out
  writePos : s.writePos = out.length
  le : s.writePos ≤ s.readPos
  unread : Text s.body s.readPos rest
  size : s.readPos + rest.length = inSize

variable {out rest : List UInt8}

lemma decodeChunk_chunk {c : Chunk} (h : Decoding inSize s out (c.encode ++ rest))
    (hcap : out.length + c.data.length < capacity) :
    ∃ s', decodeChunk inSize capacity s = .ok s' ∧ Decoding inSize s' (out ++ c.data) rest := by
  obtain ⟨hwritten, hwritePos, hle, hunread, hsize⟩ := h
  rw [← c.encode_raw, RawChunk.encode] at hunread hsize
  rw [append_assoc, text_append, text_append] at hunread
  simp only [length_append] at hsize
  obtain ⟨hfront, hend, hrest⟩ := hunread
  have hlt := c.raw.data_length_lt
  have hdata : c.raw.data = c.data := rfl
  have hin : s.readPos + c.raw.front.length ≤ inSize := by omega
  obtain ⟨u, hu, htook⟩ := decodeChunk_front hle hfront hin (by rw [hwritePos, hdata]; exact hcap)
  obtain ⟨hreadPos, hwrite, hmoved, hothers⟩ := htook
  rw [hdata] at hlt hwrite hmoved hothers
  have hendText : Text u.body u.readPos (dataEnd c.raw.cr) := by
    rw [hreadPos]
    exact Text.congr hend fun x hx _ => hothers x (by omega)
  refine ⟨{ u with readPos := u.readPos + (dataEnd c.raw.cr).length }, ?_, ?_, ?_, ?_, ?_, ?_⟩
  · rw [hu, chunkEnd_text hendText (by omega)]
  · refine text_append.mpr ⟨hwritten.congr fun x _ hx => hothers x (by omega), ?_⟩
    rw [Nat.zero_add, ← hwritePos]
    exact hmoved
  · rw [length_append, ← hwritePos]
    exact hwrite
  · simp only
    omega
  · simp only [hreadPos]
    exact Text.congr hrest fun x hx _ => hothers x (by omega)
  · simp only
    omega

lemma decodeChunk_last (h : Decoding inSize s out last.encode) (hcap : out.length < capacity) :
    ∃ result, decodeChunk inSize capacity s = .error result ∧ result.ret = 0 ∧
      result.outSize = out.length ∧ Text result.body 0 (out ++ [0]) := by
  obtain ⟨hwritten, hwritePos, -, hunread, hsize⟩ := h
  rw [LastChunk.encode, ← SizeLine.encode_raw, text_append] at hunread
  rw [LastChunk.encode, ← SizeLine.encode_raw, length_append] at hsize
  have hzero : hexNumber 0 last.toSizeLine.raw.digits = 0 := last.size_eq_zero
  rw [decodeChunk_line [] (by simp) hunread.1 (by rw [nil_append]; omega), hzero,
    chunkData, if_pos rfl]
  refine ⟨_, rfl, rfl, hwritePos, ?_⟩
  simp only [hwritePos, if_pos hcap, ChunkCursor.store]
  refine text_append.mpr ⟨hwritten.congr fun x _ hx => set_of_ne _ _ (by omega), ?_, trivial⟩
  rw [Nat.zero_add, set_self]

lemma Chunk.encode_length_pos (c : Chunk) : 0 < c.encode.length := by
  simp only [Chunk.encode, length_append, length_cons]
  omega

lemma SizeLine.encode_length_pos (line : SizeLine) : 0 < line.encode.length := by
  simp only [SizeLine.encode, length_append, length_cons]
  omega

/-- The passes of the loop over the chunks that are left. -/
lemma decodeChunks_encode {chunks : List Chunk}
    (h : Decoding inSize s out (encodeChunked chunks last))
    (hcap : (out ++ chunks.flatMap Chunk.data).length < capacity)
    (hn : (encodeChunked chunks last).length ≤ n) :
    ∃ result, decodeChunks inSize capacity n s = some result ∧ result.ret = 0 ∧
      result.outSize = (out ++ chunks.flatMap Chunk.data).length ∧
      Text result.body 0 (out ++ chunks.flatMap Chunk.data ++ [0]) := by
  induction chunks generalizing s out n with
  | nil =>
    simp only [encodeChunked, flatMap_nil, nil_append, append_nil] at h hcap hn ⊢
    have hpos := last.toSizeLine.encode_length_pos
    have hsize := h.size
    rw [LastChunk.encode, length_append] at hn hsize
    obtain ⟨m, rfl⟩ : ∃ m, n = m + 1 := ⟨n - 1, by omega⟩
    obtain ⟨result, hresult, hdecoded⟩ := decodeChunk_last h hcap
    rw [decodeChunks, if_pos (by omega), hresult]
    exact ⟨result, rfl, hdecoded⟩
  | cons c chunks ih =>
    have hencode : encodeChunked (c :: chunks) last = c.encode ++ encodeChunked chunks last := by
      simp [encodeChunked]
    rw [flatMap_cons, ← append_assoc] at hcap ⊢
    rw [hencode] at h hn
    have hpos := c.encode_length_pos
    have hsize := h.size
    simp only [length_append] at hn hsize hcap
    obtain ⟨m, rfl⟩ : ∃ m, n = m + 1 := ⟨n - 1, by omega⟩
    obtain ⟨s', hs', hdecoding⟩ := decodeChunk_chunk h
      (show out.length + c.data.length < capacity by omega)
    rw [decodeChunks, if_pos (by omega), hs']
    exact ih hdecoding (by simpa only [length_append] using hcap) (by omega)

/-- Decoding a chunked body in place gives the data of its chunks, followed by a NUL. -/
theorem httpDecodeChunked_encode (chunks : List Chunk) (last : LastChunk) (body : Mem)
    (capacity : ℕ) (hbody : Text body 0 (encodeChunked chunks last))
    (hcap : (chunks.flatMap Chunk.data).length < capacity) :
    ∃ result, httpDecodeChunked body (encodeChunked chunks last).length capacity = some result ∧
      result.ret = 0 ∧ result.outSize = (chunks.flatMap Chunk.data).length ∧
      Text result.body 0 (chunks.flatMap Chunk.data ++ [0]) ∧
      ∀ p ∈ result.stores, p.1 < p.2 := by
  have hrun : httpDecodeChunked body (encodeChunked chunks last).length capacity =
      decodeChunks (encodeChunked chunks last).length capacity
        (encodeChunked chunks last).length ⟨body, 0, 0, []⟩ := if_neg (by omega)
  have hstart : Decoding (encodeChunked chunks last).length ⟨body, 0, 0, []⟩ []
      (encodeChunked chunks last) := ⟨trivial, rfl, le_rfl, hbody, Nat.zero_add _⟩
  obtain ⟨result, hresult, hret, hsize, htext⟩ :=
    decodeChunks_encode hstart (by simpa using hcap) le_rfl
  obtain ⟨result', hresult', hends⟩ :=
    decode_ends (storesBehind_kept (encodeChunked chunks last).length capacity) body
      fun p hp => absurd hp not_mem_nil
  rw [hrun] at hresult' ⊢
  obtain rfl := Option.some.inj (hresult.symm.trans hresult')
  exact ⟨result, hresult, hret, hsize, htext, fun p hp => (hends.storesBehind p hp).1⟩

/-- `A;x` in front of ten bytes, then `03` and three bytes, then `0` and a trailer. -/
theorem httpDecodeChunked_encode_two :
    let line : SizeLine := ⟨[⟨10, true⟩], [59, 120], by simp, by simp, by simp, by simp⟩
    let short : SizeLine := ⟨[⟨0, false⟩, ⟨3, false⟩], [], by simp, by simp, by simp, by simp⟩
    let chunks : List Chunk := [⟨line, [1, 2, 3, 4, 5, 6, 7, 8, 9, 10], by simp, rfl⟩,
      ⟨short, [97, 98, 99], by simp, rfl⟩]
    let last : LastChunk := ⟨⟨[⟨0, false⟩], [], by simp, by simp, by simp, by simp⟩, rfl, [13, 10]⟩
    ∃ result, httpDecodeChunked (ofList (encodeChunked chunks last))
        (encodeChunked chunks last).length 14 = some result ∧
      result.ret = 0 ∧ result.outSize = 13 ∧
      Text result.body 0 [1, 2, 3, 4, 5, 6, 7, 8, 9, 10, 97, 98, 99, 0] ∧
      ∀ p ∈ result.stores, p.1 < p.2 := by
  intro line short chunks last
  exact httpDecodeChunked_encode chunks last _ 14 (text_ofList _) (by decide)

end Net
