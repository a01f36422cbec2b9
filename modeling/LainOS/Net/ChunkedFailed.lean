import LainOS.Net.ChunkedDecode

/-!
# A failed decode

The decoder moves the data of a chunk to the front as soon as it has read its size line. When it
comes to a fault later on, the beginning of the body is gone. What has been moved by then is the data
of the chunks that stand complete at the start of the input.
-/

namespace Net

open Mem List

variable {n readPos : ℕ} {body : Mem} {inSize capacity : ℕ} {s u : ChunkCursor} {c : RawChunk}

/-! ### What is read is a chunk -/

lemma exists_text (mem : Mem) (p n : ℕ) : ∃ bs, Text mem p bs ∧ bs.length = n := by
  induction n generalizing p with
  | zero => exact ⟨[], trivial, rfl⟩
  | succ n ih =>
    obtain ⟨bs, htext, rfl⟩ := ih (p + 1)
    exact ⟨mem p :: bs, ⟨rfl, htext⟩, rfl⟩

lemma skipWhile_spec (p : UInt8 → Bool) (body : Mem) (n readPos : ℕ) :
    ∃ bs, Text body readPos bs ∧ (∀ b ∈ bs, p b = true) ∧
      skipWhile p body n readPos = readPos + bs.length ∧
      (bs.length < n → p (body (readPos + bs.length)) = false) := by
  induction n generalizing readPos with
  | zero => exact ⟨[], trivial, by simp, rfl, by simp⟩
  | succ n ih =>
    rw [skipWhile]
    split_ifs with hp
    · obtain ⟨bs, htext, hbs, hskip, hstop⟩ := ih (readPos + 1)
      refine ⟨body readPos :: bs, ⟨rfl, htext⟩, by simpa [hp] using hbs, ?_, fun hlt => ?_⟩
      · rw [hskip, length_cons]
        omega
      · rw [length_cons] at hlt ⊢
        rw [← hstop (by omega), show readPos + (bs.length + 1) = readPos + 1 + bs.length by omega]
    · exact ⟨[], trivial, by simp, rfl, fun _ => by simpa using hp⟩

lemma exists_hexDigit {b : UInt8} {v : ℕ} (h : httpHexValue b = some v) :
    ∃ d : HexDigit, d.char = b ∧ d.value.val = v := by
  have hall : ∀ x : Fin 256, (httpHexValue (.ofNat x)).all fun v => ∃ value : Fin 16,
      ∃ upper : Bool, HexDigit.char ⟨value, upper⟩ = .ofNat x ∧ value.val = v := by decide +kernel
  have hb := hall ⟨b.toNat, b.toNat_lt⟩
  rw [UInt8.ofNat_toNat, h, Option.all_some, decide_eq_true_eq] at hb
  obtain ⟨value, upper, hchar, hvalue⟩ := hb
  exact ⟨⟨value, upper⟩, hchar, hvalue⟩

/-- Two memories with the same bytes in one place. -/
lemma Text.unique {mem mem' : Mem} {p x : ℕ} {bs : List UInt8} (h : Text mem p bs)
    (h' : Text mem' p bs) (hx : p ≤ x) (hx' : x < p + bs.length) : mem x = mem' x := by
  induction bs generalizing p with
  | nil => exact absurd hx' (not_lt.mpr hx)
  | cons b bs ih =>
    rw [length_cons] at hx'
    rcases Nat.eq_or_lt_of_le hx with rfl | hx
    · exact h.1.trans h'.1.symm
    · exact ih h.2 h'.2 hx (by omega)

lemma readChunkSize_spec {chunkSize size behind : ℕ} {sawDigit saw : Bool} (hlt : chunkSize < 2 ^ 32)
    (h : readChunkSize body n readPos chunkSize sawDigit = some (size, saw, behind)) :
    ∃ ds : List HexDigit, Text body readPos (ds.map HexDigit.char) ∧
      behind = readPos + ds.length ∧ size = hexNumber chunkSize ds ∧ size < 2 ^ 32 ∧
      saw = (sawDigit || !ds.isEmpty) ∧
      (ds.length < n → httpHexValue (body behind) = none) := by
  induction n generalizing readPos chunkSize sawDigit with
  | zero =>
    cases h
    exact ⟨[], trivial, rfl, rfl, hlt, by simp, by simp⟩
  | succ n ih =>
    rw [readChunkSize] at h
    split at h
    next hnone =>
      cases h
      exact ⟨[], trivial, rfl, rfl, hlt, by simp, fun _ => hnone⟩
    next v hv =>
      split_ifs at h with hover
      obtain ⟨d, hchar, rfl⟩ := exists_hexDigit hv
      rw [shiftLeft_or_digit] at h
      have hd := d.value.isLt
      obtain ⟨ds, htext, rfl, hsize, hsizelt, hsaw, hstop⟩ := ih (by omega) h
      refine ⟨d :: ds, ⟨hchar.symm, htext⟩, ?_, hsize, hsizelt, by simpa using hsaw, ?_⟩
      · rw [length_cons]
        omega
      · exact fun hlt => hstop (by rw [length_cons] at hlt; omega)

/-- A pass that moves something has read a chunk, up to the end of its data. -/
lemma decodeChunk_cases (inSize capacity : ℕ) (s : ChunkCursor) :
    (∃ result, decodeChunk inSize capacity s = .error result ∧
      (result.ret = 0 ∨ result.body = s.body)) ∨
    ∃ c : RawChunk, Text s.body s.readPos c.front ∧ s.readPos + c.front.length ≤ inSize ∧
      s.writePos + c.data.length < capacity := by
  obtain ⟨lead, hlead, hlineEnds, hskip, -⟩ :=
    skipWhile_spec isLineEnd s.body (inSize - s.readPos) s.readPos
  simp only [decodeChunk, hskip]
  split
  · exact .inl ⟨_, rfl, .inr rfl⟩
  next size saw behind hsize =>
  obtain ⟨ds, hdigits, rfl, rfl, hlt, rfl, hhex⟩ := readChunkSize_spec (by decide) hsize
  obtain ⟨tail, htail, hno, hline, hstop⟩ := skipWhile_spec (· ≠ 10) s.body
    (inSize - (s.readPos + lead.length + ds.length)) (s.readPos + lead.length + ds.length)
  rw [hline]
  split_ifs with hsaw hend
  · exact .inl ⟨_, rfl, .inr rfl⟩
  · exact .inl ⟨_, rfl, .inr rfl⟩
  simp only [chunkData]
  split_ifs with hzero hcap hfits hroom
  · exact .inl ⟨_, rfl, .inl rfl⟩
  · exact .inl ⟨_, rfl, .inl rfl⟩
  · exact .inl ⟨_, rfl, .inr rfl⟩
  · exact .inl ⟨_, rfl, .inr rfl⟩
  -- the data that the size announces has arrived and has room
  obtain ⟨data, hdata, hlength⟩ := exists_text s.body
    (s.readPos + lead.length + ds.length + tail.length + 1) (hexNumber 0 ds)
  have hnewline : s.body (s.readPos + lead.length + ds.length + tail.length) = 10 := by
    simpa using hstop (by omega)
  refine .inr ⟨⟨⟨ds, tail, by simpa using hsaw, hlt, ?_, fun h => by simpa using hno 10 h⟩, lead,
    data, true, hlineEnds, fun h => hzero (by rw [← hlength, h]; rfl), hlength.symm⟩, ?_, ?_, ?_⟩
  · intro b hb
    obtain ⟨tail', rfl⟩ := head?_eq_some_iff.mp hb
    rw [← (htail.1 : s.body _ = b)]
    exact hhex (by omega)
  · simp only [RawChunk.front, RawLine.encode, text_append, length_append, length_map, length_cons,
      length_nil, text_cons, text_nil, and_true]
    refine ⟨⟨hlead, hdigits, htail, hnewline⟩, ?_⟩
    convert hdata using 1
    omega
  · simp only [RawChunk.front, RawLine.encode, length_append, length_map, length_cons, length_nil]
    omega
  · simp only
    omega

lemma chunkEnd_cases (inSize : ℕ) (u : ChunkCursor) :
    (∃ cr, Text u.body u.readPos (dataEnd cr) ∧ u.readPos + (dataEnd cr).length ≤ inSize) ∨
    (∃ result, chunkEnd inSize u = .error result ∧ result.body = u.body) ∨
    ∃ s, chunkEnd inSize u = .ok s ∧ s.body = u.body ∧ inSize ≤ s.readPos := by
  by_cases hcr : u.readPos < inSize ∧ u.body u.readPos = 13
  · by_cases hlf : u.readPos + 1 < inSize ∧ u.body (u.readPos + 1) = 10
    · exact .inl ⟨true, ⟨hcr.2, hlf.2, trivial⟩, hlf.1⟩
    · simp only [chunkEnd, if_pos hcr, ChunkCursor.advance, if_neg hlf]
      split_ifs with hlt
      · exact .inr (.inl ⟨_, rfl, rfl⟩)
      · exact .inr (.inr ⟨_, rfl, rfl, not_lt.mp hlt⟩)
  · by_cases hlf : u.readPos < inSize ∧ u.body u.readPos = 10
    · exact .inl ⟨false, ⟨hlf.2, trivial⟩, hlf.1⟩
    · simp only [chunkEnd, if_neg hcr, if_neg hlf]
      split_ifs with hlt
      · exact .inr (.inl ⟨_, rfl, rfl⟩)
      · exact .inr (.inr ⟨_, rfl, rfl, not_lt.mp hlt⟩)

/-! ### Along a run -/

/-- The body is `body` but for `data` at the front. -/
structure Fronted (body : Mem) (data : List UInt8) (body' : Mem) : Prop where
  moved : Text body' 0 data
  others : ∀ x, data.length ≤ x → body' x = body x

/-- From `body` the decoder has read `front` and has moved `data`. -/
structure Progress (body : Mem) (s : ChunkCursor) (front data : List UInt8) : Prop where
  read : Text body 0 front
  readPos : s.readPos = front.length
  writePos : s.writePos = data.length
  le : s.writePos ≤ s.readPos
  fronted : Fronted body data s.body

variable {front data : List UInt8} {chunks : List RawChunk} {result : Decoded}

/-- What is still to be read is as it was. -/
lemma Progress.unread (h : Progress body s front data) (bs : List UInt8) :
    Text s.body s.readPos bs ↔ Text body front.length bs := by
  have hle := h.le
  rw [h.writePos] at hle
  rw [← h.readPos]
  exact ⟨fun htext => htext.congr fun x hx _ => (h.fronted.others x (by omega)).symm,
    fun htext => htext.congr fun x hx _ => h.fronted.others x (by omega)⟩

lemma Progress.took (h : Progress body s front data) (htext : Text body front.length c.front)
    (htook : Took s c u) : Progress body u (front ++ c.front) (data ++ c.data) := by
  obtain ⟨hread, hreadPos, hwritePos, hle, hmoved, hothers⟩ := h
  have hlt := c.data_length_lt
  refine ⟨text_append.mpr ⟨hread, by rwa [Nat.zero_add]⟩, ?_, ?_, ?_, ?_, fun x hx => ?_⟩
  · rw [htook.readPos, hreadPos, length_append]
  · rw [htook.writePos, hwritePos, length_append]
  · rw [htook.writePos, htook.readPos]
    omega
  · refine text_append.mpr ⟨hmoved.congr fun x _ hx => htook.others x (by omega), ?_⟩
    rw [Nat.zero_add, ← hwritePos]
    exact htook.moved
  · rw [length_append] at hx
    rw [htook.others x (by omega), hothers x (by omega)]

lemma Progress.ended {cr : Bool} (h : Progress body u front data)
    (htext : Text body front.length (dataEnd cr)) :
    Progress body { u with readPos := u.readPos + (dataEnd cr).length } (front ++ dataEnd cr)
      data := by
  refine ⟨text_append.mpr ⟨h.read, by rwa [Nat.zero_add]⟩, ?_, h.writePos,
    h.le.trans (Nat.le_add_right _ _), h.fronted⟩
  simp only [h.readPos, length_append]

/-- **The data of complete chunks** at the start of the input, for which there is room. The line end
behind the last of them may be missing. -/
def ChunkDataAt (body : Mem) (inSize capacity : ℕ) (data : List UInt8) : Prop :=
  ∃ (chunks : List RawChunk) (c : RawChunk), data = chunks.flatMap RawChunk.data ++ c.data ∧
    Text body 0 (chunks.flatMap RawChunk.encode ++ c.front) ∧
    (chunks.flatMap RawChunk.encode ++ c.front).length ≤ inSize ∧ data.length < capacity

/-- What the decoder has moved when it fails is the data of complete chunks. -/
lemma decodeChunks_fronted
    (h : Progress body s (chunks.flatMap RawChunk.encode) (chunks.flatMap RawChunk.data))
    (hin : s.readPos ≤ inSize) (hcap : s.writePos < capacity)
    (hresult : decodeChunks inSize capacity n s = some result) (hfail : result.ret ≠ 0) :
    ∃ data, (data = [] ∨ ChunkDataAt body inSize capacity data) ∧ Fronted body data result.body := by
  -- so far the chunks that were read to the end of their line
  have hsofar : chunks.flatMap RawChunk.data = [] ∨
      ChunkDataAt body inSize capacity (chunks.flatMap RawChunk.data) := by
    rcases eq_nil_or_concat chunks with rfl | ⟨before, c, rfl⟩
    · exact .inl rfl
    · have hread := h.read
      have hreadPos := h.readPos
      simp only [concat_eq_append, flatMap_append, flatMap_singleton, RawChunk.encode,
        ← append_assoc] at hread hreadPos ⊢
      rw [text_append] at hread
      rw [length_append] at hreadPos
      exact .inr ⟨before, c, rfl, hread.1, by omega, by simpa [h.writePos] using hcap⟩
  induction n generalizing s chunks with
  | zero =>
    rw [decodeChunks] at hresult
    split_ifs at hresult
    cases hresult
    exact ⟨_, hsofar, h.fronted⟩
  | succ n ih =>
    rw [decodeChunks] at hresult
    split_ifs at hresult with hpos
    swap
    · cases hresult
      exact ⟨_, hsofar, h.fronted⟩
    rcases decodeChunk_cases inSize capacity s with ⟨r, hr, hbody⟩ | ⟨c, hfront, hcin, hccap⟩
    · rw [hr] at hresult
      cases hresult
      rw [hbody.resolve_left hfail]
      exact ⟨_, hsofar, h.fronted⟩
    obtain ⟨u, hu, htook⟩ := decodeChunk_front h.le hfront hcin hccap
    have hprogress := h.took ((h.unread _).mp hfront) htook
    have hlast : ChunkDataAt body inSize capacity (chunks.flatMap RawChunk.data ++ c.data) := by
      refine ⟨chunks, c, rfl, hprogress.read, ?_, ?_⟩
      · rw [← hprogress.readPos, htook.readPos]
        exact hcin
      · rw [length_append, ← h.writePos]
        exact hccap
    rw [hu] at hresult
    rcases chunkEnd_cases inSize u with ⟨cr, htext, hend⟩ | ⟨r, hr, hbody⟩ | ⟨t, ht, hbody, hend⟩
    · rw [chunkEnd_text htext hend] at hresult
      have hnext := hprogress.ended ((hprogress.unread _).mp htext)
      have hchunks : ∀ f : RawChunk → List UInt8, (∀ b, f { c with cr := b } = f c) →
          (chunks ++ [{ c with cr := cr }]).flatMap f = chunks.flatMap f ++ f c := by
        intro f hf
        simp [hf]
      refine @ih _ (chunks ++ [{ c with cr := cr }]) ?_ hend ?_ hresult ?_
      · have hencode : ({ c with cr := cr } : RawChunk).encode = c.front ++ dataEnd cr := rfl
        rw [hchunks RawChunk.data fun _ => rfl, flatMap_append, flatMap_singleton, hencode,
          ← append_assoc]
        exact hnext
      · simp only
        rw [htook.writePos]
        exact hccap
      · rw [hchunks RawChunk.data fun _ => rfl]
        exact .inr hlast
    · rw [hr] at hresult
      cases hresult
      rw [hbody]
      exact ⟨_, .inr hlast, hprogress.fronted⟩
    · rw [ht] at hresult
      have hstop : decodeChunks inSize capacity n t = some (t.fail (-2)) := by
        cases n <;> rw [decodeChunks, if_neg (not_lt.mpr hend)]
      cases hstop.symm.trans hresult
      refine ⟨_, .inr hlast, ?_⟩
      rw [show (t.fail (-2)).body = u.body from hbody]
      exact hprogress.fronted

/-- What stands before the write position stays. -/
lemma frontText_kept (inSize capacity : ℕ) (data : List UInt8) : ChunkCursor.Kept inSize capacity
    fun s => Text s.body 0 data ∧ data.length ≤ s.writePos := by
  refine ⟨fun _ _ h _ => h, fun s h _ _ _ => ⟨?_, h.2.trans (Nat.le_succ _)⟩⟩
  refine h.1.congr fun x _ hx => set_of_ne _ _ ?_
  have := h.2
  omega

lemma chunkData_length_le (chunks : List RawChunk) :
    (chunks.flatMap RawChunk.data).length ≤ (chunks.flatMap RawChunk.encode).length := by
  induction chunks with
  | nil => exact le_rfl
  | cons c chunks ih =>
    have hlt := c.data_length_lt
    simp only [flatMap_cons, length_append, RawChunk.encode]
    omega

/-- The data of complete chunks is moved to the front. -/
lemma decodeChunks_moves (h : Progress body s front data)
    (htext : Text body front.length (chunks.flatMap RawChunk.encode ++ c.front))
    (hin : front.length + (chunks.flatMap RawChunk.encode ++ c.front).length ≤ inSize)
    (hcap : (data ++ (chunks.flatMap RawChunk.data ++ c.data)).length < capacity)
    (hresult : decodeChunks inSize capacity n s = some result) (hfail : result.ret ≠ 0) :
    Text result.body 0 (data ++ (chunks.flatMap RawChunk.data ++ c.data)) := by
  induction chunks generalizing s front data n with
  | nil =>
    simp only [flatMap_nil, nil_append] at htext hin hcap ⊢
    have hlt := c.data_length_lt
    rw [length_append] at hcap
    have hreadPos := h.readPos
    have hcin : s.readPos + c.front.length ≤ inSize := by omega
    obtain ⟨u, hu, htook⟩ := decodeChunk_front h.le ((h.unread _).mpr htext) hcin
      (by rw [h.writePos]; exact hcap)
    have hprogress := h.took htext htook
    have hpass := chunkEnd_keeps (s := s) (frontText_kept inSize capacity _)
      ⟨hprogress.fronted.moved, hprogress.writePos.ge⟩ hprogress.le (by rw [htook.readPos]; omega)
    rw [← hu] at hpass
    obtain ⟨t, ht, ⟨hbody, -⟩ | ⟨hret, -⟩⟩ :=
      decodeChunks_of_pass (frontText_kept inSize capacity _) (by omega) hpass hresult
    · exact hbody ▸ ht.1
    · exact absurd hret hfail
  | cons c' chunks ih =>
    have hlt := c'.data_length_lt
    have hreadPos := h.readPos
    simp only [flatMap_cons, append_assoc] at htext hin hcap ⊢
    rw [RawChunk.encode, append_assoc, text_append, text_append] at htext
    obtain ⟨hfront, hend, hrest⟩ := htext
    simp only [RawChunk.encode, length_append] at hin hcap
    have hcin : s.readPos + c'.front.length ≤ inSize := by omega
    obtain ⟨u, hu, htook⟩ := decodeChunk_front h.le ((h.unread _).mpr hfront) hcin
      (show s.writePos + c'.data.length < capacity by rw [h.writePos]; omega)
    have hprogress := h.took hfront htook
    rw [← length_append] at hend
    have hnext := hprogress.ended hend
    cases n with
    | zero =>
      rw [decodeChunks, if_pos (by omega)] at hresult
      cases hresult
    | succ n =>
      rw [decodeChunks, if_pos (by omega), hu, chunkEnd_text ((hprogress.unread _).mpr hend)
        (by rw [hprogress.readPos, length_append]; omega)] at hresult
      rw [← append_assoc]
      refine ih hnext ?_ ?_ ?_ hresult
      · simpa only [length_append, Nat.add_assoc] using hrest
      · simp only [length_append]
        omega
      · simp only [length_append]
        omega

/-- **A decode that fails** leaves the body as it was exactly if the data of the complete chunks the
input starts with equals the bytes it replaces; above all if the fault is in the first chunk. -/
theorem httpDecodeChunked_intact_iff (body : Mem) (inSize capacity : ℕ) (result : Decoded)
    (hresult : httpDecodeChunked body inSize capacity = some result) (hfail : result.ret ≠ 0) :
    (∀ x < inSize, result.body x = body x) ↔
      ∀ data, ChunkDataAt body inSize capacity data → Text body 0 data := by
  rw [httpDecodeChunked] at hresult
  split_ifs at hresult with hcap
  · -- no room: nothing is read, and no data has room
    cases hresult
    refine iff_of_true (fun _ _ => rfl) ?_
    rintro data ⟨_, _, _, _, _, hlt⟩
    omega
  have hstart : Progress body ⟨body, 0, 0, []⟩ [] [] :=
    ⟨trivial, rfl, rfl, le_rfl, trivial, fun _ _ => rfl⟩
  constructor
  · rintro hintact _ ⟨chunks, c, rfl, htext, hin, hroom⟩
    have hmoved := decodeChunks_moves hstart htext (by simpa using hin) hroom hresult hfail
    refine hmoved.congr fun x _ hx => (hintact x ?_).symm
    have hle := chunkData_length_le chunks
    have hlt := c.data_length_lt
    simp only [nil_append, length_append] at hx hin
    omega
  · intro hdata x _
    have hnone : Progress body ⟨body, 0, 0, []⟩ (([] : List RawChunk).flatMap RawChunk.encode)
        (([] : List RawChunk).flatMap RawChunk.data) := hstart
    obtain ⟨data, hcomplete, hmoved, hothers⟩ := decodeChunks_fronted hnone
      (Nat.zero_le _) (Nat.pos_of_ne_zero hcap) hresult hfail
    have hfront : Text body 0 data := by
      rcases hcomplete with rfl | hcomplete
      · trivial
      · exact hdata data hcomplete
    rcases Nat.lt_or_ge x data.length with hx | hx
    · exact Text.unique hmoved hfront (Nat.zero_le _) (by rwa [Nat.zero_add])
    · exact hothers x hx

/-- The chunk `1` before the fault is moved over the digit of its size line, which is equal. -/
theorem httpDecodeChunked_intact_same :
    let body := ofList [49, 13, 10, 49, 13, 10, 53, 13, 10]
    ∃ result, httpDecodeChunked body 9 16 = some result ∧ result.ret = -2 ∧
      result.stores = [(0, 3)] ∧ (∀ x < 9, result.body x = body x) ∧
      ∀ data, ChunkDataAt body 9 16 data → Text body 0 data := by
  refine ⟨_, rfl, by decide, by decide, by decide, ?_⟩
  exact (httpDecodeChunked_intact_iff _ 9 16 _ rfl (by decide)).mp (by decide)

/-- The first chunk is moved to the front before the second one turns out to be cut. -/
theorem httpDecodeChunked_failed_changes :
    let body := ofList [49, 13, 10, 97, 13, 10, 53, 13, 10]
    ∃ result, httpDecodeChunked body 9 16 = some result ∧ result.ret = -2 ∧
      body 0 = 49 ∧ result.body 0 = 97 :=
  ⟨_, rfl, by decide⟩

end Net
