import LainOS.Lib.Text

/-!
# Chunked transfer coding

`net_http_decode_chunked` decodes the body of a response in place: it reads the size line of a
chunk, moves the data of the chunk to the front, and goes on behind it. Next to what the source
keeps, the cursor records every store: where it went, and where the decoder was reading then.
-/

namespace Net

/-- `net_http_hex_value`, with `none` for -1. -/
def httpHexValue (ch : UInt8) : Option ℕ :=
  if 48 ≤ ch ∧ ch ≤ 57 then some (ch.toNat - 48)
  else if 97 ≤ ch ∧ ch ≤ 102 then some (ch.toNat - 97 + 10)
  else if 65 ≤ ch ∧ ch ≤ 70 then some (ch.toNat - 65 + 10)
  else none

/-- The state of the decoder at the head of its loops. -/
structure ChunkCursor where
  body : Mem
  readPos : ℕ
  writePos : ℕ
  /-- The position of each stored byte, with the read position at that time. -/
  stores : List (ℕ × ℕ)

/-- What the decoder returns and leaves behind. -/
structure Decoded where
  ret : ℤ
  outSize : ℕ
  body : Mem
  stores : List (ℕ × ℕ)

namespace ChunkCursor

def fail (s : ChunkCursor) (ret : ℤ) : Decoded := ⟨ret, 0, s.body, s.stores⟩

def store (s : ChunkCursor) (b : UInt8) : ChunkCursor :=
  { s with
    body := s.body.set s.writePos b
    stores := s.stores ++ [(s.writePos, s.readPos)] }

def advance (s : ChunkCursor) : ChunkCursor := { s with readPos := s.readPos + 1 }

/-- `body[write_pos++] = body[read_pos++];` -/
def copyByte (s : ChunkCursor) : ChunkCursor :=
  { s.store (s.body s.readPos) with readPos := s.readPos + 1, writePos := s.writePos + 1 }

def copyBytes : ℕ → ChunkCursor → ChunkCursor
  | 0, s => s
  | n + 1, s => copyBytes n s.copyByte

end ChunkCursor

def isLineEnd (ch : UInt8) : Bool := ch = 13 ∨ ch = 10

/-- Moves on while the bytes satisfy `p`; `n` of them are left. -/
def skipWhile (p : UInt8 → Bool) (body : Mem) : ℕ → ℕ → ℕ
  | 0, readPos => readPos
  | n + 1, readPos => if p (body readPos) then skipWhile p body n (readPos + 1) else readPos

/-- The digits of a size line, `n` bytes left: the size, whether there was a digit, and the position
behind them. -/
def readChunkSize (body : Mem) : ℕ → ℕ → ℕ → Bool → Option (ℕ × Bool × ℕ)
  | 0, readPos, chunkSize, sawDigit => some (chunkSize, sawDigit, readPos)
  | n + 1, readPos, chunkSize, sawDigit =>
    match httpHexValue (body readPos) with
    | none => some (chunkSize, sawDigit, readPos)
    | some digit =>
      if 0x0fffffff < chunkSize then none
      else readChunkSize body n (readPos + 1) (chunkSize <<< 4 ||| digit) true

/-- The line end behind the data of a chunk. -/
def chunkEnd (inSize : ℕ) (s : ChunkCursor) : Except Decoded ChunkCursor :=
  let s := if s.readPos < inSize ∧ s.body s.readPos = 13 then s.advance else s
  if s.readPos < inSize ∧ s.body s.readPos = 10 then .ok s.advance
  else if s.readPos < inSize then .error (s.fail (-1))
  else .ok s

/-- What follows a size line. -/
def chunkData (inSize capacity chunkSize : ℕ) (s : ChunkCursor) : Except Decoded ChunkCursor :=
  if chunkSize = 0 then
    let s' := if s.writePos < capacity then s.store 0 else s
    .error ⟨0, s.writePos, s'.body, s'.stores⟩
  else if inSize - s.readPos < chunkSize then .error (s.fail (-2))
  else if capacity ≤ chunkSize ∨ capacity - chunkSize - 1 < s.writePos then .error (s.fail (-3))
  else chunkEnd inSize (s.copyBytes chunkSize)

/-- One pass of the outer loop; `error` is a `return` out of it. -/
def decodeChunk (inSize capacity : ℕ) (s : ChunkCursor) : Except Decoded ChunkCursor :=
  let digits := skipWhile isLineEnd s.body (inSize - s.readPos) s.readPos
  match readChunkSize s.body (inSize - digits) digits 0 false with
  | none => .error (s.fail (-1))
  | some (chunkSize, sawDigit, behind) =>
    if !sawDigit then .error (s.fail (-1))
    else
      let lineEnd := skipWhile (· ≠ 10) s.body (inSize - behind) behind
      if inSize ≤ lineEnd then .error (s.fail (-2))
      else chunkData inSize capacity chunkSize { s with readPos := lineEnd + 1 }

/-- The outer loop; `none` stands for a loop that does not end within so many passes. -/
def decodeChunks (inSize capacity : ℕ) : ℕ → ChunkCursor → Option Decoded
  | 0, s => if s.readPos < inSize then none else some (s.fail (-2))
  | n + 1, s =>
    if s.readPos < inSize then
      match decodeChunk inSize capacity s with
      | .error result => some result
      | .ok s' => decodeChunks inSize capacity n s'
    else some (s.fail (-2))

/-- Every pass reads at least one byte, so that `inSize` passes are enough. -/
def httpDecodeChunked (body : Mem) (inSize capacity : ℕ) : Option Decoded :=
  if capacity = 0 then some ⟨-1, 0, body, []⟩
  else decodeChunks inSize capacity inSize ⟨body, 0, 0, []⟩

/-! ### Positions -/

variable {body : Mem}

lemma skipWhile_bounds (p : UInt8 → Bool) (body : Mem) (n readPos : ℕ) :
    readPos ≤ skipWhile p body n readPos ∧ skipWhile p body n readPos ≤ readPos + n := by
  induction n generalizing readPos with
  | zero => exact ⟨le_rfl, le_rfl⟩
  | succ n ih =>
    rw [skipWhile]
    split_ifs
    · obtain ⟨hle, hle'⟩ := ih (readPos + 1)
      omega
    · omega

lemma readChunkSize_bounds {n readPos chunkSize chunkSize' behind : ℕ} {sawDigit sawDigit' : Bool}
    (h : readChunkSize body n readPos chunkSize sawDigit = some (chunkSize', sawDigit', behind)) :
    readPos ≤ behind ∧ behind ≤ readPos + n := by
  induction n generalizing readPos chunkSize sawDigit with
  | zero =>
    cases h
    exact ⟨le_rfl, le_rfl⟩
  | succ n ih =>
    rw [readChunkSize] at h
    split at h
    · cases h
      omega
    · split_ifs at h
      obtain ⟨hle, hle'⟩ := ih h
      omega

end Net
