import LainOS.Net.Stream

/-!
# The stream stays inside its buffers

A valid stream has a buffer of `rxCapacity` bytes and no more than these in use. Handling a segment
accesses nothing outside the buffers and leaves the stream valid, and so does reading from it. The
lemmas also say what becomes of the buffered bytes.
-/

namespace Net

open Checked List UInt32

/-! ### Sequence numbers -/

lemma toInt_toInt32 (x : UInt32) :
    x.toInt32.toInt = if x.toNat < 2 ^ 31 then (x.toNat : ℤ) else x.toNat - 2 ^ 32 := by
  change x.toBitVec.toInt = _
  rw [BitVec.toInt_eq_toNat_cond]
  simp only [toNat_toBitVec]
  split_ifs <;> omega

lemma tcpSeqBefore_iff (a b : UInt32) : tcpSeqBefore a b = true ↔ 2 ^ 31 ≤ (a - b).toNat := by
  have hlt := (a - b).toNat_lt
  rw [tcpSeqBefore, decide_eq_true_iff, Int32.lt_iff_toInt_lt, toInt_toInt32, Int32.toInt_zero]
  split_ifs <;> omega

lemma tcpSeqAfter_iff (a b : UInt32) :
    tcpSeqAfter a b = true ↔ 0 < (a - b).toNat ∧ (a - b).toNat < 2 ^ 31 := by
  have hlt := (a - b).toNat_lt
  rw [tcpSeqAfter, decide_eq_true_iff, Int32.lt_iff_toInt_lt, toInt_toInt32, Int32.toInt_zero]
  split_ifs <;> omega

/-- A payload is accepted from inside itself. -/
lemma toNat_sub_lt_of_reaches {seq ack size : UInt32} (hsize : size ≠ 0) (hlt : size.toNat < 2 ^ 31)
    (h : tcpReaches seq size ack = true) : (ack - seq).toNat < size.toNat := by
  have hpos : size.toNat ≠ 0 := fun h => hsize (UInt32.toNat_inj.mp h)
  rw [tcpReaches, Bool.or_eq_true, Bool.and_eq_true, decide_eq_true_iff] at h
  rcases h with rfl | ⟨hbefore, hafter⟩
  · rw [UInt32.sub_self, UInt32.toNat_zero]
    omega
  rw [tcpSeqBefore_iff, UInt32.toNat_sub] at hbefore
  rw [tcpSeqAfter_iff, UInt32.toNat_sub, UInt32.toNat_add] at hafter
  have hseq := seq.toNat_lt
  have hack := ack.toNat_lt
  rw [UInt32.toNat_sub]
  omega

/-- The payload lies in the frame and is not longer than one. -/
structure TcpSegment.Valid (seg : TcpSegment) : Prop where
  payload : seg.payloadSize.toNat ≤ seg.payload.length
  size : seg.payloadSize.toNat < 2 ^ 31

namespace TcpStream

variable {s s' : TcpStream} {seg : TcpSegment}

structure Valid (s : TcpStream) : Prop where
  buffer : s.rxBuffer.length = s.rxCapacity.toNat
  size : s.rxSize ≤ s.rxCapacity

lemma Valid.size_le (h : s.Valid) : s.rxSize.toNat ≤ s.rxCapacity.toNat :=
  UInt32.le_iff_toNat_le.mp h.size

lemma length_buffered (h : s.Valid) : s.buffered.length = s.rxSize.toNat := by
  rw [buffered, length_take, h.buffer, Nat.min_eq_left h.size_le]

/-- The number of bytes taken from a payload of which `offset` are not new. -/
def accepted (s : TcpStream) (offset size : ℕ) : ℕ :=
  min (size - offset) (s.rxCapacity.toNat - s.rxSize.toNat)

/-- What `acceptPayload` does, in terms of the bytes buffered. -/
structure Accepts (s : TcpStream) (bytes : List UInt8) (s' : TcpStream) : Prop where
  valid : s'.Valid
  buffered : s'.buffered = s.buffered ++ bytes
  ack : s'.ack = s.ack + UInt32.ofNat bytes.length
  closed : s'.closed = s.closed
  connected : s'.connected = s.connected

lemma Accepts.refl (h : s.Valid) : s.Accepts [] s :=
  ⟨h, (append_nil _).symm, (UInt32.add_zero _).symm, rfl, rfl⟩

lemma toNat_smaller (a b : UInt32) : (if a < b then a else b).toNat = min a.toNat b.toNat := by
  split_ifs with hlt
  · exact (Nat.min_eq_left (UInt32.lt_iff_toNat_lt.mp hlt).le).symm
  · exact (Nat.min_eq_right (UInt32.le_iff_toNat_le.mp (UInt32.not_lt.mp hlt))).symm

lemma accepted_eq (h : s.Valid) {offset size : UInt32} (hoffset : offset.toNat ≤ size.toNat) :
    (if size - offset < s.rxCapacity - s.rxSize then size - offset
      else s.rxCapacity - s.rxSize).toNat = s.accepted offset.toNat size.toNat := by
  have hremaining := UInt32.toNat_sub_of_le _ _ (UInt32.le_iff_toNat_le.mpr hoffset)
  have hroom := UInt32.toNat_sub_of_le _ _ h.size
  rw [toNat_smaller, accepted, hremaining, hroom]

lemma acceptPayload_accepts (h : s.Valid)
    (hoffset : (s.ack - seg.seq).toNat < seg.payloadSize.toNat)
    (hpayload : seg.payloadSize.toNat ≤ seg.payload.length) : ∃ s', s.acceptPayload seg = some s' ∧
      s.Accepts ((seg.payload.drop (s.ack - seg.seq).toNat).take
        (s.accepted (s.ack - seg.seq).toNat seg.payloadSize.toNat)) s' := by
  have hcopySize := accepted_eq h hoffset.le
  obtain ⟨copySize, hdef⟩ : ∃ copySize, (if seg.payloadSize - (s.ack - seg.seq) <
      s.rxCapacity - s.rxSize then seg.payloadSize - (s.ack - seg.seq)
      else s.rxCapacity - s.rxSize) = copySize := ⟨_, rfl⟩
  have hle := h.size_le
  simp only [acceptPayload, hdef]
  rw [hdef] at hcopySize
  rw [← hcopySize]
  by_cases hzero : copySize = 0
  · subst hzero
    exact ⟨s, if_pos rfl, by simpa using Accepts.refl h⟩
  have hroom : s.rxSize.toNat + copySize.toNat ≤ s.rxBuffer.length := by
    rw [hcopySize, accepted, h.buffer]
    omega
  have hbytes : (s.ack - seg.seq).toNat + copySize.toNat ≤ seg.payload.length := by
    rw [hcopySize, accepted]
    omega
  have hsize : (s.rxSize + copySize).toNat = s.rxSize.toNat + copySize.toNat := by
    have hcap := s.rxCapacity.toNat_lt
    rw [h.buffer] at hroom
    rw [UInt32.toNat_add]
    exact Nat.mod_eq_of_lt (by omega)
  have hlength : ((seg.payload.drop (s.ack - seg.seq).toNat).take copySize.toNat).length =
      copySize.toNat := by
    rw [length_take, length_drop]
    omega
  rw [if_neg hzero, copy?_eq_some hroom hbytes]
  refine ⟨_, rfl, ⟨?_, ?_⟩, ?_, ?_, rfl, rfl⟩
  · rw [← h.buffer]
    simp only [length_append, length_take, length_drop]
    omega
  · rw [le_iff_toNat_le, hsize, ← h.buffer]
    exact hroom
  · rw [buffered, buffered, hsize]
    refine take_left' ?_
    rw [length_append, hlength, length_take_of_le (by omega)]
  · rw [hlength, UInt32.ofNat_toNat]

lemma Accepts.sendPacket {bytes : List UInt8} (h : s.Accepts bytes s') (flags : UInt8) :
    s.Accepts bytes (s'.sendPacket flags) :=
  ⟨⟨h.valid.buffer, h.valid.size⟩, h.buffered, h.ack, h.closed, h.connected⟩

/-- The bytes that are taken from a segment. -/
def newBytes (s : TcpStream) (seg : TcpSegment) : List UInt8 :=
  if seg.payloadSize ≠ 0 ∧ tcpReaches seg.seq seg.payloadSize s.ack then
    (seg.payload.drop (s.ack - seg.seq).toNat).take
      (s.accepted (s.ack - seg.seq).toNat seg.payloadSize.toNat)
  else []

lemma payload_accepts (h : s.Valid) (hseg : seg.Valid) (hsize : seg.payloadSize ≠ 0) :
    ∃ s', s.handlePayload seg = some s' ∧ s.Accepts (s.newBytes seg) s' := by
  by_cases hreach : tcpReaches seg.seq seg.payloadSize s.ack = true
  · have hoffset := toNat_sub_lt_of_reaches hsize hseg.size hreach
    obtain ⟨t, ht, haccepts⟩ := acceptPayload_accepts h hoffset hseg.payload
    refine ⟨t.sendPacket 0x10, ?_, ?_⟩
    · rw [handlePayload, if_pos hreach, ht]
      rfl
    · rw [newBytes, if_pos ⟨hsize, hreach⟩]
      exact haccepts.sendPacket 0x10
  · rw [newBytes, if_neg fun hnew => hreach hnew.2, handlePayload, if_neg hreach]
    split_ifs
    · exact ⟨_, rfl, (Accepts.refl h).sendPacket 0x10⟩
    · exact ⟨_, rfl, Accepts.refl h⟩

/-- On an open connection a segment that is not a reset adds its new bytes, and may close it. -/
lemma segment_accepts (h : s.Valid) (hseg : seg.Valid) (hrst : seg.rst = false)
    (hopen : (!s.connected && seg.synAck) = false) :
    ∃ s', s.Accepts (s.newBytes seg) s' ∧ s.handleSegment seg = some (s'.handleFin seg) := by
  have hnote : (s.noteAck seg).Valid := ⟨h.buffer, h.size⟩
  rw [handleSegment, hrst, if_neg Bool.false_ne_true]
  simp only [show (s.noteAck seg).connected = s.connected from rfl, hopen]
  rw [if_neg Bool.false_ne_true]
  by_cases hsize : seg.payloadSize = 0
  · refine ⟨s.noteAck seg, ?_, by rw [if_neg (not_not.mpr hsize)]; rfl⟩
    rw [newBytes, if_neg fun hnew => hnew.1 hsize]
    exact ⟨hnote, (append_nil _).symm, (UInt32.add_zero _).symm, rfl, rfl⟩
  obtain ⟨t, ht, haccepts⟩ := payload_accepts hnote hseg hsize
  refine ⟨t, ⟨haccepts.valid, haccepts.buffered, haccepts.ack, haccepts.closed,
    haccepts.connected⟩, ?_⟩
  rw [if_pos hsize, ht]
  rfl

lemma Valid.handleFin (h : s.Valid) (seg : TcpSegment) : (s.handleFin seg).Valid := by
  rw [TcpStream.handleFin]
  split_ifs
  · exact ⟨h.buffer, h.size⟩
  · exact h

/-- Handling a segment accesses nothing outside the buffers. -/
theorem segment_valid (h : s.Valid) (hseg : seg.Valid) :
    ∃ s', s.handleSegment seg = some s' ∧ s'.Valid := by
  by_cases hrst : seg.rst
  · exact ⟨{ s with reset := true }, if_pos hrst, h.buffer, h.size⟩
  rw [Bool.not_eq_true] at hrst
  by_cases hopen : (!s.connected && seg.synAck) = true
  · have hconnect : s.handleSegment seg = some ({ s with
        ack := seg.seq + 1, txAcked := seg.ack, connected := true }.sendPacket 0x10) := by
      rw [handleSegment, hrst, if_neg Bool.false_ne_true]
      exact if_pos hopen
    exact ⟨_, hconnect, h.buffer, h.size⟩
  · obtain ⟨t, haccepts, ht⟩ := segment_accepts h hseg hrst (Bool.not_eq_true _ ▸ hopen)
    exact ⟨_, ht, haccepts.valid.handleFin seg⟩

/-! ### Reading -/

/-- The number of bytes handed out. -/
def taken (s : TcpStream) (capacity : UInt32) : ℕ := min s.rxSize.toNat capacity.toNat

lemma taken_eq (s : TcpStream) (capacity : UInt32) :
    (if s.rxSize < capacity then s.rxSize else capacity).toNat = s.taken capacity :=
  toNat_smaller _ _

/-- What reading does, in terms of the bytes buffered. -/
structure Hands (s : TcpStream) (bytes : List UInt8) (s' : TcpStream) : Prop where
  valid : s'.Valid
  buffered : s.buffered = bytes ++ s'.buffered
  ack : s'.ack = s.ack
  closed : s'.closed = s.closed
  connected : s'.connected = s.connected

/-- Compaction keeps the bytes behind those handed out. -/
lemma compact_eq (h : s.Valid) {copySize : UInt32} (hle : copySize ≤ s.rxSize) :
    ∃ buf, s.compact copySize = some buf ∧ buf.length = s.rxCapacity.toNat ∧
      buf.take (s.rxSize - copySize).toNat = s.buffered.drop copySize.toNat := by
  have hsize := h.size_le
  rw [UInt32.toNat_sub_of_le _ _ hle]
  rw [UInt32.le_iff_toNat_le] at hle
  rw [compact]
  split_ifs with hlt
  · obtain ⟨buf, hmove, hlength, htake⟩ := move?_eq_some s.rxBuffer
      (n := s.rxSize.toNat - copySize.toNat) (Nat.zero_le copySize.toNat) (by rw [h.buffer]; omega)
    refine ⟨buf, hmove, hlength.trans h.buffer, ?_⟩
    rw [Nat.zero_add, take_zero, nil_append] at htake
    rw [htake, buffered, drop_take]
  · have hall : s.rxSize.toNat ≤ copySize.toNat := UInt32.le_iff_toNat_le.mp (UInt32.not_lt.mp hlt)
    refine ⟨s.rxBuffer, rfl, h.buffer, ?_⟩
    rw [Nat.sub_eq_zero_of_le hall, take_zero, drop_of_length_le]
    rwa [length_buffered h]

/-- The bytes copied out are the first buffered ones. -/
lemma copy_out_eq (h : s.Valid) {n capacity : ℕ} (hn : n ≤ s.rxSize.toNat) (hcap : n ≤ capacity) :
    ∃ out, copy? s.rxBuffer 0 0 n (List.replicate capacity 0) = some out ∧
      out.take n = s.buffered.take n := by
  have hsize := h.size_le
  have hbuffer := h.buffer
  refine ⟨_, copy?_eq_some (by simpa using hcap) (by omega), ?_⟩
  rw [take_zero, nil_append, drop_zero, take_left'
    (length_take_of_le (by omega)), buffered, take_take, Nat.min_eq_left hn]

/-- Reading hands out the first buffered bytes and keeps the others. -/
theorem takeReceived_hands (h : s.Valid) (capacity : UInt32) :
    ∃ s', s.takeReceived capacity = some (s.buffered.take (s.taken capacity), s') ∧
      s.Hands (s.buffered.take (s.taken capacity)) s' := by
  have hcopySize := taken_eq s capacity
  obtain ⟨copySize, hdef⟩ : ∃ copySize, (if s.rxSize < capacity then s.rxSize else capacity) =
      copySize := ⟨_, rfl⟩
  rw [hdef] at hcopySize
  have hle : copySize ≤ s.rxSize := by
    rw [le_iff_toNat_le, hcopySize]
    exact Nat.min_le_left _ _
  have hcap : copySize.toNat ≤ capacity.toNat := hcopySize ▸ Nat.min_le_right _ _
  obtain ⟨out, hout, hbytes⟩ := copy_out_eq h (UInt32.le_iff_toNat_le.mp hle) hcap
  obtain ⟨buf, hbuf, hlength, hrest⟩ := compact_eq h hle
  obtain ⟨t, ht⟩ : ∃ t : TcpStream, t = { s with rxBuffer := buf, rxSize := s.rxSize - copySize } :=
    ⟨_, rfl⟩
  have hbuffered : t.buffered = s.buffered.drop copySize.toNat := ht ▸ hrest
  have hvalid : t.Valid := by
    refine ht ▸ ⟨hlength, ?_⟩
    rw [UInt32.le_iff_toNat_le, UInt32.toNat_sub_of_le _ _ hle]
    exact (Nat.sub_le _ _).trans h.size_le
  have hhands : s.Hands (s.buffered.take copySize.toNat) t :=
    ⟨hvalid, by rw [hbuffered, take_append_drop], by rw [ht], by rw [ht], by rw [ht]⟩
  rw [← hcopySize]
  refine ⟨if t.connected && !t.closed then t.sendPacket 0x10 else t, ?_, ?_⟩
  · rw [hhands.connected, hhands.closed]
    simp only [takeReceived, hdef, hout, hbuf, Option.bind_eq_bind, Option.bind_some, hbytes, ← ht]
    rfl
  · split_ifs
    · exact ⟨⟨hvalid.buffer, hvalid.size⟩, hhands.buffered, hhands.ack, hhands.closed,
        hhands.connected⟩
    · exact hhands

end TcpStream

end Net
