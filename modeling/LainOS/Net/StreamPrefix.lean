import LainOS.Net.StreamSafe

/-!
# The stream delivers a prefix

The peer sends the bytes `data` with a FIN behind them. Segments carry slices of them in any order,
more than once, overlapping or not at all; readers take what is buffered in between. In all states
that are reached, what was handed out and what is buffered are together a prefix of `data`, and `ack`
says where it ends (`Reachable.delivers`).

Sequence numbers wrap, so a position of the stream is known to the receiver modulo `2 ^ 32` only.
What makes the comparisons right is that a segment lies within `2 ^ 31 - 2 ^ 16` of `ack`.
-/

namespace Net

open Checked List Option TcpStream

/-! ### Sequence numbers -/

/-- The sequence number of the position `i`, when position 0 has the number `first`. -/
def seqAt (first : UInt32) (i : ℕ) : UInt32 := first + UInt32.ofNat i

section

variable {first : UInt32} {i j : ℕ}

lemma seqAt_add (first : UInt32) (i : ℕ) (n : UInt32) :
    seqAt first i + n = seqAt first (i + n.toNat) := by
  rw [seqAt, seqAt, UInt32.add_assoc, UInt32.ofNat_add, UInt32.ofNat_toNat]

lemma seqAt_sub_of_le (h : j ≤ i) (hlt : i < j + 2 ^ 32) :
    (seqAt first i - seqAt first j).toNat = i - j := by
  simp only [seqAt, UInt32.toNat_sub, UInt32.toNat_add, UInt32.toNat_ofNat']
  omega

lemma seqAt_sub_of_lt (h : i < j) (hlt : j ≤ i + 2 ^ 31) :
    (seqAt first i - seqAt first j).toNat = 2 ^ 32 - (j - i) := by
  simp only [seqAt, UInt32.toNat_sub, UInt32.toNat_add, UInt32.toNat_ofNat']
  omega

variable (h : i < j + 2 ^ 31) (h' : j < i + 2 ^ 31)
include h h'

lemma seqAt_inj : seqAt first i = seqAt first j ↔ i = j := by
  refine ⟨fun heq => ?_, fun heq => heq ▸ rfl⟩
  have hsub : (seqAt first i - seqAt first j).toNat = 0 := by rw [heq, UInt32.sub_self]; rfl
  rcases le_or_gt j i with hle | hlt
  · rw [seqAt_sub_of_le hle (by omega)] at hsub
    omega
  · rw [seqAt_sub_of_lt hlt (by omega)] at hsub
    omega

lemma tcpSeqBefore_seqAt : tcpSeqBefore (seqAt first i) (seqAt first j) = true ↔ i < j := by
  rw [tcpSeqBefore_iff]
  rcases le_or_gt j i with hle | hlt
  · rw [seqAt_sub_of_le hle (by omega)]
    omega
  · rw [seqAt_sub_of_lt hlt (by omega)]
    omega

lemma tcpSeqAfter_seqAt : tcpSeqAfter (seqAt first i) (seqAt first j) = true ↔ j < i := by
  rw [tcpSeqAfter_iff]
  rcases le_or_gt j i with hle | hlt
  · rw [seqAt_sub_of_le hle (by omega)]
    omega
  · rw [seqAt_sub_of_lt hlt (by omega)]
    omega

end

/-! ### Segments of the stream -/

section

variable (data : List UInt8) (first : UInt32)

/-- The segment carries the slice of `data` from `i` on, and a FIN at the end of `data` only. -/
structure Carries (seg : TcpSegment) (i : ℕ) : Prop where
  seq : seg.seq = seqAt first i
  stop : i + seg.payloadSize.toNat ≤ data.length
  length : seg.payloadSize.toNat ≤ seg.payload.length
  payload : seg.payload.take seg.payloadSize.toNat = (data.drop i).take seg.payloadSize.toNat
  size : seg.payloadSize.toNat < 2 ^ 16
  fin : seg.fin = true → i + seg.payloadSize.toNat = data.length

/-- The position that `ack` stands for, when `out` was handed out; the FIN takes one. -/
def ackPos (s : TcpStream) (out : List UInt8) : ℕ :=
  out.length + s.rxSize.toNat + s.closed.toNat

/-- The segment starts within `2 ^ 31 - 2 ^ 16` of `ack`. -/
def Near (s : TcpStream) (out : List UInt8) (i : ℕ) : Prop :=
  i ≤ ackPos s out + (2 ^ 31 - 2 ^ 16) ∧ ackPos s out ≤ i + (2 ^ 31 - 2 ^ 16)

/-- The states of the stream and the bytes handed out so far. The handshake tells the initial
sequence number `isn`; then segments arrive and readers take bytes, in any order. -/
inductive Reachable (isn : UInt32) : TcpStream → List UInt8 → Prop
  | handshake {s s' : TcpStream} {seg : TcpSegment} (valid : s.Valid) (empty : s.rxSize = 0)
    (connected : s.connected = false) (closed : s.closed = false) (seq : seg.seq = isn)
    (synAck : seg.synAck = true) (rst : seg.rst = false)
    (handled : s.handleSegment seg = some s') : Reachable isn s' []
  | segment {s s' : TcpStream} {out : List UInt8} {seg : TcpSegment} {i : ℕ}
    (reachable : Reachable isn s out) (carries : Carries data (isn + 1) seg i)
    (near : Near s out i) (handled : s.handleSegment seg = some s') : Reachable isn s' out
  | take {s s' : TcpStream} {out bytes : List UInt8} {capacity : UInt32}
    (reachable : Reachable isn s out) (taken : s.takeReceived capacity = some (bytes, s')) :
    Reachable isn s' (out ++ bytes)

/-- What holds in every state that is reached. -/
structure Delivers (s : TcpStream) (out : List UInt8) : Prop where
  valid : s.Valid
  connected : s.connected = true
  received : out ++ s.buffered <+: data
  ack : s.ack = seqAt first (ackPos s out)
  closed : s.closed = true → out ++ s.buffered = data

end

variable {data : List UInt8} {first isn : UInt32} {s s' : TcpStream} {out bytes : List UInt8}
  {seg : TcpSegment} {i : ℕ}

lemma Carries.valid (h : Carries data first seg i) : seg.Valid :=
  ⟨h.length, h.size.trans (by norm_num)⟩

lemma Delivers.length_received (h : Delivers data first s out) :
    (out ++ s.buffered).length = out.length + s.rxSize.toNat := by
  rw [length_append, length_buffered h.valid]

section

variable {pos n : ℕ}

variable (h : Carries data first seg i)
include h

/-- A payload reaches the position exactly if that lies inside it. -/
lemma Carries.reaches_iff (hnear : i ≤ pos + (2 ^ 31 - 2 ^ 16) ∧ pos ≤ i + (2 ^ 31 - 2 ^ 16))
    (hsize : seg.payloadSize ≠ 0) : tcpReaches seg.seq seg.payloadSize (seqAt first pos) = true ↔
      i ≤ pos ∧ pos < i + seg.payloadSize.toNat := by
  have hpos : seg.payloadSize.toNat ≠ 0 := fun h => hsize (UInt32.toNat_inj.mp h)
  have hlt := h.size
  obtain ⟨hle, hle'⟩ := hnear
  rw [tcpReaches, Bool.or_eq_true, Bool.and_eq_true, decide_eq_true_iff, h.seq, seqAt_add,
    seqAt_inj (by omega) (by omega), tcpSeqBefore_seqAt (by omega) (by omega),
    tcpSeqAfter_seqAt (by omega) (by omega)]
  omega

lemma Carries.toNat_offset (hle : i ≤ pos) (hlt : pos < i + seg.payloadSize.toNat) :
    (seqAt first pos - seg.seq).toNat = pos - i := by
  have hsize := h.size
  rw [h.seq, seqAt_sub_of_le hle (by omega)]

/-- The payload from the position on is a slice of `data` from there. -/
lemma Carries.take_payload (hle : i ≤ pos) (hn : n ≤ seg.payloadSize.toNat - (pos - i)) :
    (seg.payload.drop (pos - i)).take n = (data.drop pos).take n := by
  have htake : ∀ l : List UInt8, (l.drop (pos - i)).take n =
      ((l.take seg.payloadSize.toNat).drop (pos - i)).take n := by
    intro l
    rw [drop_take, take_take, Nat.min_eq_left hn]
  rw [htake, h.payload, ← htake, drop_drop, Nat.add_sub_cancel' hle]

end

section

variable (h : Delivers data first s out)
include h

lemma Delivers.ackPos_closed (hclosed : s.closed = true) : ackPos s out = data.length + 1 := by
  rw [ackPos, ← h.length_received, h.closed hclosed, hclosed]
  rfl

/-- The bytes taken from a segment are the next ones of `data`, and a closed stream takes none. -/
lemma newBytes_next (hseg : Carries data first seg i)
    (hnear : Near s out i) : out ++ s.buffered ++ s.newBytes seg <+: data ∧
      (s.closed = true → s.newBytes seg = []) ∧ (s.newBytes seg).length < 2 ^ 16 := by
  rw [newBytes]
  split_ifs with hnew
  · rw [h.ack, hseg.reaches_iff hnear hnew.1] at hnew
    obtain ⟨-, hle, hlt⟩ := hnew
    have hstop := hseg.stop
    have hsize := hseg.size
    have hopen : s.closed = false := by
      by_contra hclosed
      have := h.ackPos_closed (Bool.eq_true_of_not_eq_false hclosed)
      omega
    have hpos : ackPos s out = (out ++ s.buffered).length := by
      rw [ackPos, hopen, h.length_received]
      rfl
    have haccepted : s.accepted (ackPos s out - i) seg.payloadSize.toNat ≤
        seg.payloadSize.toNat - (ackPos s out - i) := Nat.min_le_left _ _
    rw [h.ack, hseg.toNat_offset hle hlt, hseg.take_payload hle haccepted]
    refine ⟨?_, fun hclosed => absurd hclosed (by rw [hopen]; exact Bool.false_ne_true), ?_⟩
    · rw [prefix_iff_eq_take.mp h.received, ← hpos, ← take_add]
      exact take_prefix _ _
    · refine lt_of_le_of_lt (length_take_le _ _) (lt_of_le_of_lt haccepted ?_)
      omega
  · exact ⟨by rw [append_nil]; exact h.received, fun _ => rfl, by norm_num⟩

/-! ### Steps -/

lemma Delivers.accepts (haccepts : s.Accepts bytes s')
    (hreceived : out ++ s.buffered ++ bytes <+: data) (hclosed : s.closed = true → bytes = []) :
    Delivers data first s' out ∧ ackPos s' out = ackPos s out + bytes.length := by
  have hsize : s'.rxSize.toNat = s.rxSize.toNat + bytes.length := by
    rw [← length_buffered haccepts.valid, haccepts.buffered, length_append, length_buffered h.valid]
  have hpos : ackPos s' out = ackPos s out + bytes.length := by
    rw [ackPos, ackPos, hsize, haccepts.closed]
    omega
  refine ⟨⟨haccepts.valid, by rw [haccepts.connected, h.connected], ?_, ?_, ?_⟩, hpos⟩
  · rw [haccepts.buffered, ← append_assoc]
    exact hreceived
  · rw [haccepts.ack, h.ack, hpos, seqAt, seqAt, UInt32.ofNat_add, UInt32.add_assoc]
  · intro hclosed'
    rw [haccepts.closed] at hclosed'
    rw [haccepts.buffered, hclosed hclosed', append_nil]
    exact h.closed hclosed'

lemma Delivers.handleFin (hseg : Carries data first seg i)
    (hlt : i + seg.payloadSize.toNat < ackPos s out + 2 ^ 31)
    (hlt' : ackPos s out < i + seg.payloadSize.toNat + 2 ^ 31) :
    Delivers data first (s.handleFin seg) out := by
  rw [TcpStream.handleFin]
  split_ifs with hfin
  · obtain ⟨hflag, hack⟩ := hfin
    rw [hseg.seq, h.ack, seqAt_add, seqAt_inj hlt hlt', hseg.fin hflag] at hack
    have hopen : s.closed = false := by
      by_contra hclosed
      have := h.ackPos_closed (Bool.eq_true_of_not_eq_false hclosed)
      omega
    have hall : out ++ s.buffered = data := by
      refine h.received.eq_of_length ?_
      rw [h.length_received, hack, ackPos, hopen]
      rfl
    refine ⟨⟨h.valid.buffer, h.valid.size⟩, h.connected, ?_, ?_, fun _ => hall⟩
    · exact hall ▸ prefix_rfl
    have hpos : i + seg.payloadSize.toNat = out.length + s.rxSize.toNat := by
      rw [hseg.fin hflag, hack, ackPos, hopen]
      rfl
    change seg.seq + seg.payloadSize + 1 = seqAt first (out.length + s.rxSize.toNat + 1)
    rw [hseg.seq, seqAt_add, hpos]
    exact seqAt_add first _ 1
  · exact h

lemma Delivers.segment (hseg : Carries data first seg i) (hnear : Near s out i)
    (hhandled : s.handleSegment seg = some s') : Delivers data first s' out := by
  by_cases hrst : seg.rst = true
  · rw [handleSegment, if_pos hrst, some.injEq] at hhandled
    subst hhandled
    exact ⟨⟨h.valid.buffer, h.valid.size⟩, h.connected, h.received, h.ack, h.closed⟩
  have hopen : (!s.connected && seg.synAck) = false := by rw [h.connected]; rfl
  obtain ⟨t, haccepts, ht⟩ := segment_accepts h.valid hseg.valid
    (Bool.eq_false_of_not_eq_true hrst) hopen
  obtain rfl : t.handleFin seg = s' := some.inj (ht.symm.trans hhandled)
  obtain ⟨hreceived, hclosed, hlength⟩ := newBytes_next h hseg hnear
  obtain ⟨hdelivers, hpos⟩ := h.accepts haccepts hreceived hclosed
  have hsize := hseg.size
  obtain ⟨hle, hle'⟩ := hnear
  exact hdelivers.handleFin hseg (by omega) (by omega)

lemma Delivers.hands (hhands : s.Hands bytes s') : Delivers data first s' (out ++ bytes) := by
  have hreceived : out ++ bytes ++ s'.buffered = out ++ s.buffered := by
    rw [hhands.buffered, append_assoc]
  have hlength : bytes.length + s'.rxSize.toNat = s.rxSize.toNat := by
    rw [← length_buffered hhands.valid, ← length_buffered h.valid, hhands.buffered, length_append]
  refine ⟨hhands.valid, by rw [hhands.connected, h.connected], ?_, ?_, ?_⟩
  · rw [hreceived]
    exact h.received
  · have hpos : ackPos s' (out ++ bytes) = ackPos s out := by
      rw [ackPos, ackPos, length_append, hhands.closed]
      omega
    rw [hhands.ack, h.ack, hpos]
  · intro hclosed
    rw [hreceived]
    exact h.closed (hhands.closed ▸ hclosed)

end

lemma Reachable.delivers (h : Reachable data isn s out) : Delivers data (isn + 1) s out := by
  induction h with
  | @handshake s s' seg valid empty connected closed seq synAck rst handled =>
    rw [handleSegment, rst, if_neg Bool.false_ne_true] at handled
    have hopen : (!(s.noteAck seg).connected && seg.synAck) = true := by
      rw [show (s.noteAck seg).connected = s.connected from rfl, connected, synAck]
      rfl
    simp only [hopen, if_true, some.injEq] at handled
    subst handled
    have hbuffered : s.buffered = [] := by rw [buffered, empty]; rfl
    refine ⟨⟨valid.buffer, valid.size⟩, rfl, ?_, ?_, ?_⟩
    · change [] ++ s.buffered <+: data
      rw [hbuffered]
      exact nil_prefix
    · change seg.seq + 1 = seqAt (isn + 1) ([].length + s.rxSize.toNat + s.closed.toNat)
      rw [empty, closed, seq]
      exact (UInt32.add_zero _).symm
    · intro hclosed
      exact absurd (hclosed.symm.trans closed) (by decide)
  | segment _ carries near handled ih => exact ih.segment carries near handled
  | take _ taken ih =>
    obtain ⟨t, ht, hhands⟩ := takeReceived_hands ih.valid _
    rw [taken, some.injEq, Prod.mk.injEq] at ht
    obtain ⟨rfl, rfl⟩ := ht
    exact ih.hands hhands

/-! ### The result -/

/-- In every state that is reached, what was handed out and what is buffered is a prefix of the
stream of the peer; `ack` stands behind it, and behind the FIN exactly if the stream is closed. Every
further segment can be handled, and every reader served. -/
theorem tcpStream_delivers_prefix (h : Reachable data isn s out) :
    (∃ n ≤ data.length, out ++ s.buffered = data.take n ∧ s.rxSize ≤ s.rxCapacity ∧
      s.ack = isn + 1 + UInt32.ofNat n + (if s.closed then 1 else 0) ∧
      (s.closed = true → n = data.length)) ∧
    (∀ seg i, Carries data (isn + 1) seg i → ∃ s', s.handleSegment seg = some s') ∧
    ∀ capacity, ∃ bytes s', s.takeReceived capacity = some (bytes, s') := by
  have hdelivers := h.delivers
  refine ⟨⟨(out ++ s.buffered).length, hdelivers.received.length_le,
    prefix_iff_eq_take.mp hdelivers.received, hdelivers.valid.size, ?_, ?_⟩, ?_, ?_⟩
  · rw [hdelivers.ack, ackPos, ← hdelivers.length_received, seqAt, UInt32.ofNat_add,
      ← UInt32.add_assoc]
    cases s.closed <;> rfl
  · intro hclosed
    rw [hdelivers.closed hclosed]
  · intro seg i hcarries
    obtain ⟨s', hs', -⟩ := segment_valid hdelivers.valid hcarries.valid
    exact ⟨s', hs'⟩
  · intro capacity
    obtain ⟨s', hs', -⟩ := takeReceived_hands hdelivers.valid capacity
    exact ⟨_, s', hs'⟩

/-- A new stream with room for two bytes. -/
def newStream : TcpStream where
  active := true
  device := 0
  remoteIp := 0
  localPort := 49152
  remotePort := 80
  seq := 1
  ack := 0
  txAcked := 0
  connected := false
  closed := false
  reset := false
  rxBuffer := [0, 0]
  rxCapacity := 2
  rxSize := 0
  sent := []

/-- A segment with the given sequence number, flags and payload. -/
def segmentOf (seq : UInt32) (flags : UInt8) (payload : List UInt8) : TcpSegment :=
  ⟨0, 80, 49152, seq, 1, flags, payload, UInt32.ofNat payload.length⟩

/-- The stream `10, 20, 30` behind the initial sequence number `2 ^ 32 - 1`, sent in one segment with
the FIN. -/
theorem tcpStream_delivers_prefix_segment :
    ∃ s, Reachable [10, 20, 30] 0xFFFFFFFF s [] ∧ ∃ n ≤ 3,
      [] ++ s.buffered = [10, 20, 30].take n ∧ s.rxSize ≤ s.rxCapacity ∧
      s.ack = 0xFFFFFFFF + 1 + UInt32.ofNat n + (if s.closed then 1 else 0) ∧
      (s.closed = true → n = 3) := by
  obtain ⟨s, hs⟩ : ∃ s, newStream.handleSegment (segmentOf 0xFFFFFFFF 0x12 []) = some s :=
    Option.isSome_iff_exists.mp (by decide +kernel)
  have hconnected : Reachable [10, 20, 30] 0xFFFFFFFF s [] :=
    .handshake ⟨rfl, by decide⟩ rfl rfl rfl rfl rfl rfl hs
  have hcarries : Carries [10, 20, 30] (0xFFFFFFFF + 1) (segmentOf 0 0x11 [10, 20, 30]) 0 :=
    ⟨rfl, by decide, by decide, by decide, by decide, fun _ => by decide⟩
  have hnear : Near s [] 0 := by
    have hlength := hconnected.delivers.length_received
    have hle := hconnected.delivers.received.length_le
    have hclosed : s.closed.toNat ≤ 1 := Bool.toNat_le s.closed
    simp only [length_cons, length_nil] at hlength hle
    exact ⟨Nat.zero_le _, by simp only [ackPos, length_nil]; omega⟩
  obtain ⟨t, ht, -⟩ := segment_valid hconnected.delivers.valid hcarries.valid
  have hreachable := hconnected.segment hcarries hnear ht
  obtain ⟨hholds, -⟩ := tcpStream_delivers_prefix hreachable
  exact ⟨t, hreachable, hholds⟩

end Net
