import LainOS.Net.Receive
import LainOS.Net.StreamSafe

/-!
# ARP and TCP stay inside the packet

In a valid state all buffers have the size that the code takes them to have. The handlers of ARP and
TCP packets then read inside the packet and write inside the buffers only, and leave a valid state.
-/

namespace Net

open Checked List Option

variable {seg : TcpSegment} {ip : List UInt8} {ipHeaderSize ipTotalSize : ℕ}
  {p payload : List UInt8} {i n size : ℕ} {index : UInt32} {st : State}

/-! ### Fields of a packet -/

lemma gets_be16 (h : i + 2 ≤ p.length := by omega) : Gets (fun _ => True) (be16 p i) :=
  (gets_read).bind fun _ _ => (gets_read).bind fun _ _ => ⟨_, rfl, trivial⟩

lemma gets_be32 (h : i + 4 ≤ p.length := by omega) : Gets (fun _ => True) (be32 p i) :=
  (gets_read).bind fun _ _ => (gets_read).bind fun _ _ =>
    (gets_read).bind fun _ _ => (gets_read).bind fun _ _ => ⟨_, rfl, trivial⟩

/-! ### Valid states -/

structure TcpGet.Valid (g : TcpGet) : Prop where
  out : g.out.length = g.outCapacity.toNat
  outSize : g.outSize = 0 ∨ g.outSize < g.outCapacity
  header : g.header.length = 1024
  headerSize : g.headerSize < 1024
  headerTail : g.headerTail.length = 4
  headerTailCount : g.headerTailCount ≤ 4

structure State.Valid (st : State) : Prop where
  mac : st.arpWait.mac.length = 6
  tcpGet : st.tcpGet.Valid
  tcpStream : st.tcpStream.Valid
  cname : st.dnsWait.cname.length = 128
  recordName : st.recordName.length = 128

/-- The handler gets through, and leaves a valid state. -/
def Handled (result : Option State) : Prop := ∃ st', result = some st' ∧ st'.Valid

lemma Handled.pure (h : st.Valid) : Handled (some st) := ⟨st, rfl, h⟩

/-! ### ARP -/

lemma handleArp_safe (h : st.Valid) (hsize : size ≤ payload.length) :
    Handled (handleArp st index payload size) := by
  rw [handleArp]
  split_ifs with hshort
  · exact .pure h
  refine (gets_be16).bind fun htype _ => (gets_be16).bind fun ptype _ =>
    (gets_read).bind fun hlen _ => (gets_read).bind fun plen _ => ?_
  split_ifs
  · exact .pure h
  refine (gets_be16).bind fun op _ => (gets_be32).bind fun senderIp _ =>
    (gets_be32).bind fun targetIp _ =>
      (gets_copy (by simp) (by omega)).bind fun sha _ => ?_
  have hvalid : ∀ replies, State.Valid { st with arpReplies := replies } :=
    fun _ => ⟨h.mac, h.tcpGet, h.tcpStream, h.cname, h.recordName⟩
  have hmac {g : List UInt8 → State} (hg : ∀ mac, mac.length = 6 → (g mac).Valid) :
      Handled (do return g (← copy? payload 0 8 6 st.arpWait.mac)) :=
    (gets_copy (by rw [h.mac]) (by omega)).bind fun mac hlen => .pure (hg mac (hlen.trans h.mac))
  dsimp only
  split_ifs
  · exact hmac fun mac hlen => ⟨hlen, h.tcpGet, h.tcpStream, h.cname, h.recordName⟩
  · exact .pure (hvalid _)
  · exact hmac fun mac hlen => ⟨hlen, h.tcpGet, h.tcpStream, h.cname, h.recordName⟩
  · exact .pure h

/-! ### TCP -/

namespace TcpGet

variable {g : TcpGet}

/-- The buffers and how far they are filled. -/
def buffers (g : TcpGet) :=
  (g.out, g.outCapacity, g.outSize, g.header, g.headerSize, g.headerTail, g.headerTailCount)

variable (h : g.Valid)
include h

lemma Valid.of_buffers {g' : TcpGet} (heq : g'.buffers = g.buffers) : g'.Valid := by
  simp only [buffers, Prod.mk.injEq] at heq
  obtain ⟨hout, hcap, hsize, hheader, hheaderSize, htail, hcount⟩ := heq
  constructor
  · rw [hout, hcap, h.out]
  · rw [hsize, hcap]
    exact h.outSize
  · rw [hheader, h.header]
  · rw [hheaderSize]
    exact h.headerSize
  · rw [htail, h.headerTail]
  · rw [hcount]
    exact h.headerTailCount

lemma pushTail_safe (ch : UInt8) : Gets Valid (g.pushTail ch) := by
  have htail := h.headerTail
  rw [pushTail]
  split_ifs with hcount
  · have hlt : g.headerTailCount.toNat < 4 := UInt32.lt_iff_toNat_lt.mp hcount
    refine (gets_write).bind fun tail htail' => ⟨_, rfl, h.out, h.outSize, h.header,
      h.headerSize, htail'.1.trans htail, ?_⟩
    change g.headerTailCount + 1 ≤ 4
    rw [UInt32.le_iff_toNat_le, UInt32.toNat_add]
    change (g.headerTailCount.toNat + 1) % 2 ^ 32 ≤ 4
    omega
  · refine (gets_read).bind fun a _ => (gets_read).bind fun b _ =>
      (gets_read).bind fun c _ => (gets_write).bind fun t₁ ht₁ =>
      (gets_write).bind fun t₂ ht₂ => (gets_write).bind fun t₃ ht₃ =>
      (gets_write).bind fun t₄ ht₄ => ?_
    exact ⟨_, rfl, h.out, h.outSize, h.header, h.headerSize, by simp only; omega, h.headerTailCount⟩

lemma pushHeader_safe (ch : UInt8) : Gets Valid (g.pushHeader ch) := by
  have hheader := h.header
  rw [pushHeader]
  split_ifs with hroom
  · have hlt : g.headerSize.toNat < 1024 := UInt32.lt_iff_toNat_lt.mp h.headerSize
    have hlt' : (g.headerSize + 1).toNat < 1024 := UInt32.lt_iff_toNat_lt.mp hroom
    refine (gets_write (by omega)).bind fun header hlength =>
      (gets_write (by omega)).bind fun header' hlength' => ?_
    exact ⟨_, rfl, h.out, h.outSize, by simp only; omega, hroom, h.headerTail, h.headerTailCount⟩
  · exact ⟨_, rfl, h.of_buffers rfl⟩

lemma copyBodyByte_safe (ch : UInt8) : Gets Valid (g.copyBodyByte ch) := by
  rw [copyBodyByte]
  split_ifs with hdone hfull
  · exact (pushHeader_safe h ch).bind fun g₁ h₁ => (pushTail_safe h₁ ch).bind fun g₂ h₂ =>
      ⟨_, rfl, h₂.of_buffers rfl⟩
  · exact ⟨_, rfl, h.of_buffers rfl⟩
  have hlt : (g.outSize + 1).toNat < g.outCapacity.toNat :=
    UInt32.lt_iff_toNat_lt.mp (UInt32.not_le.mp hfull)
  -- the size does not wrap, since it is below the capacity
  have hsucc : (g.outSize + 1).toNat = g.outSize.toNat + 1 := by
    have hcap := g.outCapacity.toNat_lt
    have hsize : g.outSize.toNat < g.outCapacity.toNat := by
      rcases h.outSize with hzero | hsize
      · rw [hzero] at hlt ⊢
        exact (Nat.zero_le _).trans_lt hlt
      · exact UInt32.lt_iff_toNat_lt.mp hsize
    rw [UInt32.toNat_add]
    exact Nat.mod_eq_of_lt (by change g.outSize.toNat + 1 < _; omega)
  have hout := h.out
  refine (gets_write (by omega)).bind fun out hlength =>
    (gets_write (by omega)).bind fun out' hlength' => ?_
  exact ⟨_, rfl, by simp only; omega, .inr (UInt32.not_le.mp hfull), h.header, h.headerSize,
    h.headerTail, h.headerTailCount⟩

lemma copyBody_safe {pos : ℕ} (hn : pos + n ≤ payload.length) :
    Gets Valid (copyBody payload pos n g) := by
  induction n generalizing g pos with
  | zero => exact ⟨g, rfl, h⟩
  | succ n ih =>
    exact (gets_read (by omega)).bind fun ch _ => (copyBodyByte_safe h ch).bind fun g₁ h₁ =>
      ih h₁ (by omega)

lemma payload_safe (hseg : seg.Valid) (hsize : seg.payloadSize ≠ 0) :
    Gets Valid (g.handlePayload seg) := by
  rw [handlePayload]
  split_ifs with hreach hother
  · have hoffset := toNat_sub_lt_of_reaches hsize hseg.size hreach
    have hremaining : (seg.payloadSize - (g.ack - seg.seq)).toNat =
        seg.payloadSize.toNat - (g.ack - seg.seq).toNat :=
      UInt32.toNat_sub_of_le _ _ (UInt32.le_iff_toNat_le.mpr hoffset.le)
    have hpayload := hseg.payload
    exact (copyBody_safe h (by omega)).bind fun g₁ h₁ => ⟨_, rfl, h₁.of_buffers rfl⟩
  · exact ⟨_, rfl, h.of_buffers rfl⟩
  · exact ⟨g, rfl, h⟩

lemma Valid.handleFin (seg : TcpSegment) : (g.handleFin seg).Valid := by
  rw [TcpGet.handleFin]
  split_ifs
  · exact h.of_buffers rfl
  · exact h

lemma segment_safe (hseg : seg.Valid) : Gets Valid (g.handleSegment seg) := by
  rw [handleSegment]
  split_ifs with hrst hconnect hsize
  · exact ⟨_, rfl, h.of_buffers rfl⟩
  · exact ⟨_, rfl, h.of_buffers rfl⟩
  · exact (payload_safe h hseg hsize).bind fun g₁ h₁ => ⟨_, rfl, h₁.handleFin seg⟩
  · exact ⟨_, rfl, h.handleFin seg⟩

end TcpGet

/-- The segment that is parsed lies in the packet. -/
lemma parseTcp_safe (hheader : 20 ≤ ipHeaderSize) (htotal : ipTotalSize ≤ ip.length)
    (hlt : ipTotalSize < 2 ^ 16) :
    Gets (∀ seg ∈ ·, seg.Valid) (parseTcp ip ipHeaderSize ipTotalSize) := by
  have hnone : ∀ seg ∈ (none : Option TcpSegment), seg.Valid := fun _ h => absurd h (by simp)
  rw [parseTcp]
  split_ifs with hshort
  · exact ⟨none, rfl, hnone⟩
  have hlength : (ip.drop ipHeaderSize).length = ip.length - ipHeaderSize := length_drop
  refine (gets_read).bind fun dataOffset _ => ?_
  dsimp only
  split_ifs with hbad
  · exact ⟨none, rfl, hnone⟩
  refine (gets_be32).bind fun srcIp _ => (gets_be16).bind fun srcPort _ =>
    (gets_be16).bind fun dstPort _ => (gets_be32).bind fun seq _ =>
    (gets_be32).bind fun ack _ => (gets_read).bind fun flags _ =>
    ⟨_, rfl, ?_⟩
  rintro seg ⟨⟩
  have hsize : (UInt32.ofNat (ipTotalSize - ipHeaderSize - (dataOffset >>> 4).toNat * 4)).toNat =
      ipTotalSize - ipHeaderSize - (dataOffset >>> 4).toNat * 4 :=
    UInt32.toNat_ofNat_of_lt' (by change _ < 2 ^ 32; omega)
  refine ⟨?_, ?_⟩
  · simp only [hsize, length_drop]
    omega
  · simp only [hsize]
    omega

lemma handleTcp_safe (h : st.Valid) (hheader : 20 ≤ ipHeaderSize) (htotal : ipTotalSize ≤ ip.length)
    (hlt : ipTotalSize < 2 ^ 16) : Handled (handleTcp st index ip ipHeaderSize ipTotalSize) := by
  refine (parseTcp_safe hheader htotal hlt).bind fun result hresult => ?_
  rcases result with _ | seg
  · exact .pure h
  have hseg := hresult seg rfl
  change Handled (handleTcpSegment st index seg)
  rw [handleTcpSegment]
  split_ifs
  · exact Gets.map (TcpStream.segment_valid h.tcpStream hseg) fun s hvalid =>
      .pure ⟨h.mac, h.tcpGet, hvalid, h.cname, h.recordName⟩
  · exact .pure h
  · exact .pure h
  · exact (TcpGet.segment_safe h.tcpGet hseg).map fun g hvalid =>
      .pure ⟨h.mac, hvalid, h.tcpStream, h.cname, h.recordName⟩

end Net
