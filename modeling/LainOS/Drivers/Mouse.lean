import Mathlib.Tactic

/-!
# PS/2 mouse packets

`mouse_handle_ps2_byte_locked` collects the bytes of a packet. A header with an overflow bit is rejected
at once, without the rest of its packet: the decoder then looks for a header among the payload.
-/

namespace Mouse

open List

/-- The variables of the driver that the decoder reads or writes. -/
structure State where
  packetIndex : ℕ := 0
  packet : ℕ → UInt8 := fun _ => 0
  posX : Int32 := 0
  posY : Int32 := 0
  buttons : UInt8 := 0
  lastDx : Int32 := 0
  lastDy : Int32 := 0
  lastWheel : Int32 := 0
  pendingDx : Int32 := 0
  pendingDy : Int32 := 0
  pendingWheel : Int32 := 0
  rejectedPackets : UInt32 := 0
  ps2PacketCount : UInt32 := 0
  lastSource : ℕ := 0

variable {s : State} {v : UInt8} {bytes : List UInt8}

/-- What `mouse_init` and the screen fix. -/
structure Setup where
  ps2HasWheel : Bool
  graphicsWidth : UInt32
  graphicsHeight : UInt32

def Setup.ps2PacketSize (c : Setup) : ℕ := if c.ps2HasWheel then 4 else 3

def clampCoord (value : Int32) (limit : UInt32) : Int32 :=
  if value < 0 then 0
  else if limit = 0 then 0
  else if limit ≤ value.toUInt32 then (limit - 1).toInt32
  else value

def signExtendByte (value signBit : UInt8) : Int32 :=
  if signBit ≠ 0 then value.toUInt32.toInt32 - 256 else value.toUInt32.toInt32

def signExtendNibble (value : UInt8) : Int32 :=
  let result := (value &&& 0x0F).toUInt32.toInt32
  if value &&& 0x08 ≠ 0 then result - 16 else result

def absInt (value : Int32) : Int32 := if value < 0 then -value else value

def ps2HeaderValid (value : UInt8) : Bool := value &&& 0x08 ≠ 0 ∧ value &&& 0xC0 = 0

def ps2PacketValid (header x y : UInt8) : Bool :=
  ps2HeaderValid header ∧ (x &&& 0x80 ≠ 0 ↔ header &&& 0x10 ≠ 0) ∧
    (y &&& 0x80 ≠ 0 ↔ header &&& 0x20 ≠ 0)

def rejectPacket (s : State) : State :=
  { s with
    packetIndex := 0, lastDx := 0, lastDy := 0, lastWheel := 0
    rejectedPackets := s.rejectedPackets + 1 }

variable (c : Setup)

def applyState (s : State) (newButtons : UInt8) (dx dy wheel : Int32)
    (applyMotion usbMotion : Bool) : State :=
  let screenDy := if usbMotion then dy else -dy
  let s := { s with
    buttons := newButtons &&& 0x07, lastWheel := wheel, pendingWheel := s.pendingWheel + wheel }
  if applyMotion then
    { s with
      lastDx := dx, lastDy := screenDy
      posX := clampCoord (s.posX + dx) c.graphicsWidth
      posY := clampCoord (s.posY + screenDy) c.graphicsHeight
      pendingDx := s.pendingDx + dx, pendingDy := s.pendingDy + screenDy }
  else { s with lastDx := 0, lastDy := 0 }

/-- The end of `mouse_handle_ps2_byte_locked`, when the packet is complete. -/
def handlePs2Packet (s : State) (header x y z : UInt8) : State :=
  let dx := signExtendByte x (header &&& 0x10)
  let dy := signExtendByte y (header &&& 0x20)
  let wheel := if c.ps2HasWheel then signExtendNibble z else 0
  if ps2PacketValid header x y = false then rejectPacket s
  else if absInt dx > 96 ∨ absInt dy > 96 then rejectPacket s
  else
    { applyState c s header dx dy wheel true false with
      ps2PacketCount := s.ps2PacketCount + 1, lastSource := 1, packetIndex := 0 }

def handlePs2Byte (s : State) (value : UInt8) : State :=
  if s.packetIndex = 0 ∧ value &&& 0x08 = 0 then s
  else if s.packetIndex = 0 ∧ ps2HeaderValid value = false then rejectPacket s
  else
    let s := { s with
      packet := Function.update s.packet s.packetIndex value, packetIndex := s.packetIndex + 1 }
    if s.packetIndex < c.ps2PacketSize then s
    else handlePs2Packet c s (s.packet 0) (s.packet 1) (s.packet 2) (s.packet 3)

/-! ### Packets -/

/-- A packet; bit 3 of its header is set. The last byte is only sent by a mouse with a wheel. -/
structure Packet where
  header : UInt8
  x : UInt8
  y : UInt8
  z : UInt8
  one : header &&& 0x08 ≠ 0

namespace Packet

def payload (p : Packet) : List UInt8 := [p.x, p.y] ++ if c.ps2HasWheel then [p.z] else []

def dx (p : Packet) : Int32 := signExtendByte p.x (p.header &&& 0x10)

def dy (p : Packet) : Int32 := signExtendByte p.y (p.header &&& 0x20)

def wheel (p : Packet) : Int32 := if c.ps2HasWheel then signExtendNibble p.z else 0

def accepted (p : Packet) : Bool :=
  ps2PacketValid p.header p.x p.y ∧ ¬(absInt p.dx > 96 ∨ absInt p.dy > 96)

/-- When the header is rejected, no byte of the payload is taken for one. -/
def InStep (p : Packet) : Prop :=
  ps2HeaderValid p.header = false → ∀ b ∈ p.payload c, ps2HeaderValid b = false

end Packet

/-- The state after some packets, the last one first. -/
def stateAfter (s : State) : List Packet → State
  | [] => s
  | p :: past => (p.header :: p.payload c).foldl (handlePs2Byte c) (stateAfter s past)

/-- What the driver reports of the packets it accepted. -/
structure Totals where
  buttons : UInt8
  dx : Int32
  dy : Int32
  wheel : Int32

def State.totals (s : State) : Totals := ⟨s.buttons, s.pendingDx, s.pendingDy, s.pendingWheel⟩

/-- The buttons of the last accepted packet, and the sums of the deltas over the accepted ones. -/
def Totals.after (t : Totals) (past : List Packet) : Totals :=
  let accepted := past.filter Packet.accepted
  { buttons := (accepted.head?.map fun p => p.header &&& 0x07).getD t.buttons
    dx := t.dx + (accepted.map Packet.dx).sum
    dy := t.dy + (accepted.map fun p => -p.dy).sum
    wheel := t.wheel + (accepted.map (Packet.wheel c)).sum }

variable {c}

lemma Totals.after_nil (t : Totals) : t.after c [] = t := by simp [Totals.after]

lemma Totals.after_singleton (t : Totals) (p : Packet) :
    t.after c [p] = if p.accepted then
      ⟨p.header &&& 0x07, t.dx + p.dx, t.dy + -p.dy, t.wheel + p.wheel c⟩ else t := by
  cases hp : p.accepted <;> simp [Totals.after, hp]

lemma Totals.after_cons (t : Totals) (p : Packet) (past : List Packet) :
    t.after c (p :: past) = (t.after c past).after c [p] := by
  rw [Totals.after_singleton]
  cases hp : p.accepted with
  | false => simp [Totals.after, hp]
  | true =>
    simp only [Totals.after, filter_cons, hp, if_true, map_cons, sum_cons,
      head?_cons, Option.map_some, Option.getD_some, Totals.mk.injEq, true_and]
    refine ⟨?_, ?_, ?_⟩ <;> ac_rfl

/-! ### Steps -/

/-- A byte that is no header leaves the decoder between two packets. -/
lemma ps2Byte_skip (hs : s.packetIndex = 0) (hv : ps2HeaderValid v = false) :
    (handlePs2Byte c s v).packetIndex = 0 ∧ (handlePs2Byte c s v).totals = s.totals := by
  rw [handlePs2Byte]
  split_ifs with hone hheader
  · exact ⟨hs, rfl⟩
  · exact ⟨rfl, rfl⟩
  · exact absurd ⟨hs, hv⟩ hheader

lemma ps2Byte_take (hv : s.packetIndex = 0 → ps2HeaderValid v = true) : handlePs2Byte c s v =
      let s := { s with
        packet := Function.update s.packet s.packetIndex v, packetIndex := s.packetIndex + 1 }
      if s.packetIndex < c.ps2PacketSize then s
      else handlePs2Packet c s (s.packet 0) (s.packet 1) (s.packet 2) (s.packet 3) := by
  rw [handlePs2Byte, if_neg, if_neg]
  · rintro ⟨hs, hbad⟩
    exact absurd (hv hs) (by rw [hbad]; decide)
  · rintro ⟨hs, hzero⟩
    have hone := hv hs
    rw [ps2HeaderValid, decide_eq_true_eq] at hone
    exact hone.1 hzero

/-- A complete packet is decoded or rejected. -/
lemma ps2Packet_totals (s : State) (p : Packet) {z : UInt8} (hz : c.ps2HasWheel = true → z = p.z) :
    (handlePs2Packet c s p.header p.x p.y z).packetIndex = 0 ∧
      (handlePs2Packet c s p.header p.x p.y z).totals = s.totals.after c [p] := by
  have hwheel : (if c.ps2HasWheel then signExtendNibble z else 0) = p.wheel c :=
    if_ctx_congr Iff.rfl (fun hc => by rw [hz hc]) fun _ => rfl
  have haccepted : p.accepted = true ↔ ¬ps2PacketValid p.header p.x p.y = false ∧
      ¬(absInt p.dx > 96 ∨ absInt p.dy > 96) := by
    simp [Packet.accepted]
  rw [handlePs2Packet, hwheel]
  split_ifs with hvalid hdelta <;> rw [Totals.after_singleton]
  · rw [if_neg fun h => (haccepted.mp h).1 hvalid]
    exact ⟨rfl, rfl⟩
  · rw [if_neg fun h => (haccepted.mp h).2 hdelta]
    exact ⟨rfl, rfl⟩
  · rw [if_pos (haccepted.mpr ⟨hvalid, hdelta⟩)]
    exact ⟨rfl, rfl⟩

/-- Payload bytes that do not complete a packet. -/
lemma foldl_packetIndex_ne_zero (hs : s.packetIndex ≠ 0)
    (hlen : s.packetIndex + bytes.length < c.ps2PacketSize) :
    (bytes.foldl (handlePs2Byte c) s).packetIndex ≠ 0 := by
  induction bytes generalizing s with
  | nil => exact hs
  | cons b bytes ih =>
    rw [length_cons] at hlen
    rw [foldl_cons, ps2Byte_take fun h => absurd h hs]
    dsimp only
    rw [if_pos (by omega)]
    exact ih (Nat.succ_ne_zero _) (by dsimp only; omega)

/-- Between two packets the decoder skips what is no header. -/
lemma foldl_skip (hs : s.packetIndex = 0) (hlen : bytes.length < c.ps2PacketSize) :
    let s' := bytes.foldl (handlePs2Byte c) s
    (s'.packetIndex = 0 → ∀ b ∈ bytes, ps2HeaderValid b = false) ∧
      ((∀ b ∈ bytes, ps2HeaderValid b = false) → s'.packetIndex = 0 ∧ s'.totals = s.totals) := by
  induction bytes generalizing s with
  | nil => exact ⟨fun _ _ hb => absurd hb not_mem_nil, fun _ => ⟨hs, rfl⟩⟩
  | cons b bytes ih =>
    rw [length_cons] at hlen
    simp only [foldl_cons, forall_mem_cons]
    cases hb : ps2HeaderValid b with
    | false =>
      obtain ⟨hindex, htotals⟩ := ps2Byte_skip (c := c) hs hb
      obtain ⟨ihskip, ihtotals⟩ := ih hindex (by omega)
      refine ⟨fun h => ⟨rfl, ihskip h⟩, fun h => ?_⟩
      rw [← htotals]
      exact ihtotals h.2
    | true =>
      refine ⟨fun h => ?_, fun h => absurd h.1 (by decide)⟩
      rw [ps2Byte_take fun _ => hb, hs] at h
      dsimp only at h
      rw [if_pos (by omega)] at h
      exact absurd h (foldl_packetIndex_ne_zero (Nat.succ_ne_zero _) (by dsimp only; omega))

lemma foldl_taken (hs : s.packetIndex = 0) {p : Packet} (hheader : ps2HeaderValid p.header = true) :
    let s' := (p.header :: p.payload c).foldl (handlePs2Byte c) s
    s'.packetIndex = 0 ∧ s'.totals = s.totals.after c [p] := by
  cases hc : c.ps2HasWheel with
  | false =>
    have hsize : c.ps2PacketSize = 3 := by rw [Setup.ps2PacketSize, hc]; rfl
    simp [Packet.payload, hc, hsize, ps2Byte_take, hs, hheader]
    exact ps2Packet_totals _ p (by simp [hc])
  | true =>
    have hsize : c.ps2PacketSize = 4 := by rw [Setup.ps2PacketSize, hc]; rfl
    simp [Packet.payload, hc, hsize, ps2Byte_take, hs, hheader]
    exact ps2Packet_totals _ p fun _ => rfl

/-- One packet: the decoder is between two packets again exactly when the packet keeps it in step. -/
lemma foldl_packet (hs : s.packetIndex = 0) (p : Packet) :
    let s' := (p.header :: p.payload c).foldl (handlePs2Byte c) s
    (s'.packetIndex = 0 → p.InStep c) ∧
      (p.InStep c → s'.packetIndex = 0 ∧ s'.totals = s.totals.after c [p]) := by
  cases hheader : ps2HeaderValid p.header with
  | true => exact ⟨fun _ h => absurd h (by rw [hheader]; decide), fun _ => foldl_taken hs hheader⟩
  | false =>
    obtain ⟨hindex, htotals⟩ := ps2Byte_skip (c := c) hs hheader
    have hlen : (p.payload c).length < c.ps2PacketSize := by
      rw [Packet.payload, Setup.ps2PacketSize]
      split_ifs <;> exact Nat.lt_succ_self _
    obtain ⟨hskip, hkept⟩ := foldl_skip hindex hlen
    refine ⟨fun h _ => hskip h, fun h => ?_⟩
    have hreject : p.accepted = false := by simp [Packet.accepted, ps2PacketValid, hheader]
    rw [Totals.after_singleton, if_neg (by rw [hreject]; decide), ← htotals]
    exact hkept (h hheader)

/-- After each packet the decoder waits for a header and has decoded or rejected the packets as units,
exactly when no packet with a rejected header has a valid header in its payload. -/
theorem packetIndex_eq_zero_iff (c : Setup) (s : State) (ps : List Packet) :
    let start := { s with packetIndex := 0 }
    (∀ past, past <:+ ps → (stateAfter c start past).packetIndex = 0 ∧
      (stateAfter c start past).totals = start.totals.after c past) ↔ ∀ p ∈ ps, p.InStep c := by
  intro start
  induction ps with
  | nil =>
    refine iff_of_true (fun past hpast => ?_) (fun p hp => absurd hp not_mem_nil)
    rw [suffix_nil.mp hpast, Totals.after_nil]
    exact ⟨rfl, rfl⟩
  | cons p ps ih =>
    rw [forall_mem_cons, ← ih]
    constructor
    · intro h
      have hps := fun past (hpast : past <:+ ps) => h past (hpast.trans (suffix_cons p ps))
      refine ⟨?_, hps⟩
      exact (foldl_packet (hps ps suffix_rfl).1 p).1 (h (p :: ps) suffix_rfl).1
    · rintro ⟨hp, hps⟩ past hpast
      rcases suffix_cons_iff.mp hpast with rfl | hpast
      · obtain ⟨hindex, htotals⟩ := hps ps suffix_rfl
        rw [Totals.after_cons, ← htotals]
        exact (foldl_packet hindex p).2 hp
      · exact hps past hpast

/-- A packet with an overflow bit whose delta has the bits of a header: two bytes of it are left over. -/
theorem overflow_leaves_packetIndex :
    let p : Packet := ⟨0x48, 0x08, 0x00, 0x00, by decide⟩
    (stateAfter ⟨false, 640, 480⟩ {} [p]).packetIndex = 2 := by
  decide

end Mouse
