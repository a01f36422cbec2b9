import LainOS.Lib.X64Runs
import LainOS.ZScript.Emit

/-!
# Copies of objects

`z_emit_copy_memory` emits a load and a store for every chunk of 8 bytes, then of 4 and 2, and one for
a last byte. A size below `2 ^ 31` keeps the 32-bit offset from wrapping around, and is a displacement.
-/

namespace ZScript

open X64

/-! ### Emission -/

/-- `z_emit_load_from_base_offset` and `z_emit_store_to_base_offset`, for the part of `rax` that has
`w` bytes. -/
def copyChunk (dst src : Reg) (w offset : ℕ) : Code :=
  [.load w .rax src offset, .store w dst offset .rax]

/-- The loop over chunks of `w` bytes, and the offset at its end. -/
def copyChunks (dst src : Reg) (w size offset : ℕ) : Code × ℕ :=
  if 0 < w ∧ offset + w ≤ size then
    let (code, stop) := copyChunks dst src w size (offset + w)
    (copyChunk dst src w offset ++ code, stop)
  else ([], offset)
termination_by size - offset

def emitCopyMemory (dst src : Reg) (size : ℕ) : Code :=
  let (eights, offset) := copyChunks dst src 8 size 0
  let (fours, offset) := copyChunks dst src 4 size offset
  let (twos, offset) := copyChunks dst src 2 size offset
  eights ++ fours ++ twos ++ if offset < size then copyChunk dst src 1 offset else []

/-! ### Execution -/

variable {prog code code' : Code} {dst src : Reg} {s : State} {size w offset stop stop' : ℕ}

/-- The first `n` bytes are copied. -/
structure Copied (dst src : Reg) (s : State) (n : ℕ) (t : State) : Prop where
  mem : t.mem = Mem.copy s.mem (s.regs dst).toNat s.mem (s.regs src).toNat n
  regs : ∀ r ≠ .rax, t.regs r = s.regs r

/-- The code copies the bytes from `offset` to `stop`. -/
def Copies (dst src : Reg) (s : State) (offset stop : ℕ) (code : Code) : Prop :=
  ∀ prog t, Copied dst src s offset t → CodeAt prog t.pc code →
    ∃ n tr u, Runs prog n t tr u ∧ u.pc = t.pc + code.length ∧ Copied dst src s stop u

lemma Copies.append (h : Copies dst src s offset stop code) (h' : Copies dst src s stop stop' code') :
    Copies dst src s offset stop' (code ++ code') := by
  intro prog t ht hcode
  obtain ⟨n, tr, u, hrun, hpc, hu⟩ := h prog t ht hcode.left
  obtain ⟨n', tr', u', hrun', hpc', hu'⟩ := h' prog u hu (hpc ▸ hcode.right)
  refine ⟨_, _, u', hrun.trans hrun', ?_, hu'⟩
  rw [hpc', hpc, List.length_append, Nat.add_assoc]

lemma Copies.nil : Copies dst src s offset offset [] := fun _ _ ht _ => ⟨0, [], _, .refl _, rfl, ht⟩

section

variable (hd : dst ≠ .rax) (hs : src ≠ .rax) (hdst : (s.regs dst).toNat + size ≤ 2 ^ 64)
  (hsrc : (s.regs src).toNat + size ≤ 2 ^ 64)
  (hapart : Span.Apart ⟨(s.regs dst).toNat, size⟩ ⟨(s.regs src).toNat, size⟩)
  (hw : w ∈ [1, 2, 4, 8])
include hd hs hdst hsrc hapart hw

lemma copies_chunk (hpos : 0 < w) (hle : offset + w ≤ size) :
    Copies dst src s offset (offset + w) (copyChunk dst src w offset) := by
  have haddr (t : State) (r : Reg) (ht : t.regs r = s.regs r)
      (hr : (s.regs r).toNat + size ≤ 2 ^ 64) : t.addr r offset = (s.regs r).toNat + offset := by
    simp [State.addr, ht]
    omega
  intro prog t ht hcode
  set d := (s.regs dst).toNat
  set p := (s.regs src).toNat
  set v := Mem.load w t.mem (p + offset) with hv
  set t₁ := (t.set .rax (Word.merge w (t.regs .rax) v)).next with ht₁
  have hregs : ∀ r ≠ .rax, t₁.regs r = s.regs r := by
    intro r hr
    simp [ht₁, State.next, State.set, hr, ht.regs r hr]
  have hload : exec prog t (.load w .rax src offset) = some t₁ := by
    rw [exec, haddr t src (ht.regs src hs) hsrc, State.read, if_pos (by omega)]
    rfl
  have hstore : exec prog t₁ (.store w dst offset .rax) =
      some { t₁ with
        mem := Mem.store w t.mem (d + offset) (t₁.regs .rax).toNat
        pc := t₁.pc + 1 } := by
    rw [exec, haddr t₁ dst (hregs dst hd) hdst, State.write, if_pos (by omega)]
    rfl
  refine ⟨_, _, _, (Runs.single hcode.head hload).trans (.single hcode.tail.head hstore), rfl, ?_,
    hregs⟩
  -- the source is still as it was
  have hsame : v = Mem.load w s.mem (p + offset) := by
    refine Mem.load_congr fun x hx hx' => ?_
    rw [ht.mem, Mem.copy, if_neg]
    simp only [Span.Apart, Span.stop] at hapart
    omega
  have hbytes : Mem.load w s.mem (p + offset) = (t₁.regs .rax).toNat % 256 ^ w := by
    rw [← hsame]
    simp [ht₁, State.next, State.set, Word.toNat_merge_mod _ hw (hv ▸ Mem.load_lt _ _ _)]
  rw [Mem.store_eq_copy hbytes, ht.mem, Mem.copy_copy]

lemma copies_chunks (hpos : 0 < w) (hle : offset ≤ size) :
    (copyChunks dst src w size offset).2 ≤ size ∧ size < (copyChunks dst src w size offset).2 + w ∧
      Copies dst src s offset (copyChunks dst src w size offset).2
        (copyChunks dst src w size offset).1 := by
  fun_induction copyChunks dst src w size offset with
  | case1 offset h code stop hrec ih =>
    rw [hrec] at ih
    obtain ⟨hstop, hlt, hcopies⟩ := ih h.2
    exact ⟨hstop, hlt, (copies_chunk hd hs hdst hsrc hapart hw hpos h.2).append hcopies⟩
  | case2 offset h => exact ⟨hle, by omega, .nil⟩

end

/-- The emitted code copies the object, and changes no other memory and no register but `rax`. -/
theorem emitCopyMemory_copies (hd : dst ≠ .rax) (hs : src ≠ .rax) (_ : size < 2 ^ 31)
    (hdst : (s.regs dst).toNat + size ≤ 2 ^ 64) (hsrc : (s.regs src).toNat + size ≤ 2 ^ 64)
    (hapart : Span.Apart ⟨(s.regs dst).toNat, size⟩ ⟨(s.regs src).toNat, size⟩)
    (hcode : CodeAt prog s.pc (emitCopyMemory dst src size)) :
    ∃ n tr u, Runs prog n s tr u ∧ u.pc = s.pc + (emitCopyMemory dst src size).length ∧
      u.mem = Mem.copy s.mem (s.regs dst).toNat s.mem (s.regs src).toNat size ∧
      ∀ r ≠ .rax, u.regs r = s.regs r := by
  have chunks {w offset} := @copies_chunks dst src s size w offset hd hs hdst hsrc hapart
  obtain ⟨height, -, hc⟩ := chunks (w := 8) (by decide) (by decide) (Nat.zero_le _)
  obtain ⟨hfour, -, hc'⟩ := chunks (w := 4) (by decide) (by decide) height
  obtain ⟨htwo, hlt, hc''⟩ := chunks (w := 2) (by decide) (by decide) hfour
  have hcopies : Copies dst src s 0 size (emitCopyMemory dst src size) := by
    refine ((hc.append hc').append hc'').append ?_
    split_ifs with h
    · have hlast := copies_chunk hd hs hdst hsrc hapart (w := 1) (by decide) (by decide) h
      rwa [show _ + 1 = size by omega] at hlast
    · rw [show _ = size from htwo.antisymm (not_lt.mp h)]
      exact .nil
  have hstart : Copied dst src s 0 s := by
    refine ⟨?_, fun _ _ => rfl⟩
    funext x
    simp [Mem.copy]
  obtain ⟨n, tr, u, hrun, hpc, hu⟩ := hcopies prog s hstart hcode
  exact ⟨n, tr, u, hrun, hpc, hu.mem, hu.regs⟩

theorem emitCopyMemory_thirteen : ∃ (s : State) (n : ℕ) (tr : List (ℕ × Word)) (u : State),
    Runs (emitCopyMemory .rdi .r15 13) n s tr u ∧
      u.mem = Mem.copy s.mem 0x2000 s.mem 0x1000 13 := by
  let s : State := ⟨fun r => if r = .rdi then 0x2000 else 0x1000, fun a => .ofNat a, none, 0⟩
  have hcode := codeAt_append [] (emitCopyMemory .rdi .r15 13) []
  obtain ⟨n, tr, u, hrun, -, hmem, -⟩ := emitCopyMemory_copies (s := s) (by decide) (by decide)
    (by decide) (by decide) (by decide) (by decide) hcode
  exact ⟨s, n, tr, u, by simpa using hrun, hmem⟩

end ZScript
