import LainOS.Lib.Records

/-!
# Bytes in place

`Text mem p bs` says that the bytes `bs` stand in the memory from `p` on.
-/

namespace Mem

variable {mem mem' : Mem} {p : ℕ} {b : UInt8} {bs bs' : List UInt8}

def Text (mem : Mem) : ℕ → List UInt8 → Prop
  | _, [] => True
  | p, b :: bs => mem p = b ∧ Text mem (p + 1) bs

@[simp] lemma text_nil : Text mem p [] := trivial

@[simp] lemma text_cons : Text mem p (b :: bs) ↔ mem p = b ∧ Text mem (p + 1) bs := Iff.rfl

lemma text_append : Text mem p (bs ++ bs') ↔ Text mem p bs ∧ Text mem (p + bs.length) bs' := by
  induction bs generalizing p with
  | nil => simp
  | cons b bs ih =>
    rw [List.cons_append, text_cons, text_cons, ih, List.length_cons, and_assoc,
      show p + 1 + bs.length = p + (bs.length + 1) by omega]

lemma Text.congr (h : Text mem p bs)
    (hmem : ∀ x, p ≤ x → x < p + bs.length → mem' x = mem x) : Text mem' p bs := by
  induction bs generalizing p with
  | nil => trivial
  | cons b bs ih =>
    rw [List.length_cons] at hmem
    refine ⟨(hmem p le_rfl (by omega)).trans h.1, ih h.2 fun x hx hx' => ?_⟩
    exact hmem x (by omega) (by omega)

/-- The memory with one byte replaced. -/
def set (mem : Mem) (p : ℕ) (b : UInt8) : Mem := fun x => if x = p then b else mem x

@[simp] lemma set_self (mem : Mem) (p : ℕ) (b : UInt8) : mem.set p b p = b := if_pos rfl

lemma set_of_ne (mem : Mem) (b : UInt8) {x : ℕ} (h : x ≠ p) : mem.set p b x = mem x := if_neg h

lemma text_ofList (bs : List UInt8) : Text (ofList bs) 0 bs := by
  suffices h : ∀ before : List UInt8, Text (ofList (before ++ bs)) before.length bs from h []
  induction bs with
  | nil => exact fun before => trivial
  | cons b bs ih =>
    intro before
    refine ⟨by simp [ofList], ?_⟩
    simpa using ih (before ++ [b])

end Mem
