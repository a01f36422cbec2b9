import LainOS.Lib.Memory

/-!
# Records in a list of bytes

`At l off bs` says that the bytes `bs` stand in the list `l` at the offset `off`. It is built up from
the pieces a file is put together from: what stands in front, what follows, and the fields of a
record. A number is read from the memory that has the list at its start.
-/

def leBytes (n v : ℕ) : List UInt8 := (List.range n).map fun i => UInt8.ofNat (v / 256 ^ i)

/-- The memory that starts with these bytes. -/
def Mem.ofList (l : List UInt8) : Mem := fun x => l.getD x 0

@[simp] lemma length_leBytes (n v : ℕ) : (leBytes n v).length = n := by simp [leBytes]

def At (l : List UInt8) (off : ℕ) (bs : List UInt8) : Prop := bs <+: l.drop off

namespace At

open List

variable {l bs : List UInt8} {off : ℕ}

lemma zero (bs rest : List UInt8) : At (bs ++ rest) 0 bs := prefix_append bs rest

lemma self (bs : List UInt8) : At bs 0 bs := prefix_rfl

lemma append_left (pre : List UInt8) (h : At l off bs) : At (pre ++ l) (pre.length + off) bs := by
  rwa [At, drop_append, drop_eq_nil_of_le (by omega), nil_append, Nat.add_sub_cancel_left]

lemma append_right (post : List UInt8) (h : At l off bs) : At (l ++ post) off bs := by
  rw [At, drop_append]
  exact h.trans (prefix_append _ _)

/-- A part of the bytes that are found. -/
lemma trans {bs' : List UInt8} {off' : ℕ} (h : At l off bs) (h' : At bs off' bs') :
    At l (off + off') bs' := by
  rw [At, ← drop_drop]
  exact List.IsPrefix.trans h' (h.drop off')

/-- Record number `i` of a table. -/
lemma flatMap {α : Type*} {f : α → List UInt8} {size : ℕ} (hf : ∀ a, (f a).length = size)
    {xs : List α} {i : ℕ} {a : α} (h : xs[i]? = some a) : At (xs.flatMap f) (i * size) (f a) := by
  induction xs generalizing i with
  | nil => simp at h
  | cons x xs ih =>
    rw [List.flatMap_cons]
    cases i with
    | zero =>
      obtain rfl : x = a := by simpa using h
      rw [Nat.zero_mul]
      exact zero _ _
    | succ i =>
      have htail := (ih (by simpa using h : xs[i]? = some a)).append_left (f x)
      rwa [hf, Nat.add_comm, ← Nat.succ_mul] at htail

lemma getElem? (h : At l off bs) {i : ℕ} (hi : i < bs.length) : l[off + i]? = bs[i]? := by
  obtain ⟨rest, hrest⟩ := h
  rw [← getElem?_drop, ← hrest, getElem?_append_left hi]

lemma getElem (h : At l off bs) {i : ℕ} (hi : i < bs.length) : Mem.ofList l (off + i) = bs[i] := by
  simp [Mem.ofList, getD_eq_getElem?_getD, h.getElem? hi, hi]

lemma load {n v : ℕ} (h : At l off (leBytes n v)) : Mem.load n (Mem.ofList l) off = v % 256 ^ n := by
  refine Mem.load_eq_mod fun i hi => ?_
  rw [h.getElem (by simpa using hi)]
  simp [leBytes]

/-- A field of a record of numbers. -/
lemma load_field {n i v : ℕ} {fields : List ℕ} (h : At l off (fields.flatMap (leBytes n)))
    (hi : fields[i]? = some v) : Mem.load n (Mem.ofList l) (off + i * n) = v % 256 ^ n :=
  (h.trans (At.flatMap (length_leBytes n) hi)).load

end At

lemma length_records {α : Type*} {f : α → List UInt8} {size : ℕ}
    (hf : ∀ a, (f a).length = size) (xs : List α) : (xs.flatMap f).length = xs.length * size := by
  induction xs with
  | nil => simp
  | cons x xs ih =>
    rw [List.flatMap_cons, List.length_append, hf, ih, List.length_cons, Nat.succ_mul, Nat.add_comm]
