import Mathlib.Tactic

/-!
# Exchange sort

The sort of two nested index loops: round `i` compares entry `i` with every later one and exchanges
them where the later key is smaller. On lists, a round carries the entry at `i` along the rest.
-/

namespace ExchangeSort

variable {α κ : Type*} [LinearOrder κ] (key : α → κ)

/-- One round: the entry that ends up in front, and the entries behind it. -/
def pass (x : α) : List α → α × List α
  | [] => (x, [])
  | y :: ys =>
    if key y < key x then ((pass y ys).1, x :: (pass y ys).2)
    else ((pass x ys).1, y :: (pass x ys).2)

/-- `n` rounds. -/
def sort : ℕ → List α → List α
  | n + 1, x :: xs => (pass key x xs).1 :: sort n (pass key x xs).2
  | _, xs => xs

lemma pass_perm (x : α) (xs : List α) : ((pass key x xs).1 :: (pass key x xs).2).Perm (x :: xs) := by
  induction xs generalizing x with
  | nil => exact .refl _
  | cons y ys ih =>
    rw [pass]
    split_ifs
    · exact (List.Perm.swap _ _ _).trans ((ih y).cons x)
    · exact ((List.Perm.swap _ _ _).trans ((ih x).cons y)).trans (List.Perm.swap _ _ _)

lemma pass_fst_le (x : α) (xs : List α) : key (pass key x xs).1 ≤ key x := by
  induction xs generalizing x with
  | nil => exact le_refl _
  | cons y ys ih =>
    rw [pass]
    split_ifs with h
    · exact le_trans (ih y) h.le
    · exact ih x

/-- The entry in front after a round has the least key. -/
lemma pass_least (x : α) (xs : List α) : ∀ z ∈ (pass key x xs).2, key (pass key x xs).1 ≤ key z := by
  induction xs generalizing x with
  | nil => simp [pass]
  | cons y ys ih =>
    rw [pass]
    split_ifs with h
    · intro z hz
      rcases List.mem_cons.mp hz with rfl | hz
      · exact le_trans (pass_fst_le key y ys) h.le
      · exact ih y z hz
    · intro z hz
      rcases List.mem_cons.mp hz with rfl | hz
      · exact le_trans (pass_fst_le key x ys) (not_lt.mp h)
      · exact ih x z hz

lemma sort_perm (n : ℕ) (xs : List α) : (sort key n xs).Perm xs := by
  induction n generalizing xs with
  | zero => rw [sort.eq_def]
  | succ n ih =>
    cases xs with
    | nil => exact .refl _
    | cons x xs => exact ((ih _).cons _).trans (pass_perm key x xs)

/-- As many rounds as there are entries sort them. -/
lemma sort_sorted (n : ℕ) (xs : List α) (hn : xs.length ≤ n) :
    (sort key n xs).Pairwise fun a b => key a ≤ key b := by
  induction n generalizing xs with
  | zero =>
    rw [List.length_eq_zero_iff.mp (Nat.le_zero.mp hn)]
    exact .nil
  | succ n ih =>
    rcases xs with _ | ⟨x, xs⟩
    · exact .nil
    have hlen : (pass key x xs).2.length = xs.length := by
      simpa using (pass_perm key x xs).length_eq
    refine List.pairwise_cons.mpr ⟨fun z hz => ?_, ih _ (by simp at hn; omega)⟩
    exact pass_least key x xs z ((sort_perm key n _).mem_iff.mp hz)

end ExchangeSort
