import Mathlib.Tactic

/-!
# Walks along a partial successor function

`next : α → Option α` points from a node to its parent. A node is *grounded* when the walk from
it ends, and on a finite type this is decided by walking with a set of seen nodes until a node
repeats. The lemmas behind that say how groundedness survives the change of one pointer, and the last
section what happens to the cycles when pointers are cut one by one, each time the one that the
search from the least start reports.
-/

namespace ParentWalk

variable {α : Type*} {next next' : α → Option α} {x y z : α}

/-- One step of the walk. -/
def Step (next : α → Option α) (x y : α) : Prop := next x = some y

/-- The walk from the node ends. -/
inductive Grounded (next : α → Option α) : α → Prop
  | stop {x : α} : next x = none → Grounded next x
  | step {x y : α} : next x = some y → Grounded next y → Grounded next x

lemma Grounded.of_step (h : Grounded next x) (hs : Step next x y) : Grounded next y := by
  cases h with
  | stop hn => rw [Step, hn] at hs; cases hs
  | step hy hg =>
    rw [Step, hy] at hs
    cases hs
    exact hg

lemma Grounded.of_transGen (h : Grounded next x) (hs : Relation.TransGen (Step next) x y) :
    Grounded next y := by
  induction hs with
  | single hs => exact h.of_step hs
  | tail _ hs ih => exact ih.of_step hs

/-- A grounded node lies on no cycle. -/
theorem Grounded.not_transGen (h : Grounded next x) : ¬ Relation.TransGen (Step next) x x := by
  induction h with
  | stop hn =>
    intro hc
    obtain ⟨w, hw, -⟩ := Relation.TransGen.head'_iff.mp hc
    rw [Step, hn] at hw
    cases hw
  | @step x y hxy hg ih =>
    intro hc
    obtain ⟨w, hw, hwx⟩ := Relation.TransGen.head'_iff.mp hc
    rw [Step, hxy] at hw
    cases hw
    exact ih (.tail' hwx hxy)

/-! ### Search for a repeated node -/

/-- Walk from `x` until the walk ends or comes back to a seen node. -/
def findRepeat {α : Type*} [DecidableEq α] [Fintype α] (next : α → Option α) (seen : Finset α) (x : α) : Option α :=
  if x ∈ seen then some x
  else
    match next x with
    | none => none
    | some y => findRepeat next (insert x seen) y
termination_by Fintype.card α - seen.card
decreasing_by
  rename_i hx
  have hlt : seen.card < Fintype.card α :=
    Finset.card_lt_univ_of_notMem hx
  rw [Finset.card_insert_of_notMem hx]
  omega

section

variable [DecidableEq α] [Fintype α]

lemma grounded_of_findRepeat_eq_none {seen : Finset α} (h : findRepeat next seen x = none) :
    Grounded next x := by
  fun_induction findRepeat next seen x with
  | case1 seen x hx => cases h
  | case2 seen x hx hn => exact .stop hn
  | case3 seen x hx y hy ih => exact .step hy (ih h)

/-- The nodes of the walk so far all lead to the current node. -/
lemma findRepeat_eq_some {seen : Finset α} {c : α}
    (hseen : ∀ w ∈ seen, Relation.TransGen (Step next) w x) (h : findRepeat next seen x = some c) :
    Relation.TransGen (Step next) c c ∧ Relation.ReflTransGen (Step next) x c := by
  fun_induction findRepeat next seen x with
  | case1 seen x hx =>
    cases h
    exact ⟨hseen _ hx, .refl⟩
  | case2 seen x hx hn => cases h
  | case3 seen x hx y hy ih =>
    have hinv : ∀ w ∈ insert x seen, Relation.TransGen (Step next) w y := by
      intro w hw
      rcases Finset.mem_insert.mp hw with rfl | hw
      · exact .single hy
      · exact .tail (hseen w hw) hy
    obtain ⟨hcc, hyc⟩ := ih hinv h
    exact ⟨hcc, .head hy hyc⟩

/-- The search finds nothing exactly when the walk ends. -/
theorem findRepeat_none_iff : findRepeat next ∅ x = none ↔ Grounded next x := by
  refine ⟨grounded_of_findRepeat_eq_none, fun hg => ?_⟩
  rcases h : findRepeat next ∅ x with _ | c
  · rfl
  obtain ⟨hcc, hxc⟩ := findRepeat_eq_some (by simp) h
  rcases Relation.reflTransGen_iff_eq_or_transGen.mp hxc with rfl | hxc
  · exact absurd hcc hg.not_transGen
  · exact absurd hcc (hg.of_transGen hxc).not_transGen

end

/-! ### Changing one pointer -/

/-- A walk that never meets `z` does not see a change at `z`. -/
lemma Grounded.of_agree_of_not_reaches (hagree : ∀ w, w ≠ z → next' w = next w)
    (h : Grounded next x) (hnot : ¬ Relation.ReflTransGen (Step next) x z) : Grounded next' x := by
  induction h with
  | @stop x hn =>
    have hxz : x ≠ z := fun hxz => hnot (hxz ▸ .refl)
    exact .stop ((hagree x hxz).trans hn)
  | @step x y hxy hg ih =>
    have hxz : x ≠ z := fun hxz => hnot (hxz ▸ .refl)
    exact .step ((hagree x hxz).trans hxy) (ih fun hyz => hnot (.head hxy hyz))

/-- Changing the pointer of `z` keeps everything grounded as long as `z` stays grounded. -/
lemma Grounded.of_agree (hagree : ∀ w, w ≠ z → next' w = next w) (hz : Grounded next' z)
    (h : Grounded next x) : Grounded next' x := by
  induction h with
  | @stop x hn =>
    by_cases hxz : x = z
    · exact hxz ▸ hz
    · exact .stop ((hagree x hxz).trans hn)
  | @step x y hxy hg ih =>
    by_cases hxz : x = z
    · exact hxz ▸ hz
    · exact .step ((hagree x hxz).trans hxy) ih

/-! ### Cutting pointers -/

section

open Relation

lemma step_rightUnique (next : α → Option α) : Relator.RightUnique (Step next) := by
  intro x y z hy hz
  rw [Step] at hy hz
  exact Option.some.inj (hy.symm.trans hz)

/-- What is reached from a cycle lies on it. -/
lemma reaches_back (hx : TransGen (Step next) x x) (h : ReflTransGen (Step next) x y) :
    ReflTransGen (Step next) y x := by
  induction h with
  | refl => exact .refl
  | @tail b c hxb hbc ih =>
    rcases ReflTransGen.cases_head ih with rfl | ⟨w, hw, hwx⟩
    · obtain ⟨w, hw, hwx⟩ := TransGen.head'_iff.mp hx
      rwa [step_rightUnique next hbc hw]
    · rwa [step_rightUnique next hbc hw]

/-- Two nodes that are reached from one node, the second of them on a cycle. -/
lemma reaches_of_common (hxy : ReflTransGen (Step next) x y) (hxz : ReflTransGen (Step next) x z)
    (hz : TransGen (Step next) z z) : ReflTransGen (Step next) y z := by
  rcases ReflTransGen.total_of_right_unique (step_rightUnique next) hxy hxz with h | h
  · exact h
  · exact reaches_back hz h

variable (hz : next' z = none) (hagree : ∀ w, w ≠ z → next' w = next w)
include hz hagree

lemma step_of_cut (h : Step next' x y) : Step next x y := by
  by_cases hx : x = z
  · rw [Step, hx, hz] at h
    cases h
  · rwa [Step, ← hagree x hx]

lemma reaches_of_cut (h : ReflTransGen (Step next') x y) : ReflTransGen (Step next) x y :=
  ReflTransGen.lift id (fun _ _ => step_of_cut hz hagree) _ _ h

/-- A walk goes on without the pointer, unless it needs it. -/
lemma reaches_cut (h : ReflTransGen (Step next) x y) : ReflTransGen (Step next') x y ∨
      ReflTransGen (Step next) x z ∧ ReflTransGen (Step next) z y := by
  induction h using ReflTransGen.head_induction_on with
  | refl => exact .inl .refl
  | @head x w hxw hwy ih =>
    by_cases hx : x = z
    · subst hx
      exact .inr ⟨.refl, .head hxw hwy⟩
    · rcases ih with ih | ⟨hwz, hzy⟩
      · exact .inl (.head ((hagree x hx).trans hxw) ih)
      · exact .inr ⟨.head hxw hwz, hzy⟩

lemma grounded_cut (h : ReflTransGen (Step next) x z) : Grounded next' x := by
  induction h using ReflTransGen.head_induction_on with
  | refl => exact .stop hz
  | @head x w hxw hwz ih =>
    by_cases hx : x = z
    · subst hx
      exact .stop hz
    · exact .step ((hagree x hx).trans hxw) ih

end

open Relation

variable [DecidableEq α] [Fintype α]

/-- A search that does not come to `z` does not see a change at `z`. -/
lemma findRepeat_of_not_reaches {seen : Finset α} (hagree : ∀ w, w ≠ z → next' w = next w)
    (hnot : ¬ ReflTransGen (Step next) x z) : findRepeat next' seen x = findRepeat next seen x := by
  fun_induction findRepeat next seen x with
  | case1 seen x hx => rw [findRepeat, if_pos hx]
  | case2 seen x hx hn =>
    have hxz : x ≠ z := fun hxz => hnot (hxz ▸ .refl)
    rw [findRepeat, if_neg hx, (hagree x hxz).trans hn]
  | case3 seen x hx y hy ih =>
    have hxz : x ≠ z := fun hxz => hnot (hxz ▸ .refl)
    rw [findRepeat, if_neg hx, (hagree x hxz).trans hy]
    exact ih fun hyz => hnot (.head hy hyz)

lemma findRepeat_spec {c : α} (h : findRepeat next ∅ x = some c) :
    TransGen (Step next) c c ∧ ReflTransGen (Step next) x c :=
  findRepeat_eq_some (by simp) h

variable [LinearOrder α] {start : α → Prop} {k : α}

/-- The search from the least start whose walk comes to `k` reports `k`. -/
def CutAt (next : α → Option α) (start : α → Prop) (k : α) : Prop :=
  ∃ i, start i ∧ findRepeat next ∅ i = some k ∧
    ∀ j < i, start j → ¬ ReflTransGen (Step next) j k

lemma CutAt.onCycle (h : CutAt next start k) : TransGen (Step next) k k := by
  obtain ⟨i, -, hi, -⟩ := h
  exact (findRepeat_spec hi).1

/-- Two such nodes on one cycle are the same. -/
lemma CutAt.unique {l : α} (hk : CutAt next start k) (hl : CutAt next start l)
    (hkl : ReflTransGen (Step next) k l) : k = l := by
  have hlk := reaches_back hk.onCycle hkl
  obtain ⟨i, hi, hik, hleast⟩ := hk
  obtain ⟨j, hj, hjl, hleast'⟩ := hl
  have hreach := (findRepeat_spec hik).2
  have hreach' := (findRepeat_spec hjl).2
  rcases lt_trichotomy i j with hlt | rfl | hlt
  · exact absurd (hreach.trans hkl) (hleast' i hlt hi)
  · rw [hik] at hjl
    exact Option.some.inj hjl
  · exact absurd (hreach'.trans hlk) (hleast j hlt hj)

/-- Cutting the pointer of a reported node, or of one from which the walk ends, removes this node
from the reported ones and no other. -/
theorem cutAt_cut_iff (hz : next' z = none) (hagree : ∀ w, w ≠ z → next' w = next w)
    (hcut : Grounded next z ∨ CutAt next start z) :
    CutAt next' start k ↔ CutAt next start k ∧ k ≠ z := by
  constructor
  · rintro ⟨i, hi, hik, hleast⟩
    -- the walk from `i` does not come to `z`, as it would end there
    have hnot : ¬ ReflTransGen (Step next) i z := by
      intro hiz
      rw [findRepeat_none_iff.mpr (grounded_cut hz hagree hiz)] at hik
      cases hik
    rw [findRepeat_of_not_reaches hagree hnot] at hik
    obtain ⟨hkk, hreach⟩ := findRepeat_spec hik
    have hkz : ¬ ReflTransGen (Step next) k z := fun hkz => hnot (hreach.trans hkz)
    refine ⟨⟨i, hi, hik, fun j hj hstart hjk => ?_⟩, fun hk => hkz (hk ▸ .refl)⟩
    rcases reaches_cut hz hagree hjk with hjk' | ⟨-, hzk⟩
    · exact hleast j hj hstart hjk'
    rcases hcut with hground | hcut
    · rcases reflTransGen_iff_eq_or_transGen.mp hzk with rfl | hzk
      · exact hground.not_transGen hkk
      · exact (hground.of_transGen hzk).not_transGen hkk
    · exact hkz (reaches_back hcut.onCycle hzk)
  · rintro ⟨hk, hne⟩
    have hkk := hk.onCycle
    obtain ⟨i, hi, hik, hleast⟩ := id hk
    have hreach := (findRepeat_spec hik).2
    have hnot : ¬ ReflTransGen (Step next) i z := by
      intro hiz
      have hzk := reaches_of_common hiz hreach hkk
      rcases hcut with hground | hcut
      · rcases reflTransGen_iff_eq_or_transGen.mp hzk with rfl | hzk
        · exact hne rfl
        · exact (hground.of_transGen hzk).not_transGen hkk
      · exact hne (hcut.unique hk hzk).symm
    refine ⟨i, hi, (findRepeat_of_not_reaches hagree hnot).trans hik, fun j hj hstart hjk => ?_⟩
    exact hleast j hj hstart (reaches_of_cut hz hagree hjk)

end ParentWalk
