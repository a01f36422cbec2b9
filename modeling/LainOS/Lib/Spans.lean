import Mathlib.Tactic

/-!
# Spans of addresses

A span is a stretch of consecutive natural numbers. Spans are apart when one ends before the other
starts, which for nonempty ones means that they share no number. A list of
spans sorted by their starts is coalesced by joining the ones that touch.
-/

/-- The numbers `start`, …, `stop - 1`, where `stop = start + len`. -/
structure Span where
  start : ℕ
  len : ℕ
deriving DecidableEq

namespace Span

open List

def stop (a : Span) : ℕ := a.start + a.len

def Mem (a : Span) (x : ℕ) : Prop := a.start ≤ x ∧ x < a.stop

/-- One of the spans ends before the other starts. -/
def Apart (a b : Span) : Prop := a.stop ≤ b.start ∨ b.stop ≤ a.start

instance (a b : Span) : Decidable (Apart a b) := inferInstanceAs (Decidable (_ ∨ _))

variable {a b c : Span}

lemma Apart.symm (h : Apart a b) : Apart b a := Or.symm h

/-- What is apart from a span is apart from every part of it. -/
lemma Apart.mono (h : Apart a b) (hstart : b.start ≤ c.start) (hstop : c.stop ≤ b.stop) :
    Apart a c := by
  simp only [Apart] at h ⊢
  simp only [stop] at h hstop ⊢
  omega

/-- A span inside another one. -/
def Inside (a b : Span) : Prop := b.start ≤ a.start ∧ a.stop ≤ b.stop

lemma Inside.refl (a : Span) : Inside a a := ⟨le_refl _, le_refl _⟩

lemma Apart.of_inside {a' b' : Span} (h : Apart a b) (ha : Inside a' a) (hb : Inside b' b) :
    Apart a' b' :=
  ((h.mono hb.1 hb.2).symm.mono ha.1 ha.2).symm

/-- Nonempty spans that are apart are not inside each other. -/
lemma Apart.not_inside (h : Apart a b) (ha : 0 < a.len) : ¬ Inside a b := by
  rintro ⟨hstart, hstop⟩
  simp only [Apart, stop] at h hstop
  omega

/-! ### Total length -/

def total (as : List Span) : ℕ := (as.map len).sum

@[simp]
lemma total_nil : total [] = 0 := rfl

@[simp]
lemma total_cons (a : Span) (as : List Span) : total (a :: as) = a.len + total as := rfl

/-- Spans that are apart and end at `n` or before have no more than `n` numbers in all. -/
lemma total_le {as : List Span} {n : ℕ} (hapart : as.Pairwise Apart) (hle : ∀ a ∈ as, a.stop ≤ n) :
    total as ≤ n := by
  let numbers := as.flatMap fun a => List.range' a.start a.len
  have hnodup : numbers.Nodup := by
    refine nodup_flatMap.mpr ⟨fun a _ => nodup_range', hapart.imp fun {a b} h x hx hy => ?_⟩
    simp only [mem_range'_1] at hx hy
    simp only [Apart, stop] at h
    omega
  have hsub : numbers ⊆ List.range n := by
    intro x hx
    obtain ⟨a, ha, hxa⟩ := mem_flatMap.mp hx
    have hstop := hle a ha
    simp only [mem_range'_1] at hxa
    simp only [stop] at hstop
    exact mem_range.mpr (by omega)
  have hlen : numbers.length = total as := by simp [numbers, length_flatMap, total]
  rw [← hlen]
  simpa using (subperm_of_subset hnodup hsub).length_le

/-! ### Coalescing -/

/-- Join each span with the ones behind it as long as they touch. -/
def coalesceFrom (a : Span) : List Span → List Span
  | [] => [a]
  | b :: rest =>
    if b.start ≤ a.stop then coalesceFrom ⟨a.start, b.stop - a.start⟩ rest
    else a :: coalesceFrom b rest

/-- Each span ends where the next one starts, or before. -/
abbrev Ordered (as : List Span) : Prop := as.Pairwise fun a b => a.stop ≤ b.start

/-- Each span ends before the next one starts, with a gap between them. -/
abbrev Separated (as : List Span) : Prop := as.Pairwise fun a b => a.stop < b.start

lemma Separated.apart {as : List Span} (h : Separated as) : as.Pairwise Apart :=
  h.imp fun hlt => .inl hlt.le

lemma Ordered.join {rest : List Span} (h : Ordered (a :: b :: rest)) :
    Ordered (⟨a.start, b.stop - a.start⟩ :: rest) := by
  obtain ⟨ha, hb⟩ := pairwise_cons.mp h
  obtain ⟨hb, hrest⟩ := pairwise_cons.mp hb
  have hab := ha b (mem_cons_self ..)
  refine pairwise_cons.mpr ⟨fun c hc => ?_, hrest⟩
  have hbc := hb c hc
  simp only [stop] at hab hbc ⊢
  omega

lemma total_coalesceFrom (a : Span) (rest : List Span) (h : Ordered (a :: rest)) :
    total (coalesceFrom a rest) = total (a :: rest) := by
  induction rest generalizing a with
  | nil => rfl
  | cons b rest ih =>
    have hab := (pairwise_cons.mp h).1 b (mem_cons_self ..)
    rw [coalesceFrom]
    split_ifs with htouch
    · rw [ih _ h.join]
      simp only [total_cons, stop] at hab htouch ⊢
      omega
    · rw [total_cons, ih b (pairwise_cons.mp h).2, total_cons a]

/-- A property of spans that joining keeps holds after coalescing. -/
lemma coalesce_induction {P : Span → Prop}
    (hjoin : ∀ a b, a.stop = b.start → P a → P b → P ⟨a.start, b.stop - a.start⟩) (a : Span)
    (rest : List Span) (h : Ordered (a :: rest)) (hP : ∀ c ∈ a :: rest, P c) :
    ∀ c ∈ coalesceFrom a rest, P c := by
  induction rest generalizing a with
  | nil => simpa [coalesceFrom] using hP
  | cons b rest ih =>
    simp only [forall_mem_cons] at hP
    obtain ⟨ha, hb, hrest⟩ := hP
    have hab := (pairwise_cons.mp h).1 b (mem_cons_self ..)
    rw [coalesceFrom]
    split_ifs with htouch
    · refine ih _ h.join (forall_mem_cons.mpr ⟨?_, hrest⟩)
      exact hjoin a b (le_antisymm hab htouch) ha hb
    · have htail := ih b (pairwise_cons.mp h).2 (forall_mem_cons.mpr ⟨hb, hrest⟩)
      exact forall_mem_cons.mpr ⟨ha, htail⟩

/-- Nothing starts before the first span did. -/
lemma start_le_of_mem_coalesceFrom (a : Span) (rest : List Span) (h : Ordered (a :: rest)) :
    ∀ c ∈ coalesceFrom a rest, a.start ≤ c.start := by
  refine coalesce_induction (fun _ _ _ hstart _ => hstart) a rest h ?_
  refine forall_mem_cons.mpr ⟨le_rfl, fun c hc => ?_⟩
  exact (Nat.le_add_right _ _).trans ((pairwise_cons.mp h).1 c hc)

theorem separated_coalesceFrom (a : Span) (rest : List Span) (h : Ordered (a :: rest)) :
    Separated (coalesceFrom a rest) := by
  induction rest generalizing a with
  | nil => exact pairwise_singleton _ _
  | cons b rest ih =>
    rw [coalesceFrom]
    split_ifs with htouch
    · exact ih _ h.join
    · have hrest := (pairwise_cons.mp h).2
      refine pairwise_cons.mpr ⟨fun c hc => ?_, ih b hrest⟩
      have := start_le_of_mem_coalesceFrom b rest hrest c hc
      omega

/-- A nonempty span that is apart from two touching ones is apart from their join. -/
lemma Apart.join (hc : 0 < c.len) (htouch : a.stop = b.start) (ha : Apart c a) (hb : Apart c b) :
    Apart c ⟨a.start, b.stop - a.start⟩ := by
  simp only [Apart, stop] at *
  omega

end Span
