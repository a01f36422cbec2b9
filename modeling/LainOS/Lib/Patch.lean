import LainOS.Lib.Memory

/-!
# Patching fields

A patch replaces the number in a field by one computed from it. Patches of fields that are apart do
not see each other: each of them computes from the number the field had before all of them.
-/

structure Patch where
  span : Span
  value : ℕ → Option ℕ

namespace Patch

open Mem Option

def field (p : Patch) (mem : Mem) : ℕ := load p.span.len mem p.span.start

def apply (mem : Mem) (p : Patch) : Option Mem :=
  (p.value (p.field mem)).map (store p.span.len mem p.span.start)

def applyAll (mem : Mem) (ps : List Patch) : Option Mem := ps.foldlM apply mem

variable {mem mem' : Mem}

lemma field_congr {p : Patch} (h : ∀ x, p.span.Mem x → mem' x = mem x) : p.field mem' = p.field mem :=
  load_congr fun x hx hx' => h x ⟨hx, hx'⟩

lemma apply_eq_some {p : Patch} (h : apply mem p = some mem') :
    ∃ v, p.value (p.field mem) = some v ∧ p.field mem' = v % 256 ^ p.span.len ∧
      Changed p.span mem mem' := by
  obtain ⟨v, hv, rfl⟩ := map_eq_some_iff.mp h
  exact ⟨v, hv, load_store_same _ _ _ _, store_changed _ _ _ _⟩

/-- Outside the fields nothing changes. -/
lemma applyAll_elsewhere {ps : List Patch} (h : applyAll mem ps = some mem') {x : ℕ}
    (hx : ∀ p ∈ ps, ¬ p.span.Mem x) : mem' x = mem x := by
  induction ps generalizing mem with
  | nil =>
    cases h
    rfl
  | cons p ps ih =>
    obtain ⟨mem₁, hp, hps⟩ := bind_eq_some_iff.mp h
    obtain ⟨-, -, -, hchanged⟩ := apply_eq_some hp
    obtain ⟨hxp, hxps⟩ := List.forall_mem_cons.mp hx
    rw [ih hps hxps, hchanged x hxp]

theorem applyAll_field {ps : List Patch} (hapart : ps.Pairwise fun p q => Span.Apart p.span q.span)
    (h : applyAll mem ps = some mem') :
    ∀ p ∈ ps, ∃ v, p.value (p.field mem) = some v ∧ p.field mem' = v % 256 ^ p.span.len := by
  induction ps generalizing mem with
  | nil => simp
  | cons p ps ih =>
    obtain ⟨mem₁, hp, hps⟩ := bind_eq_some_iff.mp h
    obtain ⟨v, hv, hfield, hchanged⟩ := apply_eq_some hp
    obtain ⟨hfirst, hrest⟩ := List.pairwise_cons.mp hapart
    refine List.forall_mem_cons.mpr ⟨⟨v, hv, ?_⟩, fun q hq => ?_⟩
    · -- the later patches leave this field alone
      rw [← hfield]
      refine field_congr fun x hx => applyAll_elsewhere hps fun q hq hxq => ?_
      have := hfirst q hq
      simp only [Span.Apart, Span.Mem] at this hx hxq
      omega
    · obtain ⟨w, hw, hqfield⟩ := ih hrest hps q hq
      have hsame : q.field mem₁ = q.field mem := hchanged.load (hfirst q hq).symm
      exact ⟨w, hsame ▸ hw, hqfield⟩

/-- A loop that first finds out what to patch. -/
lemma foldlM_bind_apply {α : Type*} {f : α → Option Patch} {xs : List α}
    (h : xs.foldlM (fun mem x => (f x).bind (apply mem)) mem = some mem') :
    applyAll mem (xs.filterMap f) = some mem' ∧ ∀ x ∈ xs, ∃ p, f x = some p := by
  induction xs generalizing mem with
  | nil => exact ⟨h, by simp⟩
  | cons x xs ih =>
    obtain ⟨mem₁, hx, hxs⟩ := bind_eq_some_iff.mp h
    obtain ⟨p, hp, happly⟩ := bind_eq_some_iff.mp hx
    obtain ⟨hrest, hall⟩ := ih hxs
    rw [List.filterMap_cons_some hp]
    exact ⟨bind_eq_some_iff.mpr ⟨mem₁, happly, hrest⟩, List.forall_mem_cons.mpr ⟨⟨p, hp⟩, hall⟩⟩

/-- Such a loop computes every new field from the memory before the loop. -/
theorem foldlM_field {α : Type*} {f : α → Option Patch} {xs : List α}
    (hapart : xs.Pairwise fun x y => ∀ p, f x = some p → ∀ q, f y = some q →
      Span.Apart p.span q.span)
    (h : xs.foldlM (fun mem x => (f x).bind (apply mem)) mem = some mem') {x : α} (hx : x ∈ xs) :
    ∃ p v, f x = some p ∧ p.value (p.field mem) = some v ∧ p.field mem' = v % 256 ^ p.span.len := by
  obtain ⟨happly, hall⟩ := foldlM_bind_apply h
  obtain ⟨p, hp⟩ := hall x hx
  have hmem : p ∈ xs.filterMap f := List.mem_filterMap.mpr ⟨x, hx, hp⟩
  obtain ⟨v, hv⟩ := applyAll_field (List.pairwise_filterMap.mpr hapart) happly p hmem
  exact ⟨p, v, hp, hv⟩

end Patch
