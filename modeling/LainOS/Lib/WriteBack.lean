import Mathlib.Tactic

/-!
# Write-back caches

A cache is a row of slots in front of a store. A slot is empty or holds a line: a key, the data
for it, whether the data is newer than the store, and a time stamp for the choice of a victim.
The view is what a reader sees: the cached data where there is a line for the key, the store
elsewhere. All statements are relative to a set `K` of keys, so that a cache shared by several
owners can be reasoned about for one of them: it is coherent on `K` when no key of `K` is held
twice and the clean lines of `K` agree with the store.
-/

namespace WriteBack

open Option Function

structure Line (κ α τ : Type*) where
  key : κ
  data : α
  dirty : Bool
  stamp : τ

variable {n : ℕ} {κ α τ : Type*} [DecidableEq κ]

/-- The first slot with a line for the key, and the line. -/
def lookup (c : Fin n → Option (Line κ α τ)) (k : κ) : Option (Fin n × Line κ α τ) :=
  (List.finRange n).findSome? fun i => (c i).bind fun l => if l.key = k then some (i, l) else none

def view (c : Fin n → Option (Line κ α τ)) (store : κ → α) (k : κ) : α :=
  match lookup c k with
  | some (_, l) => l.data
  | none => store k

structure CoherentOn (K : Set κ) (c : Fin n → Option (Line κ α τ)) (store : κ → α) : Prop where
  unique : ∀ i j l m, c i = some l → c j = some m → l.key = m.key → l.key ∈ K → i = j
  clean : ∀ i l, c i = some l → l.key ∈ K → l.dirty = false → l.data = store l.key

variable {K : Set κ} {c c' : Fin n → Option (Line κ α τ)} {store store' : κ → α} {i : Fin n}
  {k : κ} {l l' : Line κ α τ}

/-! ### Lookup -/

lemma lookup_eq_some (h : lookup c k = some (i, l)) : c i = some l ∧ l.key = k := by
  obtain ⟨j, -, hj⟩ := List.exists_of_findSome?_eq_some h
  obtain ⟨m, hm, hif⟩ := Option.bind_eq_some_iff.mp hj
  split_ifs at hif with hk
  cases hif
  exact ⟨hm, hk⟩

lemma lookup_eq_none : lookup c k = none ↔ ∀ i l, c i = some l → l.key ≠ k := by
  rw [lookup, List.findSome?_eq_none_iff]
  constructor
  · intro h i l hl hk
    have := h i (List.mem_finRange i)
    rw [hl, Option.bind_some, if_pos hk] at this
    cases this
  · intro h i _
    cases hl : c i with
    | none => rfl
    | some l => rw [Option.bind_some, if_neg (h i l hl)]

lemma view_of_lookup (h : lookup c k = some (i, l)) : view c store k = l.data := by rw [view, h]

lemma view_of_absent (h : ∀ i l, c i = some l → l.key ≠ k) : view c store k = store k := by
  rw [view, lookup_eq_none.mpr h]

section

variable (h : CoherentOn K c store)
include h

/-- On coherent keys the view of a cached key is the data of its line. -/
lemma CoherentOn.view_of_line (hl : c i = some l) (hk : l.key ∈ K) :
    view c store l.key = l.data := by
  rcases hlook : lookup c l.key with _ | found
  · exact absurd rfl (lookup_eq_none.mp hlook i l hl)
  obtain ⟨j, m⟩ := found
  obtain ⟨hm, hkey⟩ := lookup_eq_some hlook
  have hij := h.unique i j l m hl hm hkey.symm hk
  rw [← hij, hl] at hm
  cases hm
  exact view_of_lookup hlook

/-- The view is determined by which lines there are for the key. -/
lemma view_congr (h' : CoherentOn K c' store') (hk : k ∈ K)
    (hlines : ∀ d : α, (∃ i l, c i = some l ∧ l.key = k ∧ l.data = d) ↔
      ∃ i l, c' i = some l ∧ l.key = k ∧ l.data = d)
    (hstore : (∀ i l, c i = some l → l.key ≠ k) → store' k = store k) :
    view c' store' k = view c store k := by
  by_cases hcached : ∃ i l, c i = some l ∧ l.key = k
  · obtain ⟨i, l, hl, rfl⟩ := hcached
    obtain ⟨j, m, hm, hkey, hdata⟩ := (hlines l.data).mp ⟨i, l, hl, rfl, rfl⟩
    rw [h.view_of_line hl hk, ← hdata, ← hkey]
    exact h'.view_of_line hm (by rw [hkey]; exact hk)
  · have habs : ∀ i l, c i = some l → l.key ≠ k := fun i l hl he => hcached ⟨i, l, hl, he⟩
    have habs' : ∀ i l, c' i = some l → l.key ≠ k := by
      intro i l hl he
      obtain ⟨j, m, hm, hkey, -⟩ := (hlines l.data).mpr ⟨i, l, hl, he, rfl⟩
      exact habs j m hm hkey
    rw [view_of_absent habs, view_of_absent habs', hstore habs]

/-! ### The steps of a cache -/

/-- A write to the store behind a dirty line is not seen. -/
lemma CoherentOn.store_behind (store' : κ → α) (hl : c i = some l) (hdirty : l.dirty = true)
    (hstore : ∀ k ∈ K, k ≠ l.key → store' k = store k) :
    CoherentOn K c store' ∧ ∀ k ∈ K, view c store' k = view c store k := by
  have h' : CoherentOn K c store' := by
    refine ⟨h.unique, fun j m hm hk hclean => ?_⟩
    have hne : m.key ≠ l.key := by
      intro heq
      have := h.unique j i m l hm hl heq hk
      rw [this, hl] at hm
      cases hm
      rw [hdirty] at hclean
      cases hclean
    rw [hstore _ hk hne]
    exact h.clean j m hm hk hclean
  refine ⟨h', fun k hk => view_congr h h' hk (fun _ => Iff.rfl) fun habs => hstore k hk ?_⟩
  rintro rfl
  exact habs i l hl rfl

/-- A write to the store outside `K` is not seen on `K`. -/
lemma CoherentOn.store_outside (store' : κ → α) (hstore : ∀ k ∈ K, store' k = store k) :
    CoherentOn K c store' ∧ ∀ k ∈ K, view c store' k = view c store k := by
  have h' : CoherentOn K c store' :=
    ⟨h.unique, fun j m hm hk hclean => by rw [hstore _ hk]; exact h.clean j m hm hk hclean⟩
  exact ⟨h', fun k hk => view_congr h h' hk (fun _ => Iff.rfl) fun _ => hstore k hk⟩

end

omit [DecidableEq κ] in
lemma update_eq_some {o : Option (Line κ α τ)} {j : Fin n} (h : update c i o j = some l) :
    (j = i ∧ o = some l) ∨ (j ≠ i ∧ c j = some l) := by
  by_cases hj : j = i
  · rw [hj, update_self] at h
    exact .inl ⟨hj, h⟩
  · rw [update_of_ne hj] at h
    exact .inr ⟨hj, h⟩

variable (h : CoherentOn K c store)
include h

/-- A slot gets new contents. The line that was there is for the same key or has nothing unsaved, and
no other slot has the key of the new line. -/
lemma CoherentOn.set (o : Option (Line κ α τ))
    (hold : ∀ l, c i = some l → l.key ∈ K → l.dirty = false ∨ ∃ l', o = some l' ∧ l'.key = l.key)
    (hother : ∀ l', o = some l' → l'.key ∈ K → ∀ j l, j ≠ i → c j = some l → l.key ≠ l'.key)
    (hclean : ∀ l', o = some l' → l'.dirty = false → l'.key ∈ K → l'.data = store l'.key) :
    CoherentOn K (update c i o) store ∧ ∀ k ∈ K, (∀ l', o = some l' → k ≠ l'.key) →
      view (update c i o) store k = view c store k := by
  have h' : CoherentOn K (update c i o) store := by
    refine ⟨fun j j' m m' hm hm' hk hK => ?_, fun j m hm hK hcl => ?_⟩
    · rcases update_eq_some hm with ⟨hj, ho⟩ | ⟨hj, hcm⟩ <;>
        rcases update_eq_some hm' with ⟨hj', ho'⟩ | ⟨hj', hcm'⟩
      · rw [hj, hj']
      · exact absurd hk.symm (hother m ho hK j' m' hj' hcm')
      · exact absurd hk (hother m' ho' (hk ▸ hK) j m hj hcm)
      · exact h.unique j j' m m' hcm hcm' hk hK
    · rcases update_eq_some hm with ⟨-, ho⟩ | ⟨-, hm⟩
      · exact hclean m ho hcl hK
      · exact h.clean j m hm hK hcl
  refine ⟨h', fun k hk hne => ?_⟩
  by_cases hline : ∃ l, c i = some l ∧ l.key = k
  · -- the line thrown out was clean, so the store has its data
    obtain ⟨l, hl, rfl⟩ := hline
    have hsaved : l.dirty = false :=
      (hold l hl hk).resolve_right fun ⟨l', ho, hkey⟩ => hne l' ho hkey.symm
    rw [h.view_of_line hl hk, h.clean i l hl hk hsaved]
    refine view_of_absent fun j m hm hmk => ?_
    rcases update_eq_some hm with ⟨-, ho⟩ | ⟨hj, hm⟩
    · exact hne m ho hmk.symm
    · exact hj (h.unique j i m l hm hl hmk (by rw [hmk]; exact hk))
  · refine view_congr h h' hk (fun d => ⟨?_, ?_⟩) fun _ => rfl
    · rintro ⟨j, m, hm, hmk, hd⟩
      have hj : j ≠ i := by
        rintro rfl
        exact hline ⟨m, hm, hmk⟩
      exact ⟨j, m, by rw [update_of_ne hj]; exact hm, hmk, hd⟩
    · rintro ⟨j, m, hm, hmk, hd⟩
      rcases update_eq_some hm with ⟨-, ho⟩ | ⟨-, hm⟩
      · exact absurd hmk.symm (hne m ho)
      · exact ⟨j, m, hm, hmk, hd⟩

/-- A slot without unsaved data is emptied. -/
lemma CoherentOn.forget (hi : ∀ l, c i = some l → l.key ∈ K → l.dirty = false) :
    CoherentOn K (update c i none) store ∧
      ∀ k ∈ K, view (update c i none) store k = view c store k := by
  obtain ⟨h', hview⟩ := h.set none (fun l hl hk => .inl (hi l hl hk)) (by simp) (by simp)
  exact ⟨h', fun k hk => hview k hk (by simp)⟩

/-- Slot `i` holds the line now, and no other key looks different. -/
structure Held (K : Set κ) (c : Fin n → Option (Line κ α τ)) (store : κ → α) (i : Fin n)
    (l' : Line κ α τ) : Prop where
  coherent : CoherentOn K (update c i (some l')) store
  other : ∀ k ∈ K, k ≠ l'.key → view (update c i (some l')) store k = view c store k
  self : l'.key ∈ K → view (update c i (some l')) store l'.key = l'.data

lemma CoherentOn.held (hold : ∀ l, c i = some l → l.key ∈ K → l.dirty = false ∨ l'.key = l.key)
    (hother : l'.key ∈ K → ∀ j l, j ≠ i → c j = some l → l.key ≠ l'.key)
    (hclean : l'.dirty = false → l'.key ∈ K → l'.data = store l'.key) : Held K c store i l' := by
  obtain ⟨h', hview⟩ := h.set (i := i) (some l')
    (fun l hl hk => (hold l hl hk).imp_right fun hkey => ⟨l', rfl, hkey⟩)
    (fun m hm => some.inj hm ▸ hother) (fun m hm => some.inj hm ▸ hclean)
  exact ⟨h', fun k hk hne => hview k hk fun m hm => some.inj hm ▸ hne,
    h'.view_of_line (update_self i (some l') c)⟩

/-- A line is replaced by one for the same key. -/
lemma CoherentOn.modify (hl : c i = some l) (l' : Line κ α τ) (hkey : l'.key = l.key)
    (hclean : l'.dirty = false → l'.key ∈ K → l'.data = store l'.key) : Held K c store i l' := by
  refine h.held (fun m hm _ => ?_) (fun hK j m hj hm hmk => hj ?_) hclean
  · rw [hl] at hm
    cases hm
    exact .inr hkey
  · exact h.unique j i m l hm hl (hmk.trans hkey) (hmk ▸ hK)

/-- A slot without unsaved data takes a line for a key that is not cached. -/
lemma CoherentOn.replace (hi : ∀ l, c i = some l → l.key ∈ K → l.dirty = false) (l' : Line κ α τ)
    (habs : ∀ j l, c j = some l → l.key ≠ l'.key)
    (hclean : l'.dirty = false → l'.key ∈ K → l'.data = store l'.key) : Held K c store i l' :=
  h.held (fun l hl hk => .inl (hi l hl hk)) (fun _ j l _ => habs j l) hclean

/-- Lines outside `K` may come and go. -/
lemma CoherentOn.lines_outside (hlines : ∀ i l, l.key ∈ K → (c' i = some l ↔ c i = some l)) :
    CoherentOn K c' store ∧ ∀ k ∈ K, view c' store k = view c store k := by
  have h' : CoherentOn K c' store := by
    refine ⟨fun i j l m hl hm hk hK => ?_, fun i l hl hK hcl => ?_⟩
    · have hKm : m.key ∈ K := by rw [← hk]; exact hK
      exact h.unique i j l m ((hlines i l hK).mp hl) ((hlines j m hKm).mp hm) hk hK
    · exact h.clean i l ((hlines i l hK).mp hl) hK hcl
  refine ⟨h', fun k hk => view_congr h h' hk (fun d => ⟨?_, ?_⟩) fun _ => rfl⟩
  · rintro ⟨i, l, hl, rfl, hd⟩
    exact ⟨i, l, (hlines i l hk).mpr hl, rfl, hd⟩
  · rintro ⟨i, l, hl, rfl, hd⟩
    exact ⟨i, l, (hlines i l hk).mp hl, rfl, hd⟩

end WriteBack
