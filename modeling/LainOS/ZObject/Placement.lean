import LainOS.ZObject.Link

/-!
# Where sections are put

Every nonempty section gets a stretch of the image of its own, behind the calls at its start, and the
stretch holds the bytes of the section (`place_placed`).
-/

namespace ZObject

open Mem List Function

variable {i outCapacity j : ℕ} {p : Placement} {st : LinkState}

/-- Byte `k` of a section: from the file, then zeroes. -/
def sectionByte (info : ObjectInfo) (s : Section) (k : ℕ) : UInt8 :=
  if k < s.fileSize then info.file.bytes (info.imageOffset + s.fileOffset + k) else 0

/-- A section to be placed: object and section index, object and section. -/
abbrev Placement : Type := (ℕ × ℕ) × ObjectInfo × Section

def placeOf (offsets : ℕ → ℕ → ℕ) (p : Placement) : Span :=
  ⟨offsets p.1.1 p.1.2, p.2.2.memSize⟩

/-! ### The order of sections -/

variable {objects : List LinkObject}

lemma mem_zipIdx_iff {α : Type*} {l : List α} {a : α} : (a, i) ∈ l.zipIdx ↔ l[i]? = some a := by
  rw [mem_zipIdx_iff_getElem?]

lemma mem_placements :
    p ∈ placements objects ↔ ∃ o, objects[p.1.1]? = some o ∧ o.sections[p.1.2]? = some p.2.2 ∧
      p.2.2.memSize ≠ 0 ∧ p.2.1 = o.info := by
  obtain ⟨⟨i, j⟩, info, s⟩ := p
  simp only [placements, mem_flatMap, mem_filterMap]
  constructor
  · rintro ⟨type, -, ⟨o, i'⟩, ho, ⟨s', j'⟩, hs, heq⟩
    split_ifs at heq with hcond
    cases heq
    exact ⟨o, mem_zipIdx_iff.mp ho, mem_zipIdx_iff.mp hs, hcond.2, rfl⟩
  · rintro ⟨o, ho, hs, hsize, rfl⟩
    refine ⟨s.type, ?_, (o, i), mem_zipIdx_iff.mpr ho, (s, j), mem_zipIdx_iff.mpr hs, ?_⟩
    · cases s.type <;> simp
    · rw [if_pos ⟨rfl, hsize⟩]

lemma pairwise_zipIdx {α : Type*} (l : List α) : l.zipIdx.Pairwise fun a b => a.2 ≠ b.2 := by
  have h : (l.zipIdx.map Prod.snd).Pairwise fun a b => a ≠ b := by
    rw [zipIdx_map_snd]
    exact nodup_range'
  exact pairwise_map.mp h

/-- No section is placed twice. -/
lemma placements_keys : (placements objects).Pairwise fun p q => p.1 ≠ q.1 := by
  refine pairwise_flatMap.mpr ⟨fun type _ => ?_, ?_⟩
  · refine pairwise_flatMap.mpr ⟨fun o _ => ?_, (pairwise_zipIdx objects).imp ?_⟩
    · refine pairwise_filterMap.mpr ((pairwise_zipIdx o.1.sections).imp ?_)
      intro a b hab p hp q hq heq
      split_ifs at hp hq
      cases hp
      cases hq
      exact hab (Prod.ext_iff.mp heq).2
    · intro a b hab p hp q hq heq
      obtain ⟨s, -, hs⟩ := mem_filterMap.mp hp
      obtain ⟨t, -, ht⟩ := mem_filterMap.mp hq
      split_ifs at hs ht
      cases hs
      cases ht
      exact hab (Prod.ext_iff.mp heq).1
  · -- a section has one type only
    have hall : ∀ a b : SectionType, a ≠ b → ∀ p ∈ objects.zipIdx.flatMap fun o =>
        o.1.sections.zipIdx.filterMap fun s =>
          if s.1.type = a ∧ s.1.memSize ≠ 0 then some ((o.2, s.2), o.1.info, s.1) else none,
        ∀ q ∈ objects.zipIdx.flatMap fun o => o.1.sections.zipIdx.filterMap fun s =>
          if s.1.type = b ∧ s.1.memSize ≠ 0 then some ((o.2, s.2), o.1.info, s.1) else none,
        p.1 ≠ q.1 := by
      intro a b hab p hp q hq heq
      obtain ⟨⟨o, i⟩, ho, hp⟩ := mem_flatMap.mp hp
      obtain ⟨⟨s, j⟩, hs, hp⟩ := mem_filterMap.mp hp
      obtain ⟨⟨o', i'⟩, ho', hq⟩ := mem_flatMap.mp hq
      obtain ⟨⟨s', j'⟩, hs', hq⟩ := mem_filterMap.mp hq
      split_ifs at hp hq with hsa hsb
      cases hp
      cases hq
      obtain ⟨rfl, rfl⟩ := Prod.ext_iff.mp heq
      obtain rfl : o = o' := Option.some.inj ((mem_zipIdx_iff.mp ho).symm.trans (mem_zipIdx_iff.mp ho'))
      obtain rfl : s = s' := Option.some.inj ((mem_zipIdx_iff.mp hs).symm.trans (mem_zipIdx_iff.mp hs'))
      exact hab (hsa.1.symm.trans hsb.1)
    simp only [pairwise_cons, mem_cons, not_mem_nil, or_false, forall_eq_or_imp, forall_eq]
    exact ⟨⟨hall _ _ (by decide), hall _ _ (by decide)⟩, hall _ _ (by decide), by simp,
      List.Pairwise.nil⟩

/-! ### Placing -/

/-- What placing one section does. -/
lemma placeSection_eq_some {st' : LinkState} {info : ObjectInfo} {s : Section}
    (h : placeSection outCapacity st i j info s = some st') :
    let start := max st.outputOffset (alignUp16 st.outputOffset)
    st'.outputOffset = start + s.memSize ∧ st'.outputOffset ≤ outCapacity ∧
      st'.sectionOffsets = update st.sectionOffsets i (update (st.sectionOffsets i) j start) ∧
      (∀ x < st.outputOffset, st'.out x = st.out x) ∧
      ∀ k < s.memSize, st'.out (start + k) = sectionByte info s k := by
  rw [placeSection] at h
  dsimp only at h
  split_ifs at h with haligned hroom
  cases h
  have hle : st.outputOffset ≤ max st.outputOffset (alignUp16 st.outputOffset) := le_max_left _ _
  generalize max st.outputOffset (alignUp16 st.outputOffset) = start at hroom hle
  refine ⟨rfl, by dsimp only; omega, rfl, fun x hx => ?_, fun k hk => ?_⟩
  · simp only [copy, fill]
    rw [if_neg (by omega), if_neg (by omega), if_neg (by omega)]
  · simp only [sectionByte, copy, fill]
    by_cases hfile : k < s.fileSize
    · rw [if_pos ⟨by omega, by omega⟩, if_pos hfile, Nat.add_sub_cancel_left]
    · rw [if_neg (by omega), if_neg hfile, if_pos ⟨by omega, by omega⟩]

/-- The sections in `done` are placed: behind the calls, in order, with their bytes. -/
structure Placed (low : ℕ) (done : List Placement) (st : LinkState) : Prop where
  low_le : low ≤ st.outputOffset
  bounds : ∀ p ∈ done, low ≤ (placeOf st.sectionOffsets p).start ∧
    (placeOf st.sectionOffsets p).stop ≤ st.outputOffset
  ordered : done.Pairwise fun p q =>
    (placeOf st.sectionOffsets p).stop ≤ (placeOf st.sectionOffsets q).start
  bytes : ∀ p ∈ done, ∀ k < p.2.2.memSize,
    st.out ((placeOf st.sectionOffsets p).start + k) = sectionByte p.2.1 p.2.2 k

lemma placeOf_update_of_ne {offsets : ℕ → ℕ → ℕ} {start : ℕ} (h : p.1 ≠ (i, j)) :
    placeOf (update offsets i (update (offsets i) j start)) p = placeOf offsets p := by
  obtain ⟨⟨i', j'⟩, info, s⟩ := p
  rw [placeOf, placeOf]
  by_cases hi : i' = i
  · subst hi
    rw [update_self, update_of_ne fun hj => h (Prod.ext rfl hj)]
  · rw [update_of_ne hi]

lemma Placed.step {low outCapacity : ℕ} {done : List Placement} {st st' : LinkState} {p : Placement}
    (h : Placed low done st) (hkeys : ∀ q ∈ done, q.1 ≠ p.1)
    (hstep : placeSection outCapacity st p.1.1 p.1.2 p.2.1 p.2.2 = some st') :
    Placed low (done ++ [p]) st' := by
  obtain ⟨hoffset, -, hoffsets, hold, hnew⟩ := placeSection_eq_some hstep
  have hle : st.outputOffset ≤ max st.outputOffset (alignUp16 st.outputOffset) := le_max_left _ _
  generalize max st.outputOffset (alignUp16 st.outputOffset) = start at *
  have hsame : ∀ q ∈ done, placeOf st'.sectionOffsets q = placeOf st.sectionOffsets q :=
    fun q hq => by rw [hoffsets, placeOf_update_of_ne (hkeys q hq)]
  have hplace : placeOf st'.sectionOffsets p = ⟨start, p.2.2.memSize⟩ := by
    rw [placeOf, hoffsets, update_self, update_self]
  have hlow := h.low_le
  refine ⟨by omega, ?_, ?_, ?_⟩
  · refine forall_mem_append.mpr ⟨fun q hq => ?_, ?_⟩
    · have := h.bounds q hq
      rw [hsame q hq]
      omega
    · simp only [mem_singleton, forall_eq, hplace, Span.stop]
      omega
  · refine pairwise_append.mpr ⟨h.ordered.imp_of_mem fun {q r} hq hr hqr => ?_,
      pairwise_singleton _ _, fun q hq r hr => ?_⟩
    · rwa [hsame q hq, hsame r hr]
    · rw [mem_singleton.mp hr, hplace, hsame q hq]
      exact (h.bounds q hq).2.trans hle
  · refine forall_mem_append.mpr ⟨fun q hq k hk => ?_, ?_⟩
    · rw [hsame q hq, hold]
      · exact h.bytes q hq k hk
      · have := (h.bounds q hq).2
        simp only [Span.stop, placeOf] at this ⊢
        omega
    · simp only [mem_singleton, forall_eq, hplace]
      exact hnew

lemma Placed.run {low outCapacity : ℕ} {done rest : List Placement} {st st' : LinkState}
    (h : Placed low done st) (hkeys : (done ++ rest).Pairwise fun p q => p.1 ≠ q.1)
    (hrun : rest.foldlM
      (fun st p => placeSection outCapacity st p.1.1 p.1.2 p.2.1 p.2.2) st = some st') :
    Placed low (done ++ rest) st' := by
  induction rest generalizing done st with
  | nil =>
    cases hrun
    rwa [append_nil]
  | cons p rest ih =>
    obtain ⟨st₁, hstep, hrest⟩ := Option.bind_eq_some_iff.mp hrun
    have hp : ∀ q ∈ done, q.1 ≠ p.1 := fun q hq =>
      (pairwise_append.mp hkeys).2.2 q hq p (mem_cons_self ..)
    rw [append_cons] at hkeys ⊢
    exact ih (h.step hp hstep) hkeys hrest

lemma Placed.apart {low : ℕ} {done : List Placement} {q : Placement} (h : Placed low done st)
    (hp : p ∈ done) (hq : q ∈ done) (hne : p.1 ≠ q.1) :
    Span.Apart (placeOf st.sectionOffsets p) (placeOf st.sectionOffsets q) := by
  have hsymm : Std.Symm fun p q : Placement =>
      Span.Apart (placeOf st.sectionOffsets p) (placeOf st.sectionOffsets q) :=
    ⟨fun _ _ hpq => hpq.symm⟩
  have hpairs : done.Pairwise fun p q =>
      Span.Apart (placeOf st.sectionOffsets p) (placeOf st.sectionOffsets q) :=
    h.ordered.imp fun hpq => Or.inl hpq
  exact hpairs.forall hp hq fun heq => hne (congrArg Prod.fst heq)

theorem place_placed {objects : List LinkObject} {out : Mem}
    (h : placeSections outCapacity objects out = some st) :
    Placed (objects.length * 5 + 1) (placements objects) st := by
  have hempty : Placed (objects.length * 5 + 1) []
      (⟨out, objects.length * 5 + 1, fun _ _ => 0⟩ : LinkState) :=
    ⟨le_refl _, by simp, List.Pairwise.nil, by simp⟩
  exact hempty.run placements_keys h

end ZObject
