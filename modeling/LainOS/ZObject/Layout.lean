import LainOS.ZObject.Placement

/-!
# Addresses before and after linking

The places of the sections depend on their order and sizes alone (`layoutOffsets`). An address of an
object is looked up among its sections and moves with the section it lies in (`mapAddress`).
-/

namespace ZObject

open Mem Function

variable {sections : List Section} {a : ℕ} {s : Section × ℕ}

/-! ### The layout -/

def layoutStep (l : ℕ × (ℕ → ℕ → ℕ)) (p : Placement) : ℕ × (ℕ → ℕ → ℕ) :=
  let start := max l.1 (alignUp16 l.1)
  (start + p.2.2.memSize, update l.2 p.1.1 (update (l.2 p.1.1) p.1.2 start))

def layoutOffsets (objects : List LinkObject) : ℕ → ℕ → ℕ :=
  ((placements objects).foldl layoutStep (objects.length * 5 + 1, fun _ _ => 0)).2

variable {outCapacity : ℕ} {st st' : LinkState}

lemma placeSection_layout {p : Placement}
    (h : placeSection outCapacity st p.1.1 p.1.2 p.2.1 p.2.2 = some st') :
    (st'.outputOffset, st'.sectionOffsets) = layoutStep (st.outputOffset, st.sectionOffsets) p := by
  obtain ⟨hoffset, -, hoffsets, -⟩ := placeSection_eq_some h
  rw [layoutStep, hoffset, hoffsets]

variable {ps : List Placement}

lemma foldlM_placeSection_layout
    (h : ps.foldlM (fun st p => placeSection outCapacity st p.1.1 p.1.2 p.2.1 p.2.2) st = some st') :
    (st'.outputOffset, st'.sectionOffsets) =
      ps.foldl layoutStep (st.outputOffset, st.sectionOffsets) := by
  induction ps generalizing st with
  | nil =>
    cases h
    rfl
  | cons p ps ih =>
    obtain ⟨st₁, hstep, hrest⟩ := Option.bind_eq_some_iff.mp h
    rw [ih hrest, placeSection_layout hstep, List.foldl_cons]

lemma place_sectionOffsets {objects : List LinkObject} {out : Mem}
    (h : placeSections outCapacity objects out = some st) :
    st.sectionOffsets = layoutOffsets objects :=
  congrArg Prod.snd (foldlM_placeSection_layout h)

lemma placeSection_capacity
    (h : ps.foldlM (fun st p => placeSection outCapacity st p.1.1 p.1.2 p.2.1 p.2.2) st = some st')
    (hps : ps ≠ []) : st'.outputOffset ≤ outCapacity := by
  induction ps generalizing st with
  | nil => exact absurd rfl hps
  | cons p ps ih =>
    obtain ⟨st₁, hstep, hrest⟩ := Option.bind_eq_some_iff.mp h
    by_cases hlast : ps = []
    · subst hlast
      cases hrest
      exact (placeSection_eq_some hstep).2.1
    · exact ih hrest hlast

lemma alignUp16_aligned {value : ℕ} (h : value + 15 < 2 ^ 32) :
    value ≤ alignUp16 value ∧ alignUp16 value % 16 = 0 := by
  rw [alignUp16, Nat.mod_eq_of_lt h]
  omega

/-- Sections start inside the output, and at multiples of 16 unless the output reaches the end of the
address space. -/
def OffsetsFit (outCapacity : ℕ) (offsets : ℕ → ℕ → ℕ) : Prop :=
  ∀ i j, offsets i j ≤ outCapacity ∧ (outCapacity + 16 ≤ 2 ^ 32 → offsets i j % 16 = 0)

lemma OffsetsFit.update {start : ℕ} {offsets : ℕ → ℕ → ℕ} (h : OffsetsFit outCapacity offsets)
    (hstart : start ≤ outCapacity) (haligned : outCapacity + 16 ≤ 2 ^ 32 → start % 16 = 0) (i j : ℕ) :
    OffsetsFit outCapacity (update offsets i (update (offsets i) j start)) := by
  intro i' j'
  by_cases hi : i' = i
  · subst hi
    rw [update_self]
    by_cases hj : j' = j
    · subst hj
      rw [update_self]
      exact ⟨hstart, haligned⟩
    · rw [update_of_ne hj]
      exact h _ _
  · rw [update_of_ne hi]
    exact h _ _

lemma placeSection_offsetsFit
    (h : ps.foldlM (fun st p => placeSection outCapacity st p.1.1 p.1.2 p.2.1 p.2.2) st = some st')
    (hst : OffsetsFit outCapacity st.sectionOffsets) : OffsetsFit outCapacity st'.sectionOffsets := by
  induction ps generalizing st with
  | nil =>
    cases h
    exact hst
  | cons p ps ih =>
    obtain ⟨st₁, hstep, hrest⟩ := Option.bind_eq_some_iff.mp h
    refine ih hrest ?_
    obtain ⟨hoffset, hroom, hoffsets, -⟩ := placeSection_eq_some hstep
    have hle : st.outputOffset ≤ max st.outputOffset (alignUp16 st.outputOffset) := le_max_left _ _
    rw [hoffsets]
    refine hst.update (by omega) (fun hcapacity => ?_) _ _
    obtain ⟨hup, haligned⟩ := alignUp16_aligned (show st.outputOffset + 15 < 2 ^ 32 by omega)
    rwa [max_eq_right hup]

/-! ### Looking up addresses -/

/-- The section that decides about an address, with its index. -/
def sectionOf (sections : List Section) (a : ℕ) : Option (Section × ℕ) :=
  sections.zipIdx.find? fun s => s.1.memSize != 0 && decide (s.1.loadOffset ≤ a) &&
    decide (a < s.1.loadOffset + s.1.memSize)

lemma sectionOf_some (h : sectionOf sections a = some s) :
    sections[s.2]? = some s.1 ∧ s.1.memSize ≠ 0 ∧ s.1.loadOffset ≤ a ∧
      a < s.1.loadOffset + s.1.memSize := by
  have hmem := List.mem_of_find?_eq_some h
  have hcond := List.find?_some h
  simp only [Bool.and_eq_true, bne_iff_ne, decide_eq_true_eq] at hcond
  exact ⟨mem_zipIdx_iff.mp hmem, hcond.1.1, hcond.1.2, hcond.2⟩

lemma mapSection_eq_some {offsets : ℕ → ℕ} {x : ℕ}
    (h : mapSectionOffset sections offsets a = some x) :
    ∃ s, sectionOf sections a = some s ∧ x = offsets s.2 + (a - s.1.loadOffset) := by
  rw [mapSectionOffset] at h
  split_ifs at h
  obtain ⟨s, hs, rfl⟩ := Option.map_eq_some_iff.mp h
  exact ⟨s, hs, rfl⟩

/-- Where an address of the object with index `i` comes to lie in the image. -/
def mapAddress (objects : List LinkObject) (o : LinkObject × ℕ) (a : ℕ) : Option ℕ :=
  mapSectionOffset o.1.sections (layoutOffsets objects o.2) a

/-- The same for an address that was computed with a displacement. -/
def mapTarget (objects : List LinkObject) (o : LinkObject × ℕ) (a : ℤ) : Option ℕ :=
  if a < 0 then none else mapAddress objects o a.toNat

/-! ### Fields -/

/-- The fields to be patched, in order. -/
def linkRelocations (objects : List LinkObject) : List ((LinkObject × ℕ) × ℕ) :=
  objects.zipIdx.flatMap fun o => (List.range o.1.info.relocCount).map fun j => (o, j)

lemma mem_relocations {objects : List LinkObject} {o : LinkObject × ℕ} {j : ℕ} :
    (o, j) ∈ linkRelocations objects ↔ o ∈ objects.zipIdx ∧ j < o.1.info.relocCount := by
  simp only [linkRelocations, List.mem_flatMap, List.mem_map, List.mem_range]
  constructor
  · rintro ⟨o', ho', j', hj', heq⟩
    cases heq
    exact ⟨ho', hj'⟩
  · rintro ⟨ho, hj⟩
    exact ⟨o, ho, j, hj, rfl⟩

lemma relocationAt_lt {info : ObjectInfo} {j : ℕ} {r : Relocation} (h : relocationAt info j = some r) :
    j < info.relocCount := by
  by_contra hge
  rw [relocationAt, if_pos (by omega)] at h
  cases h

def Relocation.span (r : Relocation) : Span := ⟨r.offset, r.type.size⟩

/-- The number an object has in the field of a relocation. -/
def storedField (o : LinkObject) (r : Relocation) : ℕ :=
  match sectionOf o.sections r.offset with
  | some s => load r.type.size (sectionByte o.info s.1) (r.offset - s.1.loadOffset)
  | none => 0

/-- The field of a relocation does not run over the end of the section it starts in. -/
def FieldInside (o : LinkObject) (r : Relocation) : Prop :=
  ∀ s, sectionOf o.sections r.offset = some s → r.span.stop ≤ s.1.loadOffset + s.1.memSize

variable {objects : List LinkObject} {o o' : LinkObject × ℕ} {r r' : Relocation} {st : LinkState}

lemma mem_placements_of_sectionOf (ho : o ∈ objects.zipIdx) (hs : sectionOf o.1.sections a = some s)
    :
    (((o.2, s.2), o.1.info, s.1) : Placement) ∈ placements objects := by
  obtain ⟨hsection, hsize, -⟩ := sectionOf_some hs
  exact mem_placements.mpr ⟨o.1, mem_zipIdx_iff.mp ho, hsection, hsize, rfl⟩

variable {low patch : ℕ}

variable (h : Placed low (placements objects) st) (ho : o ∈ objects.zipIdx)
include h ho

/-- A field that does not run over the end of its section has the object's bytes after placing. -/
lemma Placed.load_field (hinside : FieldInside o.1 r)
    (hpatch : mapSectionOffset o.1.sections (st.sectionOffsets o.2) r.offset = some patch) :
    load r.type.size st.out patch = storedField o.1 r := by
  obtain ⟨s, hs, rfl⟩ := mapSection_eq_some hpatch
  have hplaced := h.bytes _ (mem_placements_of_sectionOf ho hs)
  have hstop := hinside s hs
  obtain ⟨-, -, hlow, -⟩ := sectionOf_some hs
  simp only [storedField, hs]
  simp only [Relocation.span, Span.stop] at hstop
  simp only [placeOf] at hplaced
  refine load_eq_load fun k hk => ?_
  rw [Nat.add_assoc]
  exact hplaced _ (by omega)

/-- Fields that are apart in an object, or belong to different objects, are apart in the image. -/
lemma Placed.fields_apart {patch' : ℕ} (ho' : o' ∈ objects.zipIdx) (hinside : FieldInside o.1 r)
    (hinside' : FieldInside o'.1 r') (hapart : o.2 = o'.2 → Span.Apart r.span r'.span)
    (hpatch : mapSectionOffset o.1.sections (st.sectionOffsets o.2) r.offset = some patch)
    (hpatch' : mapSectionOffset o'.1.sections (st.sectionOffsets o'.2) r'.offset = some patch') :
    Span.Apart ⟨patch, r.type.size⟩ ⟨patch', r'.type.size⟩ := by
  obtain ⟨s, hs, rfl⟩ := mapSection_eq_some hpatch
  obtain ⟨s', hs', rfl⟩ := mapSection_eq_some hpatch'
  have hstop := hinside s hs
  have hstop' := hinside' s' hs'
  obtain ⟨hsection, -, hlow, -⟩ := sectionOf_some hs
  obtain ⟨hsection', -, hlow', -⟩ := sectionOf_some hs'
  simp only [Relocation.span, Span.stop, Span.Apart] at hstop hstop' hapart ⊢
  by_cases hkey : (o.2, s.2) = (o'.2, s'.2)
  · -- the same section: it moved as a whole
    obtain ⟨hi, hj⟩ := Prod.mk.inj hkey
    have hobj : o = o' := by
      have := (mem_zipIdx_iff.mp ho).symm.trans (hi ▸ mem_zipIdx_iff.mp ho')
      exact Prod.ext (Option.some.inj this) hi
    subst hobj
    have hsame : s.1 = s'.1 := Option.some.inj (hsection.symm.trans (hj ▸ hsection'))
    obtain rfl : s = s' := Prod.ext hsame hj
    have := hapart rfl
    omega
  · have hplaces := h.apart (mem_placements_of_sectionOf ho hs) (mem_placements_of_sectionOf ho' hs')
      hkey
    simp only [Span.Apart, Span.stop, placeOf] at hplaces
    omega

end ZObject
