import LainOS.Lib.Patch
import LainOS.ZObject.Exports
import LainOS.ZObject.Write

/-!
# The linked image

What every relocated field of a linked image has to hold, and when the linker gets it right. A RIP32
field is followed by the rest of its instruction, an immediate operand perhaps. The linker does not
know how many bytes these are: it takes the address right behind the field for the origin of the
displacement. The address it looks up is then before the one the instruction means, by as many bytes,
and in front of the first byte of a section it is one of another section.
-/

namespace ZObject

open Mem List
open Option (bind_some map_some bind_eq_some_iff map_eq_some_iff)

variable {o : LinkObject × ℕ} {j : ℕ} {r : Relocation} {d : ℤ}

/-! ### What the fields have to hold -/

section

variable (kernelExport : List UInt8 → Option UInt64) (externals : List Resolved) (base : UInt64)
  (objects : List LinkObject)

/-- The contents `new` of the field at `patch` are right; `trailing` bytes follow it in its
instruction. -/
def FieldCorrect (trailing : ℕ) (o : LinkObject × ℕ) (r : Relocation) (patch new : ℕ) : Prop :=
  let old := storedField o.1 r
  match r.type with
  | .relative64 =>
    ∃ x, mapAddress objects o old = some x ∧ new = (base.toNat + x) % 2 ^ 64
  | .rip32 =>
    if r.name = [] then
      ∃ x, mapTarget objects o (r.offset + 4 + trailing + signed32 old) = some x ∧
        (base.toNat + patch + 4 + trailing : ℤ) + signed32 new = base.toNat + x
    else
      (exportsOf objects r.name).length ≤ 1 →
        ∃ s, linkedAddress kernelExport externals base objects r.name = some s ∧
          signed32 new ≡ s.toNat + signed32 old - (base.toNat + patch) [ZMOD 2 ^ 64]
  | .abs64 =>
    (exportsOf objects r.name).length ≤ 1 →
      ∃ s, linkedAddress kernelExport externals base objects r.name = some s ∧
        new = (s.toNat + old) % 2 ^ 64

/-- Every field is right, and the other bytes of the sections are those of the objects. -/
structure LinkCorrect (trailing : ℕ → ℕ → ℕ) (out : Mem) : Prop where
  fields : ∀ o ∈ objects.zipIdx, ∀ j r, relocationAt o.1.info j = some r →
    ∃ patch, mapAddress objects o r.offset = some patch ∧
      FieldCorrect kernelExport externals base objects (trailing o.2 j) o r patch
        (load r.type.size out patch)
  others : ∀ p ∈ placements objects, ∀ k < p.2.2.memSize,
    (∀ o ∈ objects.zipIdx, ∀ j r patch, relocationAt o.1.info j = some r →
      mapAddress objects o r.offset = some patch →
        ¬ Span.Mem ⟨patch, r.type.size⟩ ((placeOf (layoutOffsets objects) p).start + k)) →
    out ((placeOf (layoutOffsets objects) p).start + k) = sectionByte p.2.1 p.2.2 k

end

/-- Fields keep to their sections and out of each other's way, and the names that relocations have fit
into the table of the linker. -/
structure Tidy (objects : List LinkObject) : Prop where
  inside : ∀ o ∈ objects, ∀ j r, relocationAt o.info j = some r → FieldInside o r
  apart : ∀ o ∈ objects, ∀ j j' r r', j ≠ j' → relocationAt o.info j = some r →
    relocationAt o.info j' = some r' → Span.Apart r.span r'.span
  namesFit : ∀ o ∈ objects, ∀ j r, relocationAt o.info j = some r → NameKept objects r.name

/-- The target of a RIP32 field moves by as much as the address the linker looks up for it. -/
def TargetFollows (objects : List LinkObject) (trailing : ℕ) (o : LinkObject × ℕ) (r : Relocation) :
    Prop :=
  ∀ x, mapTarget objects o (r.offset + 4 + signed32 (storedField o.1 r)) = some x →
    mapTarget objects o (r.offset + 4 + trailing + signed32 (storedField o.1 r)) = some (x + trailing)

/-- What is asked of the fields without a name: the target of a RIP32 field follows, and an ABS64 field,
for which the linker takes no addend, has none. -/
structure UnnamedFollow (objects : List LinkObject) (trailing : ℕ) (o : LinkObject × ℕ)
    (r : Relocation) : Prop where
  rip32 : r.type = .rip32 → r.name = [] → TargetFollows objects trailing o r
  abs64 : r.type = .abs64 → r.name = [] → (exportsOf objects r.name).length ≤ 1 →
    storedField o.1 r = 0

/-! ### The passes -/

section

variable {base : UInt64} {objects : List LinkObject} {offsets : ℕ → ℕ → ℕ} {out out' : Mem}
  {entryStart x : ℕ}

lemma writeEntry_elsewhere (h : writeEntry base entryStart offsets out o = some out')
    (hx : o.2 * 5 + 5 ≤ x) : out' x = out x := by
  rw [writeEntry] at h
  dsimp only at h
  split_ifs at h
  · cases h
    rw [fill, if_neg (by omega)]
  split at h
  · cases h
  · split_ifs at h
    cases h
    rw [store, if_neg (by omega), store, if_neg (by omega)]

lemma foldlM_writeEntry_elsewhere {n : ℕ} {os : List (LinkObject × ℕ)}
    (h : os.foldlM (writeEntry base entryStart offsets) out = some out')
    (hos : ∀ o ∈ os, o.2 < n) (hx : n * 5 ≤ x) : out' x = out x := by
  induction os generalizing out with
  | nil =>
    cases h
    rfl
  | cons o os ih =>
    obtain ⟨out₁, hstep, hrest⟩ := bind_eq_some_iff.mp h
    obtain ⟨ho, hos⟩ := forall_mem_cons.mp hos
    rw [ih hrest hos, writeEntry_elsewhere hstep (by omega)]

/-- The calls at the start leave the sections alone. -/
lemma writeEntries_elsewhere (h : writeEntries base entryStart offsets objects out = some out')
    (hx : objects.length * 5 + 1 ≤ x) : out' x = out x := by
  obtain ⟨out₁, hcalls, rfl⟩ := map_eq_some_iff.mp h
  rw [store, if_neg (by omega)]
  exact foldlM_writeEntry_elsewhere hcalls (fun o ho => snd_lt_of_mem_zipIdx ho) (by omega)

variable {resolve : List UInt8 → Option UInt64}

def patchOf (base : UInt64) (resolve : List UInt8 → Option UInt64) (offsets : ℕ → ℕ → ℕ)
    (p : (LinkObject × ℕ) × ℕ) : Option Patch :=
  (relocationAt p.1.1.info p.2).bind fun r =>
    (mapSectionOffset p.1.1.sections (offsets p.1.2) r.offset).map fun patch =>
      ⟨⟨patch, r.type.size⟩, relocValue base resolve p.1.1.sections (offsets p.1.2) r patch⟩

lemma patchOf_eq_some {p : (LinkObject × ℕ) × ℕ} {q : Patch}
    (h : patchOf base resolve offsets p = some q) :
    ∃ r patch, relocationAt p.1.1.info p.2 = some r ∧
      mapSectionOffset p.1.1.sections (offsets p.1.2) r.offset = some patch ∧
      q = ⟨⟨patch, r.type.size⟩, relocValue base resolve p.1.1.sections (offsets p.1.2) r patch⟩ := by
  obtain ⟨r, hr, hq⟩ := bind_eq_some_iff.mp h
  obtain ⟨patch, hpatch, rfl⟩ := map_eq_some_iff.mp hq
  exact ⟨r, patch, hr, hpatch, rfl⟩

lemma relocate_eq_patch (p : (LinkObject × ℕ) × ℕ) : relocate base resolve offsets out p.1 p.2 =
      (patchOf base resolve offsets p).bind (Patch.apply out) := by
  rw [relocate, patchOf]
  cases relocationAt p.1.1.info p.2 with
  | none => rfl
  | some r =>
    simp only [bind_some]
    cases mapSectionOffset p.1.1.sections (offsets p.1.2) r.offset <;> rfl

lemma relocateAll_eq_patches :
    relocateAll base resolve offsets objects out = (linkRelocations objects).foldlM
      (fun out p => (patchOf base resolve offsets p).bind (Patch.apply out)) out := by
  simp only [relocateAll, linkRelocations, relocate_eq_patch]

/-- No field is visited twice. -/
lemma relocations_keys :
    (linkRelocations objects).Pairwise fun p q => p.1.2 = q.1.2 → p.2 ≠ q.2 := by
  refine pairwise_flatMap.mpr ⟨fun o _ => ?_, (pairwise_zipIdx objects).imp ?_⟩
  · refine pairwise_map.mpr (pairwise_lt_range.imp ?_)
    intro j j' hlt _ heq
    exact absurd heq hlt.ne
  · intro o o' hne p hp q hq heq
    obtain ⟨j, -, rfl⟩ := mem_map.mp hp
    obtain ⟨j', -, rfl⟩ := mem_map.mp hq
    exact absurd heq hne

lemma patches_apart {low : ℕ} {st : LinkState} (hplaced : Placed low (placements objects) st)
    (htidy : Tidy objects) : (linkRelocations objects).Pairwise fun p q =>
      ∀ a, patchOf base resolve st.sectionOffsets p = some a →
        ∀ b, patchOf base resolve st.sectionOffsets q = some b → Span.Apart a.span b.span := by
  refine relocations_keys.imp_of_mem fun {p q} hp hq hkeys a ha b hb => ?_
  obtain ⟨r, patch, hr, hpatch, rfl⟩ := patchOf_eq_some ha
  obtain ⟨r', patch', hr', hpatch', rfl⟩ := patchOf_eq_some hb
  have hop := (mem_relocations.mp hp).1
  have hoq := (mem_relocations.mp hq).1
  refine hplaced.fields_apart hop hoq (htidy.inside _ (fst_mem_of_mem_zipIdx hop) _ _ hr)
    (htidy.inside _ (fst_mem_of_mem_zipIdx hoq) _ _ hr') (fun heq => ?_) hpatch hpatch'
  have hsame : p.1 = q.1 :=
    Prod.ext (Option.some.inj ((mem_zipIdx_iff.mp hop).symm.trans (heq ▸ mem_zipIdx_iff.mp hoq))) heq
  exact htidy.apart _ (fst_mem_of_mem_zipIdx hop) p.2 q.2 r r' (hkeys heq) hr (hsame ▸ hr')

end

/-! ### The values -/

section

variable {kernelExport : List UInt8 → Option UInt64} {externals : List Resolved} {base : UInt64}
  {objects : List LinkObject} {resolve : List UInt8 → Option UInt64} {patch v trailing : ℕ}

lemma signed32_emod (h : fitsInt32 d = true) : signed32 (d % 2 ^ 32).toNat = d := by
  simp only [fitsInt32, Bool.and_eq_true, decide_eq_true_eq] at h
  have hnonneg : 0 ≤ d % 2 ^ 32 := Int.emod_nonneg _ (by omega)
  refine (Int.bmod_eq_iff (Nat.two_pow_pos 32)).mpr ?_
  omega

/-- A displacement that was checked is read back from its field. -/
lemma signed32_field (h : fitsInt32 d = true) : signed32 ((d % 2 ^ 32).toNat % 256 ^ 4) = d := by
  have hlt : (d % 2 ^ 32).toNat < 256 ^ 4 := by omega
  rw [Nat.mod_eq_of_lt hlt, signed32_emod h]

/-- What the linker writes into a RIP32 field with a name. -/
lemma value_rip32_named_eq_some {sections : List Section} {offsets : ℕ → ℕ} {old : ℕ}
    (htype : r.type = .rip32) (hname : r.name ≠ [])
    (h : relocValue base resolve sections offsets r patch old = some v) :
    ∃ s, resolve r.name = some s ∧
      signed32 (v % 256 ^ 4) ≡ s.toNat + signed32 old - (base.toNat + patch) [ZMOD 2 ^ 64] := by
  simp only [relocValue, htype, if_pos hname] at h
  rcases hs : resolve r.name with _ | s
  · simp [hs] at h
  simp only [hs, map_some] at h
  split_ifs at h with hfits
  obtain rfl := Option.some.inj h
  refine ⟨s, rfl, ?_⟩
  rw [signed32_field hfits, int64, Int.ModEq, Nat.cast_add]
  exact Int.bmod_emod

variable (h : relocValue base resolve o.1.sections (layoutOffsets objects o.2) r patch
  (storedField o.1 r) = some v)
include h

lemma value_relative64 (htype : r.type = .relative64) :
    FieldCorrect kernelExport externals base objects trailing o r patch (v % 256 ^ r.type.size) := by
  simp only [relocValue, htype] at h
  obtain ⟨x, hx, rfl⟩ := map_eq_some_iff.mp h
  simp only [FieldCorrect, htype, RelocType.size]
  refine ⟨x, hx, ?_⟩
  rw [UInt64.toNat_add, UInt64.toNat_ofNat']
  omega

lemma value_abs64 (htype : r.type = .abs64) (hname : r.name ≠ [])
    (hresolve : (exportsOf objects r.name).length ≤ 1 → ∀ s, resolve r.name = some s →
      linkedAddress kernelExport externals base objects r.name = some s) :
    FieldCorrect kernelExport externals base objects trailing o r patch (v % 256 ^ r.type.size) := by
  simp only [relocValue, htype, if_pos hname] at h
  obtain ⟨s, hs, rfl⟩ := map_eq_some_iff.mp h
  simp only [FieldCorrect, htype, RelocType.size]
  refine fun hunique => ⟨s, hresolve hunique s hs, ?_⟩
  rw [UInt64.toNat_add, UInt64.toNat_ofNat']
  omega

/-- Without a name the addend is not added. -/
lemma value_abs64_unnamed (htype : r.type = .abs64) (hname : r.name = [])
    (hresolve : (exportsOf objects r.name).length ≤ 1 → ∀ s, resolve r.name = some s →
      linkedAddress kernelExport externals base objects r.name = some s) :
    FieldCorrect kernelExport externals base objects trailing o r patch (v % 256 ^ r.type.size) ↔
      ((exportsOf objects r.name).length ≤ 1 → storedField o.1 r = 0) := by
  have hold : storedField o.1 r < 2 ^ 64 := by
    rw [storedField, htype]
    split
    · exact load_lt _ _ _
    · decide
  simp only [relocValue, htype, hname, ne_eq, not_true_eq_false, if_false] at h
  rw [← hname] at h
  obtain ⟨s, hs, rfl⟩ := map_eq_some_iff.mp h
  simp only [FieldCorrect, htype, RelocType.size]
  refine forall_congr' fun hunique => ?_
  simp only [hresolve hunique s hs, Option.some.injEq, exists_eq_left']
  have hs' := s.toNat_lt
  rw [UInt64.toNat_add, UInt64.toNat_ofNat']
  omega

lemma value_rip32_named (htype : r.type = .rip32) (hname : r.name ≠ [])
    (hresolve : (exportsOf objects r.name).length ≤ 1 → ∀ s, resolve r.name = some s →
      linkedAddress kernelExport externals base objects r.name = some s) :
    FieldCorrect kernelExport externals base objects trailing o r patch (v % 256 ^ r.type.size) := by
  obtain ⟨s, hs, hfield⟩ := value_rip32_named_eq_some htype hname h
  simp only [FieldCorrect, htype, RelocType.size, if_neg hname]
  exact fun hunique => ⟨s, hresolve hunique s hs, hfield⟩

/-- What the linker writes into a RIP32 field without a name. -/
lemma value_rip32_eq_some (htype : r.type = .rip32) (hname : r.name = []) :
    ∃ x, mapTarget objects o (r.offset + 4 + signed32 (storedField o.1 r)) = some x ∧
      signed32 (v % 256 ^ 4) = x - ((patch + 4) % 2 ^ 32 : ℕ) := by
  simp only [relocValue, htype, hname, ne_eq, not_true_eq_false, if_false] at h
  split at h
  · cases h
  rename_i newDisp hdisp
  split_ifs at h hdisp with hfits hneg
  obtain ⟨x, hx, rfl⟩ := map_eq_some_iff.mp hdisp
  obtain rfl := Option.some.inj h
  exact ⟨x, by rw [mapTarget, if_neg hneg, mapAddress, hx], signed32_field hfits⟩

/-- The one case in which the linker may be wrong. -/
lemma value_rip32_unnamed (htype : r.type = .rip32) (hname : r.name = [])
    (hpatch : patch + 4 < 2 ^ 32) :
    FieldCorrect kernelExport externals base objects trailing o r patch (v % 256 ^ r.type.size) ↔
      TargetFollows objects trailing o r := by
  obtain ⟨x, hx, hnew⟩ := value_rip32_eq_some h htype hname
  simp only [FieldCorrect, htype, RelocType.size, if_pos hname, TargetFollows, hx, hnew]
  constructor
  · rintro ⟨y, hy, hsum⟩ x' hx'
    obtain rfl := Option.some.inj hx'
    exact hy.trans (congrArg some (by omega))
  · intro hfollows
    refine ⟨x + trailing, hfollows x rfl, ?_⟩
    omega

end

/-! ### The link -/

section

variable {kernelExport : List UInt8 → Option UInt64} {files : List File} {out : Mem}
  {outCapacity : UInt32} {base : UInt64} {externals : List Resolved} {exportCapacity : Option ℕ}
  {entryStart : ℕ} {linked : Linked} {objects : List LinkObject}

/-- The passes of a successful link. -/
structure LinkPasses (kernelExport : List UInt8 → Option UInt64) (outCapacity : UInt32) (base : UInt64)
    (externals : List Resolved) (objects : List LinkObject) (linked : Linked) (st : LinkState)
    (called : Mem) : Prop where
  count : objects.length ≤ maxObjects
  valid : validateLinkSymbols externals kernelExport objects = true
  placed : Placed (objects.length * 5 + 1) (placements objects) st
  capacity : placements objects ≠ [] → st.outputOffset ≤ outCapacity.toNat
  offsets : st.sectionOffsets = layoutOffsets objects
  offsetsFit : OffsetsFit outCapacity.toNat (layoutOffsets objects)
  calls : ∀ x, objects.length * 5 + 1 ≤ x → called x = st.out x
  exports : localExports base (layoutOffsets objects) objects = some linked.exports
  relocated : relocateAll base (resolveLinkSymbol externals kernelExport linked.exports)
    (layoutOffsets objects) objects called = some linked.out

lemma linkMany_passes (h : linkFlatMany kernelExport files out outCapacity base externals
      exportCapacity entryStart = some linked) (hread : files.mapM readObject = some objects) :
    ∃ st called, LinkPasses kernelExport outCapacity base externals objects linked st called := by
  rw [linkFlatMany] at h
  simp only [hread, Option.pure_def, Option.bind_eq_bind, bind_some, Option.bind_none] at h
  split_ifs at h with hcounts hvalid
  obtain ⟨st, hst, h⟩ := bind_eq_some_iff.mp h
  obtain ⟨called, hcalled, h⟩ := bind_eq_some_iff.mp h
  obtain ⟨exports, hexports, h⟩ := bind_eq_some_iff.mp h
  split_ifs at h with hroom
  obtain ⟨out', hout', h⟩ := bind_eq_some_iff.mp h
  cases h
  have hoffsets := place_sectionOffsets hst
  have hlength := length_mapM hread
  rw [hoffsets] at hexports hout'
  exact ⟨st, called, by omega, by simpa using hvalid, place_placed hst,
    placeSection_capacity hst, hoffsets,
    hoffsets ▸ placeSection_offsetsFit hst (by simp [OffsetsFit]), fun x hx => writeEntries_elsewhere hcalled hx,
    hexports, hout'⟩

variable {st : LinkState} {called : Mem} {o : LinkObject × ℕ}

section

variable (h : LinkPasses kernelExport outCapacity base externals objects linked st called)
include h

/-- Every field is computed from the contents it has in its object. -/
lemma LinkPasses.field (htidy : Tidy objects) (ho : o ∈ objects.zipIdx)
    (hr : relocationAt o.1.info j = some r) :
    ∃ patch v, mapAddress objects o r.offset = some patch ∧ patch + r.type.size < 2 ^ 32 ∧
      relocValue base (resolveLinkSymbol externals kernelExport linked.exports) o.1.sections
        (layoutOffsets objects o.2) r patch (storedField o.1 r) = some v ∧
      load r.type.size linked.out patch = v % 256 ^ r.type.size := by
  have hplaced := h.placed
  have hrelocated := h.relocated
  rw [relocateAll_eq_patches, ← h.offsets] at hrelocated
  have hmem := mem_relocations.mpr ⟨ho, relocationAt_lt hr⟩
  obtain ⟨p, v, hp, hv, hfield⟩ := Patch.foldlM_field (patches_apart hplaced htidy) hrelocated hmem
  obtain ⟨r', patch, hr', hpatch, rfl⟩ := patchOf_eq_some hp
  obtain rfl : r = r' := Option.some.inj (hr.symm.trans hr')
  dsimp only [Patch.field] at hpatch hv hfield
  have hinside := htidy.inside _ (fst_mem_of_mem_zipIdx ho) _ _ hr
  -- where the field lies in the image
  obtain ⟨s, hs, hpatch_eq⟩ := mapSection_eq_some hpatch
  have hsmem := mem_placements_of_sectionOf ho hs
  have hbounds := hplaced.bounds _ hsmem
  have hcapacity := h.capacity (ne_nil_of_mem hsmem)
  have hstop := hinside s hs
  have hlow := (sectionOf_some hs).2.2.1
  have hcap := outCapacity.toNat_lt
  simp only [Span.stop, placeOf, Relocation.span] at hbounds hstop
  have hold : load r.type.size called patch = storedField o.1 r := by
    rw [← hplaced.load_field ho hinside hpatch]
    exact load_congr fun x hx _ => h.calls x (by omega)
  rw [hold] at hv
  rw [h.offsets] at hpatch hv
  exact ⟨patch, v, hpatch, by omega, hv, hfield⟩

lemma LinkPasses.others
    {p : Placement} (hp : p ∈ placements objects) {k : ℕ} (hk : k < p.2.2.memSize)
    (hfields : ∀ o ∈ objects.zipIdx, ∀ j r patch, relocationAt o.1.info j = some r →
      mapAddress objects o r.offset = some patch →
        ¬ Span.Mem ⟨patch, r.type.size⟩ ((placeOf (layoutOffsets objects) p).start + k)) :
    linked.out ((placeOf (layoutOffsets objects) p).start + k) = sectionByte p.2.1 p.2.2 k := by
  have hrelocated := h.relocated
  rw [relocateAll_eq_patches] at hrelocated
  have hbounds := h.placed.bounds p hp
  have hbytes := h.placed.bytes p hp k hk
  rw [h.offsets] at hbounds hbytes
  rw [← hbytes, ← h.calls _ (by omega)]
  refine Patch.applyAll_elsewhere (Patch.foldlM_bind_apply hrelocated).1 fun q hq => ?_
  obtain ⟨⟨o, j⟩, hoj, hpatchOf⟩ := mem_filterMap.mp hq
  obtain ⟨r, patch, hr, hpatch, rfl⟩ := patchOf_eq_some hpatchOf
  exact hfields o (mem_relocations.mp hoj).1 j r patch hr hpatch

end

/-- The linker resolves every relocation if and only if the fields without a name follow. -/
theorem linkCorrect_iff_targetFollows (trailing : ℕ → ℕ → ℕ)
    (h : linkFlatMany kernelExport files out outCapacity base externals exportCapacity entryStart =
      some linked)
    (hread : files.mapM readObject = some objects) (htidy : Tidy objects) :
    LinkCorrect kernelExport externals base objects trailing linked.out ↔
      ∀ o ∈ objects.zipIdx, ∀ j r, relocationAt o.1.info j = some r →
        UnnamedFollow objects (trailing o.2 j) o r := by
  obtain ⟨st, called, hpasses⟩ := linkMany_passes h hread
  have hresolve : ∀ o ∈ objects.zipIdx, ∀ j r, relocationAt o.1.info j = some r →
      (exportsOf objects r.name).length ≤ 1 → ∀ s,
        resolveLinkSymbol externals kernelExport linked.exports r.name = some s →
          linkedAddress kernelExport externals base objects r.name = some s :=
    fun o ho j r hr hunique s hs => resolve_eq_linkedAddress hpasses.count
      (htidy.namesFit _ (fst_mem_of_mem_zipIdx ho) j r hr) hpasses.valid hpasses.exports hunique hs
  -- field by field
  have hfield : ∀ o ∈ objects.zipIdx, ∀ j r, relocationAt o.1.info j = some r → ∃ patch,
      mapAddress objects o r.offset = some patch ∧
        (FieldCorrect kernelExport externals base objects (trailing o.2 j) o r patch
          (load r.type.size linked.out patch) ↔ UnnamedFollow objects (trailing o.2 j) o r) := by
    intro o ho j r hr
    obtain ⟨patch, v, hpatch, hroom, hv, hload⟩ := hpasses.field htidy ho hr
    refine ⟨patch, hpatch, ?_⟩
    rw [hload]
    have hres := hresolve o ho j r hr
    cases htype : r.type with
    | relative64 =>
      exact iff_of_true (htype ▸ value_relative64 hv htype)
        ⟨fun h => by simp [htype] at h, fun h => by simp [htype] at h⟩
    | abs64 =>
      rw [← htype]
      by_cases hname : r.name = []
      · rw [value_abs64_unnamed hv htype hname hres]
        exact ⟨fun h => ⟨fun h' => by simp [htype] at h', fun _ _ => h⟩, fun h => h.abs64 htype hname⟩
      · exact iff_of_true (value_abs64 hv htype hname hres)
          ⟨fun h => by simp [htype] at h, fun _ h => absurd h hname⟩
    | rip32 =>
      rw [← htype]
      by_cases hname : r.name = []
      · rw [value_rip32_unnamed hv htype hname (by simpa [htype, RelocType.size] using hroom)]
        exact ⟨fun h => ⟨fun _ _ => h, fun h' => by simp [htype] at h'⟩, fun h => h.rip32 htype hname⟩
      · exact iff_of_true (value_rip32_named hv htype hname hres)
          ⟨fun _ h => absurd h hname, fun h => by simp [htype] at h⟩
  constructor
  · intro hcorrect o ho j r hr
    obtain ⟨patch, hpatch, hiff⟩ := hfield o ho j r hr
    obtain ⟨patch', hpatch', hcorrect⟩ := hcorrect.fields o ho j r hr
    obtain rfl : patch = patch' := Option.some.inj (hpatch.symm.trans hpatch')
    exact hiff.mp hcorrect
  · refine fun hfollow => ⟨fun o ho j r hr => ?_, fun p hp k hk => hpasses.others hp hk⟩
    obtain ⟨patch, hpatch, hiff⟩ := hfield o ho j r hr
    exact ⟨patch, hpatch, hiff.mpr (hfollow o ho j r hr)⟩

end

/-! ### An immediate operand behind the field -/

/-- `cmp dword [rip + 0], 5`, and behind it the word it compares. -/
def cmpParts : Parts where
  entry := 0
  textSize := 7
  dataSize := 4
  bssSize := 0
  symbols := []
  relocations := [⟨.rip32, 2, []⟩]
  image := [0x83, 0x3D, 0, 0, 0, 0, 5, 1, 0, 0, 0]

def cmpObject : LinkObject := ⟨cmpParts.info, cmpParts.sections, []⟩

/-- The instruction and its word, linked on their own. -/
def cmpLink : Option Linked :=
  linkFlatMany (fun _ => none) [File.ofList cmpParts.bytes] (fun _ => 0) 64 0x100000 [] none 0

lemma cmpParts_fits : cmpParts.Fits where
  symbols := by decide
  relocations := by decide
  entry := by decide
  image := by decide
  imageSize := by decide
  bssSize := by decide
  symbol := by simp [cmpParts]
  relocation := by simp [cmpParts]

lemma cmpFile_read : [File.ofList cmpParts.bytes].mapM readObject = some [cmpObject] := by
  rw [mapM_cons, cmpParts_fits.readObject_eq, if_pos (by decide)]
  rfl

lemma cmpObject_relocAt : relocationAt cmpObject.info 0 = some ⟨.rip32, 2, []⟩ :=
  (cmpParts_fits.relocationAt_eq (r := ⟨.rip32, 2, []⟩) rfl).trans (if_pos (by decide))

lemma cmpObject_reloc (h : relocationAt cmpObject.info j = some r) :
    j = 0 ∧ r = ⟨.rip32, 2, []⟩ := by
  obtain rfl : j = 0 := Nat.lt_one_iff.mp (relocationAt_lt h)
  exact ⟨rfl, Option.some.inj (h.symm.trans cmpObject_relocAt)⟩

lemma cmpObject_tidy : Tidy [cmpObject] where
  inside := by
    intro o ho j r hr s hs
    obtain rfl := mem_singleton.mp ho
    obtain ⟨-, rfl⟩ := cmpObject_reloc hr
    obtain rfl := Option.some.inj (hs.symm.trans
      (by decide : sectionOf cmpObject.sections 2 = some (⟨.text, 0, 0, 7, 7⟩, 0)))
    decide
  apart := by
    intro o ho j j' r r' hne hr hr'
    obtain rfl := mem_singleton.mp ho
    exact absurd ((cmpObject_reloc hr).1.trans (cmpObject_reloc hr').1.symm) hne
  namesFit := by
    intro _ _ _ _ _ o ho s hs
    obtain rfl := mem_singleton.mp ho
    simp [cmpObject] at hs

/-- Without an operand behind the field the word in front of the data is meant, and found. -/
theorem cmp_without_operand_correct : ∃ linked, cmpLink = some linked ∧
    LinkCorrect (fun _ => none) [] 0x100000 [cmpObject] (fun _ _ => 0) linked.out := by
  obtain ⟨linked, hlinked⟩ := Option.isSome_iff_exists.mp (by decide +kernel : cmpLink.isSome = true)
  refine ⟨linked, hlinked, (linkCorrect_iff_targetFollows (fun _ _ => 0) hlinked cmpFile_read
    cmpObject_tidy).mpr ?_⟩
  intro o ho j r hr
  obtain rfl := mem_singleton.mp ho
  obtain ⟨-, rfl⟩ := cmpObject_reloc hr
  exact ⟨fun _ _ x hx => by simpa using hx, fun htype => by cases htype⟩

/-- The word after the instruction is meant: the linker looks up the last byte of the instruction,
and the linked instruction designates the padding behind it. -/
theorem cmp_with_operand_misses_data : ∃ linked, cmpLink = some linked ∧
    ¬ LinkCorrect (fun _ => none) [] 0x100000 [cmpObject] (fun _ _ => 1) linked.out := by
  obtain ⟨linked, hlinked⟩ := Option.isSome_iff_exists.mp (by decide +kernel : cmpLink.isSome = true)
  refine ⟨linked, hlinked, fun hcorrect => ?_⟩
  have hload : load 4 linked.out 18 = 0 := by
    have : cmpLink.map (fun l => load 4 l.out 18) = some 0 := by decide +kernel
    rwa [hlinked, map_some, Option.some.injEq] at this
  obtain ⟨patch, hpatch, hfield⟩ := hcorrect.fields (cmpObject, 0) (by simp) 0 _
    cmpObject_relocAt
  obtain rfl : 18 = patch := Option.some.inj
    ((by decide : mapAddress [cmpObject] (cmpObject, 0) 2 = some 18).symm.trans hpatch)
  have hstored : storedField cmpObject ⟨.rip32, 2, []⟩ = 0 := by decide +kernel
  have htarget : mapTarget [cmpObject] (cmpObject, 0) (2 + 4 + 1 + signed32 0) = some 32 := by
    decide +kernel
  simp only [FieldCorrect, RelocType.size, hload, hstored] at hfield
  obtain ⟨x, hx, hsum⟩ := hfield
  obtain rfl : 32 = x := Option.some.inj (htarget.symm.trans hx)
  have hzero : signed32 0 = 0 := by decide
  rw [hzero] at hsum
  omega

end ZObject
