import LainOS.Lib.MapM
import LainOS.ZObject.LinkStores

/-!
# Stores inside the output

The sections and images are placed inside the output, by the checks made there. The calls at its
beginning and the fields of the relocations are not checked again: they lie inside if something was
placed behind the calls and if no field runs over the end of what was placed.
-/

namespace ZObject.Stores

open Mem List

variable {st : Placing} {offsets : ℕ → ℕ → ℕ} {b : Buffer} {l : Linked} {offset size : ℕ}
  {stores : List Span}

/-! ### The recorded link is the link -/

def Placing.forget (st : Placing) : LinkState := ⟨st.out.mem, st.outputOffset, st.sectionOffsets⟩

def Linked.forget (l : Linked) : ZObject.Linked := ⟨l.out.mem, l.outSize, l.exports⟩

lemma foldlM_forget {α β γ ε : Type} {f : β → α → Except ε β} {g : γ → α → Option γ} {forget : β → γ}
    (h : ∀ s a, (f s a).toOption.map forget = g (forget s) a) (l : List α) (s : β) :
    (l.foldlM f s).toOption.map forget = l.foldlM g (forget s) := by
  induction l generalizing s with
  | nil => rfl
  | cons a l ih =>
    rw [foldlM_cons, foldlM_cons, ← h s a]
    cases hstep : f s a with
    | error e => rfl
    | ok s' => exact ih s'

lemma forget_bind {α β γ δ ε : Type} {x : Except ε α} {f : α → Except ε β} {forget : β → γ}
    {forget' : α → δ} {g : δ → Option γ} (h : ∀ a, (f a).toOption.map forget = g (forget' a)) :
    (x >>= f).toOption.map forget = (x.toOption.map forget').bind g := by
  cases x with
  | error e => rfl
  | ok a => exact h a

lemma placeSection_forget (outCapacity : ℕ) (st : Placing) (i j : ℕ) (info : ObjectInfo)
    (s : Section) : (placeSection outCapacity st i j info s).toOption.map Placing.forget =
      ZObject.placeSection outCapacity st.forget i j info s := by
  rw [placeSection, ZObject.placeSection]
  by_cases haligned : alignUp16 st.outputOffset > outCapacity
  · rw [if_pos haligned, if_pos (show alignUp16 st.forget.outputOffset > outCapacity from haligned)]
    rfl
  rw [if_neg haligned, if_neg (show ¬ alignUp16 st.forget.outputOffset > outCapacity from haligned)]
  by_cases hroom : s.memSize > outCapacity ∨
    max st.outputOffset (alignUp16 st.outputOffset) > outCapacity - s.memSize
  · exact (congrArg (fun x => Option.map Placing.forget (Except.toOption x)) (if_pos hroom)).trans
      (if_pos hroom).symm
  · exact (congrArg (fun x => Option.map Placing.forget (Except.toOption x)) (if_neg hroom)).trans
      (if_neg hroom).symm

lemma place_forget (outCapacity : ℕ) (objects : List LinkObject) (out : Buffer) :
    (placeSections outCapacity objects out).toOption.map Placing.forget =
      ZObject.placeSections outCapacity objects out.mem :=
  foldlM_forget (fun st p => placeSection_forget outCapacity st p.1.1 p.1.2 p.2.1 p.2.2) _ _

lemma writeEntry_forget (base : UInt64) (entryStart : ℕ) (offsets : ℕ → ℕ → ℕ) (out : Buffer)
    (o : LinkObject × ℕ) : (writeEntry base entryStart offsets out o).toOption.map Buffer.mem =
      ZObject.writeEntry base entryStart offsets out.mem o := by
  simp only [writeEntry, ZObject.writeEntry]
  split_ifs
  · rfl
  cases mapSectionOffset o.1.sections (offsets o.2) o.1.info.entryOffset with
  | none => rfl
  | some mapped =>
    simp only [writeCall]
    split_ifs <;> rfl

lemma relocate_forget (base : UInt64) (resolve : List UInt8 → Option UInt64) (offsets : ℕ → ℕ → ℕ)
    (out : Buffer) (o : LinkObject × ℕ) (index : ℕ) :
    (relocate base resolve offsets out o index).toOption.map Buffer.mem =
      ZObject.relocate base resolve offsets out.mem o index := by
  simp only [relocate, ZObject.relocate]
  rcases relocationAt o.1.info index with _ | r
  · rfl
  simp only
  cases mapSectionOffset o.1.sections (offsets o.2) r.offset with
  | none => rfl
  | some patch =>
    simp only
    cases relocValue base resolve o.1.sections (offsets o.2) r patch
      (load r.type.size out.mem patch) <;> rfl

lemma writeEntries_forget (base : UInt64) (entryStart : ℕ) (offsets : ℕ → ℕ → ℕ)
    (objects : List LinkObject) (out : Buffer) :
    (writeEntries base entryStart offsets objects out).toOption.map Buffer.mem =
      ZObject.writeEntries base entryStart offsets objects out.mem := by
  rw [ZObject.writeEntries, ← foldlM_forget (writeEntry_forget base entryStart offsets), writeEntries]
  cases objects.zipIdx.foldlM (writeEntry base entryStart offsets) out <;> rfl

lemma relocateAll_forget (base : UInt64) (resolve : List UInt8 → Option UInt64)
    (offsets : ℕ → ℕ → ℕ) (objects : List LinkObject) (out : Buffer) :
    (relocateAll base resolve offsets objects out).toOption.map Buffer.mem =
      ZObject.relocateAll base resolve offsets objects out.mem :=
  foldlM_forget (fun out p => relocate_forget base resolve offsets out p.1 p.2) _ _

variable {objects : List LinkObject}

/-- Without the record, the branch for sections is the link of the objects that were read. -/
theorem linkSections_forget (q : Request) {files : List File} (out : Mem)
    (hargs : ¬(files = [] ∨ files.length > maxObjects ∨ q.externals.length > maxResolvedSymbols ∨
      q.entryStart > files.length)) (hread : files.mapM readObject = some objects) :
    (linkSections q objects ⟨out, []⟩).toOption.map Linked.forget =
      ZObject.linkFlatMany q.kernelExport files out q.outCapacity q.base q.externals
        q.exportCapacity q.entryStart := by
  simp only [ZObject.linkFlatMany, if_neg hargs, hread, linkSections, Option.bind_eq_bind,
    Option.bind_some]
  by_cases hsymbols : validateLinkSymbols q.externals q.kernelExport objects = false
  · simp only [if_pos hsymbols]
    rfl
  simp only [if_neg hsymbols]
  rw [← place_forget q.outCapacity.toNat objects ⟨out, []⟩]
  refine forget_bind fun st => ?_
  simp only [Placing.forget]
  rw [← writeEntries_forget q.base q.entryStart st.sectionOffsets objects st.out]
  refine forget_bind fun b => ?_
  rcases localExports q.base st.sectionOffsets objects with _ | exports
  · rfl
  simp only [takeExports, Option.bind_some]
  by_cases hcapacity : q.exportCapacity.any (· < exports.length)
  · simp only [if_pos hcapacity]
    rfl
  simp only [if_neg hcapacity]
  rw [← relocateAll_forget q.base _ st.sectionOffsets objects b]
  change Option.map Linked.forget (relocateAll q.base _ st.sectionOffsets objects b >>= _).toOption =
    _
  exact forget_bind fun _ => rfl

/-! ### Sections -/

lemma ok_of_toOption {α ε : Type} {x : Except ε α} {a : α} (h : x = .ok a) : x.toOption = some a := by
  rw [h]
  rfl

variable {outCapacity j limit : ℕ} {out : Buffer}

lemma place_eq_ok (h : placeSections outCapacity objects out = .ok st) :
    ZObject.placeSections outCapacity objects out.mem = some st.forget := by
  rw [← place_forget, ok_of_toOption h]
  rfl

/-- The end of the last section. -/
def layoutEnd (objects : List LinkObject) : ℕ :=
  ((placements objects).foldl layoutStep (objects.length * 5 + 1, fun _ _ => 0)).1

lemma le_foldl_layoutStep (ps : List Placement) (l : ℕ × (ℕ → ℕ → ℕ)) :
    l.1 ≤ (ps.foldl layoutStep l).1 := by
  induction ps generalizing l with
  | nil => exact le_refl _
  | cons p ps ih =>
    refine le_trans ?_ (ih (layoutStep l p))
    exact (le_max_left _ _).trans (Nat.le_add_right _ _)

lemma le_layoutEnd (objects : List LinkObject) : objects.length * 5 + 1 ≤ layoutEnd objects :=
  le_foldl_layoutStep (placements objects) (objects.length * 5 + 1, fun _ _ => 0)

variable {info : ObjectInfo} {s : Section}

/-- A round of the placing loop stores inside the output and before the end of the section. -/
lemma placeSection_within {i : ℕ} (hs : s.fileSize ≤ s.memSize)
    (h : st.out.Within outCapacity ∧ st.out.Within st.outputOffset) :
    Ends (fun b => b.Within outCapacity)
      (fun st => st.out.Within outCapacity ∧ st.out.Within st.outputOffset)
      (placeSection outCapacity st i j info s) := by
  obtain ⟨hcapacity, hoffset⟩ := h
  rw [placeSection]
  generalize alignUp16 st.outputOffset = aligned
  by_cases haligned : aligned > outCapacity
  · simpa only [if_pos haligned, Ends] using hcapacity
  simp only [if_neg haligned]
  have hpadded : (st.out.fill st.outputOffset (aligned - st.outputOffset) 0).Within outCapacity := by
    rw [Buffer.within_fill]
    exact ⟨by omega, hcapacity⟩
  by_cases hroom : s.memSize > outCapacity ∨ max st.outputOffset aligned > outCapacity - s.memSize
  · simpa only [if_pos hroom, Ends] using hpadded
  simp only [if_neg hroom]
  constructor
  · simp only [Buffer.within_copy, Buffer.within_fill]
    exact ⟨by omega, by omega, by omega, hcapacity⟩
  · simp only [Buffer.within_copy, Buffer.within_fill]
    exact ⟨by omega, by omega, by omega, hoffset.mono (by omega)⟩

lemma place_within {out : Mem}
    (hsections : ∀ o ∈ objects, ∀ s ∈ o.sections, s.fileSize ≤ s.memSize) :
    Ends (fun b => b.Within outCapacity)
      (fun st => st.out.Within outCapacity ∧ st.out.Within st.outputOffset)
      (placeSections outCapacity objects ⟨out, []⟩) := by
  refine .foldlM (fun p hp st hst => placeSection_within ?_ hst) ⟨by simp, by simp⟩
  obtain ⟨o, ho, hs, -⟩ := mem_placements.mp hp
  exact hsections o (mem_of_getElem? ho) _ (mem_of_getElem? hs)

variable {o : LinkObject}

section

variable {outCapacity : ℕ} {objects : List LinkObject} {out : Buffer}
  (h : placeSections outCapacity objects out = .ok st)
include h

lemma offset_eq_end : st.outputOffset = layoutEnd objects :=
  congrArg Prod.fst (foldlM_placeSection_layout (place_eq_ok h))

lemma sectionOffsets_eq : st.sectionOffsets = layoutOffsets objects :=
  place_sectionOffsets (place_eq_ok h)

lemma layoutEnd_le_of_placements (hne : placements objects ≠ []) :
    layoutEnd objects ≤ outCapacity := by
  rw [← offset_eq_end h]
  exact placeSection_capacity (place_eq_ok h) hne

end

/-! ### Calls -/

variable {base : UInt64}

lemma writeCall_within {callOffset mapped : ℕ} (h : out.Within limit)
    (hcall : callOffset + 5 ≤ limit) : Ends (fun b => b.Within limit) (fun b => b.Within limit)
      (writeCall base out callOffset mapped) := by
  simp only [writeCall]
  split_ifs
  · simp only [Ends, Buffer.within_store]
    exact ⟨by omega, by omega, h⟩
  · exact h

lemma writeEntries_within {entryStart : ℕ} (h : out.Within limit)
    (hlimit : objects.length * 5 + 1 ≤ limit) :
    Ends (fun b => b.Within limit) (fun b => b.Within limit)
      (writeEntries base entryStart offsets objects out) := by
  refine .bind (.foldlM (R := fun b => b.Within limit) (fun o ho b hb => ?_) h) fun b hb => ?_
  · have hindex : o.2 < objects.length := snd_lt_of_mem_zipIdx ho
    rw [writeEntry]
    split_ifs
    · simp only [Ends, Buffer.within_fill]
      exact ⟨by omega, hb⟩
    · cases mapSectionOffset o.1.sections (offsets o.2) o.1.info.entryOffset with
      | none => exact hb
      | some mapped => exact writeCall_within hb (by omega)
  · simp only [Ends, pure, Except.pure, Buffer.within_store]
    exact ⟨by omega, hb⟩

/-! ### Relocations -/

variable {r : Relocation}

/-- No field runs over the end of the last section. -/
def FieldsFit (objects : List LinkObject) : Prop :=
  ∀ o ∈ objects.zipIdx, ∀ j r, relocationAt o.1.info j = some r → ∀ patch,
    mapAddress objects o r.offset = some patch → patch + r.type.size ≤ layoutEnd objects

variable {resolve : List UInt8 → Option UInt64}

lemma relocateAll_within (h : out.Within limit) (hfields : FieldsFit objects)
    (hlimit : layoutEnd objects ≤ limit) : Ends (fun b => b.Within limit) (fun b => b.Within limit)
      (relocateAll base resolve (layoutOffsets objects) objects out) := by
  refine .foldlM (fun p hp b hb => ?_) h
  rw [relocate]
  rcases hr : relocationAt p.1.1.info p.2 with _ | r
  · exact hb
  simp only
  rcases hpatch : mapSectionOffset p.1.1.sections (layoutOffsets objects p.1.2) r.offset with _ | patch
  · exact hb
  simp only
  split
  · exact hb
  · have hfits := hfields p.1 (mem_relocations.mp hp).1 p.2 r hr patch hpatch
    simp only [Ends, Buffer.within_store]
    exact ⟨.inr (hfits.trans hlimit), hb⟩

/-- A link that succeeds has stored to the field of every relocation. -/
lemma relocateAll_stores {out' : Buffer}
    (h : relocateAll base resolve offsets objects out = .ok out') {o : LinkObject × ℕ}
    (ho : o ∈ objects.zipIdx) (hr : relocationAt o.1.info j = some r) {patch : ℕ}
    (hpatch : mapSectionOffset o.1.sections (offsets o.2) r.offset = some patch) :
    ⟨patch, r.type.size⟩ ∈ out'.stores := by
  have hstep (b : Buffer) (p : (LinkObject × ℕ) × ℕ) (b' : Buffer)
      (hb : relocate base resolve offsets b p.1 p.2 = .ok b') : ∃ r patch value,
        relocationAt p.1.1.info p.2 = some r ∧
        mapSectionOffset p.1.1.sections (offsets p.1.2) r.offset = some patch ∧
        b' = b.store r.type.size patch value := by
    simp only [relocate] at hb
    split at hb
    · cases hb
    split at hb
    · cases hb
    · split at hb
      · cases hb
      · exact ⟨_, _, _, ‹_›, ‹_›, (Except.ok.inj hb).symm⟩
  obtain ⟨-, hall⟩ := mem_stores_of_foldlM id (fun b p b' hb => by
    obtain ⟨r, patch, value, -, -, rfl⟩ := hstep b p b' hb
    exact subset_cons_self _ _) h
  obtain ⟨b, b', hb, hsub⟩ := hall (o, j) (mem_relocations.mpr ⟨ho, relocationAt_lt hr⟩)
  obtain ⟨r', patch', value, hr', hpatch', rfl⟩ := hstep b (o, j) b' hb
  obtain rfl := Option.some.inj (hr.symm.trans hr')
  obtain rfl := Option.some.inj (hpatch.symm.trans hpatch')
  exact hsub mem_cons_self

/-! ### The link of sections -/

/-- Every byte that was stored lies inside the output and, if the link succeeds, inside the size it
reports, which is inside the output too. -/
def Safe (outCapacity : ℕ) : Except Buffer Linked → Prop :=
  Ends (fun b => b.Within outCapacity) fun l =>
    l.out.Within outCapacity ∧ l.outSize ≤ outCapacity ∧ l.out.Within l.outSize

section

variable {base : UInt64} {exportCapacity : Option ℕ} {entryStart : ℕ} {objects : List LinkObject}
  {out : Mem} {q : Request}

lemma takeExports_ends {E : Buffer → Prop} {exports : Option (List Resolved)} (h : E b) :
    Ends E (fun _ => True) (takeExports exportCapacity exports b) := by
  rcases exports with _ | exports
  · exact h
  simp only [takeExports]
  split_ifs
  · exact h
  · trivial

/-- The exports can be collected, and are not too many for the caller. -/
def ExportsFit (exportCapacity : Option ℕ) (exports : Option (List Resolved)) : Prop :=
  ∃ e, exports = some e ∧ exportCapacity.any (· < e.length) = false

lemma takeExports_eq_ok {exports : Option (List Resolved)} {e : List Resolved}
    (h : takeExports exportCapacity exports b = .ok e) : ExportsFit exportCapacity exports := by
  rcases exports with _ | exports
  · cases h
  simp only [takeExports] at h
  split_ifs at h with hcapacity
  exact ⟨exports, rfl, by simpa using hcapacity⟩

/-- A call at `callOffset` reaches its target. -/
def CallFits (base : UInt64) (callOffset mapped : ℕ) : Prop :=
  fitsInt32 (int64 ((base.toNat + mapped : ℕ) - (base.toNat + (callOffset + 5) : ℕ))) = true

lemma writeCall_eq_ok {b' : Buffer} {callOffset mapped : ℕ}
    (h : writeCall base b callOffset mapped = .ok b') : CallFits base callOffset mapped := by
  simp only [writeCall] at h
  split_ifs at h with hfits
  exact hfits

/-- The link comes to its first relocation. -/
structure SectionsReach (q : Request) (objects : List LinkObject) : Prop where
  symbols : validateLinkSymbols q.externals q.kernelExport objects = true
  placed : placements objects = [] ∨ layoutEnd objects ≤ q.outCapacity.toNat
  calls : ∀ o ∈ objects.zipIdx, q.entryStart ≤ o.2 → ∃ mapped,
    mapAddress objects o o.1.info.entryOffset = some mapped ∧ CallFits q.base (o.2 * 5) mapped
  exports : ExportsFit q.exportCapacity (localExports q.base (layoutOffsets objects) objects)

/-- What the calls take where no section is placed: none of them can be mapped then. -/
def callsEnd (entryStart n : ℕ) : ℕ := if entryStart < n then entryStart * 5 else n * 5 + 1

lemma calls_of_ok {out b' : Buffer}
    (h : objects.zipIdx.foldlM (writeEntry base entryStart (layoutOffsets objects)) out = .ok b')
    {o : LinkObject × ℕ} (ho : o ∈ objects.zipIdx) (hle : entryStart ≤ o.2) : ∃ mapped,
      mapAddress objects o o.1.info.entryOffset = some mapped ∧ CallFits base (o.2 * 5) mapped := by
  obtain ⟨s₁, s₂, hstep, -⟩ := (mem_stores_of_foldlM (fun _ => ⟨fun _ => 0, []⟩)
    (fun _ _ _ _ => Subset.refl _) h).2 o ho
  rw [writeEntry, if_neg (by omega)] at hstep
  rw [mapAddress]
  cases hmapped : mapSectionOffset o.1.sections (layoutOffsets objects o.2) o.1.info.entryOffset with
  | none =>
    rw [hmapped] at hstep
    cases hstep
  | some mapped =>
    rw [hmapped] at hstep
    exact ⟨mapped, rfl, writeCall_eq_ok hstep⟩

/-- Where no section is placed, the first call that is not skipped ends the link. -/
lemma entries_error {out b' : Buffer} (hempty : placements objects = [])
    (hstart : entryStart < objects.length) :
    objects.zipIdx.foldlM (writeEntry base entryStart (layoutOffsets objects)) out ≠ .ok b' := by
  intro h
  have ho : (objects.get ⟨entryStart, hstart⟩, entryStart) ∈ objects.zipIdx :=
    mem_zipIdx_iff.mpr (getElem?_eq_getElem hstart)
  obtain ⟨mapped, hmapped, -⟩ := calls_of_ok h ho le_rfl
  obtain ⟨s, hs, -⟩ := mapSection_eq_some hmapped
  exact ne_nil_of_mem (mem_placements_of_sectionOf ho hs) hempty

lemma linkSections_safe (hsections : ∀ o ∈ objects, ∀ s ∈ o.sections, s.fileSize ≤ s.memSize)
    (hcalls : validateLinkSymbols q.externals q.kernelExport objects = true → placements objects = [] →
      callsEnd q.entryStart objects.length ≤ q.outCapacity.toNat)
    (hfields : SectionsReach q objects → FieldsFit objects) :
    Safe q.outCapacity.toNat (linkSections q objects ⟨out, []⟩) := by
  rw [linkSections]
  split_ifs with hsymbols
  · exact Buffer.within_nil
  replace hsymbols : validateLinkSymbols q.externals q.kernelExport objects = true := by
    simpa using hsymbols
  refine (place_within hsections).with_eq.bind fun st hst => ?_
  obtain ⟨hplace, hcapacity, hwithin⟩ := hst
  have hend := offset_eq_end hplace
  rw [sectionOffsets_eq hplace]
  by_cases hempty : placements objects = [] ∧ q.entryStart < objects.length
  · have hstart := hcalls hsymbols hempty.1
    rw [callsEnd, if_pos hempty.2] at hstart
    refine .bind (.bind (Ends.with_eq (.foldlM (R := fun b => b.Within q.outCapacity.toNat)
      (fun o ho b hb => ?_) hcapacity)) fun b hb => ?_) fun _ h => h
    · rw [writeEntry]
      split_ifs with ho'
      · simp only [Ends, Buffer.within_fill]
        exact ⟨by omega, hb⟩
      · cases hmapped : mapSectionOffset o.1.sections (layoutOffsets objects o.2)
          o.1.info.entryOffset with
        | none => exact hb
        | some mapped =>
          obtain ⟨s, hs, -⟩ := mapSection_eq_some hmapped
          exact absurd hempty.1 (ne_nil_of_mem (mem_placements_of_sectionOf ho hs))
    · exact (entries_error hempty.1 hempty.2 hb.1).elim
  have hle : layoutEnd objects ≤ q.outCapacity.toNat := by
    by_cases hnil : placements objects = []
    · have hcalls' := hcalls hsymbols hnil
      rw [callsEnd, if_neg fun hlt => hempty ⟨hnil, hlt⟩] at hcalls'
      rwa [layoutEnd, hnil]
    · exact layoutEnd_le_of_placements hplace hnil
  rw [hend] at hwithin ⊢
  refine .imp (E := fun b => b.Within (layoutEnd objects))
    (Q := fun l : Linked => l.out.Within (layoutEnd objects) ∧ l.outSize = layoutEnd objects)
    ?_ (fun b hb => hb.mono hle) fun l hl => ?_
  · refine (writeEntries_within hwithin (le_layoutEnd objects)).with_eq.bind fun b hb => ?_
    obtain ⟨hentries, hb⟩ := hb
    refine (takeExports_ends hb).with_eq.bind fun exports hexports => ?_
    obtain ⟨b₀, hentries, -⟩ := Except.bind_eq_ok hentries
    have hreach : SectionsReach q objects :=
      ⟨hsymbols, .inr hle, fun o ho => calls_of_ok hentries ho, takeExports_eq_ok hexports.1⟩
    exact (relocateAll_within hb (hfields hreach) le_rfl).bind fun b' hb' => ⟨hb', rfl⟩
  · obtain ⟨hout, hsize⟩ := hl
    rw [hsize]
    exact ⟨hout.mono hle, hle, hout⟩

/-- The calls that are skipped are stored one after the other. -/
lemma entries_stores (base : UInt64) (entryStart : ℕ) (offsets : ℕ → ℕ → ℕ) (l : List LinkObject)
    (i : ℕ) (out : Buffer) :
    let Kept := fun e : Buffer => out.stores ⊆ e.stores ∧
      ∀ k, i ≤ k → k < entryStart → k < i + l.length → ⟨k * 5, 5⟩ ∈ e.stores
    Ends Kept Kept ((l.zipIdx i).foldlM (writeEntry base entryStart offsets) out) := by
  induction l generalizing i out with
  | nil => exact ⟨Subset.refl _, fun k _ _ _ => by simp at *; omega⟩
  | cons o l ih =>
    rw [zipIdx_cons, foldlM_cons, writeEntry]
    split_ifs with hi
    · refine (ih (i + 1) (out.fill (i * 5) 5 0x90)).imp (fun e he => ?_) fun e he => ?_
      all_goals
        refine ⟨fun a ha => he.1 (mem_cons_of_mem _ ha), fun k hk hstart hlen => ?_⟩
        rw [length_cons] at hlen
        rcases hk.eq_or_lt with rfl | hk
        · exact he.1 mem_cons_self
        · exact he.2 k hk hstart (by omega)
    · have hnone : ∀ e : Buffer, out.stores ⊆ e.stores → out.stores ⊆ e.stores ∧
          ∀ k, i ≤ k → k < entryStart → k < i + (o :: l).length → ⟨k * 5, 5⟩ ∈ e.stores :=
        fun e he => ⟨he, fun k hk hstart => absurd hstart (by omega)⟩
      refine .bind (Q := fun e => out.stores ⊆ e.stores) ?_ fun b hb =>
        (ih (i + 1) b).imp (fun e he => hnone e (Subset.trans hb he.1))
          fun e he => hnone e (Subset.trans hb he.1)
      split
      · exact hnone out (Subset.refl _)
      · rw [writeCall]
        dsimp only
        split_ifs
        · exact fun a ha => mem_cons_of_mem _ (mem_cons_of_mem _ ha)
        · exact hnone out (Subset.refl _)

lemma relocateAll_keeps {out : Buffer} {a : Span} (h : a ∈ out.stores) :
    Ends (fun e => a ∈ e.stores) (fun e => a ∈ e.stores)
      (relocateAll base resolve offsets objects out) := by
  refine .foldlM (fun p _ b hb => ?_) h
  rw [relocate]
  split
  · exact hb
  split
  · exact hb
  split
  · exact hb
  · exact mem_cons_of_mem _ hb

/-- Where no section is placed, the calls have to fit into the output by themselves. -/
lemma callsEnd_le_of_safe (hsymbols : validateLinkSymbols q.externals q.kernelExport objects = true)
    (hempty : placements objects = [])
    (h : Safe q.outCapacity.toNat (linkSections q objects ⟨out, []⟩)) :
    callsEnd q.entryStart objects.length ≤ q.outCapacity.toNat := by
  have hplace : placeSections q.outCapacity.toNat objects ⟨out, []⟩ =
      .ok ⟨⟨out, []⟩, objects.length * 5 + 1, fun _ _ => 0⟩ := by
    rw [placeSections, hempty]
    rfl
  have hoffsets := sectionOffsets_eq hplace
  rw [linkSections, if_neg (by simp [hsymbols]), hplace] at h
  dsimp only at hoffsets
  change Safe _ (Except.bind (writeEntries q.base q.entryStart (fun _ _ => 0) objects ⟨out, []⟩) _) at h
  rw [hoffsets, writeEntries] at h
  have hloop := entries_stores q.base q.entryStart (layoutOffsets objects) objects 0 ⟨out, []⟩
  rw [callsEnd]
  split_ifs with hstart
  · cases hentries : objects.zipIdx.foldlM (writeEntry q.base q.entryStart (layoutOffsets objects))
      ⟨out, []⟩ with
    | ok b' => exact absurd hentries (entries_error hempty hstart)
    | error e =>
      rw [hentries] at h hloop
      rcases Nat.eq_zero_or_pos q.entryStart with hzero | hpos
      · omega
      · have hlast := hloop.2 (q.entryStart - 1) (Nat.zero_le _) (by omega) (by omega)
        have hstop := (Buffer.Within.stop_le h hlast).resolve_left (by decide)
        omega
  · have hskipped : Ends (fun _ : Buffer => False) (fun _ => True)
        (objects.zipIdx.foldlM (writeEntry q.base q.entryStart (layoutOffsets objects)) ⟨out, []⟩) := by
      refine .foldlM (fun o ho b _ => ?_) trivial
      have hindex := snd_lt_of_mem_zipIdx ho
      rw [writeEntry, if_pos (by omega)]
      trivial
    cases hentries : objects.zipIdx.foldlM (writeEntry q.base q.entryStart (layoutOffsets objects))
      ⟨out, []⟩ with
    | error e =>
      rw [hentries] at hskipped
      exact False.elim hskipped
    | ok b₀ =>
      rw [hentries] at h
      have hret : ⟨objects.length * 5, 1⟩ ∈ (b₀.store 1 (objects.length * 5) 0xC3).stores :=
        mem_cons_self
      change Safe _ (takeExports q.exportCapacity _ (b₀.store 1 (objects.length * 5) 0xC3) >>= _) at h
      refine Ends.elim h ((takeExports_ends hret).bind (R := fun l : Linked =>
        ⟨objects.length * 5, 1⟩ ∈ l.out.stores) fun e _ => (relocateAll_keeps hret).bind
          fun b hb => ?_) (fun e he hmem => ?_) fun l hl hmem => ?_
      · exact hb
      · exact (he.stop_le hmem).resolve_left (by decide)
      · exact (hl.1.stop_le hmem).resolve_left (by decide)

/-- Where the link succeeds, fields that fit are needed. -/
lemma fits_of_linkSections (h : linkSections q objects ⟨out, []⟩ = .ok l)
    (hsafe : l.out.Within l.outSize) : FieldsFit objects := by
  rw [linkSections] at h
  split_ifs at h
  · cases h
  obtain ⟨st, hplace, h⟩ := Except.bind_eq_ok h
  obtain ⟨b, -, h⟩ := Except.bind_eq_ok h
  obtain ⟨exports, -, h⟩ := Except.bind_eq_ok h
  obtain ⟨b', hrelocate, h⟩ := Except.bind_eq_ok h
  cases h
  have hend := offset_eq_end hplace
  rw [hend] at hsafe
  intro o ho j r hr patch hpatch
  rw [sectionOffsets_eq hplace] at hrelocate
  have hsize : r.type.size ≠ 0 := by cases r.type <;> simp [RelocType.size]
  exact (hsafe.stop_le (relocateAll_stores hrelocate ho hr hpatch)).resolve_left hsize

end

/-! ### Images -/

/-- Where the images of the objects are placed, and the end of the last one. -/
def imageLayout : ℕ → List LinkObject → List ℕ × ℕ
  | outputOffset, [] => ([], outputOffset)
  | outputOffset, o :: objects =>
    let rest := imageLayout (alignUp16 outputOffset + o.info.imageSize) objects
    (alignUp16 outputOffset :: rest.1, rest.2)

lemma images_eq_some {capacity : ℕ} {outputOffset : ℕ}
    {x : List ℕ × ℕ} (h : placeImages capacity outputOffset objects = some x) :
    x = imageLayout outputOffset objects ∧
      (∀ p ∈ objects.zip x.1, p.2 + p.1.info.imageSize ≤ capacity) ∧
      (objects ≠ [] → alignUp16 outputOffset ≤ capacity ∧ x.2 ≤ capacity) := by
  induction objects generalizing outputOffset x with
  | nil =>
    cases h
    exact ⟨rfl, by simp, by simp⟩
  | cons o objects ih =>
    simp only [placeImages] at h
    split_ifs at h with hroom
    obtain ⟨rest, hrest, rfl⟩ := Option.map_eq_some_iff.mp h
    obtain ⟨rfl, hplaced, hend⟩ := ih hrest
    refine ⟨rfl, ?_, fun _ => ⟨by omega, ?_⟩⟩
    · rw [zip_cons_cons, forall_mem_cons]
      exact ⟨by dsimp only; omega, hplaced⟩
    by_cases hnil : objects = []
    · subst hnil
      simp only [imageLayout]
      omega
    · exact (hend hnil).2

/-- The calls, the images and eight bytes at each relocation lie before the end of the last image. -/
def ImagesFit (objects : List LinkObject) : Prop :=
  let layout := imageLayout (objects.length * 5 + 1) objects
  objects.length * 5 + 1 ≤ layout.2 ∧ ∀ p ∈ objects.zip layout.1,
    p.2 + p.1.info.imageSize ≤ layout.2 ∧
      ∀ j r, relocationAt p.1.info j = some r → p.2 + r.offset + 8 ≤ layout.2

lemma offset_le_of_relocationAt
    (h : relocationAt info j = some r) : r.offset + 4 ≤ info.imageSize := by
  rw [relocationAt] at h
  split_ifs at h
  simp only at h
  split at h
  · cases h
  · split_ifs at h with hoffset
    cases h
    rename_i type _
    cases type <;> simp only [RelocType.size] at hoffset ⊢ <;> omega

/-- Copying the images. -/
def copyImages (images : List (LinkObject × ℕ)) (out : Buffer) : Buffer :=
  images.foldl (fun out o =>
    out.copy o.2 o.1.info.file.bytes o.1.info.imageOffset o.1.info.imageSize) out

lemma copyImages_within {images : List (LinkObject × ℕ)}
    (himages : ∀ p ∈ images, p.2 + p.1.info.imageSize ≤ limit) (h : out.Within limit) :
    (copyImages images out).Within limit := by
  induction images generalizing out with
  | nil => exact h
  | cons p images ih =>
    obtain ⟨hp, hrest⟩ := forall_mem_cons.mp himages
    refine ih hrest ?_
    rw [Buffer.within_copy]
    exact ⟨.inr hp, h⟩

lemma copyImages_stores (images : List (LinkObject × ℕ)) (out : Buffer) :
    out.stores ⊆ (copyImages images out).stores ∧
      ∀ p ∈ images, ⟨p.2, p.1.info.imageSize⟩ ∈ (copyImages images out).stores := by
  induction images generalizing out with
  | nil => exact ⟨fun _ hmem => hmem, by simp⟩
  | cons p images ih =>
    obtain ⟨hsub, hall⟩ := ih (out.copy p.2 p.1.info.file.bytes p.1.info.imageOffset
      p.1.info.imageSize)
    refine ⟨fun a ha => hsub (mem_cons_of_mem _ ha), forall_mem_cons.mpr ⟨?_, hall⟩⟩
    exact hsub mem_cons_self

lemma relocate_eq_ok {b' : Buffer} (h : relocateImage base resolve b info offset j = .ok b') :
    ∃ r value, relocationAt info j = some r ∧
      b' = b.store 8 ((offset + r.offset) % 2 ^ 32) value := by
  simp only [relocateImage] at h
  split at h
  · cases h
  · split at h
    · cases h
    · exact ⟨_, _, ‹_›, (Except.ok.inj h).symm⟩

lemma relocate_within (h : b.Within limit)
    (hr : ∀ r, relocationAt info j = some r → offset + r.offset + 8 ≤ limit) :
    Ends (fun b => b.Within limit) (fun b => b.Within limit)
      (relocateImage base resolve b info offset j) := by
  simp only [relocateImage]
  rcases hreloc : relocationAt info j with _ | r
  · exact h
  simp only
  split
  · exact h
  · simp only [Ends, Buffer.within_store]
    exact ⟨.inr (by have := hr r hreloc; omega), h⟩

section

variable {q : Request} {objects : List LinkObject} {out : Mem}

/-- The link comes to its first relocation. -/
structure ImagesReach (q : Request) (objects : List LinkObject) : Prop where
  symbols : validateLinkSymbols q.externals q.kernelExport objects = true
  placed : (placeImages q.outCapacity.toNat (objects.length * 5 + 1) objects).isSome
  calls : ∀ o ∈ (objects.zip (imageLayout (objects.length * 5 + 1) objects).1).zipIdx,
    CallFits q.base (o.2 * 5) (o.1.2 + o.1.1.info.entryOffset)
  exports : ExportsFit q.exportCapacity
    (imageExports q.base (objects.zip (imageLayout (objects.length * 5 + 1) objects).1))

lemma linkImages_safe (hne : objects ≠ []) (hcount : objects.length ≤ maxObjects)
    (hfit : ImagesReach q objects → ImagesFit objects) :
    Safe q.outCapacity.toNat (linkImages q objects ⟨out, []⟩) := by
  rw [linkImages]
  split_ifs with hsymbols
  · exact Buffer.within_nil
  rcases hplace : placeImages q.outCapacity.toNat (objects.length * 5 + 1) objects with _ | x
  · exact Buffer.within_nil
  obtain ⟨rfl, hplaced, hend⟩ := images_eq_some hplace
  obtain ⟨hfirst, hle⟩ := hend hne
  have hcalls : objects.length * 5 + 1 ≤ q.outCapacity.toNat := by
    rw [maxObjects] at hcount
    exact (alignUp16_aligned (by omega)).1.trans hfirst
  have hfits := fun hcalls hexports =>
    hfit ⟨by simpa using hsymbols, by rw [hplace]; rfl, hcalls, hexports⟩
  simp only [ImagesFit] at hfits
  generalize imageLayout (objects.length * 5 + 1) objects = layout at hle hplaced hfits
  obtain ⟨offsets, outputOffset⟩ := layout
  refine .bind (Q := fun b => b.Within (objects.length * 5) ∧ ∀ o ∈ (objects.zip offsets).zipIdx,
    CallFits q.base (o.2 * 5) (o.1.2 + o.1.1.info.entryOffset)) ?_ fun b hb => ?_
  · refine (Ends.with_eq (.foldlM (E := fun b => b.Within (objects.length * 5))
      (R := fun b => b.Within (objects.length * 5)) (fun o ho b hb => ?_) Buffer.within_nil)).imp
        (fun b hb => hb.mono (by omega)) fun b hb => ⟨hb.2, fun o ho => ?_⟩
    · have hindex : o.2 < (objects.zip offsets).length := snd_lt_of_mem_zipIdx ho
      rw [length_zip] at hindex
      exact writeCall_within hb (by omega)
    · obtain ⟨s₁, s₂, hstep, -⟩ := (mem_stores_of_foldlM (fun _ => ⟨fun _ => 0, []⟩)
        (fun _ _ _ _ => Subset.refl _) hb.1).2 o ho
      exact writeCall_eq_ok hstep
  obtain ⟨hb, hcallsFit⟩ := hb
  -- below any limit that the calls and the images lie below
  have hcopied {limit : ℕ} (hlimit : objects.length * 5 + 1 ≤ limit) (hout : outputOffset ≤ limit)
      (himages : ∀ p ∈ objects.zip offsets, p.2 + p.1.info.imageSize ≤ limit) :
      (copyImages (objects.zip offsets) ((b.store 1 (objects.length * 5) 0xC3).fill
        (objects.length * 5 + 1) (outputOffset - (objects.length * 5 + 1)) 0)).Within limit := by
    refine copyImages_within himages ?_
    rw [Buffer.within_fill, Buffer.within_store]
    exact ⟨by omega, by omega, hb.mono (by omega)⟩
  refine (takeExports_ends (hcopied hcalls hle hplaced)).with_eq.bind fun exports hexports => ?_
  obtain ⟨hends, himages⟩ := hfits hcallsFit (takeExports_eq_ok hexports.1)
  refine .imp (E := fun b => b.Within outputOffset)
    (Q := fun l : Linked => l.out.Within outputOffset ∧ l.outSize = outputOffset)
    ?_ (fun b hb => hb.mono hle) fun l hl => ?_
  · refine .bind (.foldlM (R := fun b => b.Within outputOffset) (fun p hp b' hb' => ?_)
      (hcopied hends le_rfl fun p hp => (himages p hp).1)) fun b' hb' => ⟨hb', rfl⟩
    obtain ⟨o, ho, hj⟩ := mem_flatMap.mp hp
    obtain ⟨j, -, rfl⟩ := mem_map.mp hj
    exact relocate_within hb' ((himages o ho).2 j)
  · obtain ⟨hout, hsize⟩ := hl
    rw [hsize]
    exact ⟨hout.mono hle, hle, hout⟩

/-- Where the link succeeds, all this is needed. -/
lemma fits_of_linkImages (hsize : ∀ o ∈ objects, o.info.imageSize ≠ 0)
    (h : linkImages q objects ⟨out, []⟩ = .ok l)
    (hsafe : l.out.Within l.outSize) : ImagesFit objects := by
  rw [linkImages] at h
  split_ifs at h
  · cases h
  rcases hplace : placeImages q.outCapacity.toNat (objects.length * 5 + 1) objects with _ | x
  · rw [hplace] at h
    cases h
  obtain ⟨rfl, hplaced, -⟩ := images_eq_some hplace
  rw [hplace] at h
  rw [ImagesFit]
  generalize imageLayout (objects.length * 5 + 1) objects = layout at h hplaced ⊢
  obtain ⟨offsets, outputOffset⟩ := layout
  simp only at h hplaced ⊢
  obtain ⟨b, -, h⟩ := Except.bind_eq_ok h
  obtain ⟨exports, -, h⟩ := Except.bind_eq_ok h
  obtain ⟨b', hrelocate, h⟩ := Except.bind_eq_ok h
  cases h
  simp only at hsafe
  obtain ⟨hsub, hall⟩ := mem_stores_of_foldlM id (fun b p b' hb => by
    obtain ⟨r, value, -, rfl⟩ := relocate_eq_ok hb
    exact subset_cons_self _ _) hrelocate
  obtain ⟨hbefore, hcopied⟩ := copyImages_stores (objects.zip offsets)
    ((b.store 1 (objects.length * 5) 0xC3).fill (objects.length * 5 + 1)
      (outputOffset - (objects.length * 5 + 1)) 0)
  refine ⟨?_, fun p hp => ⟨?_, fun j r hr => ?_⟩⟩
  · have hret : ⟨objects.length * 5, 1⟩ ∈ b'.stores :=
      hsub (hbefore (mem_cons_of_mem _ mem_cons_self))
    exact (hsafe.stop_le hret).resolve_left (by decide)
  · exact (hsafe.stop_le (hsub (hcopied p hp))).resolve_left (hsize p.1 (of_mem_zip hp).1)
  have hmem : (p, j) ∈ (objects.zip offsets).flatMap fun o =>
      (List.range o.1.info.relocCount).map fun j => (o, j) :=
    mem_flatMap.mpr ⟨p, hp, mem_map.mpr ⟨j, mem_range.mpr (relocationAt_lt hr), rfl⟩⟩
  obtain ⟨b₁, b₂, hb, hsub'⟩ := hall (p, j) hmem
  obtain ⟨r', value, hr', rfl⟩ := relocate_eq_ok hb
  obtain rfl := Option.some.inj (hr.symm.trans hr')
  have hstop := (hsafe.stop_le (hsub' mem_cons_self)).resolve_left (by decide)
  have hinside := offset_le_of_relocationAt hr
  have hroom := hplaced p hp
  have hcapacity := q.outCapacity.toNat_lt
  simp only at hstop
  rwa [Nat.mod_eq_of_lt (by omega)] at hstop

end

/-! ### The whole link -/

lemma fileSize_le_of_sectionAt (h : sectionAt info j = some s) : s.fileSize ≤ s.memSize := by
  rw [sectionAt] at h
  split_ifs at h
  simp only at h
  split at h
  · cases h
  · split_ifs at h with hfile hload
    cases h
    simp only
    omega

variable {f : File}

lemma readObject_eq_some (h : readObject f = some o) :
    versionHasSections o.info.version ∧ validateObject f = some o.info ∧
      ∀ s ∈ o.sections, s.fileSize ≤ s.memSize := by
  simp only [readObject, Option.bind_eq_bind] at h
  obtain ⟨info, hinfo, h⟩ := Option.bind_eq_some_iff.mp h
  by_cases hversion : versionHasSections info.version = false
  · simp [hversion] at h
  by_cases hcount : info.sectionCount = 0
  · simp [hversion, hcount] at h
  simp only [if_neg hversion, if_neg hcount, Option.pure_def,
    Option.bind_eq_some_iff, Option.some.injEq] at h
  obtain ⟨symbols, -, sections, hsections, rfl⟩ := h
  refine ⟨by simpa using hversion, hinfo, fun s hs => ?_⟩
  obtain ⟨j, -, hj⟩ := exists_of_mem_mapM hsections hs
  exact fileSize_le_of_sectionAt hj

lemma readImage_eq_some (h : readImage f = some o) :
    o.info.version = 4 ∧ validateObject f = some o.info := by
  simp only [readImage, Option.bind_eq_bind] at h
  obtain ⟨info, hinfo, h⟩ := Option.bind_eq_some_iff.mp h
  by_cases hversion : info.version = 4
  · simp only [hversion, ne_eq, not_true_eq_false, if_false, Option.pure_def,
      Option.bind_eq_some_iff, Option.some.injEq] at h
    obtain ⟨symbols, -, rfl⟩ := h
    exact ⟨hversion, hinfo⟩
  · simp [hversion] at h

lemma imageSize_ne_zero (h : validateObject f = some info) : info.imageSize ≠ 0 := by
  simp only [validateObject] at h
  split_ifs at h <;> cases h <;> simp only <;> omega

lemma mapM_validate {read : File → Option LinkObject} {files : List File} {objects : List LinkObject}
    (hread : ∀ f o, read f = some o → validateObject f = some o.info)
    (h : files.mapM read = some objects) : files.mapM validateObject = some (objects.map (·.info)) := by
  rw [mapM_eq_some_iff] at h ⊢
  rw [forall₂_map_right_iff]
  exact h.imp hread

/-- The arguments that are checked first. -/
structure Arguments (q : Request) (files : List File) : Prop where
  nonempty : files ≠ []
  count : files.length ≤ maxObjects
  symbols : q.externals.length ≤ maxResolvedSymbols
  entry : q.entryStart ≤ files.length

section

variable (q : Request) (files : List File) (out : Mem)

/-- The link comes to its first relocation. -/
def Reaches : Prop :=
  Arguments q files ∧
  ((∃ objects, files.mapM readObject = some objects ∧ SectionsReach q objects) ∨
    ∃ objects, files.mapM readImage = some objects ∧ ImagesReach q objects)

/-- The calls have room where no section is placed, and if the link comes to its relocations, none of
them stores behind what is placed. -/
def Fits : Prop :=
  Arguments q files →
  (∀ objects, files.mapM readObject = some objects →
    (validateLinkSymbols q.externals q.kernelExport objects = true → placements objects = [] →
      callsEnd q.entryStart objects.length ≤ q.outCapacity.toNat) ∧
    (SectionsReach q objects → FieldsFit objects)) ∧
  ∀ objects, files.mapM readImage = some objects → ImagesReach q objects → ImagesFit objects

variable {q files out}

section

variable (hargs : Arguments q files) {objects : List LinkObject}
include hargs

lemma objects_ne_nil {read : File → Option LinkObject} (h : files.mapM read = some objects) :
    objects ≠ [] := by
  rintro rfl
  exact hargs.nonempty (length_eq_zero_iff.mp (length_mapM h).symm)

lemma link_sections (hread : files.mapM readObject = some objects) :
    linkFlatMany q files out = linkSections q objects ⟨out, []⟩ := by
  have hsections : ∀ o ∈ objects, versionHasSections o.info.version = true := by
    intro o ho
    obtain ⟨f, -, hf⟩ := exists_of_mem_mapM hread ho
    exact (readObject_eq_some hf).1
  have hv5 : (objects.map (·.info)).any (fun info => versionHasSections info.version) = true := by
    obtain ⟨o, rest, rfl⟩ := exists_cons_of_ne_nil (objects_ne_nil hargs hread)
    simp [hsections o mem_cons_self]
  have hv4 : (objects.map (·.info)).any (fun info => info.version == 4) = false := by
    simp only [any_map, any_eq_false, Function.comp_apply, beq_iff_eq]
    intro o ho h4
    have h := hsections o ho
    rw [h4] at h
    cases h
  rw [linkFlatMany, if_neg (by simp only [not_or, not_lt]; exact
      ⟨hargs.nonempty, hargs.count, hargs.symbols, hargs.entry⟩),
    mapM_validate (fun f o h => (readObject_eq_some h).2.1) hread]
  simp only [hv5, hv4, hread, Bool.and_false, Bool.false_eq_true, if_false, if_true]

lemma link_images (hread : files.mapM readImage = some objects) :
    linkFlatMany q files out = linkImages q objects ⟨out, []⟩ := by
  have hv5 : (objects.map (·.info)).any (fun info => versionHasSections info.version) = false := by
    simp only [any_map, any_eq_false, Function.comp_apply]
    intro o ho
    obtain ⟨f, -, hf⟩ := exists_of_mem_mapM hread ho
    rw [(readImage_eq_some hf).1]
    decide
  rw [linkFlatMany, if_neg (by simp only [not_or, not_lt]; exact
      ⟨hargs.nonempty, hargs.count, hargs.symbols, hargs.entry⟩),
    mapM_validate (fun f o h => (readImage_eq_some h).2) hread]
  simp only [hv5, hread, Bool.false_and, Bool.false_eq_true, if_false]

end

/-- A link stores nothing unless its arguments are accepted and its files read. -/
lemma link_cases : linkFlatMany q files out = .error ⟨out, []⟩ ∨ Arguments q files ∧
    ((∃ objects, files.mapM readObject = some objects) ∨
      ∃ objects, files.mapM readImage = some objects) := by
  simp only [linkFlatMany]
  split_ifs with hargs
  · exact .inl rfl
  simp only [not_or, not_lt] at hargs
  obtain ⟨hne, hcount, hexternals, hentry⟩ := hargs
  have hargs : Arguments q files := ⟨hne, hcount, hexternals, hentry⟩
  rcases files.mapM validateObject with _ | infos
  · exact .inl rfl
  simp only
  split_ifs
  · exact .inl rfl
  · cases hread : files.mapM readObject with
    | none => exact .inl rfl
    | some objects => exact .inr ⟨hargs, .inl ⟨objects, rfl⟩⟩
  · cases hread : files.mapM readImage with
    | none => exact .inl rfl
    | some objects => exact .inr ⟨hargs, .inr ⟨objects, rfl⟩⟩

lemma safe_of_fits (h : Fits q files) :
    Safe q.outCapacity.toNat (linkFlatMany q files out) := by
  rcases link_cases with hlink | ⟨hargs, ⟨objects, hread⟩ | ⟨objects, hread⟩⟩
  · rw [hlink]
    exact Buffer.within_nil
  · obtain ⟨hcalls, hfields⟩ := (h hargs).1 objects hread
    rw [link_sections hargs hread]
    refine linkSections_safe (fun o ho => ?_) hcalls hfields
    obtain ⟨f, -, hf⟩ := exists_of_mem_mapM hread ho
    exact (readObject_eq_some hf).2.2
  · rw [link_images hargs hread]
    exact linkImages_safe (objects_ne_nil hargs hread) (length_mapM hread ▸ hargs.count)
      ((h hargs).2 objects hread)

variable (q files out)

/-- **The linker stores inside its output** if the objects fit; and a link that succeeds, or fails
before its relocations, does so only then. -/
theorem safe_of_fits_and_iff :
    (Fits q files → Safe q.outCapacity.toNat (linkFlatMany q files out)) ∧
    (¬ Reaches q files ∨ (∃ l, linkFlatMany q files out = .ok l) →
      (Safe q.outCapacity.toNat (linkFlatMany q files out) ↔ Fits q files)) := by
  refine ⟨safe_of_fits, fun hreach => ⟨fun hsafe hargs => ⟨fun objects hread => ⟨?_, fun hr => ?_⟩,
    fun objects hread hr => ?_⟩, safe_of_fits⟩⟩
  · intro hsymbols hempty
    rw [link_sections hargs hread] at hsafe
    exact callsEnd_le_of_safe hsymbols hempty hsafe
  · obtain ⟨l, hl⟩ := hreach.resolve_left (not_not_intro ⟨hargs, .inl ⟨objects, hread, hr⟩⟩)
    rw [hl] at hsafe
    exact fits_of_linkSections ((link_sections hargs hread).symm.trans hl) hsafe.2.2
  · obtain ⟨l, hl⟩ := hreach.resolve_left (not_not_intro ⟨hargs, .inr ⟨objects, hread, hr⟩⟩)
    rw [hl] at hsafe
    refine fits_of_linkImages (fun o ho => ?_) ((link_images hargs hread).symm.trans hl) hsafe.2.2
    obtain ⟨f, -, hf⟩ := exists_of_mem_mapM hread ho
    exact imageSize_ne_zero (readImage_eq_some hf).2

end

/-! ### Links of one object -/

/-- The stores and the size of a link of one object, into an output of zeroes. -/
abbrev linkOne (outCapacity : UInt32) (externals : List Resolved) (entryStart : ℕ)
    (bytes : List UInt8) : Except Buffer Linked :=
  linkFlatMany ⟨fun _ => none, outCapacity, 0, externals, none, entryStart⟩ [.ofList bytes]
    fun _ => 0

variable {link : Except Buffer Linked}

lemma exists_of_stores
    (h : link.toOption.map (fun l => (l.out.stores, l.outSize)) = some (stores, size)) :
    ∃ l, link = .ok l ∧ l.out.stores = stores ∧ l.outSize = size := by
  cases link with
  | error b => cases h
  | ok l =>
    obtain ⟨rfl, rfl⟩ := Prod.mk.inj (Option.some.inj h)
    exact ⟨l, rfl, rfl, rfl⟩

/-- An object of version 6 whose section of `size` bytes starts with a relocated field of eight. -/
def fieldIn (size : ℕ) : List UInt8 :=
  [objectMagic, 6, 8, 0, 1, 0, 1, 0, 0, 2, 0].flatMap (leBytes 4) ++ List.replicate 128 0 ++
    [1, 0, 0, size, size, 0, 0].flatMap (leBytes 4) ++ List.replicate 8 0

lemma linkOne_field_stores : (linkOne 24 [] 0 (fieldIn 8)).toOption.map
    (fun l => (l.out.stores, l.outSize)) =
      some ([⟨16, 8⟩, ⟨5, 1⟩, ⟨1, 4⟩, ⟨0, 1⟩, ⟨16, 8⟩, ⟨16, 8⟩, ⟨6, 10⟩], 24) := by
  decide +kernel

/-- A link with these stores, about which the result says `fits`. -/
lemma safe_and_of_stores {fits : Prop}
    (h : link.toOption.map (fun l => (l.out.stores, l.outSize)) = some (stores, size))
    (hstores : ∀ a ∈ stores, a.stop ≤ size) (hsize : size ≤ outCapacity)
    (hiff : (∃ l, link = .ok l) → (Safe outCapacity link ↔ fits)) : Safe outCapacity link ∧ fits := by
  obtain ⟨l, rfl, rfl, rfl⟩ := exists_of_stores h
  have hcovers : l.out.Within l.outSize := fun a ha x hx => hx.2.trans_le (hstores a ha)
  have hsafe : Safe outCapacity (.ok l) := ⟨hcovers.mono hsize, hsize, hcovers⟩
  exact ⟨hsafe, (hiff ⟨l, rfl⟩).mp hsafe⟩

theorem safe_of_fits_and_iff_field : Safe (24 : UInt32).toNat (linkOne 24 [] 0 (fieldIn 8)) ∧
    Fits ⟨fun _ => none, 24, 0, [], none, 0⟩ [.ofList (fieldIn 8)] :=
  safe_and_of_stores linkOne_field_stores (by decide) (by decide) fun hok =>
    (safe_of_fits_and_iff ⟨fun _ => none, 24, 0, [], none, 0⟩ [.ofList (fieldIn 8)]
      fun _ => 0).2 (.inr hok)

lemma not_safe_of_stores (stores : List Span) (size : ℕ)
    (h : link.toOption.map (fun l => (l.out.stores, l.outSize)) = some (stores, size)) {a n : ℕ}
    (hmem : ⟨a, n⟩ ∈ stores) (hout : n ≠ 0 ∧ outCapacity < a + n) : ¬ Safe outCapacity link := by
  obtain ⟨l, rfl, rfl, -⟩ := exists_of_stores h
  rintro ⟨hwithin, -⟩
  have hstop := hwithin.stop_le hmem
  omega

/-- An object of version 6 with one section, which is empty. -/
def emptySection : List UInt8 :=
  [objectMagic, 6, 1, 0, 0, 0, 1, 0, 0, 1, 0, 0, 0, 0, 0, 0].flatMap (leBytes 4) ++ [0]

/-- An object of version 4 whose image is a relocated field of four bytes. -/
def fieldOfFour : List UInt8 :=
  [objectMagic, 4, 4, 0, 1, 0, 0, 0, 3, 0].flatMap (leBytes 4) ++ [0x78] ++ List.replicate 31 0 ++
    List.replicate 4 0

/-- The calls of an empty image, a field that runs over the end of its section, and the eight bytes of
a field of four lie behind the end of the output. -/
theorem stores_behind_the_end : ¬ Safe 0 (linkOne 0 [] 1 emptySection) ∧
    ¬ Safe 17 (linkOne 17 [] 0 (fieldIn 1)) ∧ ¬ Safe 20 (linkOne 20 [([0x78], 0)] 0 fieldOfFour) := by
  refine ⟨not_safe_of_stores [⟨5, 1⟩, ⟨0, 5⟩] 6 (a := 0) (n := 5)
      (by decide +kernel) (by decide) (by decide),
    not_safe_of_stores [⟨16, 8⟩, ⟨5, 1⟩, ⟨1, 4⟩, ⟨0, 1⟩, ⟨16, 1⟩, ⟨16, 1⟩, ⟨6, 10⟩] 17
      (a := 16) (n := 8)
      (by decide +kernel) (by decide) (by decide),
    not_safe_of_stores [⟨16, 8⟩, ⟨16, 4⟩, ⟨6, 14⟩, ⟨5, 1⟩, ⟨1, 4⟩, ⟨0, 1⟩] 20
      (a := 16) (n := 8)
      (by decide +kernel) (by decide) (by decide)⟩

end ZObject.Stores
