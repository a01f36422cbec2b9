import LainOS.ZObject.Layout

/-!
# What a name is linked to

The exports the linker collects are those of the symbol tables that lie in a section. A name with one
export is resolved to the place of that export; a name without is looked up outside the link.
-/

namespace ZObject

open Option

variable {exports' : List Resolved}

def linkSymbols (objects : List LinkObject) : List ((LinkObject × ℕ) × Symbol) :=
  objects.zipIdx.flatMap fun o => o.1.symbols.map fun s => (o, s)

/-- The exports of a name, with their objects. -/
def exportsOf (objects : List LinkObject) (name : List UInt8) : List ((LinkObject × ℕ) × Symbol) :=
  (linkSymbols objects).filter fun p => p.2.type == .exported && p.2.name == name

variable (kernelExport : List UInt8 → Option UInt64) (externals : List Resolved) (base : UInt64)

/-- The address a name stands for in the linked image, if it has one. -/
def linkedAddress (objects : List LinkObject) (name : List UInt8) : Option UInt64 :=
  match exportsOf objects name with
  | [] => resolveLinkSymbol externals kernelExport [] name
  | [p] => (mapAddress objects p.1 p.2.value).map fun x => base + UInt64.ofNat x
  | _ => none

/-- The entry of a symbol in the table of exports. -/
def exportEntry (offsets : ℕ → ℕ → ℕ) (p : (LinkObject × ℕ) × Symbol) : Option Resolved :=
  if p.2.type = .exported then
    (mapSectionOffset p.1.1.sections (offsets p.1.2) p.2.value).map fun x =>
      (p.2.name.take (symbolNameSize - 1), base + UInt64.ofNat x)
  else none

variable {kernelExport externals base} {objects : List LinkObject} {name : List UInt8}
  {p : (LinkObject × ℕ) × Symbol}

lemma mem_linkSymbols : p ∈ linkSymbols objects ↔ p.1 ∈ objects.zipIdx ∧ p.2 ∈ p.1.1.symbols := by
  obtain ⟨o, s⟩ := p
  simp only [linkSymbols, List.mem_flatMap, List.mem_map]
  constructor
  · rintro ⟨o', ho', s', hs', heq⟩
    cases heq
    exact ⟨ho', hs'⟩
  · rintro ⟨ho, hs⟩
    exact ⟨o, ho, s, hs, rfl⟩

variable {offsets : ℕ → ℕ → ℕ} {exports : List Resolved}

lemma addExport_eq_some (h : addExport base offsets exports p.1 p.2 = some exports') :
    exports' = exports ++ (exportEntry base offsets p).toList := by
  rw [addExport] at h
  rw [exportEntry]
  by_cases htype : p.2.type = .exported
  · rw [if_neg (not_not.mpr htype)] at h
    rw [if_pos htype]
    split_ifs at h
    split at h
    case h_1 hmap => simp_all
    case h_2 x hmap => simp_all
  · rw [if_pos htype] at h
    simp_all

lemma foldlM_addExport {ps : List ((LinkObject × ℕ) × Symbol)}
    (h : ps.foldlM (fun exports p => addExport base offsets exports p.1 p.2) exports =
      some exports') : exports' = exports ++ ps.filterMap (exportEntry base offsets) := by
  induction ps generalizing exports with
  | nil =>
    cases h
    rw [List.filterMap_nil, List.append_nil]
  | cons p ps ih =>
    obtain ⟨exports₁, hstep, hrest⟩ := bind_eq_some_iff.mp h
    rw [ih hrest, addExport_eq_some hstep, List.append_assoc, List.filterMap_cons]
    cases exportEntry base offsets p <;> rfl

lemma localExports_eq (h : localExports base offsets objects = some exports) :
    exports = (linkSymbols objects).filterMap (exportEntry base offsets) := by
  rw [foldlM_addExport h, List.nil_append, linkSymbols]

/-! ### Looking up a name -/

/-- In the table of the linker, where names are cut to 127 bytes, the name stands for the exports of
that name alone. -/
def NameKept (objects : List LinkObject) (name : List UInt8) : Prop :=
  ∀ o ∈ objects, ∀ s ∈ o.symbols, s.type = .exported →
    (s.name.take (symbolNameSize - 1) = name ↔ s.name = name)

lemma find_export (hfit : NameKept objects name)
    (h : localExports base offsets objects = some exports) : exports.find? (fun e => e.1 == name) =
      ((exportsOf objects name).find? fun p =>
        (mapSectionOffset p.1.1.sections (offsets p.1.2) p.2.value).isSome).bind
          (exportEntry base offsets) := by
  rw [localExports_eq h, List.find?_filterMap, exportsOf, List.find?_filter, ← List.head?_filter,
    ← List.head?_filter]
  congr 2
  refine List.filter_congr fun p hp => ?_
  obtain ⟨ho, hs⟩ := mem_linkSymbols.mp hp
  have hobj : p.1.1 ∈ objects := List.fst_mem_of_mem_zipIdx ho
  by_cases htype : p.2.type = .exported
  · have hname := hfit _ hobj _ hs htype
    simp only [exportEntry, if_pos htype]
    cases mapSectionOffset p.1.1.sections (offsets p.1.2) p.2.value <;>
      simp [htype, beq_eq_decide, hname]
  · simp [exportEntry, htype]

/-- A name of an export is resolved to nothing outside the link. -/
lemma resolve_outside_eq_none (hcount : objects.length ≤ maxObjects)
    (hvalid : validateLinkSymbols externals kernelExport objects = true)
    (hp : p ∈ exportsOf objects name) :
    resolveLinkSymbol externals kernelExport [] name = none := by
  simp only [exportsOf, List.mem_filter, Bool.and_eq_true, beq_iff_eq] at hp
  obtain ⟨hmem, htype, rfl⟩ := hp
  obtain ⟨ho, hs⟩ := mem_linkSymbols.mp hmem
  have hchecked := List.all_eq_true.mp (List.all_eq_true.mp hvalid _ ho) _ hs
  simp only [htype, Bool.and_eq_true, beq_iff_eq, isNone_iff_eq_none] at hchecked
  obtain ⟨howner, hkernel⟩ := hchecked
  have hindex : p.1.2 < objects.length := List.snd_lt_of_mem_zipIdx ho
  rw [exportOwner] at howner
  split_ifs at howner with hext
  · -- the owner would be the external symbols
    have := some.inj howner
    omega
  · have hnone : externals.find? (fun e => e.1 == p.2.name) = none := by
      refine List.find?_eq_none.mpr fun e he hname => hext ?_
      exact List.any_eq_true.mpr ⟨e, he, hname⟩
    simp only [resolveLinkSymbol, List.find?_nil, hnone, hkernel]

theorem resolve_eq_linkedAddress {value : UInt64} (hcount : objects.length ≤ maxObjects)
    (hfit : NameKept objects name) (hvalid : validateLinkSymbols externals kernelExport objects = true)
    (hexports : localExports base (layoutOffsets objects) objects = some exports)
    (hunique : (exportsOf objects name).length ≤ 1)
    (h : resolveLinkSymbol externals kernelExport exports name = some value) :
    linkedAddress kernelExport externals base objects name = some value := by
  have hfind := find_export hfit hexports
  rw [linkedAddress]
  rw [resolveLinkSymbol] at h
  match hof : exportsOf objects name with
  | [] =>
    rw [hof] at hfind
    rw [hfind] at h
    exact h
  | [p] =>
    rw [hof] at hfind
    have hp : p ∈ exportsOf objects name := hof ▸ List.mem_singleton_self p
    have hout := resolve_outside_eq_none hcount hvalid hp
    simp only [mapAddress]
    cases hmap : mapSectionOffset p.1.1.sections (layoutOffsets objects p.1.2) p.2.value with
    | none =>
      -- the export lies in no section, and nothing else has its name
      rw [hfind] at h
      simp only [List.find?_cons, hmap, isSome_none, List.find?_nil, bind_none] at h
      rw [resolveLinkSymbol, List.find?_nil] at hout
      exact absurd (hout.symm.trans h) (by simp)
    | some x =>
      have htype : p.2.type = .exported := by
        simp only [exportsOf, List.mem_filter, Bool.and_eq_true, beq_iff_eq] at hp
        exact hp.2.1
      rw [hfind] at h
      simp only [List.find?_cons, hmap, isSome_some, bind_some, exportEntry,
        if_pos htype, map_some] at h
      simpa using h
  | p :: q :: rest => simp [hof] at hunique

end ZObject
