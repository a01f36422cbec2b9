import LainOS.ZObject.Format

/-!
# The linker

`zobject_link_flat_many_ex_entry_from` for objects with sections (versions 5 and 6). The image starts
with one call per object and a return. Then come all text sections, all data sections and all bss
sections, each at a multiple of 16. Exported symbols, entry points, patched fields and their targets
are found by looking up the section they lie in.

A failed link is `none`. The texts of `zo_set_last_error` are left out.
-/

namespace ZObject

open Mem

/-- An object with its section table. -/
structure LinkObject where
  info : ObjectInfo
  sections : List Section
  symbols : List Symbol

abbrev Resolved : Type := List UInt8 × UInt64

/-- The output so far, and where the sections were put (by object and section index). -/
structure LinkState where
  out : Mem
  outputOffset : ℕ
  sectionOffsets : ℕ → ℕ → ℕ

/-! ### Symbols -/

section

variable (externals : List Resolved) (kernelExport : List UInt8 → Option UInt64)

/-- The object that exports a name first; the external symbols come before all objects. -/
def exportOwner (objects : List LinkObject) (name : List UInt8) : Option ℕ :=
  if externals.any fun e => e.1 == name then some maxObjects
  else
    (objects.zipIdx.find? fun o => o.1.symbols.any fun s => s.type == .exported && s.name == name).map
      Prod.snd

def validateLinkSymbols (objects : List LinkObject) : Bool :=
  objects.zipIdx.all fun o => o.1.symbols.all fun s =>
    match s.type with
    | .exported => exportOwner externals objects s.name == some o.2 && (kernelExport s.name).isNone
    | .external => (exportOwner externals objects s.name).isSome || (kernelExport s.name).isSome

def resolveLinkSymbol (exports : List Resolved) (name : List UInt8) : Option UInt64 :=
  match exports.find? fun e => e.1 == name with
  | some e => some e.2
  | none =>
    match externals.find? fun e => e.1 == name with
    | some e => some e.2
    | none => kernelExport name

end

/-! ### Sections -/

/-- `zo_align_up_u32` to 16 -/
def alignUp16 (value : ℕ) : ℕ := (value + 15) % 2 ^ 32 / 16 * 16

/-- One section is put into the output: padding, zeroes, then the bytes from the file. -/
def placeSection (outCapacity : ℕ) (st : LinkState) (i j : ℕ) (info : ObjectInfo) (s : Section) :
    Option LinkState :=
  let aligned := alignUp16 st.outputOffset
  if aligned > outCapacity then none
  else
    let start := max st.outputOffset aligned
    let out := fill st.out st.outputOffset (aligned - st.outputOffset) 0
    if s.memSize > outCapacity ∨ start > outCapacity - s.memSize then none
    else
      let out := fill out start s.memSize 0
      let out := copy out start info.file.bytes (info.imageOffset + s.fileOffset) s.fileSize
      some ⟨out, start + s.memSize,
        Function.update st.sectionOffsets i (Function.update (st.sectionOffsets i) j start)⟩

/-- The sections in the order they are placed in, without the empty ones. -/
def placements (objects : List LinkObject) : List ((ℕ × ℕ) × ObjectInfo × Section) :=
  [SectionType.text, .data, .bss].flatMap fun type =>
    objects.zipIdx.flatMap fun o =>
      o.1.sections.zipIdx.filterMap fun s =>
        if s.1.type = type ∧ s.1.memSize ≠ 0 then some ((o.2, s.2), o.1.info, s.1) else none

def placeSections (outCapacity : ℕ) (objects : List LinkObject) (out : Mem) : Option LinkState :=
  (placements objects).foldlM
    (fun st p => placeSection outCapacity st p.1.1 p.1.2 p.2.1 p.2.2)
    ⟨out, objects.length * 5 + 1, fun _ _ => 0⟩

/-- `zo_map_section_offset`: the first nonempty section that has the address decides. -/
def mapSectionOffset (sections : List Section) (sectionOffsets : ℕ → ℕ) (original : ℕ) : Option ℕ :=
  if original > 0xFFFFFFFF then none
  else
    (sections.zipIdx.find? fun s => s.1.memSize != 0 && decide (s.1.loadOffset ≤ original) &&
      decide (original < s.1.loadOffset + s.1.memSize)).map fun s =>
        sectionOffsets s.2 + (original - s.1.loadOffset)

/-! ### Entries, exports, relocations -/

section

variable (base : UInt64)

/-- A difference of two 64-bit addresses as the `int64_t` the source computes. -/
def int64 (x : ℤ) : ℤ := x.bmod (2 ^ 64)

/-- The number in a 32-bit field as a displacement. -/
def signed32 (n : ℕ) : ℤ := (n : ℤ).bmod (2 ^ 32)

def fitsInt32 (x : ℤ) : Bool := decide (-2147483648 ≤ x) && decide (x ≤ 2147483647)

def writeEntry (entryStart : ℕ) (offsets : ℕ → ℕ → ℕ) (out : Mem) (o : LinkObject × ℕ) :
    Option Mem :=
  let callOffset := o.2 * 5
  if o.2 < entryStart then some (fill out callOffset 5 0x90)
  else
    match mapSectionOffset o.1.sections (offsets o.2) o.1.info.entryOffset with
    | none => none
    | some mapped =>
      let diff := int64 ((base.toNat + mapped : ℕ) - (base.toNat + (callOffset + 5) : ℕ))
      if fitsInt32 diff then
        some (store 4 (store 1 out callOffset 0xE8) (callOffset + 1) (diff % 2 ^ 32).toNat)
      else none

def writeEntries (entryStart : ℕ) (offsets : ℕ → ℕ → ℕ) (objects : List LinkObject) (out : Mem) :
    Option Mem :=
  (objects.zipIdx.foldlM (writeEntry base entryStart offsets) out).map fun out =>
    store 1 out (objects.length * 5) 0xC3

/-- One round of the loop over the symbols. A symbol that lies in no section is passed over. -/
def addExport (offsets : ℕ → ℕ → ℕ) (exports : List Resolved) (o : LinkObject × ℕ) (s : Symbol) :
    Option (List Resolved) :=
  if s.type ≠ .exported then some exports
  else if exports.length ≥ maxResolvedSymbols then none
  else
    match mapSectionOffset o.1.sections (offsets o.2) s.value with
    | none => some exports
    | some mapped =>
      some (exports ++ [(s.name.take (symbolNameSize - 1), base + UInt64.ofNat mapped)])

def localExports (offsets : ℕ → ℕ → ℕ) (objects : List LinkObject) : Option (List Resolved) :=
  (objects.zipIdx.flatMap fun o => o.1.symbols.map fun s => (o, s)).foldlM
    (fun exports p => addExport base offsets exports p.1 p.2) []

variable (resolve : List UInt8 → Option UInt64)

/-- The new contents of a field, from its old contents and the place it was linked to. -/
def relocValue (sections : List Section) (offsets : ℕ → ℕ) (r : Relocation) (patch old : ℕ) :
    Option ℕ :=
  match r.type with
  | .relative64 =>
    (mapSectionOffset sections offsets old).map fun mapped => (base + UInt64.ofNat mapped).toNat
  | .rip32 =>
    let oldDisp := signed32 old
    let newDisp :=
      if r.name ≠ [] then
        (resolve r.name).map fun value => int64 (value.toNat + oldDisp - (base.toNat + patch : ℕ))
      else
        let originalTarget := (r.offset : ℤ) + 4 + oldDisp
        if originalTarget < 0 then none
        else
          (mapSectionOffset sections offsets originalTarget.toNat).map fun mapped : ℕ =>
            (mapped : ℤ) - ((patch + 4) % 2 ^ 32 : ℕ)
    match newDisp with
    | none => none
    | some newDisp => if fitsInt32 newDisp then some (newDisp % 2 ^ 32).toNat else none
  | .abs64 =>
    let addend := if r.name ≠ [] then old else 0
    (resolve r.name).map fun value => (value + UInt64.ofNat addend).toNat

def relocate (offsets : ℕ → ℕ → ℕ) (out : Mem) (o : LinkObject × ℕ) (index : ℕ) : Option Mem :=
  match relocationAt o.1.info index with
  | none => none
  | some r =>
    match mapSectionOffset o.1.sections (offsets o.2) r.offset with
    | none => none
    | some patch =>
      (relocValue base resolve o.1.sections (offsets o.2) r patch (load r.type.size out patch)).map
        (store r.type.size out patch)

def relocateAll (offsets : ℕ → ℕ → ℕ) (objects : List LinkObject) (out : Mem) : Option Mem :=
  (objects.zipIdx.flatMap fun o => (List.range o.1.info.relocCount).map fun j => (o, j)).foldlM
    (fun out p => relocate base resolve offsets out p.1 p.2) out

end

/-! ### The link -/

/-- Sections and symbols of an object; all of them are checked before anything is written. -/
def readObject (f : File) : Option LinkObject := do
  let info ← validateObject f
  if versionHasSections info.version = false then none
  let symbols ← (List.range info.symbolCount).mapM (symbolAt info)
  if info.sectionCount = 0 then none
  let sections ← (List.range info.sectionCount).mapM (sectionAt info)
  return ⟨info, sections, symbols⟩

structure Linked where
  out : Mem
  outSize : ℕ
  exports : List Resolved

/-- `exportCapacity` is `none` where the caller asks for no exports. -/
def linkFlatMany (kernelExport : List UInt8 → Option UInt64) (files : List File) (out : Mem)
    (outCapacity : UInt32) (base : UInt64) (externals : List Resolved) (exportCapacity : Option ℕ)
    (entryStart : ℕ) : Option Linked := do
  if files = [] ∨ files.length > maxObjects ∨ externals.length > maxResolvedSymbols ∨
      entryStart > files.length then none
  let objects ← files.mapM readObject
  if validateLinkSymbols externals kernelExport objects = false then none
  let st ← placeSections outCapacity.toNat objects out
  let out ← writeEntries base entryStart st.sectionOffsets objects st.out
  let exports ← localExports base st.sectionOffsets objects
  if exportCapacity.any (· < exports.length) then none
  let out ← relocateAll base (resolveLinkSymbol externals kernelExport exports) st.sectionOffsets
    objects out
  return ⟨out, st.outputOffset, exports⟩

end ZObject
