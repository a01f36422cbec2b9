import LainOS.Lib.Buffer
import LainOS.ZObject.Layout

/-!
# What the linker stores

`zobject_link_flat_many_ex_entry_from` for objects of the versions 4, 5 and 6, with every store into
`out` recorded, in links that fail too. Objects of version 4 have no sections: their images are placed
one after the other, and a relocation always stores eight bytes. Objects of the versions without
relocations, which are assembled from their text, are not modelled.
-/

namespace ZObject.Stores

open Mem

/-! ### Objects with sections -/

structure Placing where
  out : Buffer
  outputOffset : ℕ
  sectionOffsets : ℕ → ℕ → ℕ

def placeSection (outCapacity : ℕ) (st : Placing) (i j : ℕ) (info : ObjectInfo) (s : Section) :
    Except Buffer Placing :=
  let aligned := alignUp16 st.outputOffset
  if aligned > outCapacity then .error st.out
  else
    let start := max st.outputOffset aligned
    let out := st.out.fill st.outputOffset (aligned - st.outputOffset) 0
    if s.memSize > outCapacity ∨ start > outCapacity - s.memSize then .error out
    else
      let out := out.fill start s.memSize 0
      let out := out.copy start info.file.bytes (info.imageOffset + s.fileOffset) s.fileSize
      .ok ⟨out, start + s.memSize,
        Function.update st.sectionOffsets i (Function.update (st.sectionOffsets i) j start)⟩

def placeSections (outCapacity : ℕ) (objects : List LinkObject) (out : Buffer) :
    Except Buffer Placing :=
  (placements objects).foldlM
    (fun st p => placeSection outCapacity st p.1.1 p.1.2 p.2.1 p.2.2)
    ⟨out, objects.length * 5 + 1, fun _ _ => 0⟩

section

variable (base : UInt64)

/-- A call at `callOffset`, to a place in the image. -/
def writeCall (out : Buffer) (callOffset mapped : ℕ) : Except Buffer Buffer :=
  let diff := int64 ((base.toNat + mapped : ℕ) - (base.toNat + (callOffset + 5) : ℕ))
  if fitsInt32 diff then
    .ok ((out.store 1 callOffset 0xE8).store 4 (callOffset + 1) (diff % 2 ^ 32).toNat)
  else .error out

def writeEntry (entryStart : ℕ) (offsets : ℕ → ℕ → ℕ) (out : Buffer) (o : LinkObject × ℕ) :
    Except Buffer Buffer :=
  if o.2 < entryStart then .ok (out.fill (o.2 * 5) 5 0x90)
  else
    match mapSectionOffset o.1.sections (offsets o.2) o.1.info.entryOffset with
    | none => .error out
    | some mapped => writeCall base out (o.2 * 5) mapped

def writeEntries (entryStart : ℕ) (offsets : ℕ → ℕ → ℕ) (objects : List LinkObject) (out : Buffer) :
    Except Buffer Buffer := do
  let out ← objects.zipIdx.foldlM (writeEntry base entryStart offsets) out
  return out.store 1 (objects.length * 5) 0xC3

variable (resolve : List UInt8 → Option UInt64)

def relocate (offsets : ℕ → ℕ → ℕ) (out : Buffer) (o : LinkObject × ℕ) (index : ℕ) :
    Except Buffer Buffer :=
  match relocationAt o.1.info index with
  | none => .error out
  | some r =>
    match mapSectionOffset o.1.sections (offsets o.2) r.offset with
    | none => .error out
    | some patch =>
      match relocValue base resolve o.1.sections (offsets o.2) r patch
          (load r.type.size out.mem patch) with
      | none => .error out
      | some value => .ok (out.store r.type.size patch value)

def relocateAll (offsets : ℕ → ℕ → ℕ) (objects : List LinkObject) (out : Buffer) :
    Except Buffer Buffer :=
  (linkRelocations objects).foldlM (fun out p => relocate base resolve offsets out p.1 p.2) out

end

structure Linked where
  out : Buffer
  outSize : ℕ
  exports : List Resolved

/-- What the linker is given besides the objects and the output. -/
structure Request where
  kernelExport : List UInt8 → Option UInt64
  outCapacity : UInt32
  base : UInt64
  externals : List Resolved
  exportCapacity : Option ℕ
  entryStart : ℕ

variable (base : UInt64) (q : Request)

/-- The exports, if there are not too many for the caller. -/
def takeExports (exportCapacity : Option ℕ) (exports : Option (List Resolved)) (out : Buffer) : Except Buffer (List Resolved) :=
  match exports with
  | none => .error out
  | some exports => if exportCapacity.any (· < exports.length) then .error out else .ok exports

/-- The branch for objects with sections. -/
def linkSections (objects : List LinkObject) (out : Buffer) : Except Buffer Linked := do
  if validateLinkSymbols q.externals q.kernelExport objects = false then .error out
  let st ← placeSections q.outCapacity.toNat objects out
  let out ← writeEntries q.base q.entryStart st.sectionOffsets objects st.out
  let exports ← takeExports q.exportCapacity (localExports q.base st.sectionOffsets objects) out
  let out ← relocateAll q.base (resolveLinkSymbol q.externals q.kernelExport exports)
    st.sectionOffsets objects out
  return ⟨out, st.outputOffset, exports⟩

/-! ### Objects without sections -/

/-- An object of version 4. -/
def readImage (f : File) : Option LinkObject := do
  let info ← validateObject f
  if info.version ≠ 4 then none
  let symbols ← (List.range info.symbolCount).mapM (symbolAt info)
  return ⟨info, [], symbols⟩

/-- The places of the images and the end of the output; the sums wrap. -/
def placeImages (capacity : ℕ) : ℕ → List LinkObject → Option (List ℕ × ℕ)
  | outputOffset, [] => some ([], outputOffset)
  | outputOffset, o :: objects =>
    let start := alignUp16 outputOffset
    if o.info.imageSize > capacity ∨ start > capacity - o.info.imageSize then none
    else (placeImages capacity (start + o.info.imageSize) objects).map fun rest =>
      (start :: rest.1, rest.2)

/-- The symbols of an object without sections are moved with its image. -/
def addImageExport (exports : List Resolved) (offset : ℕ) (s : Symbol) : Option (List Resolved) :=
  if s.type ≠ .exported then some exports
  else if exports.length ≥ maxResolvedSymbols then none
  else some (exports ++ [(s.name.take (symbolNameSize - 1),
    base + UInt64.ofNat offset + UInt64.ofNat s.value)])

def imageExports (images : List (LinkObject × ℕ)) : Option (List Resolved) :=
  (images.flatMap fun o => o.1.symbols.map fun s => (o.2, s)).foldlM
    (fun exports p => addImageExport base exports p.1 p.2) []

/-- A relocation of an object whose image was placed at `offset`. -/
def relocateImage (resolve : List UInt8 → Option UInt64) (out : Buffer) (info : ObjectInfo)
    (offset index : ℕ) : Except Buffer Buffer :=
  match relocationAt info index with
  | none => .error out
  | some r =>
    let patch := (offset + r.offset) % 2 ^ 32
    let value :=
      if r.type = .relative64 then
        some (base + UInt64.ofNat offset + UInt64.ofNat (load 8 out.mem patch))
      else resolve r.name
    match value with
    | none => .error out
    | some value => .ok (out.store 8 patch value.toNat)

/-- The branch for objects of version 4; `entry_start_index` is not used there. -/
def linkImages (objects : List LinkObject) (out : Buffer) : Except Buffer Linked := do
  if validateLinkSymbols q.externals q.kernelExport objects = false then .error out
  match placeImages q.outCapacity.toNat (objects.length * 5 + 1) objects with
  | none => .error out
  | some (offsets, outputOffset) =>
    let images := objects.zip offsets
    let out ← images.zipIdx.foldlM
      (fun out o => writeCall q.base out (o.2 * 5) (o.1.2 + o.1.1.info.entryOffset)) out
    let out := out.store 1 (objects.length * 5) 0xC3
    let out := out.fill (objects.length * 5 + 1) (outputOffset - (objects.length * 5 + 1)) 0
    let out := images.foldl (fun out o =>
      out.copy o.2 o.1.info.file.bytes o.1.info.imageOffset o.1.info.imageSize) out
    let exports ← takeExports q.exportCapacity (imageExports q.base images) out
    let out ← (images.flatMap fun o => (List.range o.1.info.relocCount).map fun j => (o, j)).foldlM
      (fun out p => relocateImage q.base (resolveLinkSymbol q.externals q.kernelExport exports) out
        p.1.1.info p.1.2 p.2) out
    return ⟨out, outputOffset, exports⟩

/-! ### The link -/

/-- The versions decide about the branch; objects of both kinds are not linked together. -/
def linkFlatMany (files : List File) (out : Mem) : Except Buffer Linked :=
  let buffer : Buffer := ⟨out, []⟩
  if files = [] ∨ files.length > maxObjects ∨ q.externals.length > maxResolvedSymbols ∨
      q.entryStart > files.length then .error buffer
  else
    match files.mapM validateObject with
    | none => .error buffer
    | some infos =>
      let haveV5 := infos.any fun info => versionHasSections info.version
      let haveV4 := infos.any fun info => info.version == 4
      if haveV5 && haveV4 then .error buffer
      else if haveV5 then
        match files.mapM readObject with
        | none => .error buffer
        | some objects => linkSections q objects buffer
      else
        match files.mapM readImage with
        | none => .error buffer
        | some objects => linkImages q objects buffer

end ZObject.Stores
