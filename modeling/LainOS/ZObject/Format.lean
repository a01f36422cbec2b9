import LainOS.Lib.Records
import Mathlib.Data.List.TakeWhile

/-!
# Object files

The object format of the linker and the accessors it reads it with. All numbers are little endian;
they are natural numbers here, below `2^32` or `2^64` by the width they are read with. The accessors
check ranges and leave the names as they are: a name that fills its field runs on into the bytes
behind it.
-/

namespace ZObject

open Mem

def objectMagic : ℕ := 0x4F5A4E49
def symbolNameSize : ℕ := 128
def legacySymbolNameSize : ℕ := 32
def sectionRecordSize : ℕ := 28
def headerSize : ℕ := 48
def maxSymbols : ℕ := 4096
def maxRelocations : ℕ := 16384
def maxObjects : ℕ := 1024
def maxSections : ℕ := 3
def maxResolvedSymbols : ℕ := 16384

inductive SymbolType
  | exported | external
deriving DecidableEq

inductive RelocType
  | abs64 | relative64 | rip32
deriving DecidableEq

inductive SectionType
  | text | data | bss
deriving DecidableEq

/-- An object file in memory. -/
structure File where
  bytes : Mem
  size : ℕ

/-- The file with these bytes. -/
def File.ofList (bytes : List UInt8) : File := ⟨Mem.ofList bytes, bytes.length⟩

/-- The C string at an offset, as far as the file goes. -/
def File.cstr (f : File) (off : ℕ) : List UInt8 :=
  ((List.range (f.size - off)).map fun k => f.bytes (off + k)).takeWhile (· ≠ 0)

structure Symbol where
  type : SymbolType
  value : ℕ
  name : List UInt8
deriving DecidableEq

structure Relocation where
  type : RelocType
  offset : ℕ
  name : List UInt8
deriving DecidableEq

structure Section where
  type : SectionType
  fileOffset : ℕ
  loadOffset : ℕ
  fileSize : ℕ
  memSize : ℕ
deriving DecidableEq

/-- `zo_object_info_t` of the versions with relocations; the pointers into the object are offsets. -/
structure ObjectInfo where
  file : File
  version : ℕ
  imageSize : ℕ
  imageOffset : ℕ
  entryOffset : ℕ
  relocCount : ℕ
  symbolCount : ℕ
  sectionCount : ℕ
  symbols : ℕ
  relocations : ℕ
  sections : ℕ

def versionHasRelocations (version : ℕ) : Bool := version == 6 || version == 5 || version == 4

def versionHasSections (version : ℕ) : Bool := version == 6 || version == 5

def symbolNameSizeForVersion (version : ℕ) : ℕ :=
  if version = 6 then symbolNameSize else legacySymbolNameSize

def symbolRecordSizeForVersion (version : ℕ) : ℕ :=
  if versionHasRelocations version then 12 + symbolNameSizeForVersion version
  else 4 + symbolNameSizeForVersion version

def relocationRecordSizeForVersion (version : ℕ) : ℕ := 8 + symbolNameSizeForVersion version

/-- `zo_validate_object` for the versions with relocations. The counts are so small that the products
cannot wrap. -/
def validateObject (f : File) : Option ObjectInfo :=
  if f.size < headerSize then none
  else
    let version := load 4 f.bytes 4
    if load 4 f.bytes 0 ≠ objectMagic ∨ versionHasRelocations version = false then none
    else
      let header := if versionHasSections version then 36 else 32
      let imageSize := load 4 f.bytes 8
      let symbolCount := load 4 f.bytes 12
      let relocCount := load 4 f.bytes 16
      let entryOffset := load 4 f.bytes 20
      let sectionCount := if versionHasSections version then load 4 f.bytes 24 else 0
      if symbolCount > maxSymbols ∨ relocCount > maxRelocations ∨ sectionCount > maxSections ∨
          entryOffset ≥ imageSize then none
      else
        let symbolBytes := symbolCount * symbolRecordSizeForVersion version
        let relocationBytes := relocCount * relocationRecordSizeForVersion version
        let sectionBytes := sectionCount * sectionRecordSize
        let imageOffset := header + symbolBytes + relocationBytes + sectionBytes
        if imageOffset > f.size ∨ imageSize > f.size - imageOffset then none
        else some
          { file := f, version := version, imageSize := imageSize, imageOffset := imageOffset,
            entryOffset := entryOffset, relocCount := relocCount, symbolCount := symbolCount,
            sectionCount := sectionCount, symbols := header,
            relocations := header + symbolBytes, sections := header + symbolBytes + relocationBytes }

def symbolType (n : ℕ) : Option SymbolType :=
  if n = 1 then some .exported else if n = 2 then some .external else none

/-- `zo_symbol_at` and `zo_symbol_value_at`; a type out of range or an empty name is an error. -/
def symbolAt (info : ObjectInfo) (index : ℕ) : Option Symbol :=
  if index ≥ info.symbolCount then none
  else
    let record := info.symbols + index * symbolRecordSizeForVersion info.version
    match symbolType (load 4 info.file.bytes record) with
    | none => none
    | some type =>
      let name := info.file.cstr (record + 12)
      if name = [] then none else some ⟨type, load 8 info.file.bytes (record + 4), name⟩

def relocType (n : ℕ) : Option RelocType :=
  if n = 1 then some .abs64
  else if n = 2 then some .relative64
  else if n = 3 then some .rip32
  else none

def RelocType.size : RelocType → ℕ
  | .rip32 => 4
  | _ => 8

def relocationAt (info : ObjectInfo) (index : ℕ) : Option Relocation :=
  if index ≥ info.relocCount then none
  else
    let record := info.relocations + index * relocationRecordSizeForVersion info.version
    match relocType (load 4 info.file.bytes record) with
    | none => none
    | some type =>
      let offset := load 4 info.file.bytes (record + 4)
      if offset > info.imageSize ∨ info.imageSize - offset < type.size then none
      else some ⟨type, offset, info.file.cstr (record + 8)⟩

def sectionType (n : ℕ) : Option SectionType :=
  if n = 1 then some .text
  else if n = 2 then some .data
  else if n = 3 then some .bss
  else none

def sectionAt (info : ObjectInfo) (index : ℕ) : Option Section :=
  if index ≥ info.sectionCount then none
  else
    let record := info.sections + index * sectionRecordSize
    match sectionType (load 4 info.file.bytes record) with
    | none => none
    | some type =>
      let fileOffset := load 4 info.file.bytes (record + 4)
      let loadOffset := load 4 info.file.bytes (record + 8)
      let fileSize := load 4 info.file.bytes (record + 12)
      let memSize := load 4 info.file.bytes (record + 16)
      if fileSize > memSize ∨ fileOffset > info.imageSize ∨ info.imageSize - fileOffset < fileSize then
        none
      else if loadOffset > info.imageSize ∨ memSize > 0xFFFFFFFF - loadOffset then none
      else some ⟨type, fileOffset, loadOffset, fileSize, memSize⟩

end ZObject
