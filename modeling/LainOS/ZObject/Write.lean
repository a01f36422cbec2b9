import LainOS.Lib.MapM
import LainOS.ZObject.Link

/-!
# Writing object files

Both writers of the repository, `zobject_from_asm` and the converter for ELF objects, put together a
file of version 6 in the same way: header, symbol records, relocation records, the records of a text,
a data and a bss section, and the image. The linker reads back the parts it was written from.
-/

namespace ZObject

open Mem List

variable {i : ℕ} {s : Section} {r : Relocation}

/-- The parts of an object file. -/
structure Parts where
  entry : ℕ
  textSize : ℕ
  dataSize : ℕ
  bssSize : ℕ
  symbols : List Symbol
  relocations : List Relocation
  image : List UInt8
deriving DecidableEq

def SymbolType.code : SymbolType → ℕ
  | .exported => 1
  | .external => 2

def RelocType.code : RelocType → ℕ
  | .abs64 => 1
  | .relative64 => 2
  | .rip32 => 3

def SectionType.code : SectionType → ℕ
  | .text => 1
  | .data => 2
  | .bss => 3

/-- The symbol with as much of its name as a record holds. -/
def Symbol.cut (s : Symbol) : Symbol := ⟨s.type, s.value, s.name.take (symbolNameSize - 1)⟩

def Relocation.cut (r : Relocation) : Relocation :=
  ⟨r.type, r.offset, r.name.take (symbolNameSize - 1)⟩

/-- A name in a field of 128 bytes; what does not fit is cut off. -/
def nameField (name : List UInt8) : List UInt8 :=
  name.take (symbolNameSize - 1) ++
    List.replicate (symbolNameSize - (name.take (symbolNameSize - 1)).length) 0

def symbolRecord (s : Symbol) : List UInt8 :=
  leBytes 4 s.type.code ++ leBytes 8 s.value ++ nameField s.name

def relocationRecord (r : Relocation) : List UInt8 :=
  leBytes 4 r.type.code ++ leBytes 4 r.offset ++ nameField r.name

def sectionName : SectionType → List UInt8
  | .text => [0x2E, 0x74, 0x65, 0x78, 0x74, 0, 0, 0]
  | .data => [0x2E, 0x64, 0x61, 0x74, 0x61, 0, 0, 0]
  | .bss => [0x2E, 0x62, 0x73, 0x73, 0, 0, 0, 0]

def sectionRecord (s : Section) : List UInt8 :=
  [s.type.code, s.fileOffset, s.loadOffset, s.fileSize, s.memSize].flatMap (leBytes 4) ++
    sectionName s.type

namespace Parts

variable (x : Parts)

def imageSize : ℕ := x.textSize + x.dataSize

def sections : List Section :=
  [⟨.text, 0, 0, x.textSize, x.textSize⟩,
    ⟨.data, x.textSize, x.textSize, x.dataSize, x.dataSize⟩,
    ⟨.bss, x.imageSize, x.imageSize, 0, x.bssSize⟩]

def header : List UInt8 :=
  [objectMagic, 6, x.imageSize, x.symbols.length, x.relocations.length, x.entry, 3, 0, 0].flatMap
    (leBytes 4)

def bytes : List UInt8 :=
  x.header ++ x.symbols.flatMap symbolRecord ++ x.relocations.flatMap relocationRecord ++
    x.sections.flatMap sectionRecord ++ x.image

/-- Names are C strings, and everything fits into its field. -/
structure Fits : Prop where
  symbols : x.symbols.length ≤ maxSymbols
  relocations : x.relocations.length ≤ maxRelocations
  entry : x.entry < x.imageSize
  image : x.image.length = x.imageSize
  imageSize : x.imageSize < 2 ^ 32
  bssSize : x.bssSize < 2 ^ 32
  symbol : ∀ s ∈ x.symbols, s.value < 2 ^ 64 ∧ s.name ≠ [] ∧ 0 ∉ s.name
  relocation : ∀ r ∈ x.relocations, r.offset < 2 ^ 32 ∧ 0 ∉ r.name

/-- What `zo_validate_object` finds in the file. -/
def info : ObjectInfo where
  file := File.ofList x.bytes
  version := 6
  imageSize := x.imageSize
  imageOffset := 36 + x.symbols.length * 140 + x.relocations.length * 136 + 3 * 28
  entryOffset := x.entry
  relocCount := x.relocations.length
  symbolCount := x.symbols.length
  sectionCount := 3
  symbols := 36
  relocations := 36 + x.symbols.length * 140
  sections := 36 + x.symbols.length * 140 + x.relocations.length * 136

end Parts

/-! ### Lengths -/

@[simp] lemma length_nameField (name : List UInt8) : (nameField name).length = 128 := by
  rw [nameField, length_append, length_replicate]
  have := length_take_le (symbolNameSize - 1) name
  simp only [symbolNameSize] at this ⊢
  omega

@[simp] lemma length_symRecord (s : Symbol) : (symbolRecord s).length = 140 := by
  simp [symbolRecord]

@[simp] lemma length_relocRecord (r : Relocation) : (relocationRecord r).length = 136 := by
  simp [relocationRecord]

@[simp] lemma length_secRecord (s : Section) : (sectionRecord s).length = 28 := by
  cases h : s.type <;> simp [sectionRecord, sectionName, h]

namespace Parts

variable {x : Parts}

@[simp] lemma length_header : x.header.length = 36 := by simp [header]

lemma length_bytes : x.bytes.length =
    36 + x.symbols.length * 140 + x.relocations.length * 136 + 3 * 28 + x.image.length := by
  simp only [bytes, length_append, length_header, length_records length_symRecord,
    length_records length_relocRecord, length_records length_secRecord]
  simp [sections]

/-! ### Where the records are -/

lemma header_at : At x.bytes 0 x.header := by
  simp only [bytes, append_assoc]
  exact At.zero _ _

lemma symbol_at {s : Symbol} (h : x.symbols[i]? = some s) :
    At x.bytes (36 + i * 140) (symbolRecord s) := by
  have := (At.flatMap length_symRecord h).append_left x.header
  rw [length_header] at this
  exact ((this.append_right _).append_right _).append_right _

lemma relocation_at (h : x.relocations[i]? = some r) :
    At x.bytes (36 + x.symbols.length * 140 + i * 136) (relocationRecord r) := by
  have := (At.flatMap length_relocRecord h).append_left (x.header ++ x.symbols.flatMap symbolRecord)
  rw [length_append, length_header, length_records length_symRecord] at this
  exact (this.append_right _).append_right _

lemma section_at (h : x.sections[i]? = some s) :
    At x.bytes (36 + x.symbols.length * 140 + x.relocations.length * 136 + i * 28)
      (sectionRecord s) := by
  have := (At.flatMap length_secRecord h).append_left
    (x.header ++ x.symbols.flatMap symbolRecord ++ x.relocations.flatMap relocationRecord)
  rw [length_append, length_append, length_header, length_records length_symRecord,
    length_records length_relocRecord] at this
  exact this.append_right _

lemma image_byte {a : ℕ} (ha : a < x.image.length) :
    x.info.file.bytes (x.info.imageOffset + a) = x.image[a] := by
  have hat := (At.self x.image).append_left (x.header ++ x.symbols.flatMap symbolRecord ++
    x.relocations.flatMap relocationRecord ++ x.sections.flatMap sectionRecord)
  have hlength := length_bytes (x := x)
  rw [bytes, length_append] at hlength
  rw [Nat.add_zero, show _ = x.info.imageOffset from Nat.add_right_cancel hlength] at hat
  exact hat.getElem ha

end Parts

/-! ### Reading names -/

lemma File.cstr_ofList (l : List UInt8) (off : ℕ) :
    (File.ofList l).cstr off = (l.drop off).takeWhile (· ≠ 0) := by
  have : (List.range (l.length - off)).map (fun k => Mem.ofList l (off + k)) = l.drop off := by
    refine ext_getElem (by simp) fun k hk hk' => ?_
    have hlt : off + k < l.length := by simp at hk; omega
    simp [Mem.ofList, getD_eq_getElem?_getD, hlt]
  rw [File.cstr, ← this]
  rfl

lemma cstr_nameField {l name : List UInt8} {off : ℕ} (h : At l off (nameField name))
    (hname : 0 ∉ name) : (File.ofList l).cstr off = name.take (symbolNameSize - 1) := by
  obtain ⟨rest, hrest⟩ := h
  have hzero : ∀ b ∈ name.take (symbolNameSize - 1), b ≠ 0 := fun b hb hb0 =>
    hname (hb0 ▸ mem_of_mem_take hb)
  obtain ⟨n, hn⟩ : ∃ n, symbolNameSize - (name.take (symbolNameSize - 1)).length = n + 1 := by
    have := length_take_le (symbolNameSize - 1) name
    simp only [symbolNameSize] at this ⊢
    exact Nat.exists_eq_add_one_of_ne_zero (by omega)
  rw [File.cstr_ofList, ← hrest, nameField, hn, replicate_succ, append_assoc,
    takeWhile_append_of_pos (by simpa using hzero)]
  simp

namespace Parts

variable {x : Parts}

/-! ### Reading back -/

lemma load_header {v : ℕ}
    (hi : [objectMagic, 6, x.imageSize, x.symbols.length, x.relocations.length, x.entry, 3, 0, 0][i]? =
      some v) (hv : v < 2 ^ 32) : load 4 (File.ofList x.bytes).bytes (i * 4) = v := by
  have := header_at.load_field hi
  rwa [Nat.zero_add, Nat.mod_eq_of_lt (by simpa using hv)] at this

lemma Fits.validateObject_eq (h : x.Fits) : validateObject (File.ofList x.bytes) = some x.info := by
  obtain ⟨hsymbols, hrelocations, hentry, himage, hsmall, -, -, -⟩ := h
  have hsize : (File.ofList x.bytes).size = _ := length_bytes
  simp only [maxSymbols, maxRelocations] at hsymbols hrelocations
  have hmagic : load 4 (File.ofList x.bytes).bytes 0 = objectMagic :=
    load_header (i := 0) rfl (by decide)
  have hversion : load 4 (File.ofList x.bytes).bytes 4 = 6 := load_header (i := 1) rfl (by decide)
  have himageSize : load 4 (File.ofList x.bytes).bytes 8 = x.imageSize :=
    load_header (i := 2) rfl (by omega)
  have hsymbolCount : load 4 (File.ofList x.bytes).bytes 12 = x.symbols.length :=
    load_header (i := 3) rfl (by omega)
  have hrelocCount : load 4 (File.ofList x.bytes).bytes 16 = x.relocations.length :=
    load_header (i := 4) rfl (by omega)
  have hentryOffset : load 4 (File.ofList x.bytes).bytes 20 = x.entry :=
    load_header (i := 5) rfl (by omega)
  have hsectionCount : load 4 (File.ofList x.bytes).bytes 24 = 3 :=
    load_header (i := 6) rfl (by decide)
  have hrelocs : versionHasRelocations 6 = true := rfl
  have hsections : versionHasSections 6 = true := rfl
  have hsymbolSize : symbolRecordSizeForVersion 6 = 140 := rfl
  have hrelocSize : relocationRecordSizeForVersion 6 = 136 := rfl
  rw [validateObject, if_neg (by rw [hsize, headerSize]; omega)]
  simp only [hmagic, hversion, himageSize, hsymbolCount, hrelocCount, hentryOffset, hsectionCount,
    hrelocs, hsections, hsymbolSize, hrelocSize, if_true, sectionRecordSize]
  rw [if_neg (by simp), if_neg (by simp only [maxSymbols, maxRelocations, maxSections]; omega),
    if_neg (by rw [hsize]; omega)]
  rfl

lemma symbolType_code (t : SymbolType) : symbolType t.code = some t := by cases t <;> rfl

lemma relocType_code (t : RelocType) : relocType t.code = some t := by cases t <;> rfl

lemma sectionType_code (t : SectionType) : sectionType t.code = some t := by cases t <;> rfl

/-- A record of a type, a number and a name. Only the first 127 bytes of the name come back. -/
lemma fields_of_record {name : List UInt8} {p n q code v : ℕ}
    (h : At x.bytes p (leBytes 4 code ++ leBytes n v ++ nameField name)) (hcode : code < 256 ^ 4)
    (hv : v < 256 ^ n) (hname : 0 ∉ name) (hq : 4 + n = q) :
    load 4 x.info.file.bytes p = code ∧ load n x.info.file.bytes (p + 4) = v ∧
      x.info.file.cstr (p + q) = name.take (symbolNameSize - 1) := by
  have hnumber :=
    ((At.self (leBytes n v)).append_left (leBytes 4 code)).append_right (nameField name)
  have hfield := (At.self (nameField name)).append_left (leBytes 4 code ++ leBytes n v)
  rw [length_leBytes] at hnumber
  rw [length_append, length_leBytes, length_leBytes, hq] at hfield
  have hload := (h.trans (((At.self _).append_right _).append_right _)).load
  exact ⟨hload.trans (Nat.mod_eq_of_lt hcode), (h.trans hnumber).load.trans (Nat.mod_eq_of_lt hv),
    cstr_nameField (h.trans hfield) hname⟩

lemma Fits.symbolAt_eq (h : x.Fits) {s : Symbol} (hs : x.symbols[i]? = some s) :
    symbolAt x.info i = some s.cut := by
  obtain ⟨hvalue, hname, hzero⟩ := h.symbol s (List.mem_of_getElem? hs)
  have hindex : i < x.symbols.length := (List.getElem?_eq_some_iff.mp hs).1
  obtain ⟨htype, hvalueField, hnameField⟩ :=
    fields_of_record (symbol_at hs) (by cases s.type <;> decide) (by omega) hzero (q := 12) rfl
  have hsize : symbolRecordSizeForVersion x.info.version = 140 := rfl
  have hne : s.name.take (symbolNameSize - 1) ≠ [] := by simp [symbolNameSize, hname]
  rw [symbolAt, if_neg (by simp only [info]; omega)]
  simp only [hsize, show x.info.symbols = 36 from rfl, htype, symbolType_code, hnameField, if_neg hne,
    hvalueField, Symbol.cut]

lemma Fits.relocationAt_eq (h : x.Fits) (hr : x.relocations[i]? = some r) :
    relocationAt x.info i = if r.offset + r.type.size ≤ x.imageSize then
      some r.cut else none := by
  obtain ⟨hoffset, hzero⟩ := h.relocation r (List.mem_of_getElem? hr)
  have hindex : i < x.relocations.length := (List.getElem?_eq_some_iff.mp hr).1
  obtain ⟨htype, hoffsetField, hnameField⟩ :=
    fields_of_record (relocation_at hr) (by cases r.type <;> decide) (by omega) hzero (q := 8) rfl
  have hsize : relocationRecordSizeForVersion x.info.version = 136 := rfl
  rw [relocationAt, if_neg (by simp only [info]; omega)]
  simp only [hsize, show x.info.relocations = 36 + x.symbols.length * 140 from rfl, htype,
    relocType_code, hoffsetField, hnameField]
  by_cases hroom : r.offset + r.type.size ≤ x.imageSize
  · rw [if_neg (by simp only [info]; omega), if_pos hroom, Relocation.cut]
  · rw [if_pos (by simp only [info]; omega), if_neg hroom]

lemma mem_sections_bounds (hs : s ∈ x.sections) :
    s.fileOffset + s.fileSize ≤ x.imageSize ∧ s.loadOffset ≤ x.imageSize ∧ s.fileSize ≤ s.memSize ∧
      (s.memSize ≤ x.imageSize ∨ s.memSize ≤ x.bssSize) ∧
      s.loadOffset + s.memSize ≤ x.imageSize + x.bssSize := by
  simp only [sections, mem_cons, not_mem_nil, or_false] at hs
  rcases hs with rfl | rfl | rfl <;> simp only [imageSize] <;> omega

lemma Fits.sectionAt_eq (h : x.Fits) (hs : x.sections[i]? = some s) :
    sectionAt x.info i = if s.loadOffset + s.memSize < 2 ^ 32 then some s else none := by
  obtain ⟨hfile, hload, hfileSize, hmemSize, -⟩ := mem_sections_bounds (List.mem_of_getElem? hs)
  have himage := h.imageSize
  have hbss := h.bssSize
  have hindex : i < 3 := (List.getElem?_eq_some_iff.mp hs).1
  have hfields : At x.bytes (36 + x.symbols.length * 140 + x.relocations.length * 136 + i * 28)
      ([s.type.code, s.fileOffset, s.loadOffset, s.fileSize, s.memSize].flatMap (leBytes 4)) :=
    (section_at hs).trans ((At.self _).append_right _)
  rw [sectionAt, if_neg (by simp only [info]; omega)]
  simp only [show x.info.sections = 36 + x.symbols.length * 140 + x.relocations.length * 136 from rfl,
    sectionRecordSize]
  generalize 36 + x.symbols.length * 140 + x.relocations.length * 136 + i * 28 = p at hfields
  have hfield : ∀ j v, [s.type.code, s.fileOffset, s.loadOffset, s.fileSize, s.memSize][j]? = some v →
      v < 2 ^ 32 → load 4 x.info.file.bytes (p + j * 4) = v :=
    fun j v hj hv => (hfields.load_field hj).trans (Nat.mod_eq_of_lt hv)
  have htype : load 4 x.info.file.bytes p = _ := hfield 0 _ rfl (by cases s.type <;> decide)
  have hfileOffset : load 4 x.info.file.bytes (p + 4) = _ := hfield 1 _ rfl (by omega)
  have hloadOffset : load 4 x.info.file.bytes (p + 8) = _ := hfield 2 _ rfl (by omega)
  have hfileSizeField : load 4 x.info.file.bytes (p + 12) = _ := hfield 3 _ rfl (by omega)
  have hmemSizeField : load 4 x.info.file.bytes (p + 16) = _ := hfield 4 _ rfl (by omega)
  simp only [htype, sectionType_code, hfileOffset, hloadOffset, hfileSizeField, hmemSizeField]
  rw [if_neg (by simp only [info]; omega)]
  by_cases hroom : s.loadOffset + s.memSize < 2 ^ 32
  · rw [if_neg (by simp only [info]; omega), if_pos hroom]
  · rw [if_pos (by omega), if_neg hroom]

def readSymbols (x : Parts) : List Symbol := x.symbols.map Symbol.cut

lemma Fits.symbols_read (h : x.Fits) :
    (List.range x.info.symbolCount).mapM (symbolAt x.info) = some x.readSymbols := by
  refine mapM_eq_some_iff.mpr
    (forall₂_iff_get.mpr ⟨by simp [info, readSymbols], fun i hi hi' => ?_⟩)
  have hindex : i < x.symbols.length := by simpa [readSymbols] using hi'
  have : x.symbols[i]? = some (x.symbols.get ⟨i, hindex⟩) := by simp
  simpa [readSymbols] using h.symbolAt_eq this

lemma Fits.sections_read (h : x.Fits) : (List.range x.info.sectionCount).mapM (sectionAt x.info) =
      if x.imageSize + x.bssSize < 2 ^ 32 then some x.sections else none := by
  have hat : ∀ i s, x.sections[i]? = some s → s.loadOffset + s.memSize < 2 ^ 32 →
      sectionAt x.info i = some s := fun i s hs hroom => by rw [h.sectionAt_eq hs, if_pos hroom]
  by_cases hroom : x.imageSize + x.bssSize < 2 ^ 32
  · rw [if_pos hroom]
    refine mapM_eq_some_iff.mpr (forall₂_iff_get.mpr ⟨rfl, fun i hi hi' => ?_⟩)
    have hs : x.sections[i]? = some (x.sections.get ⟨i, hi'⟩) := by simp
    have hbounds := (mem_sections_bounds (List.mem_of_getElem? hs)).2.2.2.2
    simpa using hat i _ hs (hbounds.trans_lt hroom)
  rw [if_neg hroom]
  rcases hread : (List.range x.info.sectionCount).mapM (sectionAt x.info) with _ | ss
  · rfl
  -- the third record is refused
  have hget := (forall₂_iff_get.mp (mapM_eq_some_iff.mp hread)).2 2 (by simp [info])
    (by rw [length_mapM hread]; simp [info])
  have hbss := h.sectionAt_eq (i := 2) (s := ⟨.bss, x.imageSize, x.imageSize, 0, x.bssSize⟩) rfl
  rw [if_neg hroom] at hbss
  simp only [get_eq_getElem, getElem_range, hbss] at hget
  cases hget

/-- The linker reads the parts back, or refuses the size of the bss section. -/
theorem Fits.readObject_eq (h : x.Fits) : readObject (File.ofList x.bytes) =
    if x.imageSize + x.bssSize < 2 ^ 32 then some ⟨x.info, x.sections, x.readSymbols⟩ else none := by
  have hversion : ¬ versionHasSections x.info.version = false := by simp [info, versionHasSections]
  have hcount : ¬ x.info.sectionCount = 0 := by simp [info]
  simp only [readObject, h.validateObject_eq, Option.bind_eq_bind, Option.bind_some, h.symbols_read,
    h.sections_read, Option.pure_def, if_neg hversion, if_neg hcount]
  split_ifs <;> rfl

end Parts

end ZObject
