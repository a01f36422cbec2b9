import LainOS.Asm.Passes
import LainOS.ZObject.Write

/-!
# Objects from assembly

`zobject_from_asm` collects the symbols that comments of the source declare, assembles the source at
base 0, measures the part in front of the data section and writes an object. What it writes can be
read back if the entry lies inside the image; it is not checked that it does.
-/

namespace ZObject

open List

open Asm (Text str charIsSpace skipSpaces splitLines bufferLine sourceLines ExternalSymbol Context
  Assembled Label)

variable {info : ObjectInfo} {name : Text} {symbols symbols' : List Symbol}

/-! ### Declared symbols -/

def nameChar (ch : UInt8) : Bool :=
  (0x61 ≤ ch && ch ≤ 0x7A) || (0x41 ≤ ch && ch ≤ 0x5A) || (0x30 ≤ ch && ch ≤ 0x39) || ch == 0x5F

def parseMetadataName (text : Text) : Option Text :=
  let name := (skipSpaces text).takeWhile nameChar
  if name = [] ∨ name.length + 1 > symbolNameSize then none else some name

def addSymbol (symbols : List Symbol) (type : SymbolType) (name : Text) : Option (List Symbol) :=
  if symbols.any fun s => s.type == type && s.name == name then some symbols
  else if symbols.length ≥ maxSymbols then none
  else some (symbols ++ [⟨type, 0, name⟩])

def metadataKeywords : List (String × SymbolType) :=
  [("; zexport ", .exported), ("; zextern ", .external),
    ("; zo_export ", .exported), ("; zo_extern ", .external)]

/-- One line of `zo_collect_metadata_symbols`. -/
def collectLine (symbols : List Symbol) (line : Text) : Option (List Symbol) :=
  let s := skipSpaces (bufferLine line)
  match metadataKeywords.find? fun (keyword, _) => (str keyword).isPrefixOf s with
  | none => some symbols
  | some (keyword, type) =>
    (parseMetadataName (s.drop (str keyword).length)).bind (addSymbol symbols type)

def collectMetadataSymbols (source : List UInt8) : Option (List Symbol) :=
  (splitLines source).foldlM collectLine []

/-! ### The text part -/

def lineIsSectionData (line : Text) : Bool :=
  let line := skipSpaces line
  (str "section").isPrefixOf line && (line.drop 7).head?.any charIsSpace &&
    let rest := skipSpaces (line.drop 8)
    (str ".data").isPrefixOf rest || (str "data").isPrefixOf rest

/-- `zo_find_data_section_source_offset`, from the position `pos` on. -/
def dataSectionSourceOffset (size : ℕ) : ℕ → List Text → ℕ
  | _, [] => size
  | pos, line :: lines =>
    if lineIsSectionData (bufferLine line) then pos
    else dataSectionSourceOffset size (pos + line.length + 1) lines

/-! ### The object -/

/-- `ZOBJECT_LINK_ASM_SIZE` -/
def linkAsmSize : UInt32 := 8 * 1024 * 1024

/-- Symbols the assembler does not place itself; their value is 0. -/
def unplaced (type : SymbolType) (symbols : List Symbol) : List ExternalSymbol :=
  (symbols.filter (·.type == type)).map fun s => ⟨some s.name, 0⟩

/-- The context in which the source of an object with these symbols is assembled. -/
def objectContext (kernelExports : List (Text × UInt64)) (symbols : List Symbol) : Context :=
  ⟨linkAsmSize, 0, unplaced .external symbols, some maxRelocations.toUInt32, kernelExports⟩

def exportNames (symbols : List Symbol) : List Text :=
  (symbols.filter (·.type == .exported)).map (·.name)

/-- The symbols with the values of the exports; every export is found. -/
def setValues (names : List Text) (values : List UInt64) (symbols : List Symbol) :
    Option (List Symbol) :=
  symbols.mapM fun s =>
    match s.type with
    | .external => some s
    | .exported => ((names.zip values).find? (·.1 == s.name)).map fun p => ⟨s.type, p.2.toNat, s.name⟩

variable (kernelExports : List (Text × UInt64)) (source : List UInt8) (entryLabel : Text)

/-- `zobject_from_asm` up to the writing of the file. The limits on the numbers of exports and of
external symbols cannot be met with `maxSymbols` symbols. -/
def partsFromAsm : Except ℤ Parts :=
  match collectMetadataSymbols source with
  | none => .error (-10)
  | some symbols =>
    let measureSymbols := (unplaced .external symbols ++ unplaced .exported symbols).take maxSymbols
    let dataOffset := dataSectionSourceOffset source.length 0 (splitLines source)
    match Asm.measureSource measureSymbols kernelExports (source.take dataOffset) with
    | .error _ => .error (-21)
    | .ok textSize =>
      match Asm.assembleSource (objectContext kernelExports symbols) source
          (entryLabel :: exportNames symbols) with
      | .error line => .error (if line ≠ 0 then -(3000 + line) else -30)
      | .ok a =>
        if textSize > a.outSize then .error (-31)
        else
          let entryValue := a.exportValues.headD 0
          if entryValue > 0xFFFFFFFF then .error (-40)
          else
            match setValues (exportNames symbols) a.exportValues.tail symbols with
            | none => .error (-50)
            | some symbols => .ok
              { entry := entryValue.toNat
                textSize := textSize.toNat
                dataSize := (a.outSize - textSize).toNat
                bssSize := 0
                symbols := symbols
                relocations := a.out.records
                image := a.out.bytes }

/-- `zobject_from_asm` -/
def fromAsm (outCapacity : UInt32) : Except ℤ (List UInt8) :=
  match partsFromAsm kernelExports source entryLabel with
  | .error code => .error code
  | .ok parts =>
    if parts.bytes.length > outCapacity.toNat then .error (-60) else .ok parts.bytes

/-! ### Reading back -/

/-- The file is accepted, and the accessors give the parts. -/
def ReadsBack (parts : Parts) (file : File) : Prop :=
  ∃ info, validateObject file = some info ∧ info.entryOffset = parts.entry ∧
    (List.range info.symbolCount).mapM (symbolAt info) = some parts.symbols ∧
    (List.range info.relocCount).mapM (relocationAt info) = some parts.relocations ∧
    (List.range info.sectionCount).mapM (sectionAt info) = some parts.sections ∧
    info.imageSize = parts.image.length ∧
    ∀ a, (h : a < parts.image.length) → file.bytes (info.imageOffset + a) = parts.image[a]

namespace Parts

variable {x : Parts}

/-- Names are as short as their fields, and relocations lie inside the image. -/
structure Whole (x : Parts) : Prop where
  symbol : ∀ s ∈ x.symbols, s.name.length < symbolNameSize
  relocation : ∀ r ∈ x.relocations,
    r.name.length < symbolNameSize ∧ r.offset + r.type.size ≤ x.imageSize
  bssSize : x.bssSize = 0

lemma Symbol.cut_eq {s : Symbol} (h : s.name.length < symbolNameSize) : s.cut = s := by
  rw [Symbol.cut, take_of_length_le (by omega)]

lemma Relocation.cut_eq {r : Relocation} (h : r.name.length < symbolNameSize) : r.cut = r := by
  rw [Relocation.cut, take_of_length_le (by omega)]

lemma Fits.relocations_read (h : x.Fits) (hwhole : x.Whole) :
    (List.range x.info.relocCount).mapM (relocationAt x.info) = some x.relocations := by
  refine mapM_eq_some_iff.mpr (forall₂_iff_get.mpr ⟨by simp [info], fun i hi hi' => ?_⟩)
  have hr : x.relocations[i]? = some (x.relocations.get ⟨i, hi'⟩) := by simp
  obtain ⟨hname, hinside⟩ := hwhole.relocation _ (mem_of_getElem? hr)
  have hread := h.relocationAt_eq hr
  rw [if_pos hinside, Relocation.cut_eq hname] at hread
  simpa using hread

theorem Fits.readsBack (h : x.Fits) (hwhole : x.Whole) : ReadsBack x (File.ofList x.bytes) := by
  refine ⟨x.info, h.validateObject_eq, rfl, ?_, h.relocations_read hwhole, ?_, h.image.symm,
    fun a ha => image_byte ha⟩
  · rw [h.symbols_read, readSymbols, map_congr_left fun s hs => Symbol.cut_eq (hwhole.symbol s hs),
      map_id']
  · rw [h.sections_read, if_pos (by rw [hwhole.bssSize]; exact h.imageSize)]

end Parts

lemma entry_lt_of_validateObject {f : File} (h : validateObject f = some info) :
    Mem.load 4 f.bytes 20 < Mem.load 4 f.bytes 8 := by
  simp only [validateObject] at h
  split_ifs at h
  all_goals omega

/-! ### What is declared -/

/-- A name that fits into a record. -/
structure NameFits (name : Text) : Prop where
  ne_nil : name ≠ []
  zero_notMem : 0 ∉ name
  length_lt : name.length < symbolNameSize

lemma metadataName_fits {text : Text} (h : parseMetadataName text = some name) : NameFits name := by
  rw [parseMetadataName] at h
  split_ifs at h with hbad
  cases h
  push Not at hbad
  refine ⟨hbad.1, fun hzero => ?_, by have := hbad.2; omega⟩
  have := mem_takeWhile_imp hzero
  revert this
  decide

/-- The symbols that are collected. -/
structure Collected (symbols : List Symbol) : Prop where
  length_le : symbols.length ≤ maxSymbols
  symbol : ∀ s ∈ symbols, NameFits s.name ∧ s.value < 2 ^ 64

lemma Collected.addSymbol {type : SymbolType} (hc : Collected symbols) (hname : NameFits name)
    (h : ZObject.addSymbol symbols type name = some symbols') : Collected symbols' := by
  rw [ZObject.addSymbol] at h
  split_ifs at h with hknown hfull
  · cases h
    exact hc
  cases h
  refine ⟨by rw [length_append, length_singleton]; omega, fun s hs => ?_⟩
  rcases mem_append.mp hs with hs | hs
  · exact hc.symbol s hs
  · obtain rfl := mem_singleton.mp hs
    exact ⟨hname, Nat.two_pow_pos 64⟩

lemma Collected.collectLine {line : Text} (hc : Collected symbols)
    (h : ZObject.collectLine symbols line = some symbols') : Collected symbols' := by
  rw [ZObject.collectLine] at h
  simp only at h
  split at h
  next =>
    cases h
    exact hc
  next =>
    obtain ⟨name, hparse, hadd⟩ := Option.bind_eq_some_iff.mp h
    exact hc.addSymbol (metadataName_fits hparse) hadd

lemma collected_of_lines {lines : List Text} (hc : Collected symbols)
    (h : lines.foldlM collectLine symbols = some symbols') : Collected symbols' := by
  induction lines generalizing symbols with
  | nil =>
    cases h
    exact hc
  | cons line lines ih =>
    rw [foldlM_cons] at h
    obtain ⟨symbols₁, h₁, h₂⟩ := Option.bind_eq_some_iff.mp h
    exact ih (hc.collectLine h₁) h₂

lemma collected_of_source {source : List UInt8} (h : collectMetadataSymbols source = some symbols) :
    Collected symbols :=
  collected_of_lines ⟨Nat.zero_le _, by simp⟩ h

lemma nameFits_of_external {kernelExports : List (Text × UInt64)} (hc : Collected symbols)
    (h : ((objectContext kernelExports symbols).externalSymbolValue name).isSome) :
    NameFits name := by
  obtain ⟨v, hv⟩ := Option.isSome_iff_exists.mp h
  obtain ⟨e, he, -⟩ := Option.map_eq_some_iff.mp hv
  have hmem := mem_of_find?_eq_some he
  have hname : e.name = some name := by simpa using find?_some he
  simp only [objectContext, unplaced, mem_map, mem_filter] at hmem
  obtain ⟨s, ⟨hs, -⟩, rfl⟩ := hmem
  cases hname
  exact (hc.symbol s hs).1

lemma Collected.setValues {names : List Text} {values : List UInt64} (hc : Collected symbols)
    (h : ZObject.setValues names values symbols = some symbols') : Collected symbols' := by
  refine ⟨(length_mapM h).trans_le hc.length_le, fun s' hs' => ?_⟩
  obtain ⟨s, hs, hset⟩ := exists_of_mem_mapM h hs'
  obtain ⟨hname, hvalue⟩ := hc.symbol s hs
  split at hset
  next =>
    cases hset
    exact ⟨hname, hvalue⟩
  next =>
    obtain ⟨p, -, rfl⟩ := Option.map_eq_some_iff.mp hset
    exact ⟨hname, p.2.toNat_lt⟩

/-! ### The result -/

/-- The value that the entry label has in the source lies below the size the assembler measures for
the source. -/
def EntryInside (kernelExports : List (Text × UInt64)) (source : List UInt8) (entryLabel : Text) :
    Prop :=
  ∃ symbols measured v, collectMetadataSymbols source = some symbols ∧
    Asm.pass (objectContext kernelExports symbols) false 0 (sourceLines source) ⟨[], .empty⟩ =
      .ok measured ∧
    (objectContext kernelExports symbols).value measured.labels entryLabel = some v ∧
    v.toNat < measured.out.offset.toNat

/-- What went into an object that is written. -/
lemma partsFromAsm_eq_ok {parts : Parts}
    (h : partsFromAsm kernelExports source entryLabel = .ok parts) :
    ∃ symbols textSize a, collectMetadataSymbols source = some symbols ∧
      Asm.measureSource ((unplaced .external symbols ++ unplaced .exported symbols).take maxSymbols)
        kernelExports (source.take (dataSectionSourceOffset source.length 0 (splitLines source))) =
          .ok textSize ∧
      Asm.assembleSource (objectContext kernelExports symbols) source
        (entryLabel :: exportNames symbols) = .ok a ∧
      parts.imageSize = a.outSize.toNat ∧ parts.entry < 2 ^ 32 ∧
      setValues (exportNames symbols) a.exportValues.tail symbols = some parts.symbols ∧
      parts = ⟨(a.exportValues.headD 0).toNat, textSize.toNat, (a.outSize - textSize).toNat, 0,
        parts.symbols, a.out.records, a.out.bytes⟩ := by
  rw [partsFromAsm] at h
  split at h
  next => cases h
  next symbols hsymbols =>
    simp only at h
    split at h
    next => cases h
    next textSize hmeasure =>
      split at h
      next => cases h
      next a hassemble =>
        split_ifs at h with htext hentry
        split at h
        next => cases h
        next symbols' hset =>
          cases h
          refine ⟨symbols, textSize, a, hsymbols, hmeasure, hassemble, ?_, ?_, hset, rfl⟩
          · have hle := UInt32.not_lt.mp htext
            rw [Parts.imageSize, UInt32.toNat_sub_of_le _ _ hle]
            exact Nat.add_sub_cancel' hle
          · exact Nat.lt_succ_of_le (UInt64.not_lt.mp hentry)

section

variable {kernelExports source entryLabel} {parts : Parts}
  (h : partsFromAsm kernelExports source entryLabel = .ok parts)
include h

lemma whole_of_partsFromAsm : parts.Whole ∧ (parts.entry < parts.imageSize → parts.Fits) := by
  obtain ⟨symbols, textSize, a, hsymbols, -, hassemble, hsize, -, hset, hparts⟩ :=
    partsFromAsm_eq_ok _ _ _ h
  have hcollected := collected_of_source hsymbols
  have hvalues := hcollected.setValues hset
  obtain ⟨⟨bytes, hbytes, hlength⟩, ⟨records, hrecords, hnoted⟩, hroom, -⟩ :=
    Asm.assemble_grew hassemble
  obtain rfl : a.out.bytes = bytes := hbytes
  obtain rfl : a.out.records = records := hrecords
  have hrelocation : ∀ r ∈ a.out.records, r.name.length < symbolNameSize ∧
      r.offset + r.type.size ≤ parts.imageSize ∧ 0 ∉ r.name := by
    intro r hr
    have hr := hnoted r hr
    refine ⟨hr.name_length, hsize ▸ hr.le_stop, ?_⟩
    rcases hr.name with hname | hname
    · simp [hname]
    · exact (nameFits_of_external hcollected hname).zero_notMem
  have hsmall : parts.imageSize < 2 ^ 32 := hsize ▸ a.outSize.toNat_lt
  have hrecordsParts : parts.relocations = a.out.records := by rw [hparts]
  refine ⟨⟨fun s hs => (hvalues.symbol s hs).1.length_lt, fun r hr => ?_, by rw [hparts]⟩,
    fun hinside => ⟨hvalues.length_le, ?_, hinside, ?_, hsmall, ?_, fun s hs => ?_, fun r hr => ?_⟩⟩
  · obtain ⟨hname, hle, -⟩ := hrelocation r (hrecordsParts ▸ hr)
    exact ⟨hname, hle⟩
  · rw [hrecordsParts]
    exact hroom _ rfl (Nat.zero_le _)
  · rw [hsize, hparts]
    exact (hlength.trans (Nat.zero_add _)).symm
  · rw [hparts]
    exact Nat.two_pow_pos 32
  · obtain ⟨hname, hvalue⟩ := hvalues.symbol s hs
    exact ⟨hvalue, hname.ne_nil, hname.zero_notMem⟩
  · obtain ⟨-, hle, hzero⟩ := hrelocation r (hrecordsParts ▸ hr)
    exact ⟨by omega, hzero⟩

lemma entryInside_of_parts :
    EntryInside kernelExports source entryLabel ↔ parts.entry < parts.imageSize := by
  obtain ⟨symbols, textSize, a, hsymbols, -, hassemble, hsize, -, hset, hparts⟩ :=
    partsFromAsm_eq_ok _ _ _ h
  obtain ⟨m', e', hm, hexports, he, hlabels, hout⟩ := Asm.assemble_eq_ok hassemble
  have hstart : Asm.Level ⟨[], .empty⟩ ⟨a.labels, .empty⟩ := ⟨rfl, rfl⟩
  have hend := Asm.level_end hstart hm he
  have hmeasured : m'.out.offset = a.outSize := by rw [hend.1, hout, Asm.Assembled.outSize]
  -- the first value is that of the entry label
  rw [mapM_cons] at hexports
  obtain ⟨v, hv, hrest⟩ := Option.bind_eq_some_iff.mp hexports
  obtain ⟨vs, -, hvs⟩ := Option.bind_eq_some_iff.mp hrest
  have hentryValue : parts.entry = v.toNat := by
    rw [hparts, ← Option.some.inj hvs]
    rfl
  constructor
  · rintro ⟨symbols', measured, v', hsymbols', hmeasure', hv', hlt⟩
    cases hsymbols.symm.trans hsymbols'
    cases hm.symm.trans hmeasure'
    rw [hlabels] at hv'
    cases hv.symm.trans hv'
    rwa [hentryValue, hsize, ← hmeasured]
  · intro hlt
    refine ⟨symbols, m', v, hsymbols, hm, hlabels ▸ hv, ?_⟩
    rwa [hmeasured, ← hsize, ← hentryValue]

lemma entry_lt_of_valid (hvalid : validateObject (File.ofList parts.bytes) = some info) :
    parts.entry < parts.imageSize := by
  obtain ⟨symbols, textSize, a, -, -, -, hsize, hentry, -, -⟩ := partsFromAsm_eq_ok _ _ _ h
  have hlt := entry_lt_of_validateObject hvalid
  have hentryField := Parts.load_header (x := parts) (i := 5) rfl hentry
  have himageField := Parts.load_header (x := parts) (i := 2) rfl (hsize ▸ a.outSize.toNat_lt)
  rwa [hentryField, himageField] at hlt

/-- The object that is written can be read back exactly if the entry lies inside the image. -/
theorem fromAsm_readsBack_iff {outCapacity : UInt32} {bytes : List UInt8}
    (hfile : fromAsm kernelExports source entryLabel outCapacity = .ok bytes) :
    ReadsBack parts (File.ofList bytes) ↔ EntryInside kernelExports source entryLabel := by
  rw [entryInside_of_parts h]
  obtain ⟨hwhole, hfits⟩ := whole_of_partsFromAsm h
  simp only [fromAsm, h] at hfile
  split_ifs at hfile with hroom
  cases hfile
  constructor
  · rintro ⟨info, hvalid, -⟩
    exact entry_lt_of_valid h hvalid
  · intro hinside
    exact (hfits hinside).readsBack hwhole

end

/-- A source whose entry is its first instruction. -/
def entryFirst : List UInt8 := str "; zexport start\nstart: nop\n"

theorem fromAsm_readsBack_iff_entryFirst :
    ∃ parts bytes, partsFromAsm [] entryFirst (str "start") = .ok parts ∧
      fromAsm [] entryFirst (str "start") 1000 = .ok bytes ∧ ReadsBack parts (File.ofList bytes) := by
  have hinside : (partsFromAsm [] entryFirst (str "start")).toOption.map
      (fun parts => decide (parts.entry < parts.imageSize ∧ parts.bytes.length ≤ 1000)) =
        some true := by
    decide +kernel
  rcases hparts : partsFromAsm [] entryFirst (str "start") with code | parts
  · rw [hparts] at hinside
    cases hinside
  rw [hparts] at hinside
  obtain ⟨hentry, hroom⟩ := of_decide_eq_true (Option.some.inj hinside)
  have hfile : fromAsm [] entryFirst (str "start") 1000 = .ok parts.bytes := by
    simp only [fromAsm, hparts]
    exact if_neg (Nat.not_lt.mpr hroom)
  exact ⟨parts, parts.bytes, rfl, hfile, (fromAsm_readsBack_iff hparts hfile).mpr
    ((entryInside_of_parts hparts).mpr hentry)⟩

/-- A label behind the last instruction is taken as entry, and the object is refused. -/
theorem fromAsm_entry_behind : ∃ bytes, fromAsm [] (str "nop\nlast:\n") (str "last") 1000 = .ok bytes ∧
    validateObject (File.ofList bytes) = none := by
  have h : (fromAsm [] (str "nop\nlast:\n") (str "last") 1000).toOption.map
      (fun bytes => (validateObject (File.ofList bytes)).isNone) = some true := by
    decide +kernel
  cases hfile : fromAsm [] (str "nop\nlast:\n") (str "last") 1000 with
  | error code =>
    rw [hfile] at h
    cases h
  | ok bytes =>
    rw [hfile] at h
    exact ⟨bytes, rfl, Option.isNone_iff_eq_none.mp (Option.some.inj h)⟩

end ZObject
