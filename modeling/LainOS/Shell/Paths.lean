import LainOS.LainFS.Items
import LainOS.Shell.RegistryFile

/-!
# Paths

A path names a drive, by a letter or else the active one, and leads from the root or from the working
directory of that drive through directories to its last part. The functions of the shell ask the file
system for one directory after the other. On a machine whose volumes are valid they find what the
tables say (`resolveFile_eq`) and change nothing that matters to a later path (`Steady`).
-/

namespace Shell

open LainFS Function Option
open Storage (toUpper storageGetMountByDrive SameTables)

def maxDrives : ℕ := 26

/-! ### Parts of a path -/

def pathIsSeparator (c : UInt8) : Bool := c == 0x2F || c == 0x5C

/-- The parts between the separators; several separators in a row count as one. -/
def pathParts (s : List UInt8) : List CString :=
  ((s.splitOnP pathIsSeparator).filter (· ≠ [])).map CString.ofBytes

/-- `copy_path_part_limited` into `size` bytes -/
def partFits (size : ℕ) (part : List UInt8) : Bool := 0 < part.length && part.length < size

/-- The size of `part`, of `out_name` and of the names in the copying functions. -/
def nameSize : ℕ := 32

/-- The string `.` -/
def dot : CString := ⟨[0x2E], by simp⟩

/-- The string `..` -/
def dotDot : CString := ⟨[0x2E, 0x2E], by simp⟩

/-- A path that starts with a separator starts in the root. -/
def startDir (baseDir : UInt32) (s : List UInt8) : UInt32 :=
  match s with
  | c :: _ => if pathIsSeparator c then rootDir else baseDir
  | [] => baseDir

/-! ### Walking -/

/-- The id that a call handed back, if it returned 0. -/
def foundId (r : (ℤ × UInt32) × State) : Option UInt32 × State :=
  (if r.1.1 = 0 then some r.1.2 else none, r.2)

/-- What both loops do with a part that is not the name of the file. -/
def enterDir (st : State) (drive : UInt8) (dir : UInt32) (part : CString) :
    Option UInt32 × State :=
  if part = dot then (some dir, st)
  else if part = dotDot then foundId (lainfsParentDir st drive dir)
  else foundId (lainfsFindDir st drive dir part)

/-- The loop of `resolve_file_path`. -/
def resolveFileParts (drive : UInt8) :
    State → UInt32 → List CString → Except ℤ (UInt32 × CString) × State
  | st, _, [] => (.error (-1), st)
  | st, dir, [part] =>
    if partFits nameSize part.bytes = true then (.ok (dir, part), st) else (.error (-1), st)
  | st, dir, part :: rest =>
    if partFits nameSize part.bytes = true then
      match enterDir st drive dir part with
      | (none, st') => (.error (-5), st')
      | (some dir', st') => resolveFileParts drive st' dir' rest
    else (.error (-1), st)

def resolveFilePath (st : State) (drive : UInt8) (baseDir : UInt32) (path : List UInt8) :
    Except ℤ (UInt32 × CString) × State :=
  let s := path.dropWhile isSpace
  if s = [] then (.error (-1), st)
  else resolveFileParts drive st (startDir baseDir s) (pathParts s)

/-- The loop of `resolve_dir_path`. -/
def resolveDirParts (drive : UInt8) : State → UInt32 → List CString → Except ℤ UInt32 × State
  | st, dir, [] => (.ok dir, st)
  | st, dir, part :: rest =>
    if partFits nameSize part.bytes = true then
      match enterDir st drive dir part with
      | (none, st') => (.error (-5), st')
      | (some dir', st') => resolveDirParts drive st' dir' rest
    else (.error (-1), st)

def resolveDirPath (st : State) (drive : UInt8) (baseDir : UInt32) (path : List UInt8) :
    Except ℤ UInt32 × State :=
  let s := path.dropWhile isSpace
  if s = [] ∨ s = dot.bytes then (.ok baseDir, st)
  else resolveDirParts drive st (startDir baseDir s) (pathParts s)

/-! ### Drives -/

/-- The drives and the active session of the shell. -/
structure Session where
  fs : State
  /-- `drives[].present` -/
  present : Fin maxDrives → Bool
  /-- `cwd_dirs` -/
  dirIds : Fin maxDrives → UInt32
  /-- `active_drive()` -/
  drive : Option (Fin maxDrives)

def driveLetter (drive : Fin maxDrives) : UInt8 := 0x41 + UInt8.ofNat drive.val

def driveOfLetter (c : UInt8) : Option (Fin maxDrives) :=
  if h : (toUpper c - 0x41).toNat < maxDrives then some ⟨(toUpper c - 0x41).toNat, h⟩ else none

def storageDriveIsMounted (s : Storage.State) (drive : UInt8) : Bool :=
  (storageGetMountByDrive s drive).isSome

/-- The drive of a path and what follows the letter. -/
def drivePart (path : List UInt8) (fallback : Fin maxDrives) : Fin maxDrives × List UInt8 :=
  let s := path.dropWhile isSpace
  match s with
  | c :: 0x3A :: rest =>
    match driveOfLetter c with
    | some drive => (drive, rest)
    | none => (fallback, s)
  | _ => (fallback, s)

/-- A mounted drive that the shell does not know yet is entered at its root. -/
def pathDrivePrefix (sh : Session) (path : List UInt8) (fallback : Fin maxDrives) :
    Option (Fin maxDrives × List UInt8) × Session :=
  let r := drivePart path fallback
  if sh.present r.1 = true then (some r, sh)
  else if storageDriveIsMounted sh.fs.storage (driveLetter r.1) = true then
    (some r, { sh with
      present := update sh.present r.1 true
      dirIds := update sh.dirIds r.1 rootDir })
  else (none, sh)

def resolveFilePathWithDrive (sh : Session) (path : List UInt8) (fallback : Fin maxDrives) :
    Option (Fin maxDrives × UInt32 × CString) × Session :=
  match pathDrivePrefix sh path fallback with
  | (none, sh) => (none, sh)
  | (some (drive, path), sh) =>
    match resolveFilePath sh.fs (driveLetter drive) (sh.dirIds drive) path with
    | (.error _, fs) => (none, { sh with fs })
    | (.ok (parent, name), fs) => (some (drive, parent, name), { sh with fs })

/-! ### What the tables say -/

/-- The table of the volume on a drive. -/
def driveTable (st : State) (drive : UInt8) : Option Directory :=
  (mountForDrive st drive).map (tableOf st)

def enterIn (d : Option Directory) (dir : UInt32) (part : CString) : Option UInt32 :=
  if part = dot then some dir
  else if part = dotDot then d.bind (parentDirIn · dir)
  else d.bind (findDirIn · dir part.bytes)

/-- The directory at the end of a list of parts. -/
def walkIn (d : Option Directory) : UInt32 → List CString → Option UInt32
  | dir, [] => some dir
  | dir, part :: rest =>
    if partFits nameSize part.bytes = true then (enterIn d dir part).bind (walkIn d · rest) else none

/-- The directory and the name at the end of a list of parts. -/
def fileIn (d : Option Directory) : UInt32 → List CString → Option (UInt32 × CString)
  | _, [] => none
  | dir, [part] => if partFits nameSize part.bytes = true then some (dir, part) else none
  | dir, part :: rest =>
    if partFits nameSize part.bytes = true then (enterIn d dir part).bind (fileIn d · rest) else none

/-- The directory a path leads to. -/
def dirPlace (d : Option Directory) (baseDir : UInt32) (path : List UInt8) : Option UInt32 :=
  let s := path.dropWhile isSpace
  if s = [] ∨ s = dot.bytes then some baseDir
  else walkIn d (startDir baseDir s) (pathParts s)

/-- The directory and the name a path leads to. -/
def filePlace (d : Option Directory) (baseDir : UInt32) (path : List UInt8) :
    Option (UInt32 × CString) :=
  let s := path.dropWhile isSpace
  if s = [] then none else fileIn d (startDir baseDir s) (pathParts s)

namespace Session

/-- The drive can be named in a path. -/
def Accessible (sh : Session) (drive : Fin maxDrives) : Prop :=
  sh.present drive = true ∨ storageDriveIsMounted sh.fs.storage (driveLetter drive) = true

instance (sh : Session) (drive : Fin maxDrives) : Decidable (sh.Accessible drive) :=
  inferInstanceAs (Decidable (_ ∨ _))

/-- Where paths without a leading separator start. -/
def workingDir (sh : Session) (drive : Fin maxDrives) : UInt32 :=
  if sh.present drive = true then sh.dirIds drive else rootDir

/-- The drive, the directory and the name a path leads to. -/
def place (sh : Session) (path : List UInt8) (fallback : Fin maxDrives) :
    Option (Fin maxDrives × UInt32 × CString) :=
  let r := drivePart path fallback
  if sh.Accessible r.1 then
    (filePlace (driveTable sh.fs (driveLetter r.1)) (sh.workingDir r.1) r.2).map (r.1, ·)
  else none

end Session

/-! ### The functions follow the tables -/

/-- Nothing changed that a path depends on. -/
structure Steady (sh sh' : Session) : Prop where
  undisturbed : Undisturbed sh.fs sh'.fs
  accessible : ∀ drive, sh'.Accessible drive ↔ sh.Accessible drive
  workingDir : ∀ drive, sh.Accessible drive → sh'.workingDir drive = sh.workingDir drive
  drive : sh'.drive = sh.drive

section

variable {st st' : State} {sh sh' : Session} (drive : UInt8)

lemma driveTable_eq (h : Undisturbed st st') : driveTable st' drive = driveTable st drive := by
  rw [driveTable, driveTable, h.mountForDrive]
  cases mountForDrive st drive with
  | none => rfl
  | some p => rw [map_some, map_some, tableOf, tableOf, h.held]

lemma foundId_of_answers {r : (ℤ × UInt32) × State} {answer : Option UInt32}
    (h : Answers r.1 answer) : (foundId r).1 = answer := by
  cases answer with
  | none => exact if_neg h
  | some id =>
    obtain ⟨⟨status, id'⟩, st'⟩ := r
    cases h
    rfl

section

variable (h : Validated st) (dir : UInt32)
include h dir

lemma findDir_answers (name : CString) : Answers (lainfsFindDir st drive dir name).1
        ((driveTable st drive).bind (findDirIn · dir name.bytes)) ∧
      Undisturbed st (lainfsFindDir st drive dir name).2 := by
  rw [driveTable]
  cases hm : mountForDrive st drive with
  | none =>
    rw [lainfsFindDir, hm]
    exact ⟨(by decide : (-1 : ℤ) ≠ 0), .refl h.toTidy⟩
  | some p =>
    obtain ⟨super, d, hheld⟩ := h.valid drive p hm
    rw [map_some, tableOf_eq hheld]
    exact h.toTidy.findDir hm hheld dir name

lemma lainfsParentDir_answers :
    Answers (lainfsParentDir st drive dir).1 ((driveTable st drive).bind (parentDirIn · dir)) ∧
      Undisturbed st (lainfsParentDir st drive dir).2 := by
  rw [driveTable]
  cases hm : mountForDrive st drive with
  | none =>
    rw [lainfsParentDir, hm]
    exact ⟨(by decide : (-1 : ℤ) ≠ 0), .refl h.toTidy⟩
  | some p =>
    obtain ⟨super, d, hheld⟩ := h.valid drive p hm
    rw [map_some, tableOf_eq hheld]
    exact h.toTidy.parentDir hm hheld dir

lemma enterDir_eq (part : CString) :
    (enterDir st drive dir part).1 = enterIn (driveTable st drive) dir part ∧
      Undisturbed st (enterDir st drive dir part).2 := by
  rw [enterDir, enterIn]
  split_ifs
  · exact ⟨rfl, .refl h.toTidy⟩
  · obtain ⟨hans, hund⟩ := lainfsParentDir_answers drive h dir
    exact ⟨foundId_of_answers hans, hund⟩
  · obtain ⟨hans, hund⟩ := findDir_answers drive h dir part
    exact ⟨foundId_of_answers hans, hund⟩

end

lemma fileIn_cons {d : Option Directory} {dir : UInt32} {part : CString} {rest : List CString}
    (h : rest ≠ []) : fileIn d dir (part :: rest) =
      if partFits nameSize part.bytes = true then (enterIn d dir part).bind (fileIn d · rest)
      else none := by
  cases rest with
  | nil => exact absurd rfl h
  | cons _ _ => rfl

section

variable (h : Validated st)
include h

lemma resolveFileParts_eq (dir : UInt32) (parts : List CString) :
    (resolveFileParts drive st dir parts).1.toOption = fileIn (driveTable st drive) dir parts ∧
      Undisturbed st (resolveFileParts drive st dir parts).2 := by
  fun_induction resolveFileParts drive st dir parts with
  | case1 st dir => exact ⟨rfl, .refl h.toTidy⟩
  | case2 st dir part hfits =>
    rw [fileIn, if_pos hfits]
    exact ⟨rfl, .refl h.toTidy⟩
  | case3 st dir part hfits =>
    rw [fileIn, if_neg hfits]
    exact ⟨rfl, .refl h.toTidy⟩
  | case4 st dir part rest hrest hfits st' henter =>
    obtain ⟨heq, hund⟩ := enterDir_eq drive h dir part
    rw [henter] at heq hund
    rw [fileIn_cons hrest, if_pos hfits, ← heq]
    exact ⟨rfl, hund⟩
  | case5 st dir part rest hrest hfits dir' st' henter ih =>
    obtain ⟨heq, hund⟩ := enterDir_eq drive h dir part
    rw [henter] at heq hund
    obtain ⟨ihres, ihund⟩ := ih (hund.validated h)
    rw [fileIn_cons hrest, if_pos hfits, ← heq, ihres, driveTable_eq drive hund]
    exact ⟨rfl, hund.trans ihund⟩
  | case6 st dir part rest hrest hfits =>
    rw [fileIn_cons hrest, if_neg hfits]
    exact ⟨rfl, .refl h.toTidy⟩

lemma resolveDirParts_eq (dir : UInt32) (parts : List CString) :
    (resolveDirParts drive st dir parts).1.toOption = walkIn (driveTable st drive) dir parts ∧
      Undisturbed st (resolveDirParts drive st dir parts).2 := by
  fun_induction resolveDirParts drive st dir parts with
  | case1 st dir => exact ⟨rfl, .refl h.toTidy⟩
  | case2 st dir part rest hfits st' henter =>
    obtain ⟨heq, hund⟩ := enterDir_eq drive h dir part
    rw [henter] at heq hund
    rw [walkIn, if_pos hfits, ← heq]
    exact ⟨rfl, hund⟩
  | case3 st dir part rest hfits dir' st' henter ih =>
    obtain ⟨heq, hund⟩ := enterDir_eq drive h dir part
    rw [henter] at heq hund
    obtain ⟨ihres, ihund⟩ := ih (hund.validated h)
    rw [walkIn, if_pos hfits, ← heq, ihres, driveTable_eq drive hund]
    exact ⟨rfl, hund.trans ihund⟩
  | case4 st dir part rest hfits =>
    rw [walkIn, if_neg hfits]
    exact ⟨rfl, .refl h.toTidy⟩

lemma resolvePath_eq (baseDir : UInt32) (path : List UInt8) :
    (resolveFilePath st drive baseDir path).1.toOption =
        filePlace (driveTable st drive) baseDir path ∧
      Undisturbed st (resolveFilePath st drive baseDir path).2 := by
  simp only [resolveFilePath, filePlace]
  split_ifs
  · exact ⟨rfl, .refl h.toTidy⟩
  · exact resolveFileParts_eq drive h _ _

lemma resolveDirPath_eq (baseDir : UInt32) (path : List UInt8) :
    (resolveDirPath st drive baseDir path).1.toOption =
        dirPlace (driveTable st drive) baseDir path ∧
      Undisturbed st (resolveDirPath st drive baseDir path).2 := by
  simp only [resolveDirPath, dirPlace]
  split_ifs
  · exact ⟨rfl, .refl h.toTidy⟩
  · exact resolveDirParts_eq drive h _ _

end

lemma Steady.refl (h : Tidy sh.fs) : Steady sh sh := ⟨.refl h, fun _ => .rfl, fun _ _ => rfl, rfl⟩

lemma Steady.trans {sh₁ sh₂ sh₃ : Session} (h₁ : Steady sh₁ sh₂) (h₂ : Steady sh₂ sh₃) :
    Steady sh₁ sh₃ :=
  ⟨h₁.undisturbed.trans h₂.undisturbed, fun drive => (h₂.accessible drive).trans (h₁.accessible drive),
    fun drive ha => (h₂.workingDir drive ((h₁.accessible drive).mpr ha)).trans (h₁.workingDir drive ha),
    h₂.drive.trans h₁.drive⟩

lemma Steady.setFs (h : Undisturbed sh.fs st) : Steady sh { sh with fs := st } := by
  refine ⟨h, fun drive => ?_, fun _ _ => rfl, rfl⟩
  have hm : storageDriveIsMounted st.storage (driveLetter drive) =
      storageDriveIsMounted sh.fs.storage (driveLetter drive) := by
    rw [storageDriveIsMounted, storageDriveIsMounted, h.tables.getMountByDrive]
  rw [Session.Accessible, Session.Accessible]
  rw [hm]

lemma pathDrivePrefix_eq (h : Tidy sh.fs) (path : List UInt8) (fallback : Fin maxDrives) :
    let drive := (drivePart path fallback).1
    ∃ sh', pathDrivePrefix sh path fallback =
        (if sh.Accessible drive then some (drivePart path fallback) else none, sh') ∧
      Steady sh sh' ∧ (sh.Accessible drive → sh'.dirIds drive = sh.workingDir drive) := by
  simp only [pathDrivePrefix, Session.workingDir]
  generalize drivePart path fallback = r
  by_cases hp : sh.present r.1 = true
  · rw [if_pos hp, if_pos (show sh.Accessible r.1 from Or.inl hp), if_pos hp]
    exact ⟨sh, rfl, .refl h, fun _ => rfl⟩
  by_cases hm : storageDriveIsMounted sh.fs.storage (driveLetter r.1) = true
  · rw [if_neg hp, if_pos hm, if_pos (show sh.Accessible r.1 from Or.inr hm), if_neg hp]
    refine ⟨_, rfl, ⟨.refl h, fun drive => ?_, fun drive _ => ?_, rfl⟩, fun _ => update_self _ _ _⟩
    · simp only [Session.Accessible, update_apply]
      split_ifs with hd
      · subst hd
        simp [hm]
      · rfl
    · by_cases hd : drive = r.1
      · subst hd
        simp only [Session.workingDir, update_self, if_true, if_neg hp]
      · simp only [Session.workingDir, update_of_ne hd]
  · have hnone : ¬ sh.Accessible r.1 := not_or.mpr ⟨hp, hm⟩
    rw [if_neg hp, if_neg hm, if_neg hnone]
    exact ⟨sh, rfl, .refl h, fun ha => absurd ha hnone⟩

lemma Steady.place (h : Steady sh sh') (path : List UInt8) (fallback : Fin maxDrives) :
    sh'.place path fallback = sh.place path fallback := by
  simp only [Session.place, h.accessible]
  split_ifs with ha
  · rw [h.workingDir _ ha, driveTable_eq _ h.undisturbed]
  · rfl

theorem resolveFile_eq (h : Validated sh.fs) (path : List UInt8) (fallback : Fin maxDrives) : ∃ sh',
    resolveFilePathWithDrive sh path fallback = (sh.place path fallback, sh') ∧ Steady sh sh' := by
  obtain ⟨sh₁, hdrive, hsteady, hdir⟩ := pathDrivePrefix_eq h.toTidy path fallback
  rw [resolveFilePathWithDrive, Session.place, hdrive]
  split_ifs with ha
  · dsimp only
    obtain ⟨heq, hund⟩ := resolvePath_eq (driveLetter (drivePart path fallback).1)
      (hsteady.undisturbed.validated h) (sh₁.dirIds (drivePart path fallback).1)
      (drivePart path fallback).2
    rw [← hdir ha, ← driveTable_eq _ hsteady.undisturbed, ← heq]
    generalize resolveFilePath sh₁.fs (driveLetter (drivePart path fallback).1)
      (sh₁.dirIds (drivePart path fallback).1) (drivePart path fallback).2 = r at hund
    obtain ⟨_ | ⟨parent, name⟩, fs⟩ := r
    · exact ⟨_, rfl, hsteady.trans (.setFs hund)⟩
    · exact ⟨_, rfl, hsteady.trans (.setFs hund)⟩
  · exact ⟨sh₁, rfl, hsteady⟩

end

/-! ### Joined paths -/

open List

variable {st : State} {d : Option Directory} {p q seps : List UInt8} {name : CString}

/-- The path starts neither in the root nor with a blank. -/
def Relative (p : List UInt8) : Prop := ∃ c ∈ p.head?, pathIsSeparator c = false ∧ isSpace c = false

lemma pathParts_append_cons (p q : List UInt8) {c : UInt8} (hc : pathIsSeparator c = true) :
    pathParts (p ++ c :: q) = pathParts p ++ pathParts q := by
  simp [pathParts, splitOnP_append_cons p q hc]

lemma pathParts_join (hne : seps ≠ []) (hseps : ∀ c ∈ seps, pathIsSeparator c = true) :
    pathParts (p ++ seps ++ q) = pathParts p ++ pathParts q := by
  induction seps generalizing p with
  | nil => exact absurd rfl hne
  | cons c rest ih =>
    rw [forall_mem_cons] at hseps
    rcases rest with _ | ⟨c', rest⟩
    · simp [pathParts_append_cons _ _ hseps.1]
    have hrest := ih (p := []) (cons_ne_nil _ _) hseps.2
    simp only [append_assoc, cons_append, nil_append] at hrest ⊢
    rw [pathParts_append_cons _ _ hseps.1, hrest]
    rfl

lemma pathParts_name (hname : ∀ c ∈ name.bytes, pathIsSeparator c = false)
    (hfits : partFits nameSize name.bytes = true) : pathParts name.bytes = [name] := by
  have hne : name.bytes ≠ [] := by
    rintro h
    simp [partFits, h] at hfits
  have hself : CString.ofBytes name.bytes = name := by
    obtain ⟨bytes, hz⟩ := name
    simpa [CString.ofBytes, cString] using hz
  simp [pathParts, splitOnP_eq_singleton hname, hne, hself]

lemma walkIn_append (dir : UInt32) (a b : List CString) :
    walkIn d dir (a ++ b) = (walkIn d dir a).bind (walkIn d · b) := by
  induction a generalizing dir with
  | nil => rfl
  | cons part rest ih =>
    simp only [cons_append, walkIn, ih]
    split_ifs
    · rw [bind_assoc]
    · rfl

lemma fileIn_append_singleton (hfits : partFits nameSize name.bytes = true) (dir : UInt32)
    (a : List CString) : fileIn d dir (a ++ [name]) = (walkIn d dir a).map (·, name) := by
  induction a generalizing dir with
  | nil => simp [fileIn, walkIn, hfits]
  | cons part rest ih =>
    rw [cons_append, fileIn_cons (by simp), walkIn]
    split_ifs
    · simp only [ih, map_bind]
      rfl
    · rfl

lemma Relative.append (h : Relative p) (q : List UInt8) : Relative (p ++ q) := by
  obtain ⟨c, hc, h⟩ := h
  exact ⟨c, by simp [Option.mem_def.mp hc], h⟩

section

variable (h : Relative p) (dir : UInt32)
include h dir

lemma Relative.start : p.dropWhile isSpace = p ∧ startDir dir p = dir ∧ p ≠ [] := by
  obtain ⟨c, hc, hsep, hspace⟩ := h
  cases p with
  | nil => cases hc
  | cons b rest =>
    cases hc
    simp [startDir, hsep, hspace]

lemma Relative.dirPlace : dirPlace d dir p = walkIn d dir (pathParts p) := by
  obtain ⟨hdrop, hdir, hne⟩ := h.start dir
  simp only [Shell.dirPlace, hdrop, hdir, hne, false_or]
  split_ifs with hdot
  · rw [hdot]
    rfl
  · rfl

lemma Relative.filePlace : filePlace d dir p = fileIn d dir (pathParts p) := by
  obtain ⟨hdrop, hdir, hne⟩ := h.start dir
  simp only [Shell.filePlace, hdrop, hdir, hne, if_false]

end

theorem resolveDirPath_join (h : Validated st) (drive : UInt8) (dir : UInt32) (hp : Relative p)
    (hq : Relative q) (hne : seps ≠ []) (hseps : ∀ c ∈ seps, pathIsSeparator c = true)
    (hname : ∀ c ∈ name.bytes, pathIsSeparator c = false)
    (hfits : partFits nameSize name.bytes = true) :
    let r := resolveDirPath st drive dir p
    (resolveDirPath st drive dir (p ++ seps ++ q)).1.toOption =
        r.1.toOption.bind (fun e => (resolveDirPath r.2 drive e q).1.toOption) ∧
      (resolveFilePath st drive dir (p ++ seps ++ name.bytes)).1.toOption =
        r.1.toOption.map (·, name) := by
  intro r
  obtain ⟨hr, hund⟩ := resolveDirPath_eq drive h dir p
  have hrel (q) : Relative (p ++ seps ++ q) := (hp.append _).append _
  rw [(resolveDirPath_eq drive h dir _).1, (resolvePath_eq drive h dir _).1, hr,
    (hrel _).dirPlace, (hrel _).filePlace, hp.dirPlace, pathParts_join hne hseps,
    pathParts_join hne hseps, pathParts_name hname hfits, walkIn_append]
  refine ⟨?_, fileIn_append_singleton hfits _ _⟩
  congr 1
  funext e
  rw [(resolveDirPath_eq drive (hund.validated h) e q).1, driveTable_eq drive hund, hq.dirPlace]

/-- A directory `a` in the root, and a directory `b` in it. -/
def nestedDirs : Directory :=
  (Directory.single (newDirEntry rootDir nameA.bytes)).set 1 (newDirEntry 1 nameB.bytes)

/-- `a/\b`, and a file `b` in `a`. -/
theorem resolveDirPath_join_nested :
    let st := bufferedVolume 6000 nestedDirs true
    let r := resolveDirPath st 0x43 rootDir nameA.bytes
    r.1.toOption = some 1 ∧ (resolveDirPath r.2 0x43 1 nameB.bytes).1.toOption = some 2 ∧
      (resolveDirPath st 0x43 rootDir (nameA.bytes ++ [0x2F, 0x5C] ++ nameB.bytes)).1.toOption =
        some 2 ∧
      (resolveFilePath st 0x43 rootDir (nameA.bytes ++ [0x2F, 0x5C] ++ nameB.bytes)).1.toOption =
        some (1, nameB) := by
  have hl : ¬ layoutIsBad formatSuper 6000 := by decide
  have h := (buffered_validated (by decide) hl
    (show validateDirectory (some (volumePartition 6000)) formatSuper nestedDirs = none by
      decide +kernel)).1
  have ha : (resolveDirPath (bufferedVolume 6000 nestedDirs true) 0x43 rootDir
      nameA.bytes).1.toOption = some 1 := by decide +kernel
  have hb : (resolveDirPath (resolveDirPath (bufferedVolume 6000 nestedDirs true) 0x43 rootDir
      nameA.bytes).2 0x43 1 nameB.bytes).1.toOption = some 2 := by decide +kernel
  obtain ⟨hdir, hfile⟩ := resolveDirPath_join (p := nameA.bytes) (q := nameB.bytes) h 0x43 rootDir
    ⟨_, rfl, rfl, rfl⟩ ⟨_, rfl, rfl, rfl⟩ (show [0x2F, 0x5C] ≠ [] by decide)
    (by simp [pathIsSeparator]) (show ∀ c ∈ nameB.bytes, pathIsSeparator c = false by
      simp [nameB, pathIsSeparator]) (by decide)
  rw [ha, Option.bind_some, hb] at hdir
  rw [ha] at hfile
  exact ⟨ha, hb, hdir, hfile⟩

end Shell
