import LainOS.Shell.Copy

/-!
# What a copy does

A copy that returns 0 has put the bytes of the selected files under their destinations and left every
other slot of every volume as it was, with exceptions: the loader is told that the buffer has 3 MiB
although only 2 MiB are allocated, the pattern is cut to 31 bytes, and of two files with one name
only the first is ever loaded (`copy_faithful_iff`).
-/

namespace Shell

open LainFS Option Session
open Storage (storageGetPartition)

/-! ### The purpose -/

/-- A file to be copied and the place it goes to. -/
structure Delivery where
  slot : Fin maxFiles
  dir : UInt32
  name : List UInt8

/-- The files are at their destinations, and no other slot of any volume changed. -/
structure Delivered (st st' : State) (src dst : UInt32) (files : Set Delivery) : Prop where
  arrived : ∀ x ∈ files, ∃ k item, fileUnder (itemOf st' dst) x.dir x.name = some k ∧
    itemOf st src x.slot = some item ∧
    itemOf st' dst k = some { item with parent := x.dir, name := x.name }
  others : ∀ q k, itemOf st' q k = itemOf st q k ∨
    q = dst ∧ ∃ x ∈ files, fileUnder (itemOf st' dst) x.dir x.name = some k ∧
      ∀ old, itemOf st dst k = some old → old.parent = x.dir ∧ old.name = x.name

/-- The name is the pattern with something in the place of its first star. -/
def Matches (pattern name : List UInt8) : Prop :=
  (star ∉ pattern ∧ name = pattern) ∨
    ∃ before middle after, pattern = before ++ star :: after ∧ star ∉ before ∧
      name = before ++ middle ++ after

/-- A copy of one file: where it is and where it goes. -/
structure FileJob where
  srcVol : UInt32
  slot : Fin maxFiles
  dstDrive : Fin maxDrives
  dstDir : UInt32
  dstName : CString

/-- A destination that is a directory gets the file under its old name. -/
def fileTarget (d : Option Directory) (parent : UInt32) (name srcName : CString) :
    UInt32 × CString :=
  match d.bind (findDirIn · parent name.bytes) with
  | some dirId => (dirId, srcName)
  | none => (parent, name)

/-- The job that two paths without a star name. -/
def Session.fileJob (sh : Session) (srcPath dstPath : List UInt8) : Option FileJob := do
  let active ← sh.drive
  let (srcDrive, srcParent, srcName) ← sh.place srcPath active
  let (dstDrive, dstParent, dstName) ← sh.place dstPath active
  let srcVol ← mountForDrive sh.fs (driveLetter srcDrive)
  let slot ← fileNamed sh.fs srcVol srcParent srcName.bytes
  let target := fileTarget (driveTable sh.fs (driveLetter dstDrive)) dstParent dstName srcName
  some ⟨srcVol, slot, dstDrive, target.1, target.2⟩

/-- A copy of the files of a directory that match a pattern. -/
structure GlobJob where
  srcVol : UInt32
  srcDir : UInt32
  pattern : List UInt8
  dstDrive : Fin maxDrives
  dstDir : UInt32

/-- The drive and the directory of a path with a pattern as its last part, and the pattern. -/
def Session.globPlace (sh : Session) (path : List UInt8) (fallback : Fin maxDrives) :
    Option (Fin maxDrives × UInt32 × List UInt8) :=
  let r := drivePart path fallback
  if sh.Accessible r.1 then
    (dirPath r.2).bind fun dir =>
      (dirPlace (driveTable sh.fs (driveLetter r.1)) (sh.workingDir r.1) dir).map
        (r.1, ·, lastPart r.2)
  else none

/-- The files go into an existing directory; `.` is the one the path leads to. -/
def globTarget (d : Option Directory) (parent : UInt32) (name : CString) : Option UInt32 :=
  match d.bind (findDirIn · parent name.bytes) with
  | some dirId => some dirId
  | none => if name = dot then some parent else none

/-- The job that two paths with a star in the first name. -/
def Session.globJob (sh : Session) (srcPath dstPath : List UInt8) : Option GlobJob := do
  let active ← sh.drive
  let (srcDrive, srcDir, pattern) ← sh.globPlace srcPath active
  let (dstDrive, dstParent, dstName) ← sh.place dstPath active
  let dstDir ← globTarget (driveTable sh.fs (driveLetter dstDrive)) dstParent dstName
  let srcVol ← mountForDrive sh.fs (driveLetter srcDrive)
  if validDirId (tableOf sh.fs srcVol) srcDir = true then
    some ⟨srcVol, srcDir, pattern, dstDrive, dstDir⟩
  else none

/-- The files that match the pattern. -/
def GlobJob.selected (job : GlobJob) (st : State) : Set (Fin maxFiles) :=
  { k | ∃ item, itemOf st job.srcVol k = some item ∧ item.used = entryFile ∧
    item.parent = job.srcDir ∧ Matches job.pattern item.name }

/-- They keep their names. -/
def GlobJob.deliveries (job : GlobJob) (st : State) : Set Delivery :=
  { x | x.slot ∈ job.selected st ∧ x.dir = job.dstDir ∧
    ∃ item, itemOf st job.srcVol x.slot = some item ∧ x.name = item.name }

/-- The copy did what its paths say. -/
def Faithful (sh : Session) (srcPath dstPath : List UInt8) (st' : State) : Prop :=
  if star ∈ srcPath then
    ∃ job dst, sh.globJob srcPath dstPath = some job ∧
      mountForDrive sh.fs (driveLetter job.dstDrive) = some dst ∧
      Delivered sh.fs st' job.srcVol dst (job.deliveries sh.fs)
  else
    ∃ job dst, sh.fileJob srcPath dstPath = some job ∧
      mountForDrive sh.fs (driveLetter job.dstDrive) = some dst ∧
      Delivered sh.fs st' job.srcVol dst {⟨job.slot, job.dstDir, job.dstName.bytes⟩}

/-- Every byte that was loaded lies in the memory of the buffer. -/
def InsideBuffer (w : WorkBuffers) (loaded : List ℕ) : Prop :=
  ∀ n ∈ loaded, ∃ a, w.zincludeBuffers = some a ∧ n ≤ a.size

/-! ### The condition -/

/-- The loader accepts a file of that size, but the buffer has no room for it. -/
def Overruns (size : UInt32) : Prop :=
  copyBufferSize < size.toNat ∧ size.toNat ≤ asmSourceSize

/-- The table of the destination after a file was saved, if there is room for it. -/
def takeIn (st : State) (drive : UInt8) (dir : UInt32) (d : Directory) (name : List UInt8)
    (size : UInt32) : Option Directory :=
  match mountForDrive st drive with
  | none => none
  | some p =>
    match heldTable st p with
    | .error _ => none
    | .ok (super, _) =>
      (saveIn (storageGetPartition st.storage p) super.1 d dir name size).map (·.2)

/-- The table of the destination after several files were saved. -/
def takeAll (take : Directory → List UInt8 → UInt32 → Option Directory) :
    Directory → List (List UInt8 × UInt32) → Option Directory
  | d, [] => some d
  | d, file :: rest => (take d file.1 file.2).bind (takeAll take · rest)

namespace GlobJob

/-- A file whose name matches the pattern as it is cut to its buffer. -/
def picks (job : GlobJob) (st : State) (k : Fin maxFiles) : Bool :=
  (tableOf st job.srcVol k).used == entryFile &&
    shellMatchOneStar (entryName (tableOf st job.srcVol k)) (job.pattern.take (nameSize - 1))

/-- The name of a slot and the size of the file that is loaded for it. -/
def file (job : GlobJob) (st : State) (k : Fin maxFiles) : List UInt8 × UInt32 :=
  let name := entryName (tableOf st job.srcVol k)
  (name, ((itemUnder (itemOf st job.srcVol) job.srcDir name).map Item.size).getD 0)

def picked (job : GlobJob) (st : State) : List (Fin maxFiles) :=
  (childrenOf (tableOf st job.srcVol) job.srcDir).filter (job.picks st)

def files (job : GlobJob) (st : State) : List (List UInt8 × UInt32) :=
  (job.picked st).map (job.file st)

/-- The destination has room for the files. -/
def Takes (job : GlobJob) (st : State) (files : List (List UInt8 × UInt32)) : Prop :=
  (takeAll (takeIn st (driveLetter job.dstDrive) job.dstDir)
    ((driveTable st (driveLetter job.dstDrive)).getD Directory.empty) files).isSome = true

/-- What is loaded is what is selected. -/
structure Right (job : GlobJob) (st : State) : Prop where
  /-- Selected files are the first of their names. -/
  first : ∀ k ∈ job.selected st, ∀ item, itemOf st job.srcVol k = some item →
    itemUnder (itemOf st job.srcVol) job.srcDir item.name = some item
  /-- A file that matches the cut pattern only is at the destination already. -/
  there : ∀ k ∈ job.picked st, k ∉ job.selected st → ∀ item dst,
    itemOf st job.srcVol k = some item →
    mountForDrive st (driveLetter job.dstDrive) = some dst →
    itemUnder (itemOf st dst) job.dstDir item.name =
      (itemUnder (itemOf st job.srcVol) job.srcDir item.name).map ({ · with parent := job.dstDir })

structure Copyable (job : GlobJob) (st : State) : Prop where
  /-- No file that the copy gets to is too long for the buffer and short enough for the loader. -/
  fits : ∀ before file after, job.files st = before ++ file :: after →
    (∀ f ∈ before, f.2.toNat ≤ asmSourceSize) → job.Takes st before → ¬ Overruns file.2
  right : job.files st ≠ [] → (∀ f ∈ job.files st, f.2.toNat ≤ asmSourceSize) →
    job.Takes st (job.files st) → job.Right st

end GlobJob

def Copyable (sh : Session) (srcPath dstPath : List UInt8) : Prop :=
  if star ∈ srcPath then ∀ job, sh.globJob srcPath dstPath = some job → job.Copyable sh.fs
  else
    ∀ job, sh.fileJob srcPath dstPath = some job →
      ∀ item, itemOf sh.fs job.srcVol job.slot = some item → ¬ Overruns item.size

/-! ### The buffer -/

lemma allocBuffers_zinclude {Heap : Type} {kmalloc : Heap → ℕ → Option UInt64 × Heap}
    {w : WorkBuffers} (h : Allocated kmalloc w) :
    (∀ a, w.zincludeBuffers = some a → a.size = copyBufferSize) ∧
      (w.ready = true → w.zincludeBuffers.isSome = true) := by
  induction h with
  | null => exact ⟨fun a ha => (by cases ha), fun hr => (by cases hr)⟩
  | @call w heap _ ih =>
    rw [shellAllocWorkBuffers]
    split_ifs with hr
    · exact ih
    refine ⟨fun a ha => ?_, fun hready => ?_⟩
    · dsimp only at ha
      cases hz : w.zincludeBuffers with
      | some b =>
        rw [hz, allocBuffer] at ha
        cases ha
        exact ih.1 a hz
      | none =>
        rw [hz, allocBuffer] at ha
        obtain ⟨address, -, rfl⟩ := map_eq_some_iff.mp ha
        rfl
    · simp only [Bool.and_eq_true] at hready
      exact hready.1.1.1.2

lemma insideBuffer_iff {Heap : Type} {kmalloc : Heap → ℕ → Option UInt64 × Heap}
    {w : WorkBuffers} (hw : Allocated kmalloc w) (hready : w.ready = true) {loaded : List ℕ} :
    InsideBuffer w loaded ↔ ∀ n ∈ loaded, n ≤ copyBufferSize := by
  obtain ⟨hsize, hsome⟩ := allocBuffers_zinclude hw
  obtain ⟨a, ha⟩ := isSome_iff_exists.mp (hsome hready)
  constructor
  · intro h n hn
    obtain ⟨b, hb, hle⟩ := h n hn
    rwa [hsize b hb] at hle
  · intro h n hn
    exact ⟨a, ha, by rw [hsize a ha]; exact h n hn⟩

/-- The bytes of a file that fits into its size. -/
lemma map_bufferOf {bytes : List UInt8} {status : ℤ} {size : UInt32}
    (h : bytes.length = size.toNat) :
    (List.range size.toNat).map (bufferOf ⟨status, size, bytes⟩) = bytes := by
  refine List.ext_getElem (by simp [h]) fun n h₁ h₂ => ?_
  simp [bufferOf, h₂]

/-! ### One file -/

variable {sh : Session} {srcPath dstPath : List UInt8} {st st' : State} {p : UInt32}

lemma itemOf_congr (h : Undisturbed st st') (p : UInt32) : itemOf st' p = itemOf st p :=
  funext (h.items p)

lemma tableOf_congr (h : Undisturbed st st') (p : UInt32) : tableOf st' p = tableOf st p := by
  rw [tableOf, tableOf, h.held]

lemma fileNamed_congr (h : Undisturbed st st') (p dir : UInt32) (name : List UInt8) :
    fileNamed st' p dir name = fileNamed st p dir name := by
  rw [fileNamed, fileNamed, tableOf_congr h, itemOf_congr h]

lemma Delivered.of_undisturbed {st₁ : State} {src dst : UInt32} {files : Set Delivery}
    (h : Delivered st₁ st' src dst files) (hund : Undisturbed st st₁) :
    Delivered st st' src dst files := by
  refine ⟨fun x hx => ?_, fun q k => ?_⟩
  · obtain ⟨k, item, hk, hi, hk'⟩ := h.arrived x hx
    rw [hund.items] at hi
    exact ⟨k, item, hk, hi, hk'⟩
  · have hothers := h.others q k
    rwa [itemOf_congr hund, itemOf_congr hund] at hothers

lemma asmSourceSize_toNat : (UInt32.ofNat asmSourceSize).toNat = asmSourceSize := by decide

/-- A save that returned 0 delivered the file. -/
lemma delivered_of_save {drive : UInt8} {src dir : UInt32} {name : CString} {item : Item}
    {slot : Fin maxFiles} (h : Validated st) (hm : mountForDrive st drive = some p)
    (hitem : itemOf st src slot = some item) (hused : item.used = entryFile)
    (hlen : item.bytes.length = item.size.toNat)
    {r : ℤ × State} (hr : lainfsSaveFileInDir st drive dir name
      (bufferOf ⟨0, item.size, item.bytes⟩) item.size = r) (hzero : r.1 = 0) :
    Delivered st r.2 src p {⟨slot, dir, name.bytes⟩} := by
  obtain ⟨super, d, hheld⟩ := h.valid drive p hm
  obtain ⟨i, d', hin, -, hsaved⟩ := h.toTidy.save_zero hm hheld hr hzero
  rw [map_bufferOf hlen] at hsaved
  obtain ⟨hfirst, -, hold⟩ := saveIn_slot hin (blockView st p)
  have hother : ∀ k, k ≠ i → itemOf r.2 p k = itemAt d (blockView st p) k := by
    intro k hk
    rw [hsaved.other p k fun hc => hk hc.2, itemOf_eq hheld]
  have hfound := fileUnder_self hfirst hsaved.self (by decide : entryFile ≠ entryDir) rfl rfl hother
  refine ⟨?_, fun q k => ?_⟩
  · rintro x rfl
    refine ⟨i, item, hfound, hitem, ?_⟩
    rw [hsaved.self, ← hused]
  by_cases hqk : q = p ∧ k = i
  · obtain ⟨rfl, rfl⟩ := hqk
    refine Or.inr ⟨rfl, _, rfl, hfound, fun old ho => hold old ?_⟩
    rw [← itemOf_eq hheld, ho]
  · exact Or.inl (hsaved.other q k hqk)

lemma fileTarget_eq {result : ℤ × UInt32} {d : Option Directory} {parent : UInt32}
    {name srcName : CString} (h : Answers result (d.bind (findDirIn · parent name.bytes))) :
    (if result.1 = 0 then (result.2, srcName) else (parent, name)) =
      fileTarget d parent name srcName := by
  rw [fileTarget]
  cases hd : d.bind (findDirIn · parent name.bytes) with
  | none =>
    rw [hd] at h
    exact if_neg h
  | some dirId =>
    rw [hd] at h
    obtain rfl : result = (0, dirId) := h
    rfl

lemma copyResolved_spec (h : Validated st) (srcDrive : UInt8) (srcParent : UInt32)
    (srcName : CString) (dstDrive : UInt8) (dstParent : UInt32) (dstName : CString) :
    let r := copyResolved st srcDrive srcParent srcName dstDrive dstParent dstName
    let target := fileTarget (driveTable st dstDrive) dstParent dstName srcName
    ((mountForDrive st srcDrive).bind (fileNamed st · srcParent srcName.bytes) = none ∧ r.1 ≠ 0 ∧
        r.2.1 = [0]) ∨
      ∃ src slot item, mountForDrive st srcDrive = some src ∧
        fileNamed st src srcParent srcName.bytes = some slot ∧ itemOf st src slot = some item ∧
        r.2.1 = [if asmSourceSize < item.size.toNat then 0 else item.size.toNat] ∧
        (r.1 = 0 → ∃ dst, mountForDrive st dstDrive = some dst ∧
          Delivered st r.2.2 src dst {⟨slot, target.1, target.2.bytes⟩}) := by
  intro r target
  have hr : r = copyResolved st srcDrive srcParent srcName dstDrive dstParent dstName := rfl
  rw [copyResolved] at hr
  rcases hm : mountForDrive st srcDrive with _ | src
  · left
    rw [lainfsLoadFileInDir, hm] at hr
    rw [hr]
    exact ⟨rfl, (by decide : (-1 : ℤ) ≠ 0), rfl⟩
  obtain ⟨super, d, hheld⟩ := h.valid srcDrive src hm
  have hload := h.toTidy.load_cases hm hheld srcParent srcName
    (by decide : UInt32.ofNat asmSourceSize ≠ 0)
  have hund := (h.toTidy.load hm hheld srcParent srcName (UInt32.ofNat asmSourceSize)).2
  rw [asmSourceSize_toNat] at hload
  generalize lainfsLoadFileInDir st srcDrive srcParent srcName (UInt32.ofNat asmSourceSize) = l
    at hload hund hr
  obtain ⟨result, st₁⟩ := l
  dsimp only at hload hund hr
  rcases hload with ⟨hnone, hstatus, hbytes⟩ |
    ⟨slot, item, hslot, hitem, hused, -, -, -, hlen, ⟨hlong, hstatus, hbytes⟩ | ⟨hfit, rfl⟩⟩
  · left
    rw [if_pos hstatus, hbytes] at hr
    rw [hr]
    exact ⟨hnone, (by decide : (-1 : ℤ) ≠ 0), rfl⟩
  · right
    rw [if_pos hstatus, hbytes] at hr
    rw [hr]
    refine ⟨src, slot, item, rfl, hslot, hitem, by rw [if_pos hlong]; rfl, fun h0 => ?_⟩
    cases h0
  right
  have hst₁ := hund.validated h
  obtain ⟨hans, hund₂⟩ := findDir_answers dstDrive hst₁ dstParent dstName
  rw [driveTable_eq dstDrive hund] at hans
  generalize lainfsFindDir st₁ dstDrive dstParent dstName = f at hans hund₂ hr
  obtain ⟨⟨status, dirId⟩, st₂⟩ := f
  rw [if_neg (not_not.mpr rfl)] at hr
  rw [fileTarget_eq hans] at hr
  have hund' := hund.trans hund₂
  refine ⟨src, slot, item, rfl, hslot, hitem, ?_, fun h0 => ?_⟩
  · rw [hr, if_neg (not_lt.mpr hfit), hlen]
  rw [hr] at h0 ⊢
  rcases hd : mountForDrive st dstDrive with _ | dst
  · rw [← hund'.mountForDrive] at hd
    rw [lainfsSaveFileInDir, hd] at h0
    cases h0
  refine ⟨dst, rfl, ?_⟩
  rw [← hund'.mountForDrive] at hd
  rw [← hund'.items] at hitem
  exact (delivered_of_save (hund₂.validated hst₁) hd hitem hused hlen rfl h0).of_undisturbed hund'

/-- A copy without a star fails, or it loads the file of its job and delivers it. -/
lemma copyFile_single (hst : Validated sh.fs) (hstar : star ∉ srcPath)
    (dstPath : List UInt8) :
    let r := shellApiCopyFile sh srcPath dstPath
    (sh.fileJob srcPath dstPath = none ∧ r.status ≠ 0 ∧ ∀ n ∈ r.loaded, n = 0) ∨
      ∃ job item, sh.fileJob srcPath dstPath = some job ∧
        itemOf sh.fs job.srcVol job.slot = some item ∧
        r.loaded = [if asmSourceSize < item.size.toNat then 0 else item.size.toNat] ∧
        (r.status = 0 → ∃ dst, mountForDrive sh.fs (driveLetter job.dstDrive) = some dst ∧
          Delivered sh.fs r.session.fs job.srcVol dst
            {⟨job.slot, job.dstDir, job.dstName.bytes⟩}) := by
  intro r
  have hr : r = shellApiCopyFile sh srcPath dstPath := rfl
  rw [shellApiCopyFile, if_neg hstar] at hr
  have hnone : ∀ {sh' : Session}, r = ⟨-1, [], sh'⟩ → r.status ≠ 0 ∧ ∀ n ∈ r.loaded, n = 0 := by
    rintro sh' h
    rw [h]
    exact ⟨(by decide : (-1 : ℤ) ≠ 0), fun n hn => (by cases hn)⟩
  rcases hdrive : sh.drive with _ | active
  · rw [hdrive] at hr
    refine Or.inl ⟨?_, hnone hr⟩
    rw [fileJob, hdrive]
    rfl
  rw [hdrive] at hr
  dsimp only at hr
  obtain ⟨sh₁, hfound₁, hs₁⟩ := resolveFile_eq hst srcPath active
  rw [hfound₁] at hr
  rcases hsrc : sh.place srcPath active with _ | src
  · rw [hsrc] at hr
    refine Or.inl ⟨?_, hnone hr⟩
    simp [fileJob, hdrive, hsrc]
  obtain ⟨srcDrive, srcParent, srcName⟩ := src
  obtain ⟨sh₂, hfound₂, hs₂⟩ := resolveFile_eq (hs₁.undisturbed.validated hst) dstPath active
  rw [hsrc] at hr
  dsimp only at hr
  rw [hfound₂, hs₁.place] at hr
  rcases hdst : sh.place dstPath active with _ | dst
  · rw [hdst] at hr
    refine Or.inl ⟨?_, hnone hr⟩
    simp [fileJob, hdrive, hsrc, hdst]
  obtain ⟨dstDrive, dstParent, dstName⟩ := dst
  rw [hdst] at hr
  dsimp only at hr
  have hund := hs₁.undisturbed.trans hs₂.undisturbed
  have hspec := copyResolved_spec (hund.validated hst) (driveLetter srcDrive) srcParent srcName
    (driveLetter dstDrive) dstParent dstName
  generalize copyResolved sh₂.fs (driveLetter srcDrive) srcParent srcName
    (driveLetter dstDrive) dstParent dstName = result at hspec hr
  simp only [hund.mountForDrive, fileNamed_congr hund, driveTable_eq _ hund, hund.items] at hspec
  obtain ⟨rs, rl, rsh⟩ := r
  cases hr
  generalize htarget : fileTarget (driveTable sh.fs (driveLetter dstDrive)) dstParent dstName
    srcName = target at hspec
  rcases hspec with ⟨hnofile, hstatus, hloaded⟩ | ⟨src, slot, item, hm, hslot, hitem, hloaded, hdel⟩
  · refine Or.inl ⟨?_, hstatus, fun n hn => ?_⟩
    · simp only [fileJob, hdrive, hsrc, hdst, bind_eq_bind, bind_some]
      cases hm : mountForDrive sh.fs (driveLetter srcDrive) with
      | none => rfl
      | some src =>
        rw [hm, bind_some] at hnofile
        rw [bind_some, hnofile, bind_none]
    · rw [hloaded] at hn
      exact List.mem_singleton.mp hn
  · refine Or.inr ⟨⟨src, slot, dstDrive, target.1, target.2⟩, item, ?_, hitem, hloaded,
      fun h0 => ?_⟩
    · simp only [fileJob, hdrive, hsrc, hdst, bind_eq_bind, bind_some, hm, hslot, htarget]
    · obtain ⟨dst, hdst, hdelivered⟩ := hdel h0
      exact ⟨dst, hdst, hdelivered.of_undisturbed hund⟩

end Shell
