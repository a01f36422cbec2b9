import LainOS.Shell.Paths

/-!
# Copying files

`shell_api_copy_file` loads a file into the first of the include buffers and saves it under the
destination. With a `*` in the source it does so for every file of the source directory whose name
matches the last part.
-/

namespace Shell

open LainFS

/-! ### The work buffers -/

def scriptBufferSize : ℕ := 65536
def scriptMaxDepth : ℕ := 4
def execBufferSize : ℕ := 32 * 1024 * 1024
def zIncludeBufferSize : ℕ := 512 * 1024
def zIncludeMaxDepth : ℕ := 4

/-- What `kmalloc` handed out, with the size it was asked for. -/
structure Allocation where
  address : UInt64
  size : ℕ

structure WorkBuffers where
  scriptBuffers : Option Allocation
  execBuffer : Option Allocation
  asmOutput : Option Allocation
  zscriptOutput : Option Allocation
  zincludeBuffers : Option Allocation
  shellManifestBuffer : Option Allocation
  shellSourceBuffer : Option Allocation
  shellWgetBuffer : Option Allocation
  /-- `shell_work_buffers_ready` -/
  ready : Bool

/-- The null pointers the shell starts with. -/
def WorkBuffers.null : WorkBuffers := ⟨none, none, none, none, none, none, none, none, false⟩

variable {Heap : Type} (kmalloc : Heap → ℕ → Option UInt64 × Heap)

/-- Memory for a buffer that has none yet. -/
def allocBuffer (size : ℕ) (heap : Heap) : Option Allocation → Option Allocation × Heap
  | some a => (some a, heap)
  | none => ((kmalloc heap size).1.map (⟨·, size⟩), (kmalloc heap size).2)

def shellAllocWorkBuffers (w : WorkBuffers) (heap : Heap) : WorkBuffers × Heap :=
  if w.ready = true then (w, heap)
  else
    let (script, heap) :=
      allocBuffer kmalloc ((scriptBufferSize + 1) * scriptMaxDepth) heap w.scriptBuffers
    let (exec, heap) := allocBuffer kmalloc execBufferSize heap w.execBuffer
    let (asm, heap) := allocBuffer kmalloc execBufferSize heap w.asmOutput
    let (zscript, heap) := allocBuffer kmalloc (asmSourceSize + 1) heap w.zscriptOutput
    let (zinclude, heap) :=
      allocBuffer kmalloc ((zIncludeBufferSize + 1) * zIncludeMaxDepth) heap w.zincludeBuffers
    let (manifest, heap) := allocBuffer kmalloc (asmSourceSize + 1) heap w.shellManifestBuffer
    let (source, heap) := allocBuffer kmalloc (asmSourceSize + 1) heap w.shellSourceBuffer
    let (wget, heap) := allocBuffer kmalloc (fileCapacity.toNat + 1) heap w.shellWgetBuffer
    (⟨script, exec, asm, zscript, zinclude, manifest, source, wget,
      script.isSome && exec.isSome && asm.isSome && zscript.isSome && zinclude.isSome &&
        manifest.isSome && source.isSome && wget.isSome⟩, heap)

/-- The buffers after some calls of `shell_alloc_work_buffers`. -/
inductive Allocated : WorkBuffers → Prop
  | null : Allocated WorkBuffers.null
  | call {w : WorkBuffers} (heap : Heap) :
      Allocated w → Allocated (shellAllocWorkBuffers kmalloc w heap).1

/-- The size of the buffer that files are copied through. -/
def copyBufferSize : ℕ := (zIncludeBufferSize + 1) * zIncludeMaxDepth

/-! ### Patterns -/

/-- The byte `*` -/
def star : UInt8 := 0x2A

/-- The loop runs along the name up to the star; then the end of the name is compared. -/
def shellMatchOneStar : List UInt8 → List UInt8 → Bool
  | name, [] => name = []
  | name, c :: pattern =>
    if c = star then
      pattern.length ≤ name.length && name.drop (name.length - pattern.length) == pattern
    else
      match name with
      | [] => false
      | n :: name => n == c && shellMatchOneStar name pattern

/-- The part of a path after its last separator. -/
def lastPart (path : List UInt8) : List UInt8 := path.rtakeWhile (!pathIsSeparator ·)

def dirPathSize : ℕ := 128

/-- The directory part of a path, without the last separator; `.` and `/` where it has none. -/
def dirPath (path : List UInt8) : Option (List UInt8) :=
  match path.rdropWhile (!pathIsSeparator ·) with
  | [] => some dot.bytes
  | [_] => some [0x2F]
  | s => if partFits dirPathSize s.dropLast = true then some s.dropLast else none

/-- The drive and the directory of the files and the pattern, cut to the 32 bytes of its buffer. -/
def shellSplitGlobSource (sh : Session) (srcPath : List UInt8) (fallback : Fin maxDrives) :
    Option (Fin maxDrives × UInt32 × List UInt8) × Session :=
  match pathDrivePrefix sh srcPath fallback with
  | (none, sh) => (none, sh)
  | (some (drive, path), sh) =>
    match dirPath path with
    | none => (none, sh)
    | some dir =>
      match resolveDirPath sh.fs (driveLetter drive) (sh.dirIds drive) dir with
      | (.error _, fs) => (none, { sh with fs })
      | (.ok dirId, fs) =>
        (some (drive, dirId, (lastPart path).take (nameSize - 1)), { sh with fs })

/-! ### Copying -/

/-- What a copy hands back and what it did to the buffer. -/
structure CopyResult where
  status : ℤ
  /-- How many bytes each load wrote into `zinclude_buffers[0]`, from its start on. -/
  loaded : List ℕ
  session : Session

/-- The buffer after a load. -/
def bufferOf (r : LoadResult) : ℕ → UInt8 := fun k => r.bytes.getD k 0

/-- The loop of `shell_api_copy_file_glob` over the children. -/
def copyChildren (srcDrive : UInt8) (srcDir : UInt32) (pattern : List UInt8) (dstDrive : UInt8)
    (dstDir : UInt32) : List ℕ → ℕ → List ℕ → State → ℤ × List ℕ × State
  | [], copied, loaded, st => (if copied = 0 then -1 else 0, loaded, st)
  | i :: rest, copied, loaded, st =>
    match lainfsChildInfo st srcDrive srcDir i with
    | (.error _, st) => copyChildren srcDrive srcDir pattern dstDrive dstDir rest copied loaded st
    | (.ok info, st) =>
      if info.type ≠ entryFile ∨ shellMatchOneStar info.name.bytes pattern = false then
        copyChildren srcDrive srcDir pattern dstDrive dstDir rest copied loaded st
      else
        match lainfsLoadFileInDir st srcDrive srcDir info.name (UInt32.ofNat asmSourceSize) with
        | (r, st) =>
          if r.status ≠ 0 then (-1, loaded ++ [r.bytes.length], st)
          else
            match lainfsSaveFileInDir st dstDrive dstDir info.name (bufferOf r) r.outSize with
            | (status, st) =>
              if status ≠ 0 then (-1, loaded ++ [r.bytes.length], st)
              else
                copyChildren srcDrive srcDir pattern dstDrive dstDir rest (copied + 1)
                  (loaded ++ [r.bytes.length]) st

/-- The rest of `shell_api_copy_file_glob`, once both directories are found. -/
def copyMatching (st : State) (srcDrive : UInt8) (srcDir : UInt32) (pattern : List UInt8)
    (dstDrive : UInt8) (dstDir : UInt32) : ℤ × List ℕ × State :=
  match lainfsChildCount st srcDrive srcDir with
  | ((status, childCount), st) =>
    if status ≠ 0 then (-1, [], st)
    else copyChildren srcDrive srcDir pattern dstDrive dstDir (List.range childCount) 0 [] st

def shellApiCopyFileGlob (sh : Session) (srcPath dstPath : List UInt8) : CopyResult :=
  match sh.drive with
  | none => ⟨-1, [], sh⟩
  | some active =>
    match shellSplitGlobSource sh srcPath active with
    | (none, sh) => ⟨-1, [], sh⟩
    | (some (srcDrive, srcDir, pattern), sh) =>
      match resolveFilePathWithDrive sh dstPath active with
      | (none, sh) => ⟨-1, [], sh⟩
      | (some (dstDrive, dstParent, dstName), sh) =>
        match lainfsFindDir sh.fs (driveLetter dstDrive) dstParent dstName with
        | ((status, dirId), fs) =>
          if status ≠ 0 ∧ dstName ≠ dot then ⟨-1, [], { sh with fs }⟩
          else
            let dstDir := if status ≠ 0 then dstParent else dirId
            match copyMatching fs (driveLetter srcDrive) srcDir pattern (driveLetter dstDrive)
                dstDir with
            | (status, loaded, fs) => ⟨status, loaded, { sh with fs }⟩

/-- The rest of `shell_api_copy_file`, once both paths are resolved. -/
def copyResolved (st : State) (srcDrive : UInt8) (srcParent : UInt32) (srcName : CString)
    (dstDrive : UInt8) (dstParent : UInt32) (dstName : CString) : ℤ × List ℕ × State :=
  match lainfsLoadFileInDir st srcDrive srcParent srcName (UInt32.ofNat asmSourceSize) with
  | (r, st) =>
    if r.status ≠ 0 then (-1, [r.bytes.length], st)
    else
      match lainfsFindDir st dstDrive dstParent dstName with
      | ((status, dirId), st) =>
        -- a destination that is a directory gets the file under its old name
        let target := if status = 0 then (dirId, srcName) else (dstParent, dstName)
        match lainfsSaveFileInDir st dstDrive target.1 target.2 (bufferOf r) r.outSize with
        | (status, st) => (status, [r.bytes.length], st)

def shellApiCopyFile (sh : Session) (srcPath dstPath : List UInt8) : CopyResult :=
  if star ∈ srcPath then shellApiCopyFileGlob sh srcPath dstPath
  else
    match sh.drive with
    | none => ⟨-1, [], sh⟩
    | some active =>
      match resolveFilePathWithDrive sh srcPath active with
      | (none, sh) => ⟨-1, [], sh⟩
      | (some (srcDrive, srcParent, srcName), sh) =>
        match resolveFilePathWithDrive sh dstPath active with
        | (none, sh) => ⟨-1, [], sh⟩
        | (some (dstDrive, dstParent, dstName), sh) =>
          match copyResolved sh.fs (driveLetter srcDrive) srcParent srcName (driveLetter dstDrive)
              dstParent dstName with
          | (status, loaded, fs) => ⟨status, loaded, { sh with fs }⟩

end Shell
