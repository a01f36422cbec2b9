import LainOS.Lib.Block
import LainOS.Lib.Memory

/-!
# The kernel loader

The boot loader plans from the headers of the kernel file where the kernel goes, reserves the pages
for it and copies the segments there. Sums of addresses and sizes wrap at `2 ^ 64`, as in the source.

The buffer with the file is a memory of its own here: the firmware gives the loader different pages
for it and for the kernel. Beside the memory, a run records the blocks it reads from the buffer and
those it writes.
-/

namespace Boot

inductive Status
  | success | loadError | unsupported
  deriving DecidableEq, Repr

/-- The kernel file in its buffer; behind the first `size` bytes stands whatever the memory holds. -/
structure KernelFile where
  bytes : Mem
  size : UInt64

structure Ehdr where
  magic : ℕ
  elfClass : ℕ
  machine : ℕ
  entry : UInt64
  phoff : UInt64
  phentsize : ℕ
  phnum : ℕ
  deriving DecidableEq, Repr

structure Phdr where
  type : ℕ
  offset : UInt64
  paddr : UInt64
  filesz : UInt64
  memsz : UInt64
  deriving DecidableEq, Repr

/-- `elf_load_plan_t` -/
structure LoadPlan where
  entryPoint : UInt64
  kernelBase : UInt64
  kernelEnd : UInt64
  deriving DecidableEq, Repr

def ehdrSize : ℕ := 64
def phdrSize : ℕ := 56
def ptLoad : ℕ := 1

namespace KernelFile

variable (f : KernelFile)

def u64 (off : ℕ) : UInt64 := .ofNat (Mem.load 8 f.bytes off)

def ehdr : Ehdr where
  magic := Mem.load 4 f.bytes 0
  elfClass := Mem.load 1 f.bytes 4
  machine := Mem.load 2 f.bytes 18
  entry := f.u64 24
  phoff := f.u64 32
  phentsize := Mem.load 2 f.bytes 54
  phnum := Mem.load 2 f.bytes 56

def phdrAt (off : ℕ) : Phdr where
  type := Mem.load 4 f.bytes off
  offset := f.u64 (off + 8)
  paddr := f.u64 (off + 24)
  filesz := f.u64 (off + 32)
  memsz := f.u64 (off + 40)

def phdrs : List Phdr :=
  (List.range f.ehdr.phnum).map fun i => f.phdrAt (f.ehdr.phoff.toNat + phdrSize * i)

end KernelFile

/-! ### Planning -/

/-- One program header in the loop of `plan_elf_kernel_from_headers`; the pair is `min_addr` and
`max_addr`. -/
def planSegment (fileSize : UInt64) (range : UInt64 × UInt64) (ph : Phdr) :
    Except Status (UInt64 × UInt64) :=
  if ph.type ≠ ptLoad ∨ ph.memsz = 0 then .ok range
  else if fileSize < ph.offset + ph.filesz then .error .loadError
  else .ok (if ph.paddr < range.1 then ph.paddr else range.1,
    if range.2 < ph.paddr + ph.memsz then ph.paddr + ph.memsz else range.2)

def planElfKernelFromHeaders (ehdr : Ehdr) (phdrs : List Phdr) (fileSize : UInt64) :
    Except Status LoadPlan :=
  if ehdr.magic ≠ 0x464C457F then .error .loadError
  else if ehdr.elfClass ≠ 2 ∨ ehdr.machine ≠ 62 then .error .unsupported
  else if ehdr.phoff = 0 ∨ ehdr.phnum = 0 then .error .loadError
  else do
    let (minAddr, maxAddr) ← phdrs.foldlM (planSegment fileSize) (0xFFFFFFFFFFFFFFFF, 0)
    if minAddr = 0xFFFFFFFFFFFFFFFF ∨ maxAddr ≤ minAddr then .error .loadError
    else .ok ⟨ehdr.entry, minAddr, maxAddr⟩

/-- Whether the table of program headers lies in the file. -/
def KernelFile.hasPhdrs (f : KernelFile) : Bool :=
  f.ehdr.phoff ≤ f.size ∧ f.ehdr.phentsize = phdrSize ∧
    f.ehdr.phnum ≤ (f.size.toNat - f.ehdr.phoff.toNat) / phdrSize

def planElfKernelFromBuffer (f : KernelFile) : Except Status LoadPlan :=
  if f.size.toNat < ehdrSize then .error .loadError
  else if !f.hasPhdrs then .error .loadError
  else planElfKernelFromHeaders f.ehdr f.phdrs f.size

/-- `plan_elf_kernel_from_file`, when the firmware reads what is asked for. -/
def planElfKernelFromFile (f : KernelFile) : Except Status LoadPlan :=
  if f.size.toNat < ehdrSize then .error .loadError
  else if !f.hasPhdrs || f.ehdr.phnum = 0 then .error .loadError
  else planElfKernelFromHeaders f.ehdr f.phdrs f.size

/-! ### Loading -/

/-- The memory, and the blocks that were read and written. -/
structure Run where
  mem : Space
  reads : List Block
  writes : List Block

def Run.memset (r : Run) (b : Block) (value : UInt8) : Run :=
  { r with mem := r.mem.write b fun _ => value, writes := r.writes ++ [b] }

/-- `boot_memcpy` of `size` bytes from the offset `src` of the buffer. -/
def Run.memcpy (r : Run) (f : KernelFile) (dest src size : UInt64) : Run where
  mem := r.mem.write ⟨dest, size⟩ fun i => f.bytes (src + i).toNat
  reads := r.reads ++ [⟨src, size⟩]
  writes := r.writes ++ [⟨dest, size⟩]

def Run.loadSegment (r : Run) (f : KernelFile) (ph : Phdr) : Run :=
  let r := r.memcpy f ph.paddr ph.offset ph.filesz
  if ph.filesz < ph.memsz then r.memset ⟨ph.paddr + ph.filesz, ph.memsz - ph.filesz⟩ 0 else r

def loadSegments (f : KernelFile) : List Phdr → Run → Status × Run
  | [], r => (.success, r)
  | ph :: phdrs, r =>
    if ph.type ≠ ptLoad then loadSegments f phdrs r
    else if f.size < ph.offset + ph.filesz then (.loadError, r)
    else loadSegments f phdrs (r.loadSegment f ph)

/-- The headers, as far as they are read. -/
def KernelFile.headerReads (f : KernelFile) : List Block :=
  if f.size.toNat < ehdrSize then []
  else if !f.hasPhdrs then [⟨0, .ofNat ehdrSize⟩]
  else [⟨0, .ofNat ehdrSize⟩, ⟨f.ehdr.phoff, .ofNat (phdrSize * f.ehdr.phnum)⟩]

def pageDown (x : UInt64) : UInt64 := x &&& ~~~0xFFF

/-- The pages that `reserve_kernel_pages` asks for, and that are cleared. -/
def LoadPlan.pages (plan : LoadPlan) : Block :=
  ⟨pageDown plan.kernelBase, pageDown (plan.kernelEnd + 0xFFF) - pageDown plan.kernelBase⟩

def loadElfKernel (f : KernelFile) (plan : LoadPlan) (mem : Space) : Status × Run :=
  let r : Run := ⟨mem, f.headerReads, []⟩
  match planElfKernelFromBuffer f with
  | .error status => (status, r)
  | .ok checkPlan =>
    if checkPlan ≠ plan then (.loadError, r)
    else loadSegments f f.phdrs (r.memset plan.pages 0)

end Boot
