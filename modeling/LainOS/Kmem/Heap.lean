import LainOS.Kmem.Pages
import LainOS.Lib.Memory

/-!
# The kernel heap

Small blocks come from eight size classes, each with a free list threaded through the first eight
bytes of its free blocks. Those bytes are the magic number of a block in use. Larger blocks are page
runs of their own. A block in use is a header of 24 bytes, the payload and a guard of four bytes.

Addresses are natural numbers, 0 is the null pointer. The page allocator is a parameter.
-/

namespace Kmem

open Mem

def allocMagic : ℕ := 0x4B4D454D48454150
def freedMagic : ℕ := 0x4B4D454D46524545
def guardMagic : ℕ := 0xC0FFEE42

/-- What the heap calls: `page_alloc` and `page_free`. -/
structure PageAllocator (σ : Type*) where
  pageAlloc : σ → UInt32 → ℕ × σ
  pageFree : σ → ℕ → UInt32 → σ

def smallClassSizes : Fin 8 → ℕ := ![32, 64, 128, 256, 512, 1024, 2048, 4096]

/-- `pages` is the state of the page allocator. -/
structure Heap (σ : Type*) where
  mem : Mem
  pages : σ
  smallFree : Fin 8 → ℕ
  heapUsedBytes : UInt64
  allocationCount : UInt64
  freeCount : UInt64
  liveAllocations : UInt64
  peakLiveAllocations : UInt64
  invalidFrees : UInt64
  doubleFrees : UInt64
  guardFailures : UInt64
  allocationFailures : UInt64

variable {σ : Type*} (A : PageAllocator σ)

def classForSize (bytes : UInt32) : Option (Fin 8) :=
  if bytes > 0xFFFFFFFF - 28 then none
  else (List.finRange 8).find? fun c => (bytes + 28).toNat ≤ smallClassSizes c

/-- `page_alloc` with the zeroing of the pages it hands out. -/
def Heap.pageAlloc (st : Heap σ) (pageCount : UInt32) : ℕ × Heap σ :=
  let r := A.pageAlloc st.pages pageCount
  if r.1 = 0 then (0, { st with pages := r.2 })
  else (r.1, { st with pages := r.2, mem := fill st.mem r.1 (pageCount.toNat * 4096) 0 })

/-- `block->next = small_free[c]; small_free[c] = block` -/
def pushBlock (c : Fin 8) (st : Heap σ) (block : ℕ) : Heap σ :=
  { st with
    mem := store 8 st.mem block (st.smallFree c)
    smallFree := Function.update st.smallFree c block }

def populateClass (st : Heap σ) (c : Fin 8) : Heap σ :=
  let r := st.pageAlloc A 1
  if r.1 = 0 then r.2
  else ((List.range (4096 / smallClassSizes c)).map fun i => r.1 + i * smallClassSizes c).foldl
    (pushBlock c) r.2

/-- The address of the guard, found through the size in the header. -/
def guardForHeader (mem : Mem) (header : ℕ) : ℕ := header + 24 + load 4 mem (header + 8)

def writeHeader (mem : Mem) (header bytes allocatedBytes classIndex pageCount : ℕ) : Mem :=
  let mem := store 8 mem header allocMagic
  let mem := store 4 mem (header + 8) bytes
  let mem := store 4 mem (header + 12) allocatedBytes
  let mem := store 2 mem (header + 16) classIndex
  let mem := store 2 mem (header + 18) pageCount
  let mem := store 4 mem (header + 20) 0
  store 4 mem (guardForHeader mem header) guardMagic

def kmallocNoteAlloc (st : Heap σ) (chargedBytes : ℕ) : Heap σ :=
  let live := st.liveAllocations + 1
  { st with
    heapUsedBytes := st.heapUsedBytes + UInt64.ofNat chargedBytes
    allocationCount := st.allocationCount + 1
    liveAllocations := live
    peakLiveAllocations := if live > st.peakLiveAllocations then live else st.peakLiveAllocations }

def kmallocNoteFree (st : Heap σ) (chargedBytes : ℕ) : Heap σ :=
  let charged := UInt64.ofNat chargedBytes
  { st with
    heapUsedBytes := if st.heapUsedBytes ≥ charged then st.heapUsedBytes - charged else 0
    freeCount := st.freeCount + 1
    liveAllocations := if st.liveAllocations > 0 then st.liveAllocations - 1
      else st.liveAllocations }

def kmallocSmall (st : Heap σ) (size : UInt32) (c : Fin 8) : ℕ × Heap σ :=
  let st := if st.smallFree c = 0 then populateClass A st c else st
  let block := st.smallFree c
  if block = 0 then (0, { st with allocationFailures := st.allocationFailures + 1 })
  else
    let next := load 8 st.mem block
    let mem := writeHeader st.mem block size.toNat (smallClassSizes c) c 0
    let mem := fill mem (block + 24) size.toNat 0xA5
    let st := { st with mem := mem, smallFree := Function.update st.smallFree c next }
    (block + 24, kmallocNoteAlloc st (smallClassSizes c))

def largePages (size : UInt32) : UInt32 := (size + 28 + 4095) / 4096

def kmallocLarge (st : Heap σ) (size : UInt32) : ℕ × Heap σ :=
  let failed := (0, { st with allocationFailures := st.allocationFailures + 1 })
  if size > 0xFFFFFFFF - 28 - 4095 then failed
  else
    let pages := largePages size
    if pages > 0xFFFF then failed
    else
      let r := st.pageAlloc A pages
      if r.1 = 0 then (0, r.2)
      else
        let mem := writeHeader r.2.mem r.1 size.toNat (pages.toNat * 4096) 0xFFFF pages.toNat
        (r.1 + 24, kmallocNoteAlloc { r.2 with mem := mem } (pages.toNat * 4096))

def kmalloc (st : Heap σ) (size : UInt32) : ℕ × Heap σ :=
  if size = 0 then (0, st)
  else
    match classForSize size with
    | some c => kmallocSmall A st size c
    | none => kmallocLarge A st size

/-- The walk along one free list. The address space has `2^64` nodes at most: `none` is a walk that
goes on for ever. -/
def listContains (mem : Mem) (block : ℕ) : ℕ → ℕ → Option Bool
  | 0, _ => none
  | fuel + 1, it =>
    if it = 0 then some false
    else if it = block then some true
    else listContains mem block fuel (load 8 mem it)

def smallFreeListContains (st : Heap σ) (block : ℕ) : Option Bool :=
  (List.finRange 8).foldl (fun found c =>
    match found with
    | some false => listContains st.mem block (2 ^ 64) (st.smallFree c)
    | _ => found) (some false)

/-- The writes of `kfree` into a block: it wipes the guard and the payload, before or after it marks
the block. -/
def wipe (mem : Mem) (header : ℕ) : Mem :=
  let mem := store 4 mem (guardForHeader mem header) 0
  fill mem (header + 24) (load 4 mem (header + 8)) 0xDD

def checkGuard (st : Heap σ) (header : ℕ) : Heap σ :=
  if load 4 st.mem (guardForHeader st.mem header) ≠ guardMagic then
    { st with guardFailures := st.guardFailures + 1 }
  else st

/-- The last part of `kfree`, for a block with the right magic number. -/
def releaseBlock (st : Heap σ) (header : ℕ) : Heap σ :=
  let classIndex := load 2 st.mem (header + 16)
  if classIndex = 0xFFFF then
    let pages := load 2 st.mem (header + 18)
    let mem := wipe (store 8 st.mem header freedMagic) header
    let st := kmallocNoteFree { st with mem := mem } (pages * 4096)
    { st with pages := A.pageFree st.pages header (UInt32.ofNat pages) }
  else if h : classIndex < 8 then
    let mem := store 8 (wipe st.mem header) header freedMagic
    let st := pushBlock ⟨classIndex, h⟩ { st with mem := mem } header
    kmallocNoteFree st (smallClassSizes ⟨classIndex, h⟩)
  else { st with invalidFrees := st.invalidFrees + 1 }

def kfree (st : Heap σ) (ptr : ℕ) : Option (Heap σ) :=
  if ptr = 0 then some st
  else
    let header := ptr - 24
    if load 8 st.mem header ≠ allocMagic then
      if load 8 st.mem header = freedMagic then some { st with doubleFrees := st.doubleFrees + 1 }
      else
        match smallFreeListContains st header with
        | none => none
        | some true => some { st with doubleFrees := st.doubleFrees + 1 }
        | some false => some { st with invalidFrees := st.invalidFrees + 1 }
    else some (releaseBlock A (checkGuard st header) header)

end Kmem
