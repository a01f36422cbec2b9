import LainOS.Lib.Align
import LainOS.Lib.Spans

/-!
# Memory for devices

`dma_init` takes a pool of four megabytes out of the memory map, and `dma_alloc` hands it out from
the front. It aligns the offset in the pool: the address is aligned if the start of the pool is
(`dma_sound_iff`).
-/

namespace Kmem

open List

/-- A descriptor of the memory map, with the fields that are read. -/
structure Descriptor where
  type : UInt32
  physicalStart : UInt64
  numberOfPages : UInt64
deriving DecidableEq

/-- The fields of `boot_info_t` that are read, and the descriptors that stand at `memoryMap`. -/
structure BootInfo where
  kernelBase : UInt64
  kernelSize : UInt64
  memoryMap : UInt64
  memoryMapSize : UInt64
  memoryMapDescriptorSize : UInt64
  descriptors : List Descriptor

variable {start : UInt64} {desc : Descriptor} {info : BootInfo}

def conventionalMemory : UInt32 := 7
def dmaPoolLimit : UInt64 := 0x100000000
def dmaPoolMin : UInt64 := 0x1000000
def dmaPoolSize : UInt64 := 0x400000

def overlaps (start stop otherStart otherStop : UInt64) : Bool :=
  start < otherStop && otherStart < stop

/-- The test `dma_init` starts with. -/
def BootInfo.HasMap (info : BootInfo) : Prop :=
  info.memoryMap ≠ 0 ∧ info.memoryMapSize ≠ 0 ∧ 40 ≤ info.memoryMapDescriptorSize

instance (info : BootInfo) : Decidable info.HasMap := inferInstanceAs (Decidable (_ ∧ _ ∧ _))

structure Dma where
  poolBaseAddr : UInt64
  poolSizeBytes : UInt64
  poolOffset : UInt64
deriving DecidableEq

/-- The start of a descriptor, not below the lowest address for a pool. -/
def Descriptor.poolFirst (desc : Descriptor) : UInt64 :=
  Align.up (if desc.physicalStart < dmaPoolMin then dmaPoolMin else desc.physicalStart) 4096

/-- The end of a descriptor, not above the highest address for a pool. -/
def Descriptor.poolLast (desc : Descriptor) : UInt64 :=
  let stop := desc.physicalStart + desc.numberOfPages * 4096
  if stop > dmaPoolLimit then dmaPoolLimit else stop

/-- One pass of the loop of `dma_init`: where the pool starts if it goes into this descriptor. -/
def dmaPoolStart (info : BootInfo) (desc : Descriptor) : Option UInt64 :=
  let start := desc.poolFirst
  if desc.type ≠ conventionalMemory then none
  else if desc.poolLast ≤ start ∨ desc.poolLast - start < dmaPoolSize then none
  else if overlaps start (start + dmaPoolSize) info.kernelBase (info.kernelBase + info.kernelSize) ||
      overlaps start (start + dmaPoolSize) info.memoryMap (info.memoryMap + info.memoryMapSize) then
    none
  else some start

def dmaInit (info : BootInfo) : Dma :=
  if info.HasMap then
    match info.descriptors.findSome? (dmaPoolStart info) with
    | some start => ⟨start, dmaPoolSize, 0⟩
    | none => ⟨0, 0, 0⟩
  else ⟨0, 0, 0⟩

def dmaAlloc (dma : Dma) (size alignment : UInt32) : UInt64 × Dma :=
  if dma.poolBaseAddr = 0 ∨ size = 0 then (0, dma)
  else
    let offset := Align.up dma.poolOffset (if alignment ≠ 0 then alignment.toUInt64 else 16)
    if offset + size.toUInt64 > dma.poolSizeBytes then (0, dma)
    else (dma.poolBaseAddr + offset, { dma with poolOffset := offset + size.toUInt64 })

structure DmaCall where
  size : UInt32
  alignment : UInt32
deriving DecidableEq

/-- The addresses a sequence of calls returns, but for null, each with its call. -/
def dmaRun (dma : Dma) : List DmaCall → List (UInt64 × DmaCall)
  | [] => []
  | call :: calls =>
    let r := dmaAlloc dma call.size call.alignment
    if r.1 = 0 then dmaRun r.2 calls else (r.1, call) :: dmaRun r.2 calls

/-! ### The pool -/

def Descriptor.span (desc : Descriptor) : Span :=
  ⟨desc.physicalStart.toNat, desc.numberOfPages.toNat * 4096⟩

/-- What the firmware promises of a descriptor: it is made of whole pages of the address space. -/
structure Descriptor.Sound (desc : Descriptor) : Prop where
  aligned : 4096 ∣ desc.span.start
  nonempty : 0 < desc.span.len
  below : desc.span.stop ≤ 2 ^ 64

def BootInfo.kernel (info : BootInfo) : Span := ⟨info.kernelBase.toNat, info.kernelSize.toNat⟩
def BootInfo.map (info : BootInfo) : Span := ⟨info.memoryMap.toNat, info.memoryMapSize.toNat⟩
def Dma.pool (dma : Dma) : Span := ⟨dma.poolBaseAddr.toNat, dma.poolSizeBytes.toNat⟩

/-- The descriptors, the image of the kernel and the map are ranges of the address space. -/
structure BootInfo.Sound (info : BootInfo) : Prop where
  descriptors : ∀ desc ∈ info.descriptors, desc.Sound
  kernel : info.kernel.stop < 2 ^ 64
  map : info.map.stop < 2 ^ 64

structure PoolPlaced (info : BootInfo) (dma : Dma) : Prop where
  conventional : ∃ desc ∈ info.descriptors,
    desc.type = conventionalMemory ∧ Span.Inside dma.pool desc.span
  kernel : Span.Apart dma.pool info.kernel
  map : Span.Apart dma.pool info.map

lemma dmaPoolSize_toNat : dmaPoolSize.toNat = 0x400000 := rfl

lemma Descriptor.stop_toNat (desc : Descriptor) :
    (desc.physicalStart + desc.numberOfPages * 4096).toNat = desc.span.stop % 2 ^ 64 := by
  simp [span, Span.stop, UInt64.toNat_add, UInt64.toNat_mul]

lemma not_overlaps_iff {a b : Span} {stop otherStart otherStop : UInt64}
    (ha : start.toNat = a.start) (ha' : stop.toNat = a.stop) (hb : otherStart.toNat = b.start)
    (hb' : otherStop.toNat = b.stop) :
    overlaps start stop otherStart otherStop = false ↔ Span.Apart a b := by
  rw [overlaps, Bool.and_eq_false_iff, decide_eq_false_iff_not, decide_eq_false_iff_not,
    UInt64.not_lt, UInt64.not_lt, UInt64.le_iff_toNat_le, UInt64.le_iff_toNat_le, ha, ha', hb, hb',
    Span.Apart, or_comm]

lemma toNat_add_of_lt {a b : UInt64} (h : a.toNat + b.toNat < 2 ^ 64) :
    (a + b).toNat = a.toNat + b.toNat := by
  rw [UInt64.toNat_add, Nat.mod_eq_of_lt h]

lemma Descriptor.Sound.le_poolFirst (h : desc.Sound) : desc.span.start ≤ desc.poolFirst.toNat := by
  obtain ⟨haligned, hnonempty, hbelow⟩ := h
  have hlen : 4096 ∣ desc.span.len := Nat.dvd_mul_left _ _
  simp only [Span.stop] at hbelow
  rw [poolFirst]
  split_ifs with hlow
  · rw [Align.toNat_up (k := 12) rfl (by decide)]
    exact UInt64.le_iff_toNat_le.mp (UInt64.le_of_lt hlow)
  have hlast : desc.physicalStart.toNat + 2 ^ 12 ≤ 2 ^ 64 := by
    change desc.span.start + 4096 ≤ 2 ^ 64
    omega
  rw [Align.toNat_up (k := 12) rfl hlast]
  change desc.span.start ≤ (desc.span.start + 4095) / 4096 * 4096
  omega

lemma Descriptor.poolLast_le (desc : Descriptor) :
    desc.poolLast.toNat ≤ desc.span.stop ∧ desc.poolLast.toNat ≤ 0x100000000 := by
  have hstop := Nat.mod_le desc.span.stop (2 ^ 64)
  rw [← desc.stop_toNat] at hstop
  rw [poolLast]
  split_ifs with hhigh
  · exact ⟨(UInt64.lt_iff_toNat_lt.mp hhigh).le.trans hstop, le_rfl⟩
  · exact ⟨hstop, UInt64.le_iff_toNat_le.mp (UInt64.not_lt.mp hhigh)⟩

lemma dmaPoolStart_eq_some (hinfo : info.Sound) (hdesc : desc.Sound)
    (h : dmaPoolStart info desc = some start) :
    desc.type = conventionalMemory ∧ start.toNat + 0x400000 ≤ 0x100000000 ∧
      Span.Inside (Dma.pool ⟨start, dmaPoolSize, 0⟩) desc.span ∧
      Span.Apart (Dma.pool ⟨start, dmaPoolSize, 0⟩) info.kernel ∧
      Span.Apart (Dma.pool ⟨start, dmaPoolSize, 0⟩) info.map := by
  have hfirst := hdesc.le_poolFirst
  have hlast := desc.poolLast_le
  simp only [dmaPoolStart] at h
  split_ifs at h with htype hsmall hoverlaps
  cases h
  rw [not_not] at htype
  rw [not_or, UInt64.not_le, UInt64.not_lt] at hsmall
  have hlt := UInt64.lt_iff_toNat_lt.mp hsmall.1
  have hsize := UInt64.le_iff_toNat_le.mp hsmall.2
  rw [UInt64.toNat_sub_of_le _ _ (UInt64.le_of_lt hsmall.1), dmaPoolSize_toNat] at hsize
  generalize desc.poolFirst = start at *
  have hstop : (start + dmaPoolSize).toNat = (Dma.pool ⟨start, dmaPoolSize, 0⟩).stop :=
    toNat_add_of_lt (by rw [dmaPoolSize_toNat]; omega)
  rw [Bool.or_eq_true, not_or, Bool.not_eq_true, Bool.not_eq_true,
    not_overlaps_iff (b := info.kernel) rfl hstop rfl (toNat_add_of_lt hinfo.kernel),
    not_overlaps_iff (b := info.map) rfl hstop rfl (toNat_add_of_lt hinfo.map)] at hoverlaps
  refine ⟨htype, by omega, ⟨hfirst, ?_⟩, hoverlaps⟩
  change start.toNat + 0x400000 ≤ desc.span.stop
  omega

/-- The pool is empty, or a part of the memory below 4 gigabytes. -/
lemma dmaInit_cases (hinfo : info.Sound) :
    dmaInit info = ⟨0, 0, 0⟩ ∨ ∃ start : UInt64, dmaInit info = ⟨start, dmaPoolSize, 0⟩ ∧
      start.toNat + 0x400000 ≤ 0x100000000 ∧ PoolPlaced info (dmaInit info) := by
  rw [dmaInit]
  split_ifs with hmap
  · rcases hfind : info.descriptors.findSome? (dmaPoolStart info) with _ | start
    · exact .inl rfl
    obtain ⟨desc, hdesc, hstart⟩ := exists_of_findSome?_eq_some hfind
    obtain ⟨htype, hlow, hinside, hkernel, hmap⟩ :=
      dmaPoolStart_eq_some hinfo (hinfo.descriptors desc hdesc) hstart
    exact .inr ⟨start, rfl, hlow, ⟨desc, hdesc, htype, hinside⟩, hkernel, hmap⟩
  · exact .inl rfl

/-! ### Allocations -/

def DmaCall.PowerOfTwo (call : DmaCall) : Prop := ∃ k, call.alignment.toNat = 2 ^ k

/-- The bytes a call was given. -/
def granted (g : UInt64 × DmaCall) : Span := ⟨g.1.toNat, g.2.size.toNat⟩

section

variable {base offset : UInt64} (hbase : base.toNat + 0x400000 ≤ 0x100000000)
  (hoffset : offset.toNat ≤ 0x400000)
include hbase hoffset

lemma dmaAlloc_cases {call : DmaCall} (hcall : call.PowerOfTwo) :
    dmaAlloc ⟨base, dmaPoolSize, offset⟩ call.size call.alignment =
      (0, ⟨base, dmaPoolSize, offset⟩) ∨
    ∃ start : UInt64, dmaAlloc ⟨base, dmaPoolSize, offset⟩ call.size call.alignment =
        (base + start, ⟨base, dmaPoolSize, start + call.size.toUInt64⟩) ∧
      (base + start).toNat = base.toNat + start.toNat ∧ call.alignment.toNat ∣ start.toNat ∧
      offset ≤ start ∧ (start + call.size.toUInt64).toNat = start.toNat + call.size.toNat ∧
      start.toNat + call.size.toNat ≤ 0x400000 := by
  obtain ⟨k, hk⟩ := hcall
  have hlt := call.alignment.toNat_lt
  have hne : call.alignment ≠ 0 := by
    intro h
    rw [h] at hk
    exact absurd hk (Nat.two_pow_pos k).ne
  have hup := Align.toNat_up (x := offset) (a := call.alignment.toUInt64)
    ((UInt32.toNat_toUInt64 _).trans hk) (by omega)
  have hpos := Nat.two_pow_pos k
  have hle : offset.toNat ≤ (offset.toNat + (2 ^ k - 1)) / 2 ^ k * 2 ^ k := by
    have hlast := Nat.lt_div_mul_add hpos (a := offset.toNat + (2 ^ k - 1))
    omega
  have hbound := Nat.div_mul_le_self (offset.toNat + (2 ^ k - 1)) (2 ^ k)
  rw [dmaAlloc]
  simp only [if_pos hne]
  generalize Align.up offset call.alignment.toUInt64 = start at hup
  rw [← hup] at hle hbound
  have hsize := call.size.toNat_lt
  have hsum : (start + call.size.toUInt64).toNat = start.toNat + call.size.toNat := by
    rw [toNat_add_of_lt (by rw [UInt32.toNat_toUInt64]; omega), UInt32.toNat_toUInt64]
  split_ifs with hzero hfull
  · exact .inl rfl
  · exact .inl rfl
  have hfits := UInt64.le_iff_toNat_le.mp (UInt64.not_lt.mp hfull)
  rw [hsum, dmaPoolSize_toNat] at hfits
  refine .inr ⟨start, rfl, toNat_add_of_lt (by omega), ?_, UInt64.le_iff_toNat_le.mpr hle, hsum,
    hfits⟩
  rw [hk, hup]
  exact Nat.dvd_mul_left _ _

/-- What is granted lies behind the offset, in order, at multiples of the alignment in the pool. -/
lemma dmaRun_grants {calls : List DmaCall} (hcalls : ∀ call ∈ calls, call.PowerOfTwo) :
    (∀ g ∈ dmaRun ⟨base, dmaPoolSize, offset⟩ calls, base.toNat + offset.toNat ≤ g.1.toNat ∧
      (granted g).stop ≤ base.toNat + 0x400000 ∧ g.2.alignment.toNat ∣ g.1.toNat - base.toNat) ∧
    ((dmaRun ⟨base, dmaPoolSize, offset⟩ calls).map granted).Pairwise Span.Apart := by
  induction calls generalizing offset with
  | nil => exact ⟨fun g hg => absurd hg not_mem_nil, .nil⟩
  | cons call calls ih =>
    obtain ⟨hcall, hcalls⟩ := forall_mem_cons.mp hcalls
    rw [dmaRun]
    rcases dmaAlloc_cases hbase hoffset hcall with h | ⟨start, h, haddr, hdvd, hle, hnext, hfits⟩
    · rw [h, if_pos rfl]
      exact ih hoffset hcalls
    have hle := UInt64.le_iff_toNat_le.mp hle
    have hnext' : (start + call.size.toUInt64).toNat ≤ 0x400000 := hnext.trans_le hfits
    obtain ⟨hrest, hpairwise⟩ := ih hnext' hcalls
    rw [hnext] at hrest
    have hrest' : ∀ g ∈ dmaRun ⟨base, dmaPoolSize, start + call.size.toUInt64⟩ calls,
        base.toNat + offset.toNat ≤ g.1.toNat ∧ (granted g).stop ≤ base.toNat + 0x400000 ∧
        g.2.alignment.toNat ∣ g.1.toNat - base.toNat := by
      intro g hg
      obtain ⟨hstart, hstop⟩ := hrest g hg
      exact ⟨by omega, hstop⟩
    rw [h]
    split_ifs
    · exact ⟨hrest', hpairwise⟩
    refine ⟨forall_mem_cons.mpr ⟨⟨?_, ?_, ?_⟩, hrest'⟩,
      pairwise_cons.mpr ⟨fun b hb => ?_, hpairwise⟩⟩
    · change _ ≤ (base + start).toNat
      omega
    · change (base + start).toNat + call.size.toNat ≤ _
      omega
    · change _ ∣ (base + start).toNat - base.toNat
      rwa [haddr, Nat.add_sub_cancel_left]
    obtain ⟨g, hg, rfl⟩ := mem_map.mp hb
    have hstart := (hrest g hg).1
    refine .inl ?_
    change (base + start).toNat + call.size.toNat ≤ g.1.toNat
    omega

end

lemma dmaRun_empty (calls : List DmaCall) : dmaRun ⟨0, 0, 0⟩ calls = [] := by
  induction calls with
  | nil => rfl
  | cons call calls ih =>
    have hnull : dmaAlloc ⟨0, 0, 0⟩ call.size call.alignment = (0, ⟨0, 0, 0⟩) := if_pos (.inl rfl)
    rw [dmaRun, hnull, if_pos rfl]
    exact ih

/-- For every memory map and all calls: the pool is conventional memory apart from the kernel and the
map, and what is granted is aligned, in the pool and disjoint exactly if the alignments of the
granted calls divide the address of the pool. -/
theorem dma_sound_iff (info : BootInfo) (hinfo : info.Sound) (calls : List DmaCall)
    (hcalls : ∀ call ∈ calls, call.PowerOfTwo) :
    ((dmaInit info).poolBaseAddr ≠ 0 → PoolPlaced info (dmaInit info)) ∧
    (((∀ g ∈ dmaRun (dmaInit info) calls,
        g.2.alignment.toNat ∣ g.1.toNat ∧ Span.Inside (granted g) (dmaInit info).pool) ∧
      ((dmaRun (dmaInit info) calls).map granted).Pairwise Span.Apart) ↔
      ∀ g ∈ dmaRun (dmaInit info) calls,
        g.2.alignment.toNat ∣ (dmaInit info).poolBaseAddr.toNat) := by
  rcases dmaInit_cases hinfo with h | ⟨base, h, hbase, hplaced⟩
  · rw [h, dmaRun_empty]
    exact ⟨fun hne => absurd rfl hne, by simp⟩
  refine ⟨fun _ => hplaced, ?_⟩
  rw [h]
  obtain ⟨hgrants, hpairwise⟩ := @dmaRun_grants base 0 hbase (Nat.zero_le _) calls hcalls
  have hiff : ∀ g ∈ dmaRun ⟨base, dmaPoolSize, 0⟩ calls,
      (g.2.alignment.toNat ∣ g.1.toNat ↔ g.2.alignment.toNat ∣ base.toNat) := by
    intro g hg
    obtain ⟨hstart, -, hdvd⟩ := hgrants g hg
    rw [← Nat.sub_add_cancel ((Nat.le_add_right _ _).trans hstart)]
    exact Nat.dvd_add_right hdvd
  constructor
  · rintro ⟨hall, -⟩ g hg
    exact (hiff g hg).mp (hall g hg).1
  · intro hall
    refine ⟨fun g hg => ⟨(hiff g hg).mpr (hall g hg), ?_, ?_⟩, hpairwise⟩
    · exact (Nat.le_add_right _ _).trans (hgrants g hg).1
    · exact (hgrants g hg).2.1

/-- A pool at 16 megabytes and one page, in memory that ends at 32 megabytes. -/
def oddPool : BootInfo where
  kernelBase := 0x100000
  kernelSize := 0x1000
  memoryMap := 0x8000
  memoryMapSize := 40
  memoryMapDescriptorSize := 40
  descriptors := [⟨7, 0x1001000, 4095⟩]

lemma oddPool_sound : oddPool.Sound := by
  refine ⟨?_, by decide, by decide⟩
  simp only [oddPool, mem_singleton, forall_eq]
  exact ⟨by decide, by decide, by decide⟩

/-- Two allocations with the alignment of a page. -/
theorem dma_sound_page_aligned :
    (∀ g ∈ dmaRun (dmaInit oddPool) [⟨100, 4096⟩, ⟨5000, 4096⟩],
        g.2.alignment.toNat ∣ g.1.toNat ∧ Span.Inside (granted g) (dmaInit oddPool).pool) ∧
      ((dmaRun (dmaInit oddPool) [⟨100, 4096⟩, ⟨5000, 4096⟩]).map granted).Pairwise Span.Apart := by
  refine (dma_sound_iff oddPool oddPool_sound _ ?_).2.mpr (by decide)
  rw [forall_mem_cons, forall_mem_singleton]
  exact ⟨⟨12, rfl⟩, ⟨12, rfl⟩⟩

/-- An address for the alignment 8192 that is odd as a page number. -/
theorem dma_unaligned_address :
    oddPool.Sound ∧ DmaCall.PowerOfTwo ⟨1, 8192⟩ ∧
      (dmaAlloc (dmaInit oddPool) 1 8192).1 = 0x1001000 ∧ ¬ 8192 ∣ (0x1001000 : UInt64).toNat :=
  ⟨oddPool_sound, ⟨13, rfl⟩, by decide, by decide⟩

end Kmem
