import LainOS.Boot.ElfLoad
import LainOS.Lib.Align
import LainOS.Lib.Records

/-!
# Where the loader reads and writes

The plan looks at the segments with a size in memory only, and trusts that their size in the file is
not larger; the copy loop takes every loadable segment with its size in the file. So what the loader
does stays inside the pages and the file exactly if each segment that it copies does
(`staysInside_iff`).
-/

namespace Boot

open List

variable {x : UInt64} {f : KernelFile} {plan : LoadPlan} {mem : Space} {ph : Phdr}
  {phdrs : List Phdr} {r : Run}

/-! ### What is asked for -/

/-- The start of the reserved pages. -/
def LoadPlan.lo (plan : LoadPlan) : ℕ := plan.kernelBase.toNat / 4096 * 4096

/-- The end of the reserved pages. -/
def LoadPlan.hi (plan : LoadPlan) : ℕ := (plan.kernelEnd.toNat + 4095) / 4096 * 4096

/-- The bytes of a segment in memory: those from the file, and zeros up to `p_memsz`. -/
def Phdr.image (ph : Phdr) : Block :=
  ⟨ph.paddr, if ph.filesz < ph.memsz then ph.memsz else ph.filesz⟩

/-- The memory holds the segment. -/
def Phdr.Held (f : KernelFile) (ph : Phdr) (mem : Space) : Prop :=
  (∀ i < ph.filesz, mem (ph.paddr + i) = f.bytes (ph.offset + i).toNat) ∧
    ∀ i, ph.filesz ≤ i → i < ph.memsz → mem (ph.paddr + i) = 0

/-- The loader stays inside the pages and the file, and puts the segments in place. -/
structure StaysInside (f : KernelFile) (plan : LoadPlan) (mem : Space) : Prop where
  writes : ∀ b ∈ (loadElfKernel f plan mem).2.writes, b.Inside plan.lo plan.hi
  reads : ∀ b ∈ (loadElfKernel f plan mem).2.reads, b.Inside 0 f.size.toNat
  held : (loadElfKernel f plan mem).1 = .success → ∀ before ph after,
    f.phdrs = before ++ ph :: after → ph.type = ptLoad → ph.memsz ≠ 0 →
    (∀ ph' ∈ after, ph'.type = ptLoad → ph.image.Apart ph'.image) →
    ph.Held f (loadElfKernel f plan mem).2.mem

/-- The segments that are copied: the loop ends at the first one that does not seem to lie in the
file. -/
def KernelFile.copied (f : KernelFile) : List Phdr :=
  (f.phdrs.filter (·.type = ptLoad)).takeWhile fun ph => ph.offset + ph.filesz ≤ f.size

/-- A segment lies in the file, and its image in the reserved pages. -/
def Phdr.Fits (f : KernelFile) (plan : LoadPlan) (ph : Phdr) : Prop :=
  (ph.filesz = 0 ∨ ph.offset.toNat + ph.filesz.toNat ≤ f.size.toNat) ∧
    (ph.image.size = 0 ∨
      (plan.lo ≤ ph.paddr.toNat ∧ ph.paddr.toNat + ph.image.size.toNat ≤ plan.hi) ∨
      (plan.lo = 0 ∧ plan.hi = 2 ^ 64))

instance (f : KernelFile) (plan : LoadPlan) : DecidablePred (Phdr.Fits f plan) := fun _ =>
  inferInstanceAs (Decidable (_ ∧ _))

/-! ### Pages -/

lemma toNat_pageDown (x : UInt64) : (pageDown x).toNat = x.toNat / 4096 * 4096 :=
  Align.toNat_down (k := 12) (a := 4096) rfl

lemma LoadPlan.hi_le (plan : LoadPlan) : plan.hi ≤ 2 ^ 64 := by
  have := plan.kernelEnd.toNat_lt
  rw [hi]
  omega

/-- The block that is cleared ends with the pages, also if their end wraps to 0. -/
lemma LoadPlan.pages_inside (h : plan.kernelBase ≤ plan.kernelEnd) :
    plan.pages.Inside plan.lo plan.hi := by
  have hle := UInt64.le_iff_toNat_le.mp h
  have hend := plan.kernelEnd.toNat_lt
  have hstop : (pageDown (plan.kernelEnd + 0xFFF)).toNat =
      (plan.kernelEnd.toNat + 4095) % 2 ^ 64 / 4096 * 4096 := by
    rw [toNat_pageDown, UInt64.toNat_add]
    rfl
  have hstart : (pageDown plan.kernelBase).toNat = plan.lo := toNat_pageDown _
  rw [Block.inside_iff plan.hi_le]
  by_cases hzero : plan.pages.size = 0
  · exact .inl hzero
  refine .inr (.inl ⟨hstart.ge, ?_⟩)
  change (pageDown plan.kernelBase).toNat +
    (pageDown (plan.kernelEnd + 0xFFF) - pageDown plan.kernelBase).toNat ≤ plan.hi
  have hpos : (pageDown (plan.kernelEnd + 0xFFF) - pageDown plan.kernelBase).toNat ≠ 0 :=
    fun h => hzero (UInt64.toNat_inj.mp h)
  rw [UInt64.toNat_sub, hstop, hstart] at hpos ⊢
  simp only [lo, hi] at hpos ⊢
  omega

/-! ### Segments -/

/-- The image of a segment is what is copied and what is cleared. -/
lemma Phdr.mem_image : ph.image.Mem x ↔ Block.Mem ⟨ph.paddr, ph.filesz⟩ x ∨
    (ph.filesz < ph.memsz ∧ Block.Mem ⟨ph.paddr + ph.filesz, ph.memsz - ph.filesz⟩ x) := by
  simp only [Block.Mem, image]
  rw [Block.sub_add_eq_sub_sub]
  generalize x - ph.paddr = d
  split_ifs with hlt
  · have hsub := UInt64.toNat_sub_of_le _ _ (UInt64.le_of_lt hlt)
    simp only [UInt64.lt_iff_toNat_lt, hsub, UInt64.toNat_sub] at hlt ⊢
    have hd := d.toNat_lt
    have hfile := ph.filesz.toNat_lt
    omega
  · simp only [hlt, false_and, or_false]

/-- The blocks written for a segment. -/
def Phdr.writes (ph : Phdr) : List Block :=
  ⟨ph.paddr, ph.filesz⟩ ::
    if ph.filesz < ph.memsz then [⟨ph.paddr + ph.filesz, ph.memsz - ph.filesz⟩] else []

lemma Phdr.image_inside {lo hi : ℕ} : ph.image.Inside lo hi ↔ ∀ b ∈ ph.writes, b.Inside lo hi := by
  constructor
  · intro h b hb x hx
    refine h x (mem_image.mpr ?_)
    rw [writes, mem_cons] at hb
    split_ifs at hb with hlt
    · rcases hb with rfl | hb
      · exact .inl hx
      · obtain rfl := mem_singleton.mp hb
        exact .inr ⟨hlt, hx⟩
    · rcases hb with rfl | hb
      · exact .inl hx
      · exact absurd hb not_mem_nil
  · intro h x hx
    rcases mem_image.mp hx with hx | ⟨hlt, hx⟩
    · exact h _ mem_cons_self x hx
    · refine h _ (mem_cons_of_mem _ ?_) x hx
      rw [if_pos hlt]
      exact mem_singleton_self _

/-- A segment fits exactly if all that is read and written for it lies inside. -/
lemma Phdr.fits_iff : ph.Fits f plan ↔ Block.Inside ⟨ph.offset, ph.filesz⟩ 0 f.size.toNat ∧
    ∀ b ∈ ph.writes, b.Inside plan.lo plan.hi := by
  have hsize := f.size.toNat_lt
  rw [← image_inside, Block.inside_iff plan.hi_le, Block.inside_iff hsize.le, Fits]
  refine and_congr_left fun _ => or_congr_right ?_
  constructor
  · exact fun h => .inl ⟨Nat.zero_le _, h⟩
  · rintro (h | h)
    · exact h.2
    · exact absurd h.2 hsize.ne

/-! ### The copy loop -/

section

variable {dest src size i : UInt64} {b : Block} {value : UInt8}

lemma Run.memset_add (h : i < b.size) : (r.memset b value).mem (b.start + i) = value :=
  Space.write_add (f := fun _ => value) h

lemma Run.memset_of_not_mem (h : ¬ b.Mem x) : (r.memset b value).mem x = r.mem x := if_neg h

lemma Run.memcpy_add (h : i < size) :
    (r.memcpy f dest src size).mem (dest + i) = f.bytes (src + i).toNat :=
  Space.write_add (b := ⟨dest, size⟩) (f := fun i => f.bytes (src + i).toNat) h

lemma Run.memcpy_of_not_mem (h : ¬ Block.Mem ⟨dest, size⟩ x) :
    (r.memcpy f dest src size).mem x = r.mem x :=
  if_neg h

end

lemma Run.loadSegment_reads : (r.loadSegment f ph).reads = r.reads ++ [⟨ph.offset, ph.filesz⟩] := by
  simp only [loadSegment]
  split_ifs <;> rfl

lemma Run.loadSegment_writes : (r.loadSegment f ph).writes = r.writes ++ ph.writes := by
  simp only [loadSegment, Phdr.writes]
  split_ifs
  · exact append_assoc _ [_] [_]
  · rfl

lemma Run.loadSegment_of_not_mem (hx : ¬ ph.image.Mem x) :
    (r.loadSegment f ph).mem x = r.mem x := by
  rw [Phdr.mem_image, not_or, not_and] at hx
  simp only [loadSegment]
  split_ifs with hlt
  · rw [memset_of_not_mem (hx.2 hlt), memcpy_of_not_mem hx.1]
  · exact memcpy_of_not_mem hx.1

lemma Run.loadSegment_held : ph.Held f (r.loadSegment f ph).mem := by
  simp only [loadSegment]
  split_ifs with hlt
  · have hsub := UInt64.toNat_sub_of_le _ _ (UInt64.le_of_lt hlt)
    refine ⟨fun i hi => ?_, fun i hle hi => ?_⟩
    · -- the bytes that are cleared lie behind those from the file
      have hnot : ¬ Block.Mem ⟨ph.paddr + ph.filesz, ph.memsz - ph.filesz⟩ (ph.paddr + i) := by
        rw [Block.mem_add_add]
        simp only [UInt64.lt_iff_toNat_lt, hsub, UInt64.toNat_sub] at hlt hi ⊢
        have hmem := ph.memsz.toNat_lt
        omega
      rw [memset_of_not_mem hnot, memcpy_add hi]
    · have hsum : ph.paddr + i = ph.paddr + ph.filesz + (i - ph.filesz) := by
        rw [UInt64.add_assoc, UInt64.add_comm ph.filesz, UInt64.sub_add_cancel]
      have hbelow : i - ph.filesz < ph.memsz - ph.filesz := by
        have hi' := UInt64.lt_iff_toNat_lt.mp hi
        have hle' := UInt64.le_iff_toNat_le.mp hle
        rw [UInt64.lt_iff_toNat_lt, UInt64.toNat_sub_of_le _ _ hle, hsub]
        omega
      rw [hsum]
      exact memset_add (b := ⟨ph.paddr + ph.filesz, ph.memsz - ph.filesz⟩) hbelow
  · exact ⟨fun i hi => memcpy_add hi, fun i hle hi => absurd (UInt64.lt_of_le_of_lt hle hi) hlt⟩

/-- What the loop reads and writes is what it does for the segments that it copies. -/
lemma loadSegments_copied (f : KernelFile) (phdrs : List Phdr) (r : Run) :
    ∃ copied, copied = ((phdrs.filter (·.type = ptLoad)).takeWhile
      fun ph => ph.offset + ph.filesz ≤ f.size) ∧
    (loadSegments f phdrs r).2.reads = r.reads ++ copied.map (fun ph => ⟨ph.offset, ph.filesz⟩) ∧
    (loadSegments f phdrs r).2.writes = r.writes ++ copied.flatMap Phdr.writes := by
  refine ⟨_, rfl, ?_⟩
  induction phdrs generalizing r with
  | nil => exact ⟨(append_nil _).symm, (append_nil _).symm⟩
  | cons ph phdrs ih =>
    rw [loadSegments]
    by_cases hload : ph.type = ptLoad
    · rw [if_neg (not_not.mpr hload), filter_cons_of_pos (by simpa using hload)]
      by_cases hfile : f.size < ph.offset + ph.filesz
      · rw [if_pos hfile, takeWhile_cons_of_neg (by simpa using hfile)]
        exact ⟨(append_nil _).symm, (append_nil _).symm⟩
      rw [if_neg hfile, takeWhile_cons_of_pos (by simpa using hfile)]
      obtain ⟨hreads, hwrites⟩ := ih (r.loadSegment f ph)
      rw [hreads, hwrites, Run.loadSegment_reads, Run.loadSegment_writes]
      simp only [map_cons, flatMap_cons, append_assoc, cons_append, nil_append, and_self]
    · rw [if_pos hload, filter_cons_of_neg (by simpa using hload)]
      exact ih r

/-- Bytes in no image are left alone. -/
lemma loadSegments_of_not_mem (hx : ∀ ph ∈ phdrs, ph.type = ptLoad → ¬ ph.image.Mem x) :
    (loadSegments f phdrs r).2.mem x = r.mem x := by
  induction phdrs generalizing r with
  | nil => rfl
  | cons ph phdrs ih =>
    have hrest := fun ph' h' => hx ph' (mem_cons_of_mem ph h')
    rw [loadSegments]
    split_ifs with hload hfile
    · exact ih hrest
    · rfl
    · rw [ih hrest, Run.loadSegment_of_not_mem (hx ph mem_cons_self (not_not.mp hload))]

/-- A loop that succeeds holds each segment that no later one overlaps. -/
lemma loadSegments_held {before after : List Phdr}
    (hsuccess : (loadSegments f (before ++ ph :: after) r).1 = .success) (hload : ph.type = ptLoad)
    (hapart : ∀ ph' ∈ after, ph'.type = ptLoad → ph.image.Apart ph'.image) :
    ph.Held f (loadSegments f (before ++ ph :: after) r).2.mem := by
  induction before generalizing r with
  | nil =>
    rw [nil_append, loadSegments, if_neg (not_not.mpr hload)] at hsuccess ⊢
    split_ifs at hsuccess ⊢
    obtain ⟨hfile, hzero⟩ : ph.Held f (r.loadSegment f ph).mem := Run.loadSegment_held
    have hkeep : ∀ x, ph.image.Mem x →
        (loadSegments f after (r.loadSegment f ph)).2.mem x = (r.loadSegment f ph).mem x :=
      fun x hx => loadSegments_of_not_mem fun ph' h' hload' => hapart ph' h' hload' x hx
    refine ⟨fun i hi => ?_, fun i hle hi => ?_⟩
    · rw [hkeep _ (Phdr.mem_image.mpr (.inl (Block.mem_add.mpr hi))), hfile i hi]
    have hmem : ph.image.Mem (ph.paddr + i) := by
      refine Block.mem_add.mpr ?_
      rw [Phdr.image, if_pos (UInt64.lt_of_le_of_lt hle hi)]
      exact hi
    rw [hkeep _ hmem, hzero i hle hi]
  | cons ph' before ih =>
    rw [cons_append, loadSegments] at hsuccess ⊢
    split_ifs at hsuccess ⊢
    · exact ih hsuccess
    · exact ih hsuccess

/-! ### The whole loader -/

lemma planHeaders_lt {ehdr : Ehdr} {fileSize : UInt64}
    (h : planElfKernelFromHeaders ehdr phdrs fileSize = .ok plan) :
    plan.kernelBase < plan.kernelEnd := by
  rw [planElfKernelFromHeaders] at h
  split_ifs at h
  rcases hrange : phdrs.foldlM (planSegment fileSize) (0xFFFFFFFFFFFFFFFF, 0) with status | range
  · rw [hrange] at h
    cases h
  simp only [hrange, bind, Except.bind] at h
  split_ifs at h with hempty
  cases h
  rw [not_or, UInt64.not_le] at hempty
  exact hempty.2

/-- Both ways to plan agree. -/
lemma planBuffer_of_file (h : planElfKernelFromFile f = .ok plan) :
    planElfKernelFromBuffer f = .ok plan ∧ plan.kernelBase ≤ plan.kernelEnd ∧
      ehdrSize ≤ f.size.toNat ∧ f.hasPhdrs = true := by
  rw [planElfKernelFromFile] at h
  split_ifs at h with hsize hphdrs
  rw [Bool.or_eq_true, not_or, Bool.not_eq_true', Bool.not_eq_false] at hphdrs
  refine ⟨?_, UInt64.le_of_lt (planHeaders_lt h), not_lt.mp hsize, hphdrs.1⟩
  rw [planElfKernelFromBuffer, if_neg hsize, hphdrs.1]
  exact h

lemma loadElfKernel_eq (h : planElfKernelFromFile f = .ok plan) : loadElfKernel f plan mem =
      loadSegments f f.phdrs (Run.memset ⟨mem, f.headerReads, []⟩ plan.pages 0) := by
  rw [loadElfKernel]
  simp only [(planBuffer_of_file h).1]
  exact if_neg (not_not.mpr rfl)

lemma headerReads_inside (hsize : ehdrSize ≤ f.size.toNat) (hphdrs : f.hasPhdrs = true) :
    ∀ b ∈ f.headerReads, b.Inside 0 f.size.toNat := by
  have hlt := f.size.toNat_lt
  intro b hb
  rw [KernelFile.headerReads, if_neg (by omega), hphdrs] at hb
  rw [Block.inside_iff hlt.le]
  rcases mem_cons.mp hb with rfl | hb
  · exact .inr (.inl ⟨Nat.zero_le _, by simpa [ehdrSize] using hsize⟩)
  obtain rfl := mem_singleton.mp hb
  rw [KernelFile.hasPhdrs, decide_eq_true_iff] at hphdrs
  obtain ⟨hphoff, -, hphnum⟩ := hphdrs
  have hphoff' := UInt64.le_iff_toNat_le.mp hphoff
  have htable : phdrSize * f.ehdr.phnum ≤ f.size.toNat - f.ehdr.phoff.toNat :=
    (Nat.mul_le_mul_left _ hphnum).trans (Nat.mul_div_le _ _)
  have hsize' : (UInt64.ofNat (phdrSize * f.ehdr.phnum)).toNat = phdrSize * f.ehdr.phnum :=
    UInt64.toNat_ofNat_of_lt' (by
      change _ < 2 ^ 64
      omega)
  refine .inr (.inl ⟨Nat.zero_le _, ?_⟩)
  simp only [hsize']
  omega

/-- For a file that can be planned, the loader stays inside the pages and the file, and puts the
segments in place, exactly if every segment that it copies fits. -/
theorem staysInside_iff (h : planElfKernelFromFile f = .ok plan) (mem : Space) :
    StaysInside f plan mem ↔ ∀ ph ∈ f.copied, ph.Fits f plan := by
  obtain ⟨-, hle, hsize, hphdrs⟩ := planBuffer_of_file h
  obtain ⟨copied, hcopied, hreads, hwrites⟩ := loadSegments_copied f f.phdrs
    (Run.memset ⟨mem, f.headerReads, []⟩ plan.pages 0)
  rw [← loadElfKernel_eq h] at hreads hwrites
  rw [KernelFile.copied, ← hcopied]
  constructor
  · intro hstays ph hph
    rw [Phdr.fits_iff]
    refine ⟨hstays.reads _ ?_, fun b hb => hstays.writes b ?_⟩
    · rw [hreads]
      exact mem_append_right _ (mem_map_of_mem hph)
    · rw [hwrites]
      exact mem_append_right _ (mem_flatMap_of_mem hph hb)
  intro hfits
  refine ⟨fun b hb => ?_, fun b hb => ?_, ?_⟩
  · rw [hwrites] at hb
    rcases mem_append.mp hb with hb | hb
    · obtain rfl := mem_singleton.mp hb
      exact LoadPlan.pages_inside hle
    · obtain ⟨ph, hph, hb⟩ := mem_flatMap.mp hb
      exact (Phdr.fits_iff.mp (hfits ph hph)).2 b hb
  · rw [hreads] at hb
    rcases mem_append.mp hb with hb | hb
    · exact headerReads_inside hsize hphdrs b hb
    · obtain ⟨ph, hph, rfl⟩ := mem_map.mp hb
      exact (Phdr.fits_iff.mp (hfits ph hph)).1
  · intro hsuccess before ph after hphdrs hload _ hapart
    rw [loadElfKernel_eq h, hphdrs] at hsuccess ⊢
    exact loadSegments_held hsuccess hload hapart

def Phdr.encode (ph : Phdr) : List UInt8 :=
  leBytes 4 ph.type ++ leBytes 4 0 ++ leBytes 8 ph.offset.toNat ++ leBytes 8 0 ++
    leBytes 8 ph.paddr.toNat ++ leBytes 8 ph.filesz.toNat ++ leBytes 8 ph.memsz.toNat ++ leBytes 8 0

/-- An ELF file that consists of its headers. -/
def kernelOf (phdrs : List Phdr) : KernelFile where
  bytes := Mem.ofList ([127, 69, 76, 70, 2] ++ leBytes 13 0 ++ leBytes 2 62 ++ leBytes 4 0 ++
    leBytes 8 0 ++ leBytes 8 64 ++ leBytes 14 0 ++ leBytes 2 56 ++ leBytes 2 phdrs.length ++
    leBytes 6 0 ++ phdrs.flatMap Phdr.encode)
  size := .ofNat (64 + 56 * phdrs.length)

/-- A segment with the ELF header and 16 zeros at 1 MiB, and one with the start of the program headers
in the next page. -/
def twoSegments : KernelFile := kernelOf [⟨1, 0, 0x100000, 64, 80⟩, ⟨1, 64, 0x101000, 16, 16⟩]

theorem staysInside_twoSegments : StaysInside twoSegments ⟨0, 0x100000, 0x101010⟩ fun _ => 0 :=
  (staysInside_iff (by decide +kernel) fun _ => 0).mpr (by decide +kernel)

/-- A segment of 16 zeros at 1 MiB, and one byte of the file for address 0 whose size in memory is
0. -/
def strayKernel : KernelFile := kernelOf [⟨1, 0, 0x100000, 0, 16⟩, ⟨1, 0, 0, 1, 0⟩]

def strayPlan : LoadPlan := ⟨0, 0x100000, 0x100010⟩

lemma plan_strayKernel : planElfKernelFromFile strayKernel = .ok strayPlan := by decide +kernel

/-- The loader writes to address 0, which the plan has not reserved. -/
theorem stray_segment_is_copied : planElfKernelFromFile strayKernel = .ok strayPlan ∧
    ∀ mem, ⟨0, 1⟩ ∈ (loadElfKernel strayKernel strayPlan mem).2.writes ∧
      ¬ StaysInside strayKernel strayPlan mem := by
  refine ⟨plan_strayKernel, fun mem => ?_⟩
  have hmem : (⟨0, 1⟩ : Block) ∈ (loadElfKernel strayKernel strayPlan mem).2.writes := by
    obtain ⟨copied, hcopied, -, hwrites⟩ := loadSegments_copied strayKernel
      strayKernel.phdrs (Run.memset ⟨mem, strayKernel.headerReads, []⟩ strayPlan.pages 0)
    rw [loadElfKernel_eq plan_strayKernel, hwrites, hcopied]
    refine mem_append_right _ ?_
    decide +kernel
  refine ⟨hmem, fun hstays => ?_⟩
  have hlo := (hstays.writes _ hmem 0 (by decide)).1
  exact absurd hlo (by decide)

end Boot
