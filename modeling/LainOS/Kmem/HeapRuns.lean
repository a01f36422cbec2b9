import LainOS.Kmem.HeapSteps
import LainOS.Kmem.PageRuns

/-!
# Runs of the kernel heap

A run is a sequence of `kmalloc` and `kfree` calls and of writes by the callers. Beside the heap it
keeps the live blocks, the pointers freed since the last allocation and whether a call did not
return. Over any page allocator that hands out disjoint runs the heap stays sound
(`heap_runs_sound`). The page allocator of the kernel is one (`pages_handsOut`).
-/

namespace Kmem

open Mem List Function LiveBlock Span

/-! ### The page allocator of the kernel -/

def pagesAllocator : PageAllocator Pages where
  pageAlloc m n := ((pageAlloc m n).1.toNat, (pageAlloc m n).2)
  pageFree m addr n := pageFree m (UInt64.ofNat addr) n

/-- The last byte of the address space. -/
def lastByte : Span := ⟨2 ^ 64 - 1, 1⟩

/-- The runs are the live allocations of the page allocator, and no range reaches the last byte. -/
def PagesOwn (m : Pages) (runs : List Span) : Prop :=
  ∃ live, PageMachine.Invariant ⟨m, live⟩ ∧ spans live = runs ∧
    (∀ r ∈ m.freeRanges, Span.Apart lastByte r.span) ∧ ∀ a ∈ live, Span.Apart lastByte a.span

lemma not_meetsAtTop {ranges : List PageRange} (hruns : ∀ r ∈ ranges, PageRun r.span)
    (hlast : ∀ r ∈ ranges, Span.Apart lastByte r.span) : ¬ MeetsAtTop ranges := by
  rintro ⟨-, -, b, hb, -, htop⟩
  have hapart := hlast b hb
  have hpos := (hruns b hb).nonempty
  simp only [Span.Apart, lastByte, stop] at hapart htop
  omega

lemma PageRange.span_injective : Function.Injective PageRange.span := by
  intro r q h
  have hstart : r.start.toNat = q.start.toNat := congrArg Span.start h
  have hlen : r.pages.toNat * 4096 = q.pages.toNat * 4096 := congrArg Span.len h
  obtain ⟨start, pages⟩ := r
  obtain ⟨start', pages'⟩ := q
  exact PageRange.mk.injEq .. ▸ ⟨UInt64.toNat_inj.mp hstart, UInt64.toNat_inj.mp (by simp at hlen; omega)⟩

/-- Taking pages leaves everything else apart from them. -/
lemma pageAlloc_apart {m : Pages} (hruns : ∀ r ∈ m.freeRanges, PageRun r.span) (n : UInt32) {c : Span}
    (hc : ∀ r ∈ m.freeRanges, Span.Apart c r.span) :
    (∀ r ∈ (pageAlloc m n).2.freeRanges, Span.Apart c r.span) ∧
      ((pageAlloc m n).1 ≠ 0 → Span.Apart c (PageRange.mk (pageAlloc m n).1 n.toUInt64).span) := by
  rw [pageAlloc]
  by_cases hn : n = 0
  · rw [if_pos hn]
    exact ⟨hc, fun hne => absurd rfl hne⟩
  rw [if_neg hn]
  rcases htake : takePages n.toUInt64 m.freeRanges with _ | q
  · exact ⟨hc, fun hne => absurd rfl hne⟩
  have hpos : 0 < n.toUInt64.toNat := by
    rw [UInt32.toNat_toUInt64]
    exact Nat.pos_of_ne_zero fun hzero => hn (UInt32.toNat_inj.mp hzero)
  obtain ⟨hpages, hrest⟩ := (takePages_taken hpos _ hruns htake).apart c hc
  exact ⟨hrest, fun _ => hpages⟩

theorem pages_handsOut : pagesAllocator.HandsOut PagesOwn where
  alloc m runs n := by
    rintro ⟨live, hinv, rfl, hfree, hlive⟩
    have hstep := hinv.alloc n
    obtain ⟨hfree', hpages⟩ := pageAlloc_apart hinv.free.runs n hfree
    simp only [PageMachine.step] at hstep
    by_cases hzero : (pageAlloc m n).1 = 0
    · rw [if_pos hzero] at hstep
      exact .inl ⟨by simp [pagesAllocator, hzero], live, hstep, rfl, hfree', hlive⟩
    rw [if_neg hzero] at hstep
    have hspan : (PageRange.mk (pageAlloc m n).1 n.toUInt64).span =
        ⟨(pageAlloc m n).1.toNat, n.toNat * 4096⟩ := by
      rw [PageRange.span, UInt32.toNat_toUInt64]
    have hrun := hstep.live.runs _ (mem_cons_self ..)
    have hapart := (pairwise_cons.mp hstep.live.apart).1
    rw [hspan] at hrun hapart
    refine .inr ⟨fun h => hzero (UInt64.toNat_inj.mp h), hrun, hapart, _, hstep, ?_, hfree',
      forall_mem_cons.mpr ⟨hpages hzero, hlive⟩⟩
    rw [spans, map_cons, hspan]
    rfl
  free m runs addr n := by
    rintro ⟨live, hinv, rfl, hfree, hlive⟩ hmem
    obtain ⟨a, ha, hspan⟩ := mem_map.mp hmem
    have haddr : UInt64.ofNat addr = a.start := by
      rw [show addr = a.start.toNat from congrArg start hspan.symm, UInt64.ofNat_toNat]
    obtain rfl : a = ⟨UInt64.ofNat addr, n.toUInt64⟩ := by
      refine PageRange.span_injective (hspan.trans ?_)
      rw [PageRange.span, haddr, UInt32.toNat_toUInt64]
      exact congrArg (Span.mk · _) (congrArg start hspan.symm)
    have hlast : ∀ r ∈ m.freeRanges ++ [⟨UInt64.ofNat addr, n.toUInt64⟩],
        Span.Apart lastByte r.span :=
      forall_mem_append.mpr ⟨hfree, by simpa using hlive _ ha⟩
    have hmeet := not_meetsAtTop (hinv.appended ha).runs hlast
    obtain ⟨hstep, -⟩ := hinv.free_step ha fun htop => hmeet htop.2
    refine ⟨_, hstep, ?_, ?_, fun b hb => hlive b (mem_of_mem_erase hb)⟩
    · rw [spans, map_erase PageRange.span_injective, hspan]
      rfl
    rw [show pagesAllocator.pageFree m addr n = pageFree m (UInt64.ofNat addr) n from rfl,
      hinv.pageFree_eq ha]
    split_ifs
    · exact (coalesce_coalesced (hinv.appended ha) hmeet).apart lastByte (by decide) hlast
    · exact hfree

/-! ### Machine -/

variable {σ : Type*}

structure HeapMachine (σ : Type*) where
  heap : Heap σ
  live : List LiveBlock
  freed : List ℕ
  hung : Bool

inductive HeapCall
  | kmalloc (size : UInt32)
  | kfree (ptr : ℕ)
  | write (addr : ℕ) (value : UInt8)

namespace HeapMachine

def step (A : PageAllocator σ) (m : HeapMachine σ) : HeapCall → HeapMachine σ
  | .kmalloc size =>
    let r := Kmem.kmalloc A m.heap size
    if r.1 = 0 then { m with heap := r.2 }
    else ⟨r.2, ⟨r.1, size⟩ :: m.live, [], m.hung⟩
  | .kfree ptr =>
    match Kmem.kfree A m.heap ptr with
    | none => { m with hung := true }
    | some heap =>
      match m.live.find? fun l => l.ptr = ptr with
      | some l => ⟨heap, m.live.erase l, ptr :: m.freed, m.hung⟩
      | none => { m with heap := heap }
  | .write addr value => { m with heap := { m.heap with mem := update m.heap.mem addr value } }

/-- Callers free what is live, or again what they freed since the last allocation, and write into
live payloads only. -/
def Legal (m : HeapMachine σ) : HeapCall → Prop
  | .kmalloc _ => True
  | .kfree ptr => (∃ l ∈ m.live, l.ptr = ptr) ∨ ptr ∈ m.freed
  | .write addr _ => ∃ l ∈ m.live, l.ptr ≤ addr ∧ addr < l.ptr + l.size.toNat

structure Sound (Owns : σ → List Span → Prop) (m : HeapMachine σ) : Prop where
  returned : m.hung = false
  disjoint : (m.live.map region).Pairwise Span.Apart
  inside : ∀ l ∈ m.live, Span.Inside l.region l.block
  carved : ∃ runs, Owns m.heap.pages runs ∧ ∀ l ∈ m.live, ∃ r ∈ runs, Span.Inside l.block r
  freeLists : ∀ c, ∃ nodes, Chain m.heap.mem (m.heap.smallFree c) nodes ∧ nodes.Nodup ∧
    ∀ a ∈ nodes, ∀ l ∈ m.live, Span.Apart (freeSpan c a) l.block
  used : m.heap.heapUsedBytes.toNat = (m.live.map fun l => chargedBytes l.size).sum
  count : m.heap.liveAllocations.toNat = m.live.length

/-- A second free changes neither the free lists nor the accounting. -/
def SecondFree (A : PageAllocator σ) (m : HeapMachine σ) : HeapCall → Prop
  | .kfree ptr => ptr ∈ m.freed → SameBlocks m.heap (m.step A (.kfree ptr)).heap ∧
      (m.step A (.kfree ptr)).live = m.live
  | _ => True

structure Invariant (Owns : σ → List Span → Prop) (m : HeapMachine σ) : Prop where
  good : Good Owns m.heap m.live m.freed
  returned : m.hung = false

variable {A : PageAllocator σ} {Owns : σ → List Span → Prop} {m : HeapMachine σ}

lemma region_inside {mem : Mem} {l : LiveBlock} (h : HeaderAt mem l) :
    Span.Inside l.region l.block := by
  obtain ⟨hptr, hfits, -⟩ := h
  constructor <;> simp only [region, block, stop] <;> omega

lemma Invariant.sound (h : m.Invariant Owns) : m.Sound Owns := by
  obtain ⟨runs, free, hlayout⟩ := h.good.layout
  have hinside := fun l hl => region_inside (hlayout.header l hl)
  refine ⟨h.returned, ?_, hinside, ⟨runs, hlayout.owns, fun l hl => hlayout.inside _ (block_mem hl)⟩,
    fun c => ⟨free c, hlayout.chain c, ?_, fun a ha l hl => ?_⟩, h.good.accounts.used,
    h.good.accounts.count⟩
  · refine pairwise_map.mpr ?_
    refine (pairwise_map.mp (pairwise_append.mp hlayout.apart).1).imp_of_mem ?_
    exact fun hl hl' hapart => hapart.of_inside (hinside _ hl) (hinside _ hl')
  · refine (pairwise_map.mp (hlayout.freeSpans_apart c)).imp fun hapart heq => ?_
    have := (smallClass_spec c).1
    subst heq
    simp only [Span.Apart, freeSpan, stop] at hapart
    omega
  · exact (hlayout.apart_rest hl _ (freeSpan_mem ha)).symm

/-- A freed pointer is not live. -/
lemma Invariant.freed_not_live (h : m.Invariant Owns) {p : ℕ} (hp : p ∈ m.freed) :
    ∀ l ∈ m.live, l.ptr ≠ p := by
  rintro l hl rfl
  obtain ⟨runs, free, hlayout⟩ := h.good.layout
  have hpos := hlayout.charged_pos hl
  rcases hlayout.again l.ptr hp with ⟨c, hc⟩ | ⟨-, hapart⟩
  · have hapart := hlayout.apart_rest hl _ (freeSpan_mem hc)
    have := (smallClass_spec c).1
    simp only [Span.Apart, freeSpan, block, stop] at hapart hpos
    omega
  · have hapart := hapart _ (block_mem hl)
    simp only [Span.Apart, block, stop] at hapart hpos
    omega

/-! ### Steps -/

section

variable (h : m.Invariant Owns)
include h

lemma Invariant.kmalloc (hA : A.HandsOut Owns) (size : UInt32) :
    (m.step A (.kmalloc size)).Invariant Owns := by
  rw [step]
  rcases kmalloc_answered hA h.good size with ⟨hzero, hgood⟩ | ⟨hne, hgood⟩
  · rw [if_pos hzero]
    exact ⟨hgood, h.returned⟩
  · rw [if_neg hne]
    exact ⟨hgood, h.returned⟩

lemma Invariant.kfree_live (hA : A.HandsOut Owns) {l : LiveBlock} (hl : l ∈ m.live) :
    (m.step A (.kfree l.ptr)).Invariant Owns := by
  -- blocks are apart, so the pointer finds the block itself or one with the same header
  obtain ⟨l', hfind⟩ : ∃ l', m.live.find? (fun l' => l'.ptr = l.ptr) = some l' :=
    Option.isSome_iff_exists.mp (find?_isSome.mpr ⟨l, hl, by simp⟩)
  have hl' := mem_of_find?_eq_some hfind
  have hptr : l'.ptr = l.ptr := by simpa using find?_some hfind
  obtain ⟨heap, heq, hgood⟩ := Kmem.kfree_live hA h.good hl'
  rw [hptr] at heq hgood
  rw [step, heq]
  rw [hfind]
  exact ⟨hgood, h.returned⟩

lemma Invariant.kfree_again {p : ℕ} (hp : p ∈ m.freed) :
    (m.step A (.kfree p)).Invariant Owns ∧ m.SecondFree A (.kfree p) := by
  obtain ⟨heap, heq, hsame⟩ := Kmem.kfree_again (A := A) h.good hp
  have hfind : m.live.find? (fun l => l.ptr = p) = none := by simpa using h.freed_not_live hp
  have hstep : m.step A (.kfree p) = { m with heap := heap } := by
    rw [step, heq]
    rw [hfind]
  rw [SecondFree, hstep]
  exact ⟨⟨hsame.good h.good, h.returned⟩, fun _ => ⟨hsame, rfl⟩⟩

lemma Invariant.write {addr : ℕ} {value : UInt8} (hlegal : m.Legal (.write addr value)) :
    (m.step A (.write addr value)).Invariant Owns := by
  obtain ⟨l, hl, haddr, hlt⟩ := hlegal
  obtain ⟨runs, free, hlayout⟩ := h.good.layout
  have hheader := hlayout.header l hl
  have hchanged : Changed ⟨addr, 1⟩ m.heap.mem (update m.heap.mem addr value) := by
    intro x hx
    refine update_of_ne (fun heq => hx ?_) _ _
    subst heq
    exact ⟨le_refl _, Nat.lt_succ_self _⟩
  have hin : Span.Inside ⟨addr, 1⟩ l.block := by
    have hfits := hheader.fits
    have := hheader.header
    constructor <;> simp only [block, stop] <;> omega
  have hlayout' := hlayout.of_changed hchanged
    (fun c x hx => ((hlayout.apart_rest hl _ (freeSpan_mem hx)).symm.of_inside (node_inside c x) hin))
    (fun l' hl' => ?_)
    (fun p hp => (hlayout.live_marks hl p hp).imp_right fun hmark =>
      hmark.of_inside (.refl _) hin)
  · exact ⟨⟨⟨runs, free, hlayout'⟩, ⟨h.good.accounts.used, h.good.accounts.count⟩⟩, h.returned⟩
  by_cases heq : l' = l
  · subst heq
    have := hheader.header
    refine .inl ?_
    simp only [stop]
    omega
  · have hmem : l' ∈ m.live.erase l := (mem_erase_of_ne heq).mpr hl'
    exact (hlayout.apart_rest hl _ (block_mem hmem)).symm.of_inside (hlayout.header_inside hl') hin

end

/-- An empty heap, as `kmem_init` leaves it. -/
structure Fresh (Owns : σ → List Span → Prop) (st : Heap σ) : Prop where
  pages : Owns st.pages []
  smallFree : ∀ c, st.smallFree c = 0
  used : st.heapUsedBytes = 0
  count : st.liveAllocations = 0

lemma Fresh.invariant {st : Heap σ} (h : Fresh Owns st) : Invariant Owns ⟨st, [], [], false⟩ := by
  refine ⟨⟨⟨[], fun _ => [], ?_⟩, ?_⟩, rfl⟩
  · have hblocks : blocks [] (fun _ => []) = [] := by simp [blocks]
    exact ⟨h.pages, by simp, h.smallFree, by simp, by simp, hblocks ▸ List.Pairwise.nil,
      by simp [hblocks], by simp, by simp, by simp⟩
  · exact ⟨by rw [h.used]; rfl, by rw [h.count]; rfl⟩

/-- For every page allocator that hands out disjoint runs and every legal sequence of calls, the heap
is sound after every call, and second frees change nothing. -/
theorem heap_runs_sound (A : PageAllocator σ) (Owns : σ → List Span → Prop) (hA : A.HandsOut Owns)
    (st : Heap σ) (hfresh : Fresh Owns st) (calls : List HeapCall)
    (hlegal : Run.Always (step A) Legal ⟨st, [], [], false⟩ calls) :
    Sound Owns ⟨st, [], [], false⟩ ∧
    Run.Always (step A) (fun m call => (m.step A call).Sound Owns ∧ m.SecondFree A call)
      ⟨st, [], [], false⟩ calls := by
  refine ⟨hfresh.invariant.sound, Run.always_of_invariant (fun m call hm hl => ?_) hfresh.invariant
    hlegal⟩
  cases call with
  | kmalloc size => exact ⟨hm.kmalloc hA size, (hm.kmalloc hA size).sound, trivial⟩
  | kfree ptr =>
    by_cases hfreed : ptr ∈ m.freed
    · obtain ⟨hinv, hsecond⟩ := hm.kfree_again hfreed
      exact ⟨hinv, hinv.sound, hsecond⟩
    · obtain ⟨l, hmem, rfl⟩ := hl.resolve_right hfreed
      have hinv := hm.kfree_live hA hmem
      exact ⟨hinv, hinv.sound, fun h => absurd h hfreed⟩
  | write addr value => exact ⟨hm.write hl, (hm.write hl).sound, trivial⟩

/-- The empty heap over a page table. -/
def emptyHeap (pages : Pages) : Heap Pages :=
  ⟨fun _ => 0, pages, fun _ => 0, 0, 0, 0, 0, 0, 0, 0, 0, 0⟩

/-- Two blocks of one size class over the page allocator of the kernel: the first one is written, freed
and freed again, and its place is given to a third one. -/
theorem heap_runs_sound_two_blocks :
    Run.Always (step pagesAllocator)
      (fun m call => (m.step pagesAllocator call).Sound PagesOwn ∧ m.SecondFree pagesAllocator call)
      ⟨emptyHeap ⟨[⟨0x100000, 4⟩], 4, 0⟩, [], [], false⟩
      [.kmalloc 100, .kmalloc 90, .write 1052568 7, .kfree 1052568, .kfree 1052568, .kmalloc 80] := by
  have hinv : PageMachine.Invariant ⟨⟨[⟨0x100000, 4⟩], 4, 0⟩, []⟩ :=
    ⟨⟨by simpa using ⟨by decide, by decide, by decide, by decide⟩, pairwise_singleton _ _⟩,
      ⟨by simp, .nil⟩, by simp, by simp, rfl⟩
  have hfresh : Fresh PagesOwn (emptyHeap ⟨[⟨0x100000, 4⟩], 4, 0⟩) :=
    ⟨⟨[], hinv, rfl, by simpa [emptyHeap] using by decide, by simp⟩, fun _ => rfl, rfl, rfl⟩
  refine (heap_runs_sound pagesAllocator PagesOwn pages_handsOut _ hfresh _ ?_).2
  exact ⟨trivial, trivial, ⟨⟨1052568, 100⟩, by decide +kernel, by decide, by decide⟩,
    .inl ⟨⟨1052568, 100⟩, by decide +kernel, rfl⟩, .inr (by decide +kernel), trivial, trivial⟩

end HeapMachine

end Kmem
