import LainOS.Kmem.Pages
import LainOS.Lib.Runs

/-!
# Runs of the page allocator

Beside the allocator a run keeps the allocations that were handed out and not given back. As long as
no range that ends at `2^64` is joined to another one, every call keeps the free ranges and the live
allocations disjoint and the page count right. Such a join loses pages (`pages_consistent_iff`).
-/

namespace Kmem

open List

/-- `live` is what the callers hold: an address and a number of pages each. -/
structure PageMachine where
  pages : Pages
  live : List PageRange
deriving DecidableEq

inductive PageCall
  | alloc (pageCount : UInt32)
  | free (addr : UInt64) (pageCount : UInt32)

namespace PageMachine

def step (m : PageMachine) : PageCall → PageMachine
  | .alloc n =>
    let r := pageAlloc m.pages n
    ⟨r.2, if r.1 = 0 then m.live else ⟨r.1, n.toUInt64⟩ :: m.live⟩
  | .free addr n => ⟨pageFree m.pages addr n, m.live.erase ⟨addr, n.toUInt64⟩⟩

/-- A free gives back a live allocation. -/
def Legal (m : PageMachine) : PageCall → Prop
  | .alloc _ => True
  | .free addr n => ⟨addr, n.toUInt64⟩ ∈ m.live

instance (m : PageMachine) (call : PageCall) : Decidable (m.Legal call) :=
  match call with
  | .alloc _ => inferInstanceAs (Decidable True)
  | .free addr n => inferInstanceAs (Decidable (PageRange.mk addr n.toUInt64 ∈ m.live))

structure Consistent (m : PageMachine) : Prop where
  nonempty : ∀ r ∈ m.pages.freeRanges, 0 < r.pages.toNat
  disjoint : (spans m.pages.freeRanges).Pairwise Span.Apart
  count : m.pages.freePageCount.toNat = pageTotal m.pages.freeRanges
  liveDisjoint : (spans m.live).Pairwise Span.Apart
  liveFree : ∀ a ∈ m.live, ∀ r ∈ m.pages.freeRanges, Span.Apart a.span r.span

/-- After a free that found room in the table, the table is sorted and no two ranges touch. -/
def SortedAfter (m : PageMachine) : PageCall → Prop
  | .alloc _ => True
  | .free addr n => m.pages.freeRanges.length < maxRanges →
      Span.Separated (spans (m.step (.free addr n)).pages.freeRanges)

/-- The call frees pages so that a range that ends at `2^64` touches another one. -/
def MeetsTop (m : PageMachine) : PageCall → Prop
  | .alloc _ => False
  | .free addr n => m.pages.freeRanges.length < maxRanges ∧
      MeetsAtTop (m.pages.freeRanges ++ [⟨addr, n.toUInt64⟩])

structure Invariant (m : PageMachine) : Prop where
  free : DisjointRuns m.pages.freeRanges
  live : DisjointRuns m.live
  nonzero : ∀ a ∈ m.live, a.start ≠ 0
  liveFree : ∀ a ∈ m.live, ∀ r ∈ m.pages.freeRanges, Span.Apart a.span r.span
  count : m.pages.freePageCount.toNat = pageTotal m.pages.freeRanges

lemma Invariant.consistent {m : PageMachine} (h : m.Invariant) : m.Consistent where
  nonempty r hr := Nat.pos_of_mul_pos_right (h.free.runs r hr).nonempty
  disjoint := h.free.apart
  count := h.count
  liveDisjoint := h.live.apart
  liveFree := h.liveFree

variable {m : PageMachine} (h : m.Invariant)
include h

/-! ### Allocating -/

lemma Invariant.failed {failures : UInt64} :
    Invariant ⟨{ m.pages with allocationFailures := failures }, m.live⟩ :=
  ⟨h.free, h.live, h.nonzero, h.liveFree, h.count⟩

/-- Pages taken out of the table become live, unless they start at address 0. -/
lemma Invariant.taken {n : UInt64} {addr failures : UInt64} {ranges : List PageRange}
    (htaken : Taken m.pages.freeRanges ⟨addr, n⟩ ranges) :
    Invariant ⟨⟨ranges, m.pages.freePageCount - n, failures⟩,
      if addr = 0 then m.live else ⟨addr, n⟩ :: m.live⟩ := by
  obtain ⟨hdisjoint, hnew⟩ := htaken.disjoint h.free.apart
  have hlive : ∀ a ∈ m.live, Span.Apart a.span (PageRange.mk addr n).span ∧
      ∀ r ∈ ranges, Span.Apart a.span r.span :=
    fun a ha => htaken.apart a.span (h.liveFree a ha)
  have hcount : (m.pages.freePageCount - n).toNat = pageTotal ranges := by
    have htotal : pageTotal ranges + n.toNat = pageTotal m.pages.freeRanges := htaken.total
    rw [← h.count] at htotal
    rw [UInt64.toNat_sub_of_le _ _ (UInt64.le_iff_toNat_le.mpr (by omega))]
    omega
  split_ifs with hzero
  · exact ⟨⟨htaken.runs, hdisjoint⟩, h.live, h.nonzero, fun a ha => (hlive a ha).2, hcount⟩
  · exact ⟨⟨htaken.runs, hdisjoint⟩,
      h.live.cons htaken.run fun a ha => (hlive a ha).1.symm,
      forall_mem_cons.mpr ⟨hzero, h.nonzero⟩,
      forall_mem_cons.mpr ⟨hnew, fun a ha => (hlive a ha).2⟩, hcount⟩

omit h in
/-- An allocation fails, or takes pages out of the table. -/
lemma alloc_cases (hruns : ∀ r ∈ m.pages.freeRanges, PageRun r.span) (n : UInt32) :
    (∃ failures, m.step (.alloc n) = ⟨{ m.pages with allocationFailures := failures }, m.live⟩) ∨
    ∃ addr ranges failures, Taken m.pages.freeRanges ⟨addr, n.toUInt64⟩ ranges ∧
      m.step (.alloc n) = ⟨⟨ranges, m.pages.freePageCount - n.toUInt64, failures⟩,
        if addr = 0 then m.live else ⟨addr, n.toUInt64⟩ :: m.live⟩ := by
  rw [step, pageAlloc]
  by_cases hn : n = 0
  · rw [if_pos hn]
    exact .inl ⟨_, rfl⟩
  rw [if_neg hn]
  rcases htake : takePages n.toUInt64 m.pages.freeRanges with _ | q
  · exact .inl ⟨_, rfl⟩
  have hpos : 0 < n.toUInt64.toNat := by
    rw [UInt32.toNat_toUInt64]
    exact Nat.pos_of_ne_zero fun hzero => hn (UInt32.toNat_inj.mp hzero)
  exact .inr ⟨q.1, q.2, _, takePages_taken hpos _ hruns htake, rfl⟩

lemma Invariant.alloc (n : UInt32) : (m.step (.alloc n)).Invariant := by
  rcases alloc_cases h.free.runs n with ⟨failures, heq⟩ | ⟨addr, ranges, failures, htaken, heq⟩
  · rw [heq]
    exact h.failed
  · rw [heq]
    exact h.taken htaken

/-! ### Freeing -/

section

variable {addr : UInt64} {n : UInt32} (hlegal : m.Legal (.free addr n))
include hlegal

lemma Invariant.pageFree_eq : pageFree m.pages addr n =
    if m.pages.freeRanges.length < maxRanges then
      { m.pages with
        freeRanges := coalesceRanges (m.pages.freeRanges ++ [⟨addr, n.toUInt64⟩])
        freePageCount := m.pages.freePageCount + n.toUInt64 }
    else m.pages := by
  have hrun := h.live.runs _ hlegal
  rw [pageFree, if_neg]
  simp only [not_or, not_not]
  refine ⟨h.nonzero _ hlegal, ?_, ?_⟩
  · rintro rfl
    exact absurd hrun.nonempty (by simp [PageRange.span])
  · have haligned : addr.toNat % 4096 = 0 := Nat.mod_eq_zero_of_dvd hrun.aligned
    rw [← UInt64.toNat_inj, UInt64.toNat_and]
    exact (Nat.and_two_pow_sub_one_eq_mod addr.toNat 12).trans haligned

/-- The freed pages do not overlap the table. -/
lemma Invariant.appended : DisjointRuns (m.pages.freeRanges ++ [⟨addr, n.toUInt64⟩]) :=
  (h.free.cons (h.live.runs _ hlegal) (h.liveFree _ hlegal)).perm (perm_append_singleton _ _).symm

lemma Invariant.count_appended : (m.pages.freePageCount + n.toUInt64).toNat =
    pageTotal (m.pages.freeRanges ++ [⟨addr, n.toUInt64⟩]) := by
  have hle := (h.appended hlegal).pageTotal_le
  have htotal : pageTotal (m.pages.freeRanges ++ [⟨addr, n.toUInt64⟩]) =
      m.pages.freePageCount.toNat + n.toUInt64.toNat := by
    rw [h.count]
    simp [pageTotal]
  rw [htotal] at hle ⊢
  rw [UInt64.toNat_add]
  exact Nat.mod_eq_of_lt (by omega)

lemma Invariant.erased : DisjointRuns (m.live.erase ⟨addr, n.toUInt64⟩) ∧
    ∀ a ∈ m.live.erase ⟨addr, n.toUInt64⟩,
      a ∈ m.live ∧ Span.Apart a.span (PageRange.mk addr n.toUInt64).span := by
  have hperm := h.live.perm (perm_cons_erase hlegal)
  refine ⟨⟨fun a ha => hperm.runs a (mem_cons_of_mem _ ha),
    (pairwise_cons.mp hperm.apart).2⟩, fun a ha => ⟨mem_of_mem_erase ha, ?_⟩⟩
  exact ((pairwise_cons.mp hperm.apart).1 _ (mem_map_of_mem ha)).symm

lemma Invariant.free_step (htop : ¬ m.MeetsTop (.free addr n)) :
    (m.step (.free addr n)).Invariant ∧ m.SortedAfter (.free addr n) := by
  obtain ⟨herased, hmem⟩ := h.erased hlegal
  simp only [SortedAfter, step, h.pageFree_eq hlegal]
  split_ifs with hroom
  · have hcoalesced := coalesce_coalesced (h.appended hlegal) fun hmeet => htop ⟨hroom, hmeet⟩
    refine ⟨⟨hcoalesced.disjointRuns, herased, fun a ha => h.nonzero a (hmem a ha).1,
      fun a ha => ?_, ?_⟩, fun _ => hcoalesced.separated⟩
    · refine hcoalesced.apart a.span (herased.runs a ha).nonempty fun r hr => ?_
      rcases mem_append.mp hr with hr | hr
      · exact h.liveFree a (hmem a ha).1 r hr
      · rw [mem_singleton.mp hr]
        exact (hmem a ha).2
    · exact (h.count_appended hlegal).trans hcoalesced.total.symm
  · exact ⟨⟨h.free, herased, fun a ha => h.nonzero a (hmem a ha).1,
      fun a ha => h.liveFree a (hmem a ha).1, h.count⟩, fun hlt => absurd hlt hroom⟩

/-- The page count grows by the freed pages, the table by fewer. -/
lemma Invariant.not_consistent_of_meetsTop (htop : m.MeetsTop (.free addr n)) :
    ¬ (m.step (.free addr n)).Consistent := by
  obtain ⟨hroom, hmeet⟩ := htop
  intro hconsistent
  have hcount := hconsistent.count
  simp only [step, h.pageFree_eq hlegal, if_pos hroom, h.count_appended hlegal] at hcount
  have := pageTotal_coalesce_lt (h.appended hlegal) hmeet
  omega

end

/-! ### Runs -/

omit h in
/-- For every table and every sequence of calls that free what is live: the allocator is consistent
after every call exactly when no call frees pages so that a range ending at `2^64` touches another
one. -/
theorem pages_consistent_iff (pages : Pages) (hfree : DisjointRuns pages.freeRanges)
    (hcount : pages.freePageCount.toNat = pageTotal pages.freeRanges) (calls : List PageCall)
    (hlegal : Run.Always step Legal ⟨pages, []⟩ calls) :
    Consistent ⟨pages, []⟩ ∧
    (Run.Always step (fun m call => (m.step call).Consistent ∧ m.SortedAfter call) ⟨pages, []⟩ calls ↔
      Run.Always step (fun m call => ¬ m.MeetsTop call) ⟨pages, []⟩ calls) := by
  have hinv : Invariant ⟨pages, []⟩ :=
    ⟨hfree, ⟨by simp, .nil⟩, by simp, by simp, hcount⟩
  refine ⟨hinv.consistent, Run.always_iff (fun m call hm hl => ?_) (fun m call hm hl hc => ?_) hinv
    hlegal⟩
  · cases call with
    | alloc n => exact ⟨fun _ => not_false, fun _ => ⟨(hm.alloc n).consistent, trivial⟩⟩
    | free addr n =>
      refine ⟨fun hc htop => hm.not_consistent_of_meetsTop hl htop hc.1, fun htop => ?_⟩
      obtain ⟨hstep, hsorted⟩ := hm.free_step hl htop
      exact ⟨hstep.consistent, hsorted⟩
  · cases call with
    | alloc n => exact hm.alloc n
    | free addr n => exact (hm.free_step hl hc).1

omit h in
/-- One range of four pages: two allocations, of which the first is given back. -/
theorem pages_consistent_of_four :
    Run.Always step (fun m call => (m.step call).Consistent ∧ m.SortedAfter call)
      ⟨⟨[⟨0x100000, 4⟩], 4, 0⟩, []⟩ [.alloc 1, .alloc 2, .free 0x100000 1] := by
  refine (pages_consistent_iff ⟨[⟨0x100000, 4⟩], 4, 0⟩ ⟨?_, pairwise_singleton _ _⟩ rfl _
    (by decide)).2.mpr ⟨not_false, not_false, ?_, trivial⟩
  · simp only [mem_singleton, forall_eq]
    exact ⟨by decide, by decide, by decide, by decide⟩
  · simp only [MeetsTop, MeetsAtTop]
    decide

omit h in
/-- Two free pages at the top of the address space: the first one is allocated and given back, and
the second one is lost. -/
theorem free_at_top_loses_page :
    DisjointRuns [⟨0xFFFFFFFFFFFFE000, 2⟩] ∧
    Run.Always step Legal ⟨⟨[⟨0xFFFFFFFFFFFFE000, 2⟩], 2, 0⟩, []⟩
      [.alloc 1, .free 0xFFFFFFFFFFFFE000 1] ∧
    ¬ Run.Always step (fun m call => (m.step call).Consistent ∧ m.SortedAfter call)
      ⟨⟨[⟨0xFFFFFFFFFFFFE000, 2⟩], 2, 0⟩, []⟩ [.alloc 1, .free 0xFFFFFFFFFFFFE000 1] := by
  have hrun : PageRun (PageRange.mk 0xFFFFFFFFFFFFE000 2).span :=
    ⟨by decide, by decide, by decide, by decide⟩
  refine ⟨⟨by simpa using hrun, pairwise_singleton _ _⟩, by decide, ?_⟩
  rintro ⟨-, ⟨hconsistent, -⟩, -⟩
  exact absurd hconsistent.count (by decide)

end PageMachine

end Kmem
