import LainOS.Lib.ExchangeSort
import LainOS.Lib.Spans

/-!
# The page allocator

Free memory is a table of at most 128 ranges of pages. `page_alloc` takes pages from the front of
the first range that is large enough. `page_free` appends a range, sorts the table by start
addresses and joins the ranges that touch, all in 64-bit arithmetic. Away from the end of the address
space that is coalescing of spans (`coalesce_span`).
-/

namespace Kmem

open List Span UInt64

variable {r : PageRange} {ranges' ranges : List PageRange}

def pageSize : UInt64 := 4096
def maxRanges : ℕ := 128

structure PageRange where
  start : UInt64
  pages : UInt64
deriving DecidableEq

/-- The variables `page_alloc` and `page_free` use. `allocation_failures` is one counter for pages
and blocks; the model counts the failures of pages here and those of blocks in `Heap`. -/
structure Pages where
  freeRanges : List PageRange
  freePageCount : UInt64
  allocationFailures : UInt64
deriving DecidableEq

def PageRange.endAddr (r : PageRange) : UInt64 := r.start + r.pages * pageSize

/-- The second loop of `coalesce_ranges`, with `r` the range at index `i`. -/
def coalesceFrom (r : PageRange) : List PageRange → List PageRange
  | [] => [r]
  | next :: rest =>
    if r.endAddr ≥ next.start then
      if next.endAddr > r.endAddr then
        coalesceFrom { r with pages := (next.endAddr - r.start) / pageSize } rest
      else coalesceFrom r rest
    else r :: coalesceFrom next rest

def coalesceRanges (ranges : List PageRange) : List PageRange :=
  match ExchangeSort.sort (fun r : PageRange => r.start.toNat) ranges.length ranges with
  | [] => []
  | r :: rest => coalesceFrom r rest

/-- The search loop of `page_alloc`: the address taken and the table without the pages. -/
def takePages (n : UInt64) : List PageRange → Option (UInt64 × List PageRange)
  | [] => none
  | r :: rest =>
    if r.pages < n then (takePages n rest).map fun q => (q.1, r :: q.2)
    else if r.pages - n = 0 then some (r.start, rest)
    else some (r.start, ⟨r.start + n * pageSize, r.pages - n⟩ :: rest)

/-- The address 0 reports a failure, also where pages were taken from address 0 on. -/
def pageAlloc (m : Pages) (pageCount : UInt32) : UInt64 × Pages :=
  if pageCount = 0 then (0, m)
  else
    match takePages pageCount.toUInt64 m.freeRanges with
    | none => (0, { m with allocationFailures := m.allocationFailures + 1 })
    | some (addr, ranges) =>
      (addr, ⟨ranges, m.freePageCount - pageCount.toUInt64,
        if addr = 0 then m.allocationFailures + 1 else m.allocationFailures⟩)

def pageFree (m : Pages) (addr : UInt64) (pageCount : UInt32) : Pages :=
  if addr = 0 ∨ pageCount = 0 ∨ addr &&& (pageSize - 1) ≠ 0 then m
  else if m.freeRanges.length < maxRanges then
    { m with
      freeRanges := coalesceRanges (m.freeRanges ++ [⟨addr, pageCount.toUInt64⟩])
      freePageCount := m.freePageCount + pageCount.toUInt64 }
  else m

/-! ### Ranges as spans -/

def PageRange.span (r : PageRange) : Span := ⟨r.start.toNat, r.pages.toNat * 4096⟩

def spans (ranges : List PageRange) : List Span := ranges.map PageRange.span

/-- A nonempty run of pages of the address space. -/
structure PageRun (a : Span) : Prop where
  aligned : 4096 ∣ a.start
  whole : 4096 ∣ a.len
  nonempty : 0 < a.len
  below : a.stop ≤ 2 ^ 64

lemma PageRun.join {a b : Span} (htouch : a.stop = b.start) (ha : PageRun a) (hb : PageRun b) :
    PageRun ⟨a.start, b.stop - a.start⟩ := by
  obtain ⟨haligned, hwhole, hnonempty, hbelow⟩ := ha
  obtain ⟨-, hwhole', hnonempty', hbelow'⟩ := hb
  simp only [stop] at htouch hbelow hbelow'
  constructor <;> simp only [stop] <;> omega

lemma PageRange.endAddr_toNat (r : PageRange) : r.endAddr.toNat = r.span.stop % 2 ^ 64 := by
  simp [endAddr, span, stop, pageSize, UInt64.toNat_add, UInt64.toNat_mul]

lemma PageRange.endAddr_toNat_of_lt (h : r.span.stop < 2 ^ 64) : r.endAddr.toNat = r.span.stop := by
  rw [endAddr_toNat, Nat.mod_eq_of_lt h]

/-- A range reaches the end of the address space right behind another one. -/
def MeetsAtTop (ranges : List PageRange) : Prop :=
  ∃ a ∈ ranges, ∃ b ∈ ranges, a.span.stop = b.span.start ∧ b.span.stop = 2 ^ 64

section

variable {next : PageRange} {rest : List PageRange}

lemma coalesce_cons_of_apart (h : r.span.stop < next.span.start) :
    coalesceFrom r (next :: rest) = r :: coalesceFrom next rest := by
  have hlt : r.span.stop < 2 ^ 64 := h.trans next.start.toNat_lt
  rw [coalesceFrom, if_neg]
  rw [ge_iff_le, UInt64.not_le, UInt64.lt_iff_toNat_lt, PageRange.endAddr_toNat_of_lt hlt]
  exact h

lemma endAddr_eq_of_touch (h : r.span.stop = next.span.start) : r.endAddr = next.start := by
  have hlt : r.span.stop < 2 ^ 64 := h ▸ next.start.toNat_lt
  exact UInt64.toNat_inj.mp ((PageRange.endAddr_toNat_of_lt hlt).trans h)

lemma endAddr_ge_of_touch (h : r.span.stop = next.span.start) : r.endAddr ≥ next.start := by
  rw [endAddr_eq_of_touch h]
  exact UInt64.le_refl _

/-- The join of two ranges that touch, if the second one ends inside the address space. -/
lemma coalesce_cons_of_touch (rest : List PageRange) (h : r.span.stop = next.span.start) (hr : PageRun r.span)
    (hnext : PageRun next.span) (htop : next.span.stop ≠ 2 ^ 64) :
    ∃ r', coalesceFrom r (next :: rest) = coalesceFrom r' rest ∧
      r'.span = ⟨r.span.start, next.span.stop - r.span.start⟩ := by
  have hstop : next.endAddr.toNat = next.span.stop :=
    PageRange.endAddr_toNat_of_lt (lt_of_le_of_ne hnext.below htop)
  have hend : r.endAddr.toNat = r.span.stop := by
    rw [endAddr_eq_of_touch h, h]
    rfl
  refine ⟨{ r with pages := (next.endAddr - r.start) / pageSize }, ?_, ?_⟩
  · rw [coalesceFrom, if_pos (endAddr_ge_of_touch h), if_pos]
    rw [gt_iff_lt, lt_iff_toNat_lt, hstop, hend, h]
    exact Nat.lt_add_of_pos_right hnext.nonempty
  have hle : r.start ≤ next.endAddr := by
    rw [le_iff_toNat_le, hstop]
    simp only [stop, PageRange.span] at h ⊢
    omega
  have hdvd : 4096 ∣ next.span.stop - r.span.start := (hr.join h hnext).whole
  have hpages : ((next.endAddr - r.start) / pageSize).toNat * 4096 =
      next.span.stop - r.span.start := by
    rw [UInt64.toNat_div, UInt64.toNat_sub_of_le _ _ hle, hstop]
    exact Nat.div_mul_cancel hdvd
  exact congrArg (Span.mk r.start.toNat) hpages

/-- The end of a range that ends at `2^64` is computed as 0, so the range is dropped. -/
lemma coalesce_cons_of_top (h : r.span.stop = next.span.start) (htop : next.span.stop = 2 ^ 64) :
    coalesceFrom r (next :: rest) = coalesceFrom r rest := by
  have hstop : next.endAddr = 0 := by
    rw [← UInt64.toNat_inj, PageRange.endAddr_toNat, htop]
    rfl
  rw [coalesceFrom, if_pos (endAddr_ge_of_touch h), if_neg]
  rw [hstop, gt_iff_lt, UInt64.not_lt]
  exact UInt64.zero_le

lemma MeetsAtTop.touching (h : Span.Ordered (spans (r :: next :: rest)))
    (htouch : r.span.stop = next.span.start) (hnext : PageRun next.span)
    (htop : next.span.stop ≠ 2 ^ 64) {r' : PageRange}
    (hr' : r'.span = ⟨r.span.start, next.span.stop - r.span.start⟩) :
    MeetsAtTop (r' :: rest) ↔ MeetsAtTop (r :: next :: rest) := by
  have hlater : ∀ b ∈ rest, next.span.stop ≤ b.span.start := fun b hb =>
    (pairwise_cons.mp (pairwise_cons.mp h).2).1 _ (mem_map_of_mem hb)
  have hstop : r'.span.stop = next.span.stop := by
    rw [hr']
    simp only [stop] at htouch ⊢
    omega
  have hnonempty : next.span.start < next.span.stop := Nat.lt_add_of_pos_right hnext.nonempty
  have hbelow := hnext.below
  constructor
  · rintro ⟨a, ha, b, hb, hab, hbtop⟩
    have hmem : b ∈ rest := (mem_cons.mp hb).resolve_left (by rintro rfl; omega)
    rcases mem_cons.mp ha with rfl | ha
    · exact ⟨next, by simp, b, by simp [hmem], hstop.symm.trans hab, hbtop⟩
    · exact ⟨a, by simp [ha], b, by simp [hmem], hab, hbtop⟩
  rintro ⟨a, ha, b, hb, hab, hbtop⟩
  simp only [mem_cons] at ha hb
  have hmem : b ∈ rest := by
    rcases hb with rfl | rfl | hb
    · omega
    · omega
    · exact hb
  have := hlater b hmem
  rcases ha with rfl | rfl | ha
  · omega
  · exact ⟨r', by simp, b, by simp [hmem], hstop.trans hab, hbtop⟩
  · exact ⟨a, by simp [ha], b, by simp [hmem], hab, hbtop⟩

lemma MeetsAtTop.gap (h : Span.Ordered (spans (r :: next :: rest)))
    (hgap : r.span.stop < next.span.start) (hnext : PageRun next.span) :
    MeetsAtTop (next :: rest) ↔ MeetsAtTop (r :: next :: rest) := by
  have hlater : ∀ b ∈ rest, next.span.stop ≤ b.span.start := fun b hb =>
    (pairwise_cons.mp (pairwise_cons.mp h).2).1 _ (mem_map_of_mem hb)
  have hnonempty : next.span.start < next.span.stop := Nat.lt_add_of_pos_right hnext.nonempty
  have hbelow := hnext.below
  constructor
  · rintro ⟨a, ha, b, hb, hab⟩
    exact ⟨a, mem_cons_of_mem _ ha, b, mem_cons_of_mem _ hb, hab⟩
  rintro ⟨a, ha, b, hb, hab, hbtop⟩
  have hb : b ∈ next :: rest := (mem_cons.mp hb).resolve_left (by rintro rfl; omega)
  have hstart : next.span.start ≤ b.span.start := by
    rcases mem_cons.mp hb with rfl | hb
    · exact le_refl _
    · exact hnonempty.le.trans (hlater b hb)
  have ha : a ∈ next :: rest := (mem_cons.mp ha).resolve_left (by rintro rfl; omega)
  exact ⟨a, ha, b, hb, hab, hbtop⟩

/-- Away from the top of the address space the loop coalesces spans. -/
theorem coalesce_span (r : PageRange) (rest : List PageRange)
    (hruns : ∀ q ∈ r :: rest, PageRun q.span) (h : Span.Ordered (spans (r :: rest)))
    (htop : ¬ MeetsAtTop (r :: rest)) :
    spans (coalesceFrom r rest) = Span.coalesceFrom r.span (spans rest) := by
  induction rest generalizing r with
  | nil => rfl
  | cons next rest ih =>
    simp only [forall_mem_cons] at hruns
    obtain ⟨hr, hnext, hrest⟩ := hruns
    have hle : r.span.stop ≤ next.span.start := (pairwise_cons.mp h).1 _ (by simp)
    rw [show spans (next :: rest) = next.span :: spans rest from rfl, Span.coalesceFrom]
    rcases hle.eq_or_lt with htouch | hgap
    · have hne : next.span.stop ≠ 2 ^ 64 := fun heq =>
        htop ⟨r, by simp, next, by simp, htouch, heq⟩
      obtain ⟨r', hstep, hr'⟩ := coalesce_cons_of_touch rest htouch hr hnext hne
      have hordered : Span.Ordered (spans (r' :: rest)) := by
        rw [show spans (r' :: rest) = r'.span :: spans rest from rfl, hr']
        exact .join h
      rw [if_pos htouch.ge, hstep, ih r' ?_ hordered, hr']
      · rwa [MeetsAtTop.touching h htouch hnext hne hr']
      · exact forall_mem_cons.mpr ⟨hr' ▸ hr.join htouch hnext, hrest⟩
    · rw [if_neg hgap.not_ge, coalesce_cons_of_apart hgap]
      have htail := ih next (forall_mem_cons.mpr ⟨hnext, hrest⟩) (pairwise_cons.mp h).2
        (by rwa [MeetsAtTop.gap h hgap hnext])
      exact congrArg (r.span :: ·) htail

/-- At the top of the address space pages get lost. -/
theorem total_coalesce_lt (r : PageRange) (rest : List PageRange)
    (hruns : ∀ q ∈ r :: rest, PageRun q.span) (h : Span.Ordered (spans (r :: rest)))
    (htop : MeetsAtTop (r :: rest)) :
    total (spans (coalesceFrom r rest)) < total (spans (r :: rest)) := by
  induction rest generalizing r with
  | nil =>
    obtain ⟨a, ha, b, hb, hab, -⟩ := htop
    obtain rfl := mem_singleton.mp ha
    obtain rfl := mem_singleton.mp hb
    have := (hruns _ (mem_singleton_self _)).nonempty
    simp only [stop] at hab
    omega
  | cons next rest ih =>
    simp only [forall_mem_cons] at hruns
    obtain ⟨hr, hnext, hrest⟩ := hruns
    have hle : r.span.stop ≤ next.span.start := (pairwise_cons.mp h).1 _ (by simp)
    rcases hle.eq_or_lt with htouch | hgap
    · by_cases heq : next.span.stop = 2 ^ 64
      · -- nothing lies behind a range that ends at the top
        have hnil : rest = [] := by
          refine eq_nil_iff_forall_not_mem.mpr fun b hb => ?_
          have hlater := (pairwise_cons.mp (pairwise_cons.mp h).2).1 _ (mem_map_of_mem hb)
          have := b.start.toNat_lt
          exact absurd (heq ▸ hlater) (not_le.mpr this)
        subst hnil
        rw [coalesce_cons_of_top htouch heq]
        have := hnext.nonempty
        simp only [coalesceFrom, spans, map_cons, map_nil, total_cons, total_nil]
        omega
      · obtain ⟨r', hstep, hr'⟩ := coalesce_cons_of_touch rest htouch hr hnext heq
        have hordered : Span.Ordered (spans (r' :: rest)) := by
          rw [show spans (r' :: rest) = r'.span :: spans rest from rfl, hr']
          exact .join h
        have hlt := ih r' (forall_mem_cons.mpr ⟨hr' ▸ hr.join htouch hnext, hrest⟩) hordered
          ((MeetsAtTop.touching h htouch hnext heq hr').mpr htop)
        rw [hstep]
        refine hlt.trans_le (le_of_eq ?_)
        simp only [spans, map_cons, total_cons, hr']
        simp only [stop] at htouch ⊢
        omega
    · have hlt := ih next (forall_mem_cons.mpr ⟨hnext, hrest⟩) (pairwise_cons.mp h).2
        ((MeetsAtTop.gap h hgap hnext).mpr htop)
      rw [coalesce_cons_of_apart hgap]
      exact Nat.add_lt_add_left hlt r.span.len

end

/-! ### The table -/

def pageTotal (ranges : List PageRange) : ℕ := (ranges.map fun r => r.pages.toNat).sum

lemma total_spans (ranges : List PageRange) : total (spans ranges) = pageTotal ranges * 4096 := by
  induction ranges with
  | nil => rfl
  | cons r rest ih =>
    simp only [spans, pageTotal, map_cons, total_cons, sum_cons] at ih ⊢
    rw [ih, Nat.add_mul]
    rfl

/-- Runs of pages of which no two overlap. -/
structure DisjointRuns (ranges : List PageRange) : Prop where
  runs : ∀ r ∈ ranges, PageRun r.span
  apart : (spans ranges).Pairwise Span.Apart

section

variable (h : DisjointRuns ranges)
include h

lemma DisjointRuns.pageTotal_le : pageTotal ranges ≤ 2 ^ 52 := by
  have hle : total (spans ranges) ≤ 2 ^ 64 := by
    refine total_le h.apart fun a ha => ?_
    obtain ⟨r, hr, rfl⟩ := mem_map.mp ha
    exact (h.runs r hr).below
  rw [total_spans] at hle
  omega

lemma DisjointRuns.cons (hr : PageRun r.span) (hapart : ∀ q ∈ ranges, Span.Apart r.span q.span) :
    DisjointRuns (r :: ranges) := by
  refine ⟨forall_mem_cons.mpr ⟨hr, h.runs⟩, pairwise_cons.mpr ⟨fun a ha => ?_, h.apart⟩⟩
  obtain ⟨q, hq, rfl⟩ := mem_map.mp ha
  exact hapart q hq

lemma DisjointRuns.perm (hperm : ranges.Perm ranges') : DisjointRuns ranges' where
  runs r hr := h.runs r (hperm.mem_iff.mpr hr)
  apart := (hperm.map PageRange.span).pairwise h.apart fun hab => hab.symm

/-- Sorted by their starts, ranges that do not overlap stand in the order of their addresses. -/
lemma DisjointRuns.ordered_of_sorted (hsorted : ranges.Pairwise fun r q => r.start.toNat ≤ q.start.toNat) :
    Span.Ordered (spans ranges) := by
  refine pairwise_map.mpr ?_
  have hboth := hsorted.and (pairwise_map.mp h.apart)
  refine hboth.imp_of_mem fun {r q} hr hq hrq => ?_
  obtain ⟨hle, hapart⟩ := hrq
  have := (h.runs q hq).nonempty
  simp only [Span.Apart, stop] at hapart ⊢
  have hle' : r.span.start ≤ q.span.start := hle
  omega

end

/-- What coalescing makes of a table. -/
structure Coalesced (ranges ranges' : List PageRange) : Prop where
  runs : ∀ r ∈ ranges', PageRun r.span
  separated : Span.Separated (spans ranges')
  total : pageTotal ranges' = pageTotal ranges
  apart : ∀ c : Span, 0 < c.len → (∀ r ∈ ranges, Span.Apart c r.span) →
    ∀ r ∈ ranges', Span.Apart c r.span

lemma Coalesced.disjointRuns (h : Coalesced ranges ranges') : DisjointRuns ranges' :=
  ⟨h.runs, h.separated.apart⟩

/-- The sorted table `coalesce_ranges` goes through. -/
lemma coalesce_sorted (h : DisjointRuns ranges) : (ranges = [] ∧ coalesceRanges ranges = []) ∨
    ∃ r rest, (r :: rest).Perm ranges ∧ Span.Ordered (spans (r :: rest)) ∧
      coalesceRanges ranges = coalesceFrom r rest := by
  have hperm := ExchangeSort.sort_perm (fun r : PageRange => r.start.toNat) ranges.length ranges
  have hsorted := ExchangeSort.sort_sorted (fun r : PageRange => r.start.toNat) ranges.length ranges
    (le_refl _)
  rw [coalesceRanges]
  cases hsort : ExchangeSort.sort (fun r : PageRange => r.start.toNat) ranges.length ranges with
  | nil =>
    rw [hsort] at hperm
    exact .inl ⟨nil_perm.mp hperm, rfl⟩
  | cons r rest =>
    rw [hsort] at hperm hsorted
    exact .inr ⟨r, rest, hperm, (h.perm hperm.symm).ordered_of_sorted hsorted, rfl⟩

lemma MeetsAtTop.perm (hperm : ranges.Perm ranges') (h : MeetsAtTop ranges) :
    MeetsAtTop ranges' := by
  obtain ⟨a, ha, b, hb, hab⟩ := h
  exact ⟨a, hperm.mem_iff.mp ha, b, hperm.mem_iff.mp hb, hab⟩

lemma pageTotal_perm (hperm : ranges.Perm ranges') : pageTotal ranges = pageTotal ranges' :=
  (hperm.map _).sum_nat

theorem coalesce_coalesced (h : DisjointRuns ranges) (htop : ¬ MeetsAtTop ranges) :
    Coalesced ranges (coalesceRanges ranges) := by
  rcases coalesce_sorted h with ⟨rfl, heq⟩ | ⟨r, rest, hperm, hordered, heq⟩
  · rw [heq]
    exact ⟨by simp, .nil, rfl, by simp⟩
  have hruns := (h.perm hperm.symm).runs
  have hspans := coalesce_span r rest hruns hordered fun hmeet => htop (hmeet.perm hperm)
  -- a property of the spans of the table that joins keep
  have hall : ∀ P : Span → Prop,
      (∀ a b, a.stop = b.start → P a → P b → P ⟨a.start, b.stop - a.start⟩) →
      (∀ q ∈ r :: rest, P q.span) → ∀ q ∈ coalesceFrom r rest, P q.span := by
    intro P hjoin hP q hq
    refine Span.coalesce_induction hjoin r.span (spans rest) hordered ?_ q.span ?_
    · intro c hc
      obtain ⟨q', hq', rfl⟩ := mem_map.mp (show c ∈ spans (r :: rest) from hc)
      exact hP q' hq'
    · rw [← hspans]
      exact mem_map_of_mem hq
  rw [heq]
  refine ⟨hall PageRun (fun a b => PageRun.join) hruns, ?_, ?_, fun c hc hapart => ?_⟩
  · rw [hspans]
    exact Span.separated_coalesceFrom _ _ hordered
  · have htotal := Span.total_coalesceFrom r.span (spans rest) hordered
    rw [← hspans, show r.span :: spans rest = spans (r :: rest) from rfl, total_spans,
      total_spans] at htotal
    rw [← pageTotal_perm hperm]
    omega
  · exact hall (Span.Apart c) (fun a b htouch ha hb => Span.Apart.join hc htouch ha hb)
      fun q hq => hapart q (hperm.mem_iff.mp hq)

theorem pageTotal_coalesce_lt (h : DisjointRuns ranges) (htop : MeetsAtTop ranges) :
    pageTotal (coalesceRanges ranges) < pageTotal ranges := by
  rcases coalesce_sorted h with ⟨rfl, -⟩ | ⟨r, rest, hperm, hordered, heq⟩
  · obtain ⟨a, ha, -⟩ := htop
    cases ha
  have hlt := total_coalesce_lt r rest (h.perm hperm.symm).runs hordered (htop.perm hperm.symm)
  rw [total_spans, total_spans, pageTotal_perm hperm] at hlt
  rw [heq]
  omega

/-! ### Taking pages -/

/-- The pages `a` were taken out of the table. -/
structure Taken (ranges : List PageRange) (a : PageRange) (ranges' : List PageRange) : Prop where
  run : PageRun a.span
  runs : ∀ r ∈ ranges', PageRun r.span
  total : pageTotal ranges' + a.pages.toNat = pageTotal ranges
  apart : ∀ c : Span, (∀ r ∈ ranges, Span.Apart c r.span) → Span.Apart c a.span ∧
    ∀ r ∈ ranges', Span.Apart c r.span
  disjoint : (spans ranges).Pairwise Span.Apart → (spans ranges').Pairwise Span.Apart ∧
    ∀ r ∈ ranges', Span.Apart a.span r.span

variable {n : UInt64}

/-- What is left of a range behind its first `n` pages. -/
lemma span_rest (hr : PageRun r.span) (hlt : n.toNat < r.pages.toNat) :
    (PageRange.mk (r.start + n * pageSize) (r.pages - n)).span =
      ⟨r.start.toNat + n.toNat * 4096, (r.pages.toNat - n.toNat) * 4096⟩ := by
  have hbelow := hr.below
  simp only [stop, PageRange.span] at hbelow
  have hmul : (n * pageSize).toNat = n.toNat * 4096 := by
    rw [UInt64.toNat_mul]
    exact Nat.mod_eq_of_lt (by simp only [pageSize, UInt64.reduceToNat]; omega)
  have hstart : (r.start + n * pageSize).toNat = r.start.toNat + n.toNat * 4096 := by
    rw [UInt64.toNat_add, hmul]
    exact Nat.mod_eq_of_lt (by omega)
  have hsub : (r.pages - n).toNat = r.pages.toNat - n.toNat :=
    UInt64.toNat_sub_of_le _ _ (UInt64.le_iff_toNat_le.mpr hlt.le)
  rw [PageRange.span, hstart, hsub]

lemma pageRun_front (hr : PageRun r.span) (hn : 0 < n.toNat) (hle : n.toNat ≤ r.pages.toNat) :
    PageRun (PageRange.mk r.start n).span := by
  have hlen : n.toNat * 4096 ≤ r.pages.toNat * 4096 := Nat.mul_le_mul_right 4096 hle
  exact ⟨hr.aligned, Nat.dvd_mul_left _ _, Nat.mul_pos hn (by decide),
    (Nat.add_le_add_left hlen _).trans hr.below⟩

section

variable (rest : List PageRange) (hruns : ∀ q ∈ r :: rest, PageRun q.span)
include rest hruns

lemma taken_whole : Taken (r :: rest) r rest where
  run := hruns r (mem_cons_self ..)
  runs q hq := hruns q (mem_cons_of_mem _ hq)
  total := Nat.add_comm _ _
  apart _ hc := forall_mem_cons.mp hc
  disjoint hapart := by
    obtain ⟨hr, hrest⟩ := pairwise_cons.mp hapart
    exact ⟨hrest, fun q hq => hr _ (mem_map_of_mem hq)⟩

lemma taken_front (hn : 0 < n.toNat) (hlt : n.toNat < r.pages.toNat) :
    Taken (r :: rest) ⟨r.start, n⟩ (⟨r.start + n * pageSize, r.pages - n⟩ :: rest) := by
  obtain ⟨hr, hrest⟩ := forall_mem_cons.mp hruns
  have hspan := span_rest hr hlt
  have hpages : (r.pages - n).toNat = r.pages.toNat - n.toNat :=
    UInt64.toNat_sub_of_le _ _ (UInt64.le_iff_toNat_le.mpr hlt.le)
  have hfront : ∀ c : Span, Span.Apart c r.span → Span.Apart c (PageRange.mk r.start n).span :=
    fun c hc => hc.mono (le_refl _) (by simp only [PageRange.span, stop]; omega)
  have hback : ∀ c : Span, Span.Apart c r.span →
      Span.Apart c (PageRange.mk (r.start + n * pageSize) (r.pages - n)).span := by
    intro c hc
    rw [hspan]
    refine hc.mono ?_ ?_ <;> simp only [PageRange.span, stop] <;> omega
  refine ⟨pageRun_front hr hn hlt.le, forall_mem_cons.mpr ⟨?_, hrest⟩, ?_, ?_, ?_⟩
  · obtain ⟨haligned, -, -, hbelow⟩ := hr
    rw [hspan]
    simp only [PageRange.span, stop] at haligned hbelow
    constructor <;> simp only [stop] <;> omega
  · simp only [pageTotal, map_cons, sum_cons, hpages]
    omega
  · intro c hc
    obtain ⟨hc, hcrest⟩ := forall_mem_cons.mp hc
    exact ⟨hfront c hc, forall_mem_cons.mpr ⟨hback c hc, hcrest⟩⟩
  · intro hapart
    obtain ⟨hhead, htail⟩ := pairwise_cons.mp hapart
    refine ⟨pairwise_cons.mpr ⟨fun c hc => (hback c (hhead c hc).symm).symm, htail⟩,
      forall_mem_cons.mpr ⟨?_, fun q hq => ?_⟩⟩
    · rw [hspan]
      exact .inl (le_refl _)
    · exact (hfront _ (hhead _ (mem_map_of_mem hq)).symm).symm

end

lemma Taken.cons {a : PageRange} (hr : PageRun r.span) (h : Taken ranges a ranges') :
    Taken (r :: ranges) a (r :: ranges') where
  run := h.run
  runs := forall_mem_cons.mpr ⟨hr, h.runs⟩
  total := by
    have := h.total
    simp only [pageTotal, map_cons, sum_cons] at this ⊢
    omega
  apart c hc := by
    obtain ⟨hcr, hrest⟩ := forall_mem_cons.mp hc
    exact ⟨(h.apart c hrest).1, forall_mem_cons.mpr ⟨hcr, (h.apart c hrest).2⟩⟩
  disjoint hapart := by
    obtain ⟨hhead, htail⟩ := pairwise_cons.mp hapart
    obtain ⟨htail', ha⟩ := h.disjoint htail
    have hall := h.apart r.span fun q hq => hhead _ (mem_map_of_mem hq)
    refine ⟨pairwise_cons.mpr ⟨fun c hc => ?_, htail'⟩, forall_mem_cons.mpr ⟨hall.1.symm, ha⟩⟩
    obtain ⟨q, hq, rfl⟩ := mem_map.mp hc
    exact hall.2 q hq

theorem takePages_taken (hn : 0 < n.toNat) (ranges : List PageRange)
    (hruns : ∀ q ∈ ranges, PageRun q.span) {addr : UInt64}
    (h : takePages n ranges = some (addr, ranges')) : Taken ranges ⟨addr, n⟩ ranges' := by
  induction ranges generalizing addr ranges' with
  | nil => cases h
  | cons r rest ih =>
    obtain ⟨hr, hrest⟩ := forall_mem_cons.mp hruns
    rw [takePages] at h
    split_ifs at h with hsmall hwhole
    · obtain ⟨q, hq, heq⟩ := Option.map_eq_some_iff.mp h
      cases heq
      exact (ih hrest hq).cons hr
    · cases h
      obtain rfl : n = r.pages := by grind
      exact taken_whole rest hruns
    · cases h
      have hle : n.toNat ≤ r.pages.toNat := UInt64.le_iff_toNat_le.mp (UInt64.not_lt.mp hsmall)
      have hne : n.toNat ≠ r.pages.toNat := fun heq => hwhole (by simp [UInt64.toNat_inj.mp heq])
      exact taken_front rest hruns hn (lt_of_le_of_ne hle hne)

end Kmem
