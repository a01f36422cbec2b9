import LainOS.Kmem.HeapInvariant

/-!
# What the heap operations do to the invariant
-/

namespace Kmem

open Mem List Function Span LiveBlock

variable {l : LiveBlock} {p : ℕ} {size : UInt32} {c : Fin 8} {mem : Mem} {smallFree : Fin 8 → ℕ}

/-- The layout of a heap. -/
abbrev Heap.Layout {σ : Type*} (Owns : σ → List Span → Prop) (st : Heap σ) :
    List LiveBlock → List ℕ → List Span → (Fin 8 → List ℕ) → Prop :=
  Kmem.Layout Owns st.mem st.pages st.smallFree

/-! ### Headers -/

section

variable (mem : Mem) (header : ℕ) {bytes classIndex pageCount : ℕ}

/-- The fields `kfree` reads back, and where the writes went. -/
lemma writeHeader_spec (allocatedBytes : ℕ) (hbytes : bytes < 2 ^ 32) (hclass : classIndex < 2 ^ 16)
    (hpages : pageCount < 2 ^ 16) :
    let mem' := writeHeader mem header bytes allocatedBytes classIndex pageCount
    load 8 mem' header = allocMagic ∧ load 4 mem' (header + 8) = bytes ∧
      load 2 mem' (header + 16) = classIndex ∧ load 2 mem' (header + 18) = pageCount ∧
      Changed ⟨header, bytes + 28⟩ mem mem' := by
  have hguard : ∀ m, load 4 m (header + 8) = bytes → guardForHeader m header = header + 24 + bytes :=
    fun m hm => by rw [guardForHeader, hm]
  simp only [writeHeader]
  set m₁ := store 8 mem header allocMagic
  set m₂ := store 4 m₁ (header + 8) bytes
  set m₃ := store 4 m₂ (header + 12) allocatedBytes
  set m₄ := store 2 m₃ (header + 16) classIndex
  set m₅ := store 2 m₄ (header + 18) pageCount
  set m₆ := store 4 m₅ (header + 20) 0
  have hmagic : load 8 m₆ header = allocMagic := by
    rw [load_store_apart (by omega), load_store_apart (by omega),
      load_store_apart (by omega), load_store_apart (by omega),
      load_store_apart (by omega), load_store_same]
    rfl
  have hsize : load 4 m₆ (header + 8) = bytes := by
    rw [load_store_apart (by omega), load_store_apart (by omega),
      load_store_apart (by omega), load_store_apart (by omega), load_store_same]
    exact Nat.mod_eq_of_lt hbytes
  have hindex : load 2 m₆ (header + 16) = classIndex := by
    rw [load_store_apart (by omega), load_store_apart (by omega), load_store_same]
    exact Nat.mod_eq_of_lt hclass
  have hcount : load 2 m₆ (header + 18) = pageCount := by
    rw [load_store_apart (by omega), load_store_same]
    exact Nat.mod_eq_of_lt hpages
  rw [hguard m₆ hsize]
  refine ⟨?_, ?_, ?_, ?_, ?_⟩
  · rw [load_store_apart (by omega), hmagic]
  · rw [load_store_apart (by omega), hsize]
  · rw [load_store_apart (by omega), hindex]
  · rw [load_store_apart (by omega), hcount]
  have hpart : ∀ n m off v, off + n ≤ bytes + 28 →
      Changed ⟨header, bytes + 28⟩ m (store n m (header + off) v) := fun n m off v hle =>
    (store_changed n m (header + off) v).mono (Nat.le_add_right _ _) (by simp only [stop]; omega)
  have h₁ : Changed ⟨header, bytes + 28⟩ mem m₁ := hpart 8 mem 0 _ (by omega)
  have h₂ : Changed ⟨header, bytes + 28⟩ m₁ m₂ := hpart 4 m₁ 8 _ (by omega)
  have h₃ : Changed ⟨header, bytes + 28⟩ m₂ m₃ := hpart 4 m₂ 12 _ (by omega)
  have h₄ : Changed ⟨header, bytes + 28⟩ m₃ m₄ := hpart 2 m₃ 16 _ (by omega)
  have h₅ : Changed ⟨header, bytes + 28⟩ m₄ m₅ := hpart 2 m₄ 18 _ (by omega)
  have h₆ : Changed ⟨header, bytes + 28⟩ m₅ m₆ := hpart 4 m₅ 20 _ (by omega)
  refine ((((h₁.trans h₂).trans h₃).trans h₄).trans h₅).trans (h₆.trans ?_)
  rw [Nat.add_assoc]
  exact hpart 4 m₆ (24 + bytes) _ (by omega)

lemma wipe_changed (hbytes : load 4 mem (header + 8) = bytes) :
    Changed ⟨header + 24, bytes + 4⟩ mem (wipe mem header) := by
  have hguard : guardForHeader mem header = header + 24 + bytes := by rw [guardForHeader, hbytes]
  rw [wipe, hguard, load_store_apart (by omega), hbytes]
  have hstore : Changed ⟨header + 24, bytes + 4⟩ mem (store 4 mem (header + 24 + bytes) 0) := by
    refine (store_changed _ _ _ _).mono ?_ ?_ <;> simp only [stop] <;> omega
  refine hstore.trans ((fill_changed _ _ _ _).mono ?_ ?_) <;> simp only [stop] <;> omega

end

/-! ### Counters -/

section

variable {σ : Type*} {st : Heap σ} {live : List LiveBlock}

lemma Accounts.noteAlloc (h : Accounts st live)
    (hsum : ((l :: live).map fun l => chargedBytes l.size).sum < 2 ^ 64)
    (hlength : (l :: live).length < 2 ^ 64) :
    Accounts (kmallocNoteAlloc st (chargedBytes l.size)) (l :: live) := by
  simp only [map_cons, sum_cons, length_cons] at hsum hlength
  constructor
  · have hcharged : (UInt64.ofNat (chargedBytes l.size)).toNat = chargedBytes l.size :=
      UInt64.toNat_ofNat_of_lt' (show _ < 2 ^ 64 by omega)
    simp only [kmallocNoteAlloc, UInt64.toNat_add, hcharged, h.used, map_cons, sum_cons]
    rw [Nat.mod_eq_of_lt (by omega), Nat.add_comm]
  · simp only [kmallocNoteAlloc, UInt64.toNat_add, h.count, length_cons]
    exact Nat.mod_eq_of_lt hlength

lemma Accounts.noteFree (h : Accounts st live) (hl : l ∈ live)
    (hsum : (live.map fun l => chargedBytes l.size).sum < 2 ^ 64) :
    Accounts (kmallocNoteFree st (chargedBytes l.size)) (live.erase l) := by
  have hperm := perm_cons_erase hl
  have hused : st.heapUsedBytes.toNat =
      chargedBytes l.size + ((live.erase l).map fun l => chargedBytes l.size).sum := by
    rw [h.used, (hperm.map _).sum_nat, map_cons, sum_cons]
  have hcount : st.liveAllocations.toNat = (live.erase l).length + 1 := by
    rw [h.count, hperm.length_eq, length_cons]
  have hcharged : (UInt64.ofNat (chargedBytes l.size)).toNat = chargedBytes l.size := by
    rw [← h.used] at hsum
    exact UInt64.toNat_ofNat_of_lt' (show _ < 2 ^ 64 by omega)
  have hge : UInt64.ofNat (chargedBytes l.size) ≤ st.heapUsedBytes := by
    rw [UInt64.le_iff_toNat_le, hcharged]
    omega
  have hpos : st.liveAllocations > 0 := by
    rw [gt_iff_lt, UInt64.lt_iff_toNat_lt, hcount]
    exact Nat.succ_pos _
  constructor
  · simp only [kmallocNoteFree, if_pos hge, UInt64.toNat_sub_of_le _ _ hge, hcharged, hused]
    omega
  have hone : (1 : UInt64) ≤ st.liveAllocations := UInt64.le_iff_toNat_le.mpr (by
    rw [hcount]
    exact Nat.le_add_left 1 _)
  simp only [kmallocNoteFree, if_pos hpos, UInt64.toNat_sub_of_le _ _ hone, hcount]
  rfl

end

/-! ### Allocating -/

section

variable {σ : Type*} {A : PageAllocator σ} {Owns : σ → List Span → Prop} (hA : A.HandsOut Owns)
  {st : Heap σ} {live : List LiveBlock} {freed : List ℕ} {runs : List Span} {free : Fin 8 → List ℕ}
include hA in
lemma Heap.pageAlloc_cases (howns : Owns st.pages runs) (n : UInt32) :
    (∃ pages, st.pageAlloc A n = (0, { st with pages := pages }) ∧ Owns pages runs) ∨
    ∃ p pages, p ≠ 0 ∧ st.pageAlloc A n =
        (p, { st with pages := pages, mem := fill st.mem p (n.toNat * 4096) 0 }) ∧
      PageRun ⟨p, n.toNat * 4096⟩ ∧ (∀ r ∈ runs, Span.Apart ⟨p, n.toNat * 4096⟩ r) ∧
      Owns pages (⟨p, n.toNat * 4096⟩ :: runs) := by
  rw [Heap.pageAlloc]
  rcases hA.alloc st.pages runs n howns with ⟨hzero, howns'⟩ | ⟨hne, hrun, hapart, howns'⟩
  · exact .inl ⟨_, if_pos hzero, howns'⟩
  · exact .inr ⟨_, _, hne, if_neg hne, hrun, hapart, howns'⟩

lemma Layout.pushAll (st : Heap σ) (c : Fin 8) (as : List ℕ)
    (h : st.Layout Owns live [] runs free) (h32 : ∀ a ∈ as, 32 ∣ a)
    (hpair : as.Pairwise fun a b => Span.Apart (freeSpan c a) (freeSpan c b))
    (hapart : ∀ a ∈ as, ∀ b ∈ blocks live free, Span.Apart (freeSpan c a) b)
    (hin : ∀ a ∈ as, ∃ r ∈ runs, Span.Inside (freeSpan c a) r) :
    (as.foldl (pushBlock c) st).Layout Owns live [] runs
      (update free c (as.reverse ++ free c)) := by
  induction as generalizing st free with
  | nil => simpa using h
  | cons a as ih =>
    obtain ⟨ha, has⟩ := forall_mem_cons.mp hapart
    obtain ⟨hfirst, hpair⟩ := pairwise_cons.mp hpair
    have hstep : (pushBlock c st a).Layout Owns live [] runs (update free c (a :: free c)) :=
      h.push c (h32 a (mem_cons_self ..)) ha (hin a (mem_cons_self ..)) (by simp)
    have hall := ih _ hstep (fun x hx => h32 x (mem_cons_of_mem _ hx)) hpair
      (fun x hx b hb => ?_) fun x hx => hin x (mem_cons_of_mem _ hx)
    · simpa using hall
    · rcases mem_cons.mp ((blocks_push live free c a).mem_iff.mp hb) with rfl | hb
      · exact (hfirst x hx).symm
      · exact has x hx b hb

lemma foldl_pushBlock_counters (c : Fin 8) (as : List ℕ) (st : Heap σ) :
    (as.foldl (pushBlock c) st).heapUsedBytes = st.heapUsedBytes ∧
      (as.foldl (pushBlock c) st).liveAllocations = st.liveAllocations := by
  induction as generalizing st with
  | nil => exact ⟨rfl, rfl⟩
  | cons a as ih => exact ih (pushBlock c st a)

/-- The blocks a page is cut into. -/
lemma pageBlocks_spec (c : Fin 8) (haligned : 4096 ∣ p) :
    let as := (List.range (4096 / smallClassSizes c)).map fun i => p + i * smallClassSizes c
    (∀ a ∈ as, 32 ∣ a) ∧ as.Pairwise (fun a b => Span.Apart (freeSpan c a) (freeSpan c b)) ∧
      (∀ a ∈ as, Span.Inside (freeSpan c a) ⟨p, 4096⟩) ∧ as ≠ [] := by
  obtain ⟨hle, h32, hdvd⟩ := smallClass_spec c
  obtain ⟨k, hk⟩ := hdvd
  have hdiv : 4096 / smallClassSizes c = k := Nat.div_eq_of_eq_mul_right (by omega) hk
  rw [hdiv]
  refine ⟨fun a ha => ?_, ?_, fun a ha => ?_, ?_⟩
  · obtain ⟨i, -, rfl⟩ := mem_map.mp ha
    exact Nat.dvd_add ((by decide : 32 ∣ 4096).trans haligned) (h32.mul_left i)
  · refine pairwise_map.mpr (pairwise_lt_range.imp fun {i j} hij => .inl ?_)
    have hmul : (i + 1) * smallClassSizes c ≤ j * smallClassSizes c := Nat.mul_le_mul_right _ hij
    rw [Nat.add_mul] at hmul
    simp only [freeSpan, stop]
    omega
  · obtain ⟨i, hi, rfl⟩ := mem_map.mp ha
    have hmul : (i + 1) * smallClassSizes c ≤ k * smallClassSizes c :=
      Nat.mul_le_mul_right _ (mem_range.mp hi)
    rw [Nat.add_mul, Nat.mul_comm k, ← hk] at hmul
    refine ⟨Nat.le_add_right _ _, ?_⟩
    simp only [freeSpan, stop]
    omega
  · intro hnil
    have : k = 0 := by simpa using congrArg List.length hnil
    subst this
    omega

include hA

/-- Either the page allocator fails and nothing else changes, or the free list gets blocks. -/
lemma populateClass_cases (c : Fin 8) (h : st.Layout Owns live freed runs free) :
    (∃ pages, populateClass A st c = { st with pages := pages } ∧ Owns pages runs) ∨ ∃ runs' free',
    free' c ≠ [] ∧
      (populateClass A st c).heapUsedBytes = st.heapUsedBytes ∧
      (populateClass A st c).liveAllocations = st.liveAllocations ∧
      (populateClass A st c).Layout Owns live [] runs' free' := by
  rw [populateClass]
  rcases Heap.pageAlloc_cases hA h.owns 1 with ⟨pages, heq, howns⟩ | ⟨p, pages, hne, heq, hrun, hapart, howns⟩
  · rw [heq]
    exact .inl ⟨pages, rfl, howns⟩
  rw [heq]
  rw [if_neg hne]
  obtain ⟨h32, hpair, hin, hnil⟩ := pageBlocks_spec c hrun.aligned
  obtain ⟨hnew, hblocks⟩ := h.forget.newRun hrun hne hapart howns (fill_changed st.mem p _ 0)
  have hall := hnew.pushAll { st with pages := pages, mem := fill st.mem p (1 * 4096) 0 } c _
    h32 hpair (fun a ha b hb => (hblocks b hb).of_inside (hin a ha) (.refl b))
    fun a ha => ⟨_, mem_cons_self .., hin a ha⟩
  have hcounters := foldl_pushBlock_counters c
    ((List.range (4096 / smallClassSizes c)).map fun i => p + i * smallClassSizes c)
    { st with pages := pages, mem := fill st.mem p (1 * 4096) 0 }
  refine .inr ⟨_, _, ?_, hcounters.1, hcounters.2, hall⟩
  rw [update_self]
  exact fun happend => hnil (reverse_eq_nil_iff.mp (append_eq_nil_iff.mp happend).1)

omit hA in
/-- Both kinds of blocks start like this. -/
lemma headerAt_writeHeader (mem : Mem) (p allocatedBytes classIndex pageCount : ℕ)
    (hclass : classIndex < 2 ^ 16) (hpages : pageCount < 2 ^ 16)
    (hfits : size.toNat + 28 ≤ chargedBytes size)
    (hindex : classIndex = match classForSize size with
      | some c => (c : ℕ)
      | none => 0xFFFF) (hcount : classForSize size = none → pageCount = (largePages size).toNat) :
    HeaderAt (writeHeader mem p size.toNat allocatedBytes classIndex pageCount) ⟨p + 24, size⟩ ∧
      Changed ⟨p, chargedBytes size⟩ mem
        (writeHeader mem p size.toNat allocatedBytes classIndex pageCount) := by
  obtain ⟨hmagic, hbytes, hindex', hcount', hchanged⟩ :=
    writeHeader_spec mem p allocatedBytes size.toNat_lt hclass hpages
  refine ⟨⟨Nat.le_add_left _ _, hfits, ?_, ?_, ?_, fun hlarge => ?_⟩,
    hchanged.mono (le_refl _) (Nat.add_le_add_left hfits _)⟩
  · rw [Nat.add_sub_cancel, hmagic]
  · rw [Nat.add_sub_cancel, hbytes]
  · rw [Nat.add_sub_cancel, hindex']
    exact hindex
  · rw [Nat.add_sub_cancel, hcount', hcount hlarge]

omit hA in
/-- The tail of `kmalloc` for a size class whose free list has a block. -/
lemma Layout.takeSmall (hc : classForSize size = some c) (h : st.Layout Owns live [] runs free)
    (hne : free c ≠ []) : st.smallFree c ≠ 0 ∧ ∃ free',
      Layout Owns (fill (writeHeader st.mem (st.smallFree c) size.toNat (smallClassSizes c) c 0)
          (st.smallFree c + 24) size.toNat 0xA5) st.pages
        (update st.smallFree c (load 8 st.mem (st.smallFree c)))
        (⟨st.smallFree c + 24, size⟩ :: live) [] runs free' := by
  obtain ⟨a, rest, hfree⟩ := exists_cons_of_ne_nil hne
  obtain ⟨hpop, hhead, hne, h32, hin, hapart⟩ := h.pop hfree
  have hcharged := charged_small hc
  have hfits : size.toNat + 28 ≤ chargedBytes size := hcharged ▸ classForSize_some hc
  have hblock : (LiveBlock.mk (a + 24) size).block = freeSpan c a := by
    rw [block, hcharged, Nat.add_sub_cancel]
    rfl
  rw [hhead]
  obtain ⟨hheader, hwritten⟩ := headerAt_writeHeader st.mem a (smallClassSizes c) c 0
    (c.isLt.trans (by decide)) (by decide) hfits (by rw [hc]) (by simp [hc])
  have hfilled := fill_changed (writeHeader st.mem a size.toNat (smallClassSizes c) c 0) (a + 24)
    size.toNat 0xA5
  have hheader' := hheader.of_changed hfilled (.inl (by simp [stop]))
  have hchanged : Changed (freeSpan c a) st.mem (fill (writeHeader st.mem a size.toNat
      (smallClassSizes c) c 0) (a + 24) size.toNat 0xA5) := by
    rw [hcharged] at hwritten hfits
    refine Changed.trans hwritten (hfilled.mono (Nat.le_add_right _ _) ?_)
    simp only [freeSpan, stop]
    omega
  refine ⟨hne, _, (hpop.of_changed_apart hchanged hapart (by simp)).addLive hheader' ?_ ?_ ?_ ?_⟩
  · rwa [Nat.add_sub_cancel]
  · rwa [hblock]
  · rwa [hblock]
  · simp [hc]

/-- The heap between two calls. -/
structure Good (Owns : σ → List Span → Prop) (st : Heap σ) (live : List LiveBlock)
    (freed : List ℕ) : Prop where
  layout : ∃ runs free, Layout Owns st.mem st.pages st.smallFree live freed runs free
  accounts : Accounts st live

omit hA in
lemma Accounts.good_noteAlloc (l : LiveBlock) (haccounts : Accounts st live)
    (h : ∃ runs free, st.Layout Owns (l :: live) [] runs free) :
    Good Owns (kmallocNoteAlloc st (chargedBytes l.size)) (l :: live) [] := by
  obtain ⟨runs, free, hlayout⟩ := h
  exact ⟨⟨runs, free, hlayout⟩, haccounts.noteAlloc hlayout.charged_lt hlayout.length_lt⟩

omit hA in
lemma Layout.smallFree_eq_zero (h : st.Layout Owns live freed runs free)
    (hzero : st.smallFree c ≠ 0) : free c ≠ [] := by
  intro hnil
  have hchain := h.chain c
  rw [hnil] at hchain
  exact hzero hchain

/-- A block was handed out, or the call failed and the heap is as before. -/
def Answered (Owns : σ → List Span → Prop) (live : List LiveBlock) (freed : List ℕ) (size : UInt32)
    (r : ℕ × Heap σ) : Prop :=
  r.1 = 0 ∧ Good Owns r.2 live freed ∨ r.1 ≠ 0 ∧ Good Owns r.2 (⟨r.1, size⟩ :: live) []

lemma kmallocSmall_answered (hc : classForSize size = some c) (h : Good Owns st live freed) :
    Answered Owns live freed size (kmallocSmall A st size c) := by
  obtain ⟨⟨runs, free, hlayout⟩, haccounts⟩ := h
  -- the list has a block, at once or after `populate_class`
  have hready : ∀ st' : Heap σ, Accounts st' live →
      (∃ runs' free', free' c ≠ [] ∧ st'.Layout Owns live [] runs' free') →
      st'.smallFree c ≠ 0 ∧
      Good Owns (kmallocNoteAlloc { st' with
          mem := fill (writeHeader st'.mem (st'.smallFree c) size.toNat (smallClassSizes c) c 0)
            (st'.smallFree c + 24) size.toNat 0xA5
          smallFree := update st'.smallFree c (load 8 st'.mem (st'.smallFree c)) }
        (smallClassSizes c)) (⟨st'.smallFree c + 24, size⟩ :: live) [] := by
    rintro st' haccounts' ⟨runs', free', hne, hlayout'⟩
    obtain ⟨hhead, free'', htaken⟩ := hlayout'.takeSmall hc hne
    rw [← charged_small hc] at htaken ⊢
    exact ⟨hhead, Accounts.good_noteAlloc ⟨_, size⟩ ⟨haccounts'.used, haccounts'.count⟩
      ⟨_, _, htaken⟩⟩
  rw [kmallocSmall]
  by_cases hzero : st.smallFree c = 0
  · rw [if_pos hzero]
    rcases populateClass_cases hA c hlayout with
      ⟨pages, heq, howns⟩ | ⟨runs', free', hne, hused, hcount, hlayout'⟩
    · rw [heq]
      rw [if_pos hzero]
      exact .inl ⟨rfl, ⟨runs, free, { hlayout with owns := howns }⟩,
        ⟨haccounts.used, haccounts.count⟩⟩
    · obtain ⟨hhead, hgood⟩ := hready (populateClass A st c)
        ⟨hused ▸ haccounts.used, hcount ▸ haccounts.count⟩ ⟨runs', free', hne, hlayout'⟩
      rw [if_neg hhead]
      exact .inr ⟨Nat.succ_ne_zero _, hgood⟩
  · obtain ⟨hhead, hgood⟩ := hready st haccounts
      ⟨runs, free, hlayout.smallFree_eq_zero hzero, hlayout.forget⟩
    rw [if_neg hzero]
    rw [if_neg hhead]
    exact .inr ⟨Nat.succ_ne_zero _, hgood⟩

lemma kmallocLarge_answered (hc : classForSize size = none) (h : Good Owns st live freed) :
    Answered Owns live freed size (kmallocLarge A st size) := by
  obtain ⟨⟨runs, free, hlayout⟩, haccounts⟩ := h
  have hfailed : Answered Owns live freed size
      (0, { st with allocationFailures := st.allocationFailures + 1 }) :=
    .inl ⟨rfl, ⟨runs, free, hlayout⟩, ⟨haccounts.used, haccounts.count⟩⟩
  rw [kmallocLarge]
  dsimp only
  split_ifs with hsize hpages hzero
  · exact hfailed
  · exact hfailed
  · rcases Heap.pageAlloc_cases hA hlayout.owns (largePages size) with
      ⟨pages, heq, howns⟩ | ⟨p, pages, hne, heq, -⟩
    · rw [heq]
      exact .inl ⟨rfl, ⟨runs, free, { hlayout with owns := howns }⟩,
        ⟨haccounts.used, haccounts.count⟩⟩
    · rw [heq] at hzero
      exact absurd hzero hne
  rcases Heap.pageAlloc_cases hA hlayout.owns (largePages size) with
    ⟨pages, heq, -⟩ | ⟨p, pages, hne, heq, hrun, hapart, howns⟩
  · rw [heq] at hzero
    exact absurd rfl hzero
  rw [heq]
  obtain ⟨hfits, hle⟩ := largePages_spec hsize hpages
  have hcharged := charged_large hc
  obtain ⟨hnew, hblocks⟩ := hlayout.forget.newRun hrun hne hapart howns (fill_changed st.mem p _ 0)
  have hfits' : size.toNat + 28 ≤ chargedBytes size := by rwa [hcharged]
  have hcount : (largePages size).toNat < 2 ^ 16 := Nat.lt_succ_of_le hle
  obtain ⟨hheader, hchanged⟩ := headerAt_writeHeader
    (fill st.mem p ((largePages size).toNat * 4096) 0) p ((largePages size).toNat * 4096) 0xFFFF
    (largePages size).toNat (by decide) hcount hfits' (by rw [hc]) fun _ => rfl
  rw [hcharged] at hchanged
  have hblock : (LiveBlock.mk (p + 24) size).block = ⟨p, (largePages size).toNat * 4096⟩ := by
    rw [block, hcharged, Nat.add_sub_cancel]
  have htaken := (hnew.of_changed_apart hchanged hblocks (by simp)).addLive hheader
    (by rw [Nat.add_sub_cancel]; exact (by decide : 32 ∣ 4096).trans hrun.aligned)
    (by rwa [hblock]) ⟨_, mem_cons_self .., hblock ▸ Span.Inside.refl _⟩
    fun _ => hblock ▸ mem_cons_self ..
  rw [← hcharged] at htaken ⊢
  generalize writeHeader (st.mem.fill p (chargedBytes size) 0) p size.toNat (chargedBytes size) 0xFFFF
    (largePages size).toNat = mem at htaken ⊢
  exact .inr ⟨Nat.succ_ne_zero _, Accounts.good_noteAlloc ⟨p + 24, size⟩
    ⟨haccounts.used, haccounts.count⟩ ⟨_, _, htaken⟩⟩

theorem kmalloc_answered (h : Good Owns st live freed) (size : UInt32) :
    Answered Owns live freed size (kmalloc A st size) := by
  rw [kmalloc]
  split_ifs
  · exact .inl ⟨rfl, h⟩
  · cases hc : classForSize size with
    | some c => exact kmallocSmall_answered hA hc h
    | none => exact kmallocLarge_answered hA hc h

end

/-! ### Freeing -/

variable {σ : Type*} {A : PageAllocator σ} {Owns : σ → List Span → Prop} {st : Heap σ}
  {live : List LiveBlock} {freed : List ℕ} {runs : List Span} {free : Fin 8 → List ℕ}

lemma Layout.live_marks {pages : σ} (h : Layout Owns mem pages smallFree live freed runs free)
    (hl : l ∈ live) : ∀ p ∈ freed, (∃ c, p - 24 ∈ free c) ∨ Span.Apart ⟨p - 24, 8⟩ l.block :=
  fun p hp => (h.again p hp).imp_right fun hmark => hmark.2 _ (block_mem hl)

/-- Writes into a block that is given up. -/
lemma Layout.dropWritten {mem' : Mem} {pages : σ}
    (h : Layout Owns mem pages smallFree live freed runs free) (hl : l ∈ live)
    (hchanged : Changed l.block mem mem') :
    Layout Owns mem' pages smallFree (live.erase l) freed runs free :=
  (h.dropLive hl).of_changed_apart hchanged (h.apart_rest hl) (h.live_marks hl)

/-- The writes of `kfree` stay in the block. -/
lemma wiped_changed (h : HeaderAt mem l) :
    Changed l.block mem (wipe (store 8 mem (l.ptr - 24) freedMagic) (l.ptr - 24)) ∧
    Changed l.block mem (store 8 (wipe mem (l.ptr - 24)) (l.ptr - 24) freedMagic) ∧
    load 8 (wipe (store 8 mem (l.ptr - 24) freedMagic) (l.ptr - 24)) (l.ptr - 24) = freedMagic := by
  have hfits := h.fits
  have hmark : ∀ m, Changed l.block m (store 8 m (l.ptr - 24) freedMagic) := fun m =>
    (store_changed 8 m _ _).mono (le_refl _) (by simp only [block, stop]; omega)
  have hwipe : ∀ m, load 4 m (l.ptr - 24 + 8) = l.size.toNat →
      Changed l.block m (wipe m (l.ptr - 24)) := fun m hm =>
    (wipe_changed m _ hm).mono (Nat.le_add_right _ _) (by simp only [block, stop]; omega)
  have hbytes : load 4 (store 8 mem (l.ptr - 24) freedMagic) (l.ptr - 24 + 8) = l.size.toNat := by
    rw [load_store_apart (by omega), h.bytes]
  refine ⟨(hmark mem).trans (hwipe _ hbytes), (hwipe mem h.bytes).trans (hmark _), ?_⟩
  rw [(wipe_changed _ _ hbytes).load (.inl (by simp only [stop]; omega)), load_store_same]
  rfl

lemma kfree_live_large (hA : A.HandsOut Owns) (hl : l ∈ live) (hlarge : classForSize l.size = none)
    (h : st.Layout Owns live freed runs free) :
    Layout Owns (wipe (store 8 st.mem (l.ptr - 24) freedMagic) (l.ptr - 24))
      (A.pageFree st.pages (l.ptr - 24) (UInt32.ofNat (load 2 st.mem (l.ptr - 24 + 18))))
      st.smallFree (live.erase l) (l.ptr :: freed) (runs.erase l.block) free := by
  have hheader := h.header l hl
  obtain ⟨hchanged, -, hmark⟩ := wiped_changed hheader
  have hpages : UInt32.ofNat (load 2 st.mem (l.ptr - 24 + 18)) = largePages l.size := by
    rw [hheader.pageCount hlarge, UInt32.ofNat_toNat]
  have hblock : l.block = ⟨l.ptr - 24, (largePages l.size).toNat * 4096⟩ := by
    rw [block, charged_large hlarge]
  have howns := hA.free st.pages runs (l.ptr - 24) (largePages l.size) h.owns
    (hblock ▸ h.whole l hl hlarge)
  rw [← hblock] at howns
  rw [hpages]
  have hdropped := (h.dropWritten hl hchanged).dropRun howns (h.apart_rest hl)
  refine { hdropped with again := forall_mem_cons.mpr ⟨.inr ⟨hmark, fun b hb => ?_⟩, hdropped.again⟩ }
  refine (h.apart_rest hl b hb).of_inside ⟨le_refl _, ?_⟩ (.refl b)
  have := h.charged_pos hl
  simp only [stop, block] at this ⊢
  omega

lemma kfree_live_small (hl : l ∈ live) (hc : classForSize l.size = some c)
    (h : st.Layout Owns live freed runs free) : ∃ free', Layout Owns
      (store 8 (store 8 (wipe st.mem (l.ptr - 24)) (l.ptr - 24) freedMagic) (l.ptr - 24)
        (st.smallFree c)) st.pages (update st.smallFree c (l.ptr - 24)) (live.erase l)
      (l.ptr :: freed) runs free' := by
  obtain ⟨-, hchanged, -⟩ := wiped_changed (h.header l hl)
  have hblock : freeSpan c (l.ptr - 24) = l.block := by
    rw [block, charged_small hc]
    rfl
  have hpushed := (h.dropWritten hl hchanged).push c (h.liveAligned l hl)
    (hblock ▸ h.apart_rest hl) (hblock ▸ h.inside _ (block_mem hl)) (hblock ▸ h.live_marks hl)
  exact ⟨_, { hpushed with
    again := forall_mem_cons.mpr ⟨.inl ⟨c, by simp⟩, hpushed.again⟩ }⟩

section

variable (hA : A.HandsOut Owns) (h : Good Owns st live freed) (hl : l ∈ live)
include hA h hl

lemma releaseBlock_good :
    Good Owns (releaseBlock A st (l.ptr - 24)) (live.erase l) (l.ptr :: freed) := by
  obtain ⟨⟨runs, free, hlayout⟩, haccounts⟩ := h
  have hheader := hlayout.header l hl
  have hindex := hheader.classIndex
  have hfree := haccounts.noteFree hl hlayout.charged_lt
  cases hc : classForSize l.size with
  | none =>
    rw [hc] at hindex
    rw [charged_large hc, ← hheader.pageCount hc] at hfree
    rw [releaseBlock]
    rw [if_pos hindex]
    exact ⟨⟨_, free, kfree_live_large hA hl hc hlayout⟩, ⟨hfree.used, hfree.count⟩⟩
  | some c =>
    rw [hc] at hindex
    have hlt : load 2 st.mem (l.ptr - 24 + 16) < 8 := hindex ▸ c.isLt
    have hclass : (⟨load 2 st.mem (l.ptr - 24 + 16), hlt⟩ : Fin 8) = c := Fin.ext hindex
    rw [charged_small hc] at hfree
    rw [releaseBlock]
    rw [if_neg (by omega), dif_pos hlt, hclass]
    obtain ⟨free', hpushed⟩ := kfree_live_small hl hc hlayout
    exact ⟨⟨runs, free', hpushed⟩, ⟨hfree.used, hfree.count⟩⟩

/-- Freeing a live block takes it from the live ones. -/
theorem kfree_live :
    ∃ st', kfree A st l.ptr = some st' ∧ Good Owns st' (live.erase l) (l.ptr :: freed) := by
  obtain ⟨runs, free, hlayout⟩ := h.layout
  have hheader := hlayout.header l hl
  have hptr : l.ptr ≠ 0 := fun hzero => absurd (hzero ▸ hheader.header) (by decide)
  have hguard : Good Owns (checkGuard st (l.ptr - 24)) live freed := by
    rw [checkGuard]
    split_ifs
    · exact ⟨⟨runs, free, hlayout⟩, ⟨h.accounts.used, h.accounts.count⟩⟩
    · exact h
  refine ⟨_, ?_, releaseBlock_good hA hguard hl⟩
  rw [kfree, if_neg hptr]
  exact if_neg (not_not.mpr hheader.magic)

end

/-! ### Freeing again -/

lemma listContains_of_chain {block : ℕ} (nodes : List ℕ) {it fuel : ℕ} (h : Chain mem it nodes)
    (hfuel : nodes.length < fuel) :
    listContains mem block fuel it = some (decide (block ∈ nodes)) := by
  induction nodes generalizing it fuel with
  | nil =>
    obtain ⟨fuel, rfl⟩ := Nat.exists_eq_succ_of_ne_zero (Nat.ne_of_gt hfuel)
    rw [listContains, if_pos (show it = 0 from h)]
    simp
  | cons a rest ih =>
    obtain ⟨fuel, rfl⟩ := Nat.exists_eq_succ_of_ne_zero (Nat.ne_of_gt (Nat.zero_lt_of_lt hfuel))
    obtain ⟨rfl, hne, hrest⟩ := h
    rw [listContains, if_neg hne]
    by_cases hblock : it = block
    · simp [hblock]
    · rw [if_neg hblock, ih hrest (Nat.lt_of_succ_lt_succ hfuel)]
      simp [Ne.symm hblock]

section

variable (h : st.Layout Owns live freed runs free)
include h

lemma Layout.freeSpans_apart (c : Fin 8) : ((free c).map (freeSpan c)).Pairwise Span.Apart := by
  have hflat := (pairwise_append.mp h.apart).2.1
  exact (pairwise_flatMap.mp hflat).1 c (mem_finRange c)

lemma Layout.free_length_lt (c : Fin 8) : (free c).length < 2 ^ 64 := by
  have hle : total ((free c).map (freeSpan c)) ≤ 2 ^ 64 := by
    refine total_le (h.freeSpans_apart c) fun b hb => ?_
    obtain ⟨a, ha, rfl⟩ := mem_map.mp hb
    exact (h.block_bounds (freeSpan_mem ha)).2
  have htotal : total ((free c).map (freeSpan c)) = (free c).length * smallClassSizes c := by
    simp [total, Function.comp_def, freeSpan]
  have hmul := Nat.mul_le_mul_left (free c).length (smallClass_spec c).1
  omega

/-- The walk along the free lists ends. -/
lemma Layout.freeListContains_ne_none (block : ℕ) : smallFreeListContains st block ≠ none := by
  rw [smallFreeListContains]
  refine List.foldlRecOn (motive := (· ≠ none)) _ _ (by simp) fun found hfound c _ => ?_
  rcases found with _ | _ | _
  · exact absurd rfl hfound
  · dsimp only
    rw [listContains_of_chain (free c) (h.chain c) (h.free_length_lt c)]
    simp
  · simp

/-- The first bytes of a free block are a multiple of 32, which the magic number is not. -/
lemma Layout.free_not_magic {a : ℕ} (ha : a ∈ free c) : load 8 st.mem a ≠ allocMagic := by
  suffices hall : ∀ (nodes : List ℕ) (head : ℕ), Chain st.mem head nodes → (∀ x ∈ nodes, 32 ∣ x) →
      32 ∣ head ∧ ∀ x ∈ nodes, 32 ∣ load 8 st.mem x by
    intro hmagic
    have := (hall (free c) _ (h.chain c) (h.aligned c)).2 a ha
    rw [hmagic] at this
    exact absurd this (by decide)
  intro nodes
  induction nodes with
  | nil =>
    intro head hchain _
    rw [show head = 0 from hchain]
    simp
  | cons x rest ih =>
    rintro head ⟨rfl, -, hrest⟩ haligned
    obtain ⟨hx, haligned⟩ := forall_mem_cons.mp haligned
    obtain ⟨hnext, hall⟩ := ih _ hrest haligned
    exact ⟨hx, forall_mem_cons.mpr ⟨hnext, hall⟩⟩

end

/-- Free lists and accounting are the same; the counters of faults may differ. -/
structure SameBlocks (st st' : Heap σ) : Prop where
  mem : st'.mem = st.mem
  pages : st'.pages = st.pages
  smallFree : st'.smallFree = st.smallFree
  heapUsedBytes : st'.heapUsedBytes = st.heapUsedBytes
  liveAllocations : st'.liveAllocations = st.liveAllocations
  allocationCount : st'.allocationCount = st.allocationCount
  freeCount : st'.freeCount = st.freeCount

/-- A pointer freed before, with no allocation since, is only counted. -/
theorem kfree_again (h : Good Owns st live freed) (hp : p ∈ freed) :
    ∃ st', kfree A st p = some st' ∧ SameBlocks st st' := by
  obtain ⟨runs, free, hlayout⟩ := h.layout
  have hmagic : load 8 st.mem (p - 24) ≠ allocMagic := by
    rcases hlayout.again p hp with ⟨c, hc⟩ | ⟨hmark, -⟩
    · exact hlayout.free_not_magic hc
    · rw [hmark]
      decide
  rw [kfree]
  by_cases hzero : p = 0
  · rw [if_pos hzero]
    exact ⟨st, rfl, rfl, rfl, rfl, rfl, rfl, rfl, rfl⟩
  rw [if_neg hzero]
  rw [if_pos hmagic]
  split_ifs
  · exact ⟨_, rfl, rfl, rfl, rfl, rfl, rfl, rfl, rfl⟩
  · cases hwalk : smallFreeListContains st (p - 24) with
    | none => exact absurd hwalk (hlayout.freeListContains_ne_none _)
    | some found => cases found <;> exact ⟨_, rfl, rfl, rfl, rfl, rfl, rfl, rfl, rfl⟩

lemma SameBlocks.good {st' : Heap σ} (h : SameBlocks st st') (hgood : Good Owns st live freed) :
    Good Owns st' live freed := by
  obtain ⟨⟨runs, free, hlayout⟩, haccounts⟩ := hgood
  refine ⟨⟨runs, free, ?_⟩, h.heapUsedBytes ▸ haccounts.used, h.liveAllocations ▸ haccounts.count⟩
  rwa [h.mem, h.pages, h.smallFree]

end Kmem
