import LainOS.Kmem.Heap

/-!
# The invariant of the kernel heap

The blocks of the heap are the live ones and those on the free lists. They are pairwise apart and
each lies in a page run the heap holds. Everything an operation writes lies in one block or in a run
just handed out, so what the other blocks hold is unchanged (`Invariant.of_changed`).
-/

namespace Kmem

open Mem List Function Span

variable {size : UInt32} {c : Fin 8} {a : ℕ} {rest : List ℕ} {l : LiveBlock} {r : Span}

/-- A pointer handed out by `kmalloc`, with the size asked for. -/
structure LiveBlock where
  ptr : ℕ
  size : UInt32
deriving DecidableEq

/-- The bytes `kmalloc` charges for a block. -/
def chargedBytes (size : UInt32) : ℕ :=
  match classForSize size with
  | some c => smallClassSizes c
  | none => (largePages size).toNat * 4096

/-- The block from its header on. -/
def LiveBlock.block (l : LiveBlock) : Span := ⟨l.ptr - 24, chargedBytes l.size⟩

/-- The payload and the guard. -/
def LiveBlock.region (l : LiveBlock) : Span := ⟨l.ptr, l.size.toNat + 4⟩

/-- The nodes of a free list from `head` on. -/
def Chain (mem : Mem) : ℕ → List ℕ → Prop
  | head, [] => head = 0
  | head, a :: rest => head = a ∧ a ≠ 0 ∧ Chain mem (load 8 mem a) rest

def freeSpan (c : Fin 8) (a : ℕ) : Span := ⟨a, smallClassSizes c⟩

def blocks (live : List LiveBlock) (free : Fin 8 → List ℕ) : List Span :=
  live.map LiveBlock.block ++ (List.finRange 8).flatMap fun c => (free c).map (freeSpan c)

/-- The header of a live block, as `kfree` reads it. -/
structure HeaderAt (mem : Mem) (l : LiveBlock) : Prop where
  header : 24 ≤ l.ptr
  fits : l.size.toNat + 28 ≤ chargedBytes l.size
  magic : load 8 mem (l.ptr - 24) = allocMagic
  bytes : load 4 mem (l.ptr - 24 + 8) = l.size.toNat
  classIndex : load 2 mem (l.ptr - 24 + 16) =
    match classForSize l.size with
    | some c => c
    | none => 0xFFFF
  pageCount : classForSize l.size = none →
    load 2 mem (l.ptr - 24 + 18) = (largePages l.size).toNat

/-- The page allocator hands out runs that are apart from all the runs held. `Owns s runs` says that
in the state `s` the runs in the list are held. -/
structure PageAllocator.HandsOut {σ : Type*} (A : PageAllocator σ) (Owns : σ → List Span → Prop) :
    Prop where
  alloc : ∀ s runs n, Owns s runs → (A.pageAlloc s n).1 = 0 ∧ Owns (A.pageAlloc s n).2 runs ∨
    (A.pageAlloc s n).1 ≠ 0 ∧ PageRun ⟨(A.pageAlloc s n).1, n.toNat * 4096⟩ ∧
      (∀ r ∈ runs, Span.Apart ⟨(A.pageAlloc s n).1, n.toNat * 4096⟩ r) ∧
      Owns (A.pageAlloc s n).2 (⟨(A.pageAlloc s n).1, n.toNat * 4096⟩ :: runs)
  free : ∀ s runs addr n, Owns s runs → ⟨addr, n.toNat * 4096⟩ ∈ runs →
    Owns (A.pageFree s addr n) (runs.erase ⟨addr, n.toNat * 4096⟩)

/-- Where the blocks are. `runs` are the page runs the heap holds, `free` the nodes of the free
lists. `freed` holds the pointers freed since the last allocation: a small one is still on a free
list, a large one still has its mark, outside all blocks. -/
structure Layout {σ : Type*} (Owns : σ → List Span → Prop) (mem : Mem) (pages : σ)
    (smallFree : Fin 8 → ℕ) (live : List LiveBlock) (freed : List ℕ) (runs : List Span)
    (free : Fin 8 → List ℕ) : Prop where
  owns : Owns pages runs
  run : ∀ r ∈ runs, PageRun r ∧ r.start ≠ 0
  chain : ∀ c, Chain mem (smallFree c) (free c)
  aligned : ∀ c, ∀ a ∈ free c, 32 ∣ a
  liveAligned : ∀ l ∈ live, 32 ∣ l.ptr - 24
  apart : (blocks live free).Pairwise Span.Apart
  inside : ∀ b ∈ blocks live free, ∃ r ∈ runs, Span.Inside b r
  whole : ∀ l ∈ live, classForSize l.size = none → l.block ∈ runs
  header : ∀ l ∈ live, HeaderAt mem l
  again : ∀ p ∈ freed, (∃ c, p - 24 ∈ free c) ∨
    load 8 mem (p - 24) = freedMagic ∧ ∀ b ∈ blocks live free, Span.Apart ⟨p - 24, 8⟩ b

/-- What the counters say about the live blocks. -/
structure Accounts {σ : Type*} (st : Heap σ) (live : List LiveBlock) : Prop where
  used : st.heapUsedBytes.toNat = (live.map fun l => chargedBytes l.size).sum
  count : st.liveAllocations.toNat = live.length

/-! ### Sizes -/

lemma smallClass_spec (c : Fin 8) :
    32 ≤ smallClassSizes c ∧ 32 ∣ smallClassSizes c ∧ smallClassSizes c ∣ 4096 := by
  revert c
  decide

lemma classForSize_some (h : classForSize size = some c) : size.toNat + 28 ≤ smallClassSizes c := by
  rw [classForSize] at h
  split_ifs at h with hbig
  have hle : (size + 28).toNat ≤ smallClassSizes c := by simpa using find?_some h
  have hsize : size.toNat ≤ 0xFFFFFFFF - 28 := UInt32.le_iff_toNat_le.mp (UInt32.not_lt.mp hbig)
  rwa [UInt32.toNat_add, Nat.mod_eq_of_lt (by simp; omega)] at hle

/-- The number of pages of a large block: enough, and it fits the header. -/
lemma largePages_spec (hsize : ¬ size > 0xFFFFFFFF - 28 - 4095)
    (hpages : ¬ largePages size > 0xFFFF) :
    size.toNat + 28 ≤ (largePages size).toNat * 4096 ∧ (largePages size).toNat ≤ 0xFFFF := by
  have hle : size.toNat ≤ 0xFFFFFFFF - 28 - 4095 :=
    UInt32.le_iff_toNat_le.mp (UInt32.not_lt.mp hsize)
  have htoNat : (largePages size).toNat = (size.toNat + 28 + 4095) / 4096 := by
    rw [largePages, UInt32.toNat_div, UInt32.toNat_add, UInt32.toNat_add]
    simp only [UInt32.reduceToNat]
    rw [Nat.mod_eq_of_lt (by omega), Nat.mod_eq_of_lt (by omega)]
  refine ⟨by omega, UInt32.le_iff_toNat_le.mp (UInt32.not_lt.mp hpages)⟩

lemma charged_small (h : classForSize size = some c) : chargedBytes size = smallClassSizes c := by
  rw [chargedBytes, h]

lemma charged_large (h : classForSize size = none) :
    chargedBytes size = (largePages size).toNat * 4096 := by
  rw [chargedBytes, h]

/-! ### Blocks -/

section

variable {live : List LiveBlock} {free : Fin 8 → List ℕ}

lemma flatMap_update_perm {ι α : Type*} [DecidableEq ι] {cs : List ι} (hnodup : cs.Nodup) {c : ι}
    (hc : c ∈ cs) (f : ι → List α) (a : α) (rest : List α) (hf : f c = a :: rest) :
    (cs.flatMap f).Perm (a :: cs.flatMap (update f c rest)) := by
  induction cs with
  | nil => cases hc
  | cons d ds ih =>
    obtain ⟨hd, hds⟩ := nodup_cons.mp hnodup
    simp only [flatMap_cons]
    rcases mem_cons.mp hc with rfl | hc
    · have hsame : ds.flatMap (update f c rest) = ds.flatMap f :=
        flatMap_congr fun d hmem => update_of_ne (fun h : d = c => hd (h ▸ hmem)) _ _
      rw [update_self, hf, hsame, cons_append]
    · have hne : d ≠ c := fun h => hd (h ▸ hc)
      rw [update_of_ne hne]
      exact ((ih hds hc).append_left _).trans perm_middle

/-- Taking the first node off a free list takes its block away. -/
lemma blocks_pop (h : free c = a :: rest) :
    (blocks live free).Perm (freeSpan c a :: blocks live (update free c rest)) := by
  have hperm := flatMap_update_perm (nodup_finRange 8) (mem_finRange c)
    (fun c => (free c).map (freeSpan c)) (freeSpan c a) (rest.map (freeSpan c)) (by simp [h])
  have hupdate : (update (fun c => (free c).map (freeSpan c)) c (rest.map (freeSpan c))) =
      fun d => ((update free c rest) d).map (freeSpan d) := by
    funext d
    by_cases hd : d = c
    · subst hd
      simp
    · simp [hd]
  rw [hupdate] at hperm
  exact (hperm.append_left _).trans perm_middle

lemma blocks_push (live : List LiveBlock) (free : Fin 8 → List ℕ) (c : Fin 8) (a : ℕ) :
    (blocks live (update free c (a :: free c))).Perm (freeSpan c a :: blocks live free) := by
  have h : (blocks live (update free c (a :: free c))).Perm (freeSpan c a ::
      blocks live (update (update free c (a :: free c)) c (free c))) :=
    blocks_pop (by simp)
  simpa using h

lemma freeSpan_mem (h : a ∈ free c) : freeSpan c a ∈ blocks live free :=
  mem_append_right _ (mem_flatMap.mpr ⟨c, mem_finRange c, mem_map_of_mem h⟩)

lemma block_mem (h : l ∈ live) : l.block ∈ blocks live free := mem_append_left _ (mem_map_of_mem h)

lemma blocks_perm {live' : List LiveBlock} (h : live.Perm live') :
    (blocks live free).Perm (blocks live' free) :=
  (h.map _).append_right _

end

/-! ### Writes that leave the blocks alone -/

section

variable {mem mem' : Mem} {a : Span}

lemma Chain.of_changed (hchanged : Changed a mem mem') {head : ℕ} {nodes : List ℕ}
    (h : Chain mem head nodes) (hapart : ∀ x ∈ nodes, Span.Apart ⟨x, 8⟩ a) :
    Chain mem' head nodes := by
  induction nodes generalizing head with
  | nil => exact h
  | cons x rest ih =>
    obtain ⟨rfl, hne, hrest⟩ := h
    obtain ⟨hx, hapart⟩ := forall_mem_cons.mp hapart
    exact ⟨rfl, hne, by rw [hchanged.load hx]; exact ih hrest hapart⟩

lemma HeaderAt.of_changed (hchanged : Changed a mem mem') (h : HeaderAt mem l)
    (hapart : Span.Apart ⟨l.ptr - 24, 24⟩ a) : HeaderAt mem' l := by
  have hfield : ∀ n off, off + n ≤ 24 → load n mem' (l.ptr - 24 + off) = load n mem (l.ptr - 24 + off) := by
    intro n off hle
    refine hchanged.load (hapart.of_inside ⟨?_, ?_⟩ (.refl a)) <;>
      simp only [stop] <;> omega
  exact ⟨h.header, h.fits, (hfield 8 0 (by decide)).trans h.magic,
    (hfield 4 8 (by decide)).trans h.bytes, (hfield 2 16 (by decide)).trans h.classIndex,
    fun hlarge => (hfield 2 18 (by decide)).trans (h.pageCount hlarge)⟩

end

variable {σ : Type*} {Owns : σ → List Span → Prop} {mem mem' : Mem} {pages : σ}
  {smallFree : Fin 8 → ℕ} {live : List LiveBlock} {freed : List ℕ} {runs : List Span}
  {free : Fin 8 → List ℕ} (h : Layout Owns mem pages smallFree live freed runs free)
include h

lemma Layout.forget : Layout Owns mem pages smallFree live [] runs free :=
  { h with again := by simp }

/-- A write that reaches no header, no node of a free list and no mark. -/
lemma Layout.of_changed {a : Span} (hchanged : Changed a mem mem')
    (hfree : ∀ c, ∀ x ∈ free c, Span.Apart ⟨x, 8⟩ a)
    (hlive : ∀ l ∈ live, Span.Apart ⟨l.ptr - 24, 24⟩ a)
    (hfreed : ∀ p ∈ freed, (∃ c, p - 24 ∈ free c) ∨ Span.Apart ⟨p - 24, 8⟩ a) :
    Layout Owns mem' pages smallFree live freed runs free :=
  { h with
    chain := fun c => (h.chain c).of_changed hchanged (hfree c)
    header := fun l hl => (h.header l hl).of_changed hchanged (hlive l hl)
    again := fun p hp => by
      rcases h.again p hp with hsmall | ⟨hmark, hapart⟩
      · exact .inl hsmall
      · exact (hfreed p hp).imp_right fun ha => ⟨(hchanged.load ha).trans hmark, hapart⟩ }

lemma Layout.charged_pos (hl : l ∈ live) : 28 ≤ l.block.len := by
  have := (h.header l hl).fits
  exact (Nat.le_add_left _ _).trans this

lemma Layout.header_inside (hl : l ∈ live) : Span.Inside ⟨l.ptr - 24, 24⟩ l.block :=
  ⟨le_refl _, Nat.add_le_add_left ((by decide : 24 ≤ 28).trans (h.charged_pos hl)) _⟩

/-- A live block is apart from all the other blocks. -/
lemma Layout.apart_rest (hl : l ∈ live) :
    ∀ b ∈ blocks (live.erase l) free, Span.Apart l.block b := by
  have hperm : (blocks live free).Perm (l.block :: blocks (live.erase l) free) :=
    blocks_perm (perm_cons_erase hl)
  exact (pairwise_cons.mp (hperm.pairwise h.apart fun hab => hab.symm)).1

lemma Layout.block_bounds {b : Span} (hb : b ∈ blocks live free) :
    4096 ≤ b.start ∧ b.stop ≤ 2 ^ 64 := by
  obtain ⟨r, hr, hin⟩ := h.inside b hb
  obtain ⟨hrun, hne⟩ := h.run r hr
  refine ⟨(Nat.le_of_dvd (Nat.pos_of_ne_zero hne) hrun.aligned).trans hin.1, hin.2.trans hrun.below⟩

/-- The live blocks have fewer than `2^64` bytes in all. -/
lemma Layout.charged_lt : (live.map fun l => chargedBytes l.size).sum < 2 ^ 64 := by
  have hle : 4096 + total (live.map LiveBlock.block) ≤ 2 ^ 64 := by
    show total (⟨0, 4096⟩ :: live.map LiveBlock.block) ≤ 2 ^ 64
    refine total_le (pairwise_cons.mpr ⟨fun b hb => .inl ?_, ?_⟩)
      (forall_mem_cons.mpr ⟨by decide, fun b hb => ?_⟩)
    · exact (h.block_bounds (mem_append_left _ hb)).1
    · exact (pairwise_append.mp h.apart).1
    · exact (h.block_bounds (mem_append_left _ hb)).2
  have htotal : total (live.map LiveBlock.block) = (live.map fun l => chargedBytes l.size).sum := by
    rw [total, map_map]
    rfl
  omega

lemma Layout.length_lt : live.length < 2 ^ 64 := by
  have hpos : ∀ x ∈ live.map fun l => chargedBytes l.size, 1 ≤ x := by
    intro x hx
    obtain ⟨l, hl, rfl⟩ := mem_map.mp hx
    exact (by decide : 1 ≤ 28).trans (h.charged_pos hl)
  have hle := length_le_sum_of_one_le _ hpos
  rw [length_map] at hle
  exact hle.trans_lt h.charged_lt

/-! ### Moves of blocks -/

omit h in
lemma node_inside (c : Fin 8) (a : ℕ) : Span.Inside ⟨a, 8⟩ (freeSpan c a) :=
  ⟨le_refl _, Nat.add_le_add_left ((by decide : 8 ≤ 32).trans (smallClass_spec c).1) _⟩

/-- A write into a span that is apart from all blocks. -/
lemma Layout.of_changed_apart {a : Span} (hchanged : Changed a mem mem')
    (hapart : ∀ b ∈ blocks live free, Span.Apart a b)
    (hfreed : ∀ p ∈ freed, (∃ c, p - 24 ∈ free c) ∨ Span.Apart ⟨p - 24, 8⟩ a) :
    Layout Owns mem' pages smallFree live freed runs free :=
  h.of_changed hchanged
    (fun c x hx => (hapart _ (freeSpan_mem hx)).symm.of_inside (node_inside c x) (.refl a))
    (fun _ hl => (hapart _ (block_mem hl)).symm.of_inside (h.header_inside hl) (.refl a)) hfreed

omit h in
lemma Layout.newRun (h : Layout Owns mem pages smallFree live [] runs free) {pages' : σ}
    (hrun : PageRun r) (hne : r.start ≠ 0) (hapart : ∀ r' ∈ runs, Span.Apart r r')
    (howns : Owns pages' (r :: runs)) (hchanged : Changed r mem mem') :
    Layout Owns mem' pages' smallFree live [] (r :: runs) free ∧
      ∀ b ∈ blocks live free, Span.Apart r b := by
  have hblocks : ∀ b ∈ blocks live free, Span.Apart r b := by
    intro b hb
    obtain ⟨r', hr', hin⟩ := h.inside b hb
    exact (hapart r' hr').of_inside (.refl r) hin
  have h' := h.of_changed_apart hchanged hblocks (by simp)
  refine ⟨{ h' with owns := howns, run := ?_, inside := fun b hb => ?_, whole := fun l hl hlarge => ?_ },
    hblocks⟩
  · exact forall_mem_cons.mpr ⟨⟨hrun, hne⟩, h.run⟩
  · obtain ⟨r', hr', hin⟩ := h.inside b hb
    exact ⟨r', mem_cons_of_mem _ hr', hin⟩
  · exact mem_cons_of_mem _ (h.whole l hl hlarge)

/-- The head of a free list fits the eight bytes of a `next` field. -/
lemma Layout.head_lt (c : Fin 8) : smallFree c < 256 ^ 8 := by
  have hchain := h.chain c
  rcases hnodes : free c with _ | ⟨a, rest⟩
  · rw [hnodes] at hchain
    rw [show smallFree c = 0 from hchain]
    decide
  rw [hnodes] at hchain
  have hmem : a ∈ free c := hnodes ▸ mem_cons_self ..
  have hstop := (h.block_bounds (freeSpan_mem hmem)).2
  have hsize := (smallClass_spec c).1
  rw [hchain.1]
  simp only [freeSpan, stop] at hstop
  omega

/-- A block outside all others goes onto a free list. -/
lemma Layout.push (c : Fin 8) (h32 : 32 ∣ a)
    (hapart : ∀ b ∈ blocks live free, Span.Apart (freeSpan c a) b)
    (hin : ∃ r ∈ runs, Span.Inside (freeSpan c a) r)
    (hmarks : ∀ p ∈ freed, (∃ c, p - 24 ∈ free c) ∨ Span.Apart ⟨p - 24, 8⟩ (freeSpan c a)) :
    Layout Owns (store 8 mem a (smallFree c)) pages (update smallFree c a) live freed runs
      (update free c (a :: free c)) := by
  have hchanged : Changed (freeSpan c a) mem (store 8 mem a (smallFree c)) :=
    (store_changed 8 mem a _).mono (node_inside c a).1 (node_inside c a).2
  have h' := h.of_changed_apart hchanged hapart hmarks
  have hperm := blocks_push live free c a
  have hmem : ∀ {d x}, x ∈ free d → x ∈ update free c (a :: free c) d := by
    intro d x hx
    by_cases hd : d = c
    · subst hd
      rw [update_self]
      exact mem_cons_of_mem _ hx
    · rwa [update_of_ne hd]
  obtain ⟨r, hr, hinside⟩ := hin
  have hne : a ≠ 0 := by
    have := Nat.pos_of_ne_zero (h.run r hr).2
    have hstart : r.start ≤ a := hinside.1
    omega
  refine ⟨h.owns, h.run, fun d => ?_, fun d x hx => ?_, h.liveAligned, ?_, fun b hb => ?_, h.whole,
    h'.header, fun p hp => ?_⟩
  · by_cases hd : d = c
    · subst hd
      rw [update_self, update_self]
      refine ⟨rfl, hne, ?_⟩
      rw [load_store_same, Nat.mod_eq_of_lt (h.head_lt d)]
      exact h'.chain d
    · rw [update_of_ne hd, update_of_ne hd]
      exact h'.chain d
  · by_cases hd : d = c
    · subst hd
      rw [update_self] at hx
      rcases mem_cons.mp hx with rfl | hx
      · exact h32
      · exact h.aligned d x hx
    · rw [update_of_ne hd] at hx
      exact h.aligned d x hx
  · exact hperm.symm.pairwise (pairwise_cons.mpr ⟨hapart, h.apart⟩) fun hab => hab.symm
  · rcases mem_cons.mp (hperm.mem_iff.mp hb) with rfl | hb
    · exact ⟨r, hr, hinside⟩
    · exact h.inside b hb
  · rcases h'.again p hp with ⟨d, hd⟩ | ⟨hmark, hblocks⟩
    · exact .inl ⟨d, hmem hd⟩
    rcases hmarks p hp with ⟨d, hd⟩ | ha
    · exact .inl ⟨d, hmem hd⟩
    · refine .inr ⟨hmark, fun b hb => ?_⟩
      rcases mem_cons.mp (hperm.mem_iff.mp hb) with rfl | hb
      · exact ha
      · exact hblocks b hb

omit h in
/-- The first block of a free list comes off it. -/
lemma Layout.pop (h : Layout Owns mem pages smallFree live [] runs free)
    (hfree : free c = a :: rest) :
    Layout Owns mem pages (update smallFree c (load 8 mem a)) live [] runs (update free c rest) ∧
    smallFree c = a ∧ a ≠ 0 ∧ 32 ∣ a ∧ (∃ r ∈ runs, Span.Inside (freeSpan c a) r) ∧
    ∀ b ∈ blocks live (update free c rest), Span.Apart (freeSpan c a) b := by
  have hperm : (blocks live free).Perm (freeSpan c a :: blocks live (update free c rest)) :=
    blocks_pop hfree
  obtain ⟨hapart, hrest⟩ := pairwise_cons.mp (hperm.pairwise h.apart fun hab => hab.symm)
  have hchain := h.chain c
  rw [hfree] at hchain
  obtain ⟨hhead, hne, hnext⟩ := hchain
  have hmem : a ∈ free c := hfree ▸ mem_cons_self ..
  refine ⟨⟨h.owns, h.run, fun d => ?_, fun d x hx => ?_, h.liveAligned, hrest, fun b hb => ?_,
    h.whole, h.header, by simp⟩, hhead, hne, h.aligned c a hmem, h.inside _ (freeSpan_mem hmem),
    hapart⟩
  · by_cases hd : d = c
    · subst hd
      rwa [update_self, update_self]
    · rw [update_of_ne hd, update_of_ne hd]
      exact h.chain d
  · by_cases hd : d = c
    · subst hd
      rw [update_self] at hx
      exact h.aligned d x (hfree ▸ mem_cons_of_mem _ hx)
    · rw [update_of_ne hd] at hx
      exact h.aligned d x hx
  · exact h.inside b (hperm.mem_iff.mpr (mem_cons_of_mem _ hb))

omit h in
/-- A block outside all others becomes live. -/
lemma Layout.addLive (h : Layout Owns mem pages smallFree live [] runs free)
    (hheader : HeaderAt mem l) (h32 : 32 ∣ l.ptr - 24)
    (hapart : ∀ b ∈ blocks live free, Span.Apart l.block b)
    (hin : ∃ r ∈ runs, Span.Inside l.block r) (hwhole : classForSize l.size = none → l.block ∈ runs)
    :
    Layout Owns mem pages smallFree (l :: live) [] runs free :=
  { h with
    liveAligned := forall_mem_cons.mpr ⟨h32, h.liveAligned⟩
    apart := pairwise_cons.mpr ⟨hapart, h.apart⟩
    inside := forall_mem_cons.mpr ⟨hin, h.inside⟩
    whole := forall_mem_cons.mpr ⟨hwhole, h.whole⟩
    header := forall_mem_cons.mpr ⟨hheader, h.header⟩
    again := by simp }

/-- A live block is given up: it is apart from the blocks that are left. -/
lemma Layout.dropLive (hl : l ∈ live) :
    Layout Owns mem pages smallFree (live.erase l) freed runs free := by
  have hperm : (blocks live free).Perm (l.block :: blocks (live.erase l) free) :=
    blocks_perm (perm_cons_erase hl)
  have hsub : ∀ b ∈ blocks (live.erase l) free, b ∈ blocks live free := fun b hb =>
    hperm.mem_iff.mpr (mem_cons_of_mem _ hb)
  exact
    { h with
      liveAligned := fun l' hl' => h.liveAligned l' (mem_of_mem_erase hl')
      apart := (pairwise_cons.mp (hperm.pairwise h.apart fun hab => hab.symm)).2
      inside := fun b hb => h.inside b (hsub b hb)
      whole := fun l' hl' => h.whole l' (mem_of_mem_erase hl')
      header := fun l' hl' => h.header l' (mem_of_mem_erase hl')
      again := fun p hp => (h.again p hp).imp_right fun hmark =>
        ⟨hmark.1, fun b hb => hmark.2 b (hsub b hb)⟩ }

/-- A run that is apart from all blocks goes back to the page allocator. -/
lemma Layout.dropRun {pages' : σ} (howns : Owns pages' (runs.erase r))
    (hapart : ∀ b ∈ blocks live free, Span.Apart r b) :
    Layout Owns mem pages' smallFree live freed (runs.erase r) free := by
  have hkeep : ∀ b ∈ blocks live free, ∀ r' ∈ runs, 0 < b.len → Span.Inside b r' →
      r' ∈ runs.erase r := by
    intro b hb r' hr' hpos hin
    refine (mem_erase_of_ne fun heq => ?_).mpr hr'
    exact (hapart b hb).symm.not_inside hpos (heq ▸ hin)
  have hpos : ∀ b ∈ blocks live free, 0 < b.len := by
    intro b hb
    rcases mem_append.mp hb with hb | hb
    · obtain ⟨l, hl, rfl⟩ := mem_map.mp hb
      exact (by decide : 0 < 28).trans_le (h.charged_pos hl)
    · obtain ⟨c, -, hb⟩ := mem_flatMap.mp hb
      obtain ⟨a, -, rfl⟩ := mem_map.mp hb
      exact (by decide : 0 < 32).trans_le (smallClass_spec c).1
  exact
    { h with
      owns := howns
      run := fun r' hr' => h.run r' (mem_of_mem_erase hr')
      inside := fun b hb => by
        obtain ⟨r', hr', hin⟩ := h.inside b hb
        exact ⟨r', hkeep b hb r' hr' (hpos b hb) hin, hin⟩
      whole := fun l hl hlarge => hkeep _ (block_mem hl) _ (h.whole l hl hlarge)
        (hpos _ (block_mem hl)) (.refl _) }

end Kmem
