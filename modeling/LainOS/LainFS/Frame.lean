import LainOS.LainFS.Ops
import LainOS.Storage.Effects

/-!
# What the cache functions leave alone

Block traffic changes neither the tables of the storage layer nor the superblock and directory
caches, and a call that has opened a partition finds it open again. These facts hold in every
state, whatever the caches contain and whichever accesses fail.
-/

namespace LainFS

open Storage WriteBack Function

variable {l : CachedBlock} {k : BlockKey} {ok : Bool}

/-- The two states agree up to blocks: disk contents, block cache and clocks may differ. -/
structure SameMeta (st st' : State) : Prop where
  tables : SameTables st.storage st'.storage
  directory : st'.directory = st.directory
  superCache : st'.superCache = st.superCache
  directoryTag : st'.directoryTag = st.directoryTag

lemma SameMeta.refl (st : State) : SameMeta st st := ⟨SameTables.refl _, rfl, rfl, rfl⟩

variable {st st' : State}

lemma SameMeta.trans {st'' : State} (h : SameMeta st st') (h' : SameMeta st' st'') :
    SameMeta st st'' :=
  ⟨h.tables.trans h'.tables, h'.directory.trans h.directory, h'.superCache.trans h.superCache,
    h'.directoryTag.trans h.directoryTag⟩

/-! ### Blocks -/

/-- All that flushing a slot can do. -/
lemma flushSlot_cases (st : State) (i : Fin dataCacheSlots) :
    (flushDataCacheSlot st i = (true, st) ∧ ∀ l, st.dataCache i = some l → l.dirty = false) ∨
    ∃ l s, st.dataCache i = some l ∧ l.dirty = true ∧
      ((storageWritePartition st.storage l.key.1 l.key.2.toUInt64 1 (fun _ => l.data) = (false, s) ∧
          flushDataCacheSlot st i = (false, { st with storage := s })) ∨
        (storageWritePartition st.storage l.key.1 l.key.2.toUInt64 1 (fun _ => l.data) = (true, s) ∧
          flushDataCacheSlot st i = (true, { st with
            storage := s
            dataCache := update st.dataCache i (some { l with dirty := false }) }))) := by
  rcases hl : st.dataCache i with _ | l
  · exact .inl ⟨by rw [flushDataCacheSlot, hl], fun l h => by cases h⟩
  rcases hd : l.dirty with _ | _
  · refine .inl ⟨by rw [flushDataCacheSlot, hl]; exact if_pos hd, fun m h => ?_⟩
    cases h
    exact hd
  right
  have hne : ¬ l.dirty = false := by rw [hd]; decide
  rcases hw : storageWritePartition st.storage l.key.1 l.key.2.toUInt64 1 fun _ => l.data with ⟨ok, s⟩
  refine ⟨l, s, rfl, hd, ?_⟩
  cases ok with
  | false => exact .inl ⟨hw, by rw [flushDataCacheSlot, hl]; simp only [if_neg hne, hw]⟩
  | true => exact .inr ⟨hw, by rw [flushDataCacheSlot, hl]; simp only [if_neg hne, hw]⟩

variable {i : Fin dataCacheSlots}

/-- Flushing neither adds nor moves lines. -/
lemma flushSlot_lines {j : Fin dataCacheSlots}
    (h : (flushDataCacheSlot st i).2.dataCache j = some l) :
    ∃ m, st.dataCache j = some m ∧ m.key = l.key ∧ m.data = l.data ∧
      (l.dirty = true → m.dirty = true) := by
  rcases flushSlot_cases st i with ⟨hf, -⟩ | ⟨m, s, hm, hd, ⟨-, hf⟩ | ⟨-, hf⟩⟩
  · rw [hf] at h
    exact ⟨l, h, rfl, rfl, id⟩
  · rw [hf] at h
    exact ⟨l, h, rfl, rfl, id⟩
  · rw [hf] at h
    rcases update_eq_some h with ⟨rfl, ⟨⟩⟩ | ⟨-, h⟩
    · exact ⟨m, hm, rfl, rfl, fun _ => hd⟩
    · exact ⟨l, h, rfl, rfl, id⟩

lemma flushSlot_clean (h : flushDataCacheSlot st i = (true, st'))
    (hl : st'.dataCache i = some l) : l.dirty = false := by
  rcases flushSlot_cases st i with ⟨hf, hclean⟩ | ⟨m, s, -, -, ⟨-, hf⟩ | ⟨-, hf⟩⟩ <;>
    rw [hf] at h <;> cases h
  · exact hclean l hl
  · dsimp only at hl
    rw [update_self] at hl
    cases hl
    rfl

/-- Making room for a key that is not cached does not bring it in. -/
lemma flushSlot_absent (h : flushDataCacheSlot st i = (ok, st'))
    (habs : lookup st.dataCache k = none) (j : Fin dataCacheSlots) (l : CachedBlock)
    (hl : st'.dataCache j = some l) : l.key ≠ k := by
  obtain ⟨m, hm, hkey, -⟩ := flushSlot_lines (i := i) (j := j) (l := l) (by rw [h]; exact hl)
  rw [← hkey]
  exact lookup_eq_none.mp habs j m hm

/-- Slot `i` gets a line, and the clock moves on. -/
def State.putLine (st : State) (s : Storage.State) (i : Fin dataCacheSlots) (k : BlockKey)
    (data : Sector) (dirty : Bool) : State :=
  { st with
    storage := s
    cacheClock := st.cacheClock + 1
    dataCache := update st.dataCache i (some ⟨k, data, dirty, st.cacheClock + 1⟩) }

/-- All that reading a block can do. -/
lemma cacheRead_cases (st : State) (k : BlockKey) : (∃ i l, lookup st.dataCache k = some (i, l) ∧
      cachedReadBlock st k.1 k.2 = (some l.data, st.putLine st.storage i k l.data l.dirty)) ∨
    ∃ i ok st₁, flushDataCacheSlot st i = (ok, st₁) ∧
      (∀ j l, st₁.dataCache j = some l → l.key ≠ k) ∧
      ((ok = false ∧ cachedReadBlock st k.1 k.2 = (none, st₁)) ∨
        ok = true ∧ ∃ r s, storageReadPartition st₁.storage k.1 k.2.toUInt64 1 = (r, s) ∧
          ((r = none ∧ cachedReadBlock st k.1 k.2 = (none, { st₁ with
            storage := s, dataCache := update st₁.dataCache i none })) ∨
          ∃ f, r = some f ∧
            cachedReadBlock st k.1 k.2 = (some (f 0), st₁.putLine s i k (f 0) false))) := by
  rw [cachedReadBlock]
  cases hlook : lookup st.dataCache (k.1, k.2) with
  | some found =>
    obtain ⟨i, l⟩ := found
    obtain rfl : l.key = k := (lookup_eq_some hlook).2
    exact .inl ⟨i, l, rfl, rfl⟩
  | none =>
    dsimp only
    rcases hf : flushDataCacheSlot st (victim st.dataCache) with ⟨ok, st₁⟩
    refine .inr ⟨_, ok, st₁, hf, flushSlot_absent hf hlook, ?_⟩
    rcases ok with _ | _
    · exact .inl ⟨rfl, rfl⟩
    dsimp only
    rcases hr : storageReadPartition st₁.storage k.1 k.2.toUInt64 1 with ⟨r, s⟩
    refine .inr ⟨rfl, r, s, rfl, ?_⟩
    cases r with
    | none => exact .inl ⟨rfl, rfl⟩
    | some f => exact .inr ⟨f, rfl, rfl⟩

/-- All that writing a block can do. -/
lemma cacheWrite_cases (st : State) (k : BlockKey) (data : Sector) :
    (∃ i l, lookup st.dataCache k = some (i, l) ∧
      cachedWriteBlock st k.1 k.2 data = (true, st.putLine st.storage i k data true)) ∨
    ∃ i ok st₁, flushDataCacheSlot st i = (ok, st₁) ∧
      (∀ j l, st₁.dataCache j = some l → l.key ≠ k) ∧
      ((ok = false ∧ cachedWriteBlock st k.1 k.2 data = (false, st₁)) ∨
        ok = true ∧
          cachedWriteBlock st k.1 k.2 data = (true, st₁.putLine st₁.storage i k data true)) := by
  rw [cachedWriteBlock]
  cases hlook : lookup st.dataCache (k.1, k.2) with
  | some found =>
    obtain ⟨i, l⟩ := found
    obtain rfl : l.key = k := (lookup_eq_some hlook).2
    exact .inl ⟨i, l, rfl, rfl⟩
  | none =>
    dsimp only
    rcases hf : flushDataCacheSlot st (victim st.dataCache) with ⟨ok, st₁⟩
    refine .inr ⟨_, ok, st₁, hf, flushSlot_absent hf hlook, ?_⟩
    cases ok with
    | false => exact .inl ⟨rfl, rfl⟩
    | true => exact .inr ⟨rfl, rfl⟩

/-- The cache brings in lines for keys in `A` only and writes to the disk only behind its lines. -/
structure Fetches (A : Set BlockKey) (st st' : State) : Prop where
  sameMeta : SameMeta st st'
  lines : ∀ j l, st'.dataCache j = some l →
    l.key ∈ A ∨ ∃ i m, st.dataCache i = some m ∧ m.key = l.key
  sectors : ∀ p n, Isolated st.storage p →
    (∀ i l, st.dataCache i = some l → l.key.1 = p → l.key.2.toNat ≠ n) →
    partSector st'.storage p n = partSector st.storage p n

namespace Fetches

variable {A : Set BlockKey}

lemma refl (A : Set BlockKey) (st : State) : Fetches A st st :=
  ⟨.refl st, fun j l hl => .inr ⟨j, l, hl, rfl⟩, fun _ _ _ _ => rfl⟩

lemma flush (h : flushDataCacheSlot st i = (ok, st')) : Fetches A st st' := by
  have hlines : ∀ j l, st'.dataCache j = some l →
      l.key ∈ A ∨ ∃ i m, st.dataCache i = some m ∧ m.key = l.key := by
    intro j l hl
    obtain ⟨m, hm, hkey, -⟩ := flushSlot_lines (i := i) (j := j) (l := l) (by rw [h]; exact hl)
    exact .inr ⟨j, m, hm, hkey⟩
  have hwrite : ∀ l s, st.dataCache i = some l →
      storageWritePartition st.storage l.key.1 l.key.2.toUInt64 1 (fun _ => l.data) = (ok, s) →
      SameTables st.storage s ∧ ∀ p n, Isolated st.storage p →
        (∀ i l, st.dataCache i = some l → l.key.1 = p → l.key.2.toNat ≠ n) →
        partSector s p n = partSector st.storage p n := by
    intro l s hl hw
    refine ⟨write_sameTables hw, fun p n hiso hn => ?_⟩
    by_cases hp : l.key.1 = p
    · subst hp
      have hne := hn i l hl rfl
      refine write_outside (hiso.fits _) hw ?_
      rw [show (1 : UInt32).toNat = 1 from rfl]
      omega
    · exact write_other hiso hp hw n
  rcases flushSlot_cases st i with ⟨hf, -⟩ | ⟨l, s, hl, -, ⟨hw, hf⟩ | ⟨hw, hf⟩⟩ <;>
    rw [hf] at h <;> cases h
  · exact refl A st
  · obtain ⟨htables, hsectors⟩ := hwrite l s hl hw
    exact ⟨⟨htables, rfl, rfl, rfl⟩, hlines, hsectors⟩
  · obtain ⟨htables, hsectors⟩ := hwrite l s hl hw
    exact ⟨⟨htables, rfl, rfl, rfl⟩, hlines, hsectors⟩

/-- A slot gets a line for a key in `A` or none. -/
lemma set (h : Fetches A st st') {o : Option CachedBlock} (ho : ∀ l, o = some l → l.key ∈ A) (n : ℕ)
    (i : Fin dataCacheSlots) (clock : UInt64) : Fetches A st { st' with
      storage := { st'.storage with accesses := n }
      dataCache := update st'.dataCache i o
      cacheClock := clock } := by
  refine ⟨h.sameMeta.trans ⟨⟨rfl, rfl, rfl, rfl⟩, rfl, rfl, rfl⟩, fun j l hl => ?_, h.sectors⟩
  rcases update_eq_some hl with ⟨-, hl⟩ | ⟨-, hl⟩
  · exact .inl (ho l hl)
  · exact h.lines j l hl

lemma putLine (h : Fetches { k } st st') (n : ℕ) (i : Fin dataCacheSlots) (data : Sector)
    (dirty : Bool) :
    Fetches { k } st (st'.putLine { st'.storage with accesses := n } i k data dirty) :=
  h.set (fun l hl => by cases hl; rfl) n i _

end Fetches

lemma cacheRead_fetches (st : State) (k : BlockKey) :
    Fetches { k } st (cachedReadBlock st k.1 k.2).2 := by
  rcases cacheRead_cases st k with
    ⟨i, l, -, h⟩ | ⟨i, ok, st₁, hf, -, ⟨-, h⟩ | ⟨-, r, s, hr, ⟨-, h⟩ | ⟨f, -, h⟩⟩⟩ <;> rw [h]
  · exact (Fetches.refl _ st).putLine st.storage.accesses i _ _
  · exact Fetches.flush hf
  · obtain ⟨n, rfl⟩ := read_state hr
    exact (Fetches.flush hf).set (fun l hl => by cases hl) n i st₁.cacheClock
  · obtain ⟨n, rfl⟩ := read_state hr
    exact (Fetches.flush hf).putLine n i _ _

lemma cacheWrite_fetches (st : State) (k : BlockKey) (data : Sector) :
    Fetches { k } st (cachedWriteBlock st k.1 k.2 data).2 := by
  rcases cacheWrite_cases st k data with
    ⟨i, l, -, h⟩ | ⟨i, ok, st₁, hf, -, ⟨-, h⟩ | ⟨-, h⟩⟩ <;> rw [h]
  · exact (Fetches.refl _ st).putLine st.storage.accesses i _ _
  · exact Fetches.flush hf
  · exact (Fetches.flush hf).putLine st₁.storage.accesses i _ _

lemma flushSlots_sameMeta (which : CachedBlock → Bool) (is : List (Fin dataCacheSlots))
    (st : State) : SameMeta st (flushSlots which is st).2 := by
  induction is generalizing st with
  | nil => exact .refl st
  | cons i rest ih =>
    rw [flushSlots]
    rcases st.dataCache i with _ | l
    · exact ih st
    dsimp only
    split_ifs
    · rcases hf : flushDataCacheSlot st i with ⟨ok, st'⟩
      have hs := (Fetches.flush (A := ∅) hf).sameMeta
      cases ok with
      | false => exact hs
      | true => exact hs.trans (ih st')
    · exact ih st

lemma writeBlocks_sameMeta {p : UInt32} {buffer : ℕ → UInt8} {size : UInt32} {k : ℕ}
    {lbas : List UInt32} {st st' : State} (h : writeBlocks p buffer size k lbas st = (ok, st'))
    : SameMeta st st' := by
  induction lbas generalizing k st with
  | nil =>
    cases h
    exact .refl _
  | cons lba rest ih =>
    have hs := (cacheWrite_fetches st (p, lba) (fileBlock buffer size k)).sameMeta
    rw [writeBlocks] at h
    generalize cachedWriteBlock st p lba (fileBlock buffer size k) = r at hs h
    obtain ⟨_ | _, st₁⟩ := r
    · cases h
      exact hs
    · exact hs.trans (ih h)

/-! ### Superblock and directory -/

/-- All that a read changes. -/
def State.setAccesses (st : State) (n : ℕ) : State :=
  { st with storage := { st.storage with accesses := n } }

lemma SameMeta.setAccesses (st : State) (n : ℕ) : SameMeta st (st.setAccesses n) :=
  ⟨⟨rfl, rfl, rfl, rfl⟩, rfl, rfl, rfl⟩

lemma rawSuper_state (st : State) (p : UInt32) : ∃ n, (rawReadSuper st p).2 = st.setAccesses n := by
  rw [rawReadSuper]
  rcases hr : storageReadPartition st.storage p 0 1 with ⟨r, s⟩
  obtain ⟨n, rfl⟩ := read_state hr
  refine ⟨n, ?_⟩
  cases r with
  | none => rfl
  | some f =>
    dsimp only
    split_ifs <;> rfl

lemma flushSuper_state (st : State) (p : UInt32) :
    ∃ n, (superForFlush st p).2 = st.setAccesses n := by
  rw [superForFlush]
  split
  · split_ifs
    · exact ⟨st.storage.accesses, rfl⟩
    · exact rawSuper_state st p
  · exact rawSuper_state st p

/-- All that reading the superblock can do. -/
lemma readSuper_cases (st : State) (p : UInt32) :
    (∃ super, st.superCache = some (p, super) ∧ readSuper st p = (some super, st)) ∨
    ∃ n, (∀ super, st.superCache ≠ some (p, super)) ∧
      readSuper st p = ((rawReadSuper st p).1,
        { st.setAccesses n with superCache := (rawReadSuper st p).1.map fun x => (p, x) }) := by
  obtain ⟨n, hn⟩ := rawSuper_state st p
  have hread (hc : ∀ super, st.superCache ≠ some (p, super)) : readSuper st p =
      ((rawReadSuper st p).1,
        { st.setAccesses n with superCache := (rawReadSuper st p).1.map fun x => (p, x) }) := by
    rw [← hn, readSuper]
    generalize rawReadSuper st p = r
    rcases hs : st.superCache with _ | c
    · obtain ⟨_ | x, s⟩ := r <;> rfl
    have hq : c.1 ≠ p := fun hq => hc c.2 (by rw [hs, ← hq])
    dsimp only
    rw [if_neg hq]
    obtain ⟨_ | x, s⟩ := r <;> rfl
  rcases hs : st.superCache with _ | c
  · have hc (super) : st.superCache ≠ some (p, super) := by simp [hs]
    exact .inr ⟨n, hs ▸ hc, hread hc⟩
  obtain ⟨q, x⟩ := c
  by_cases hq : q = p
  · refine .inl ⟨x, by rw [hq], ?_⟩
    rw [readSuper, hs]
    exact if_pos hq
  have hc (super) : st.superCache ≠ some (p, super) := by
    rw [hs]
    intro h
    cases h
    exact hq rfl
  exact .inr ⟨n, hs ▸ hc, hread hc⟩

variable {p : UInt32} {super : CheckedSuper} {found : Option CheckedSuper}

lemma readSuper_state (h : readSuper st p = (found, st')) :
    ∃ n c, st' = { st.setAccesses n with superCache := c } := by
  rcases readSuper_cases st p with ⟨super, -, h'⟩ | ⟨n, -, h'⟩ <;> rw [h'] at h <;> cases h
  · exact ⟨st.storage.accesses, st.superCache, rfl⟩
  · exact ⟨n, _, rfl⟩

lemma readSuper_sameTables (h : readSuper st p = (found, st')) :
    SameTables st.storage st'.storage := by
  obtain ⟨n, c, rfl⟩ := readSuper_state h
  exact ⟨rfl, rfl, rfl, rfl⟩

/-- A superblock that was read is in the cache. -/
lemma readSuper_cached
    (h : readSuper st p = (some super, st')) : st'.superCache = some (p, super) := by
  rcases readSuper_cases st p with ⟨x, hs, hr⟩ | ⟨n, -, hr⟩
  · rw [hr] at h
    cases h
    exact hs
  · rw [hr, Prod.mk.injEq] at h
    rw [← h.2, h.1]
    rfl

/-- All that flushing the directory can do. -/
lemma flushDir_cases (st : State) :
    (flushDirectoryCache st = (true, st) ∧ ∀ q, st.directoryTag ≠ some ⟨q, true⟩) ∨
    ∃ q n, st.directoryTag = some ⟨q, true⟩ ∧
      (((superForFlush st q).1 = none ∧ flushDirectoryCache st = (false, st.setAccesses n)) ∨
        ∃ super ok s, (superForFlush st q).1 = some super ∧
          storageWritePartition (st.setAccesses n).storage q super.1.dirStartLba.toUInt64
            super.1.dirBlocks (sectorsOfDirectory st.directory) = (ok, s) ∧
          flushDirectoryCache st =
            (ok, { st with storage := s, directoryTag := some ⟨q, !ok⟩ })) := by
  rcases ht : st.directoryTag with _ | tag
  · exact .inl ⟨by rw [flushDirectoryCache, ht], fun q h => by cases h⟩
  obtain ⟨q, _ | _⟩ := tag
  · refine .inl ⟨by rw [flushDirectoryCache, ht]; exact if_pos rfl, fun q' h => by cases h⟩
  right
  obtain ⟨n, hn⟩ := flushSuper_state st q
  refine ⟨q, n, rfl, ?_⟩
  rw [flushDirectoryCache, ht]
  dsimp only
  rw [if_neg (by decide)]
  generalize superForFlush st q = r at hn
  obtain ⟨found, s⟩ := r
  obtain rfl : s = st.setAccesses n := hn
  rcases found with _ | super
  · exact .inl ⟨rfl, rfl⟩
  right
  dsimp only
  cases hw : storageWritePartition (st.setAccesses n).storage q
      super.1.dirStartLba.toUInt64 super.1.dirBlocks
      (sectorsOfDirectory (st.setAccesses n).directory) with
  | mk ok s =>
    refine ⟨super, ok, s, rfl, hw, ?_⟩
    cases ok
    · dsimp only
      rw [State.setAccesses, Bool.not_false, ← ht]
    · rfl

lemma flushDir_frame (st : State) : SameTables st.storage (flushDirectoryCache st).2.storage ∧
      (flushDirectoryCache st).2.directory = st.directory ∧
      (flushDirectoryCache st).2.superCache = st.superCache ∧
      (flushDirectoryCache st).2.dataCache = st.dataCache := by
  rcases flushDir_cases st with
    ⟨hf, -⟩ | ⟨q, n, -, ⟨-, hf⟩ | ⟨super, ok, s, -, hw, hf⟩⟩ <;> rw [hf]
  · exact ⟨.refl _, rfl, rfl, rfl⟩
  · exact ⟨⟨rfl, rfl, rfl, rfl⟩, rfl, rfl, rfl⟩
  · exact ⟨(SameMeta.setAccesses st n).tables.trans (write_sameTables hw), rfl, rfl, rfl⟩

lemma readDir_frame (st : State) (p : UInt32) (super : CheckedSuper) :
    SameTables st.storage (readDirectory st p super).2.storage ∧
      (readDirectory st p super).2.superCache = st.superCache ∧
      (readDirectory st p super).2.dataCache = st.dataCache := by
  rw [readDirectory]
  rcases hr : storageReadPartition st.storage p super.1.dirStartLba.toUInt64 super.1.dirBlocks with ⟨r, s⟩
  have hs := read_sameTables hr
  cases r <;> exact ⟨hs, rfl, rfl⟩

/-- All that loading a directory can do; flushing a clean buffer does nothing. -/
lemma loadRaw_cases (st : State) (p : UInt32) (super : CheckedSuper) :
    ((∃ dirty, st.directoryTag = some ⟨p, dirty⟩) ∧
      loadDirectoryUnchecked st p super = (true, st)) ∨
    (∀ dirty, st.directoryTag ≠ some ⟨p, dirty⟩) ∧ ∃ ok st₁, flushDirectoryCache st = (ok, st₁) ∧
      loadDirectoryUnchecked st p super =
        if ok then readDirectory st₁ p super else (false, st₁) := by
  rw [loadDirectoryUnchecked]
  rcases htag : st.directoryTag with _ | tag
  · exact .inr ⟨fun _ => (Option.some_ne_none _).symm, true, st, by rw [flushDirectoryCache, htag],
      rfl⟩
  obtain ⟨q, dirty⟩ := tag
  dsimp only
  by_cases hq : q = p
  · exact .inl ⟨⟨dirty, by rw [hq]⟩, if_pos hq⟩
  rw [if_neg hq]
  refine .inr ⟨fun _ h => hq (by cases h; rfl), ?_⟩
  cases dirty with
  | false => exact ⟨true, st, by rw [flushDirectoryCache, htag]; exact if_pos rfl, rfl⟩
  | true =>
    rcases hf : flushDirectoryCache st with ⟨ok, st₁⟩
    refine ⟨ok, st₁, rfl, ?_⟩
    cases ok <;> rfl

lemma loadRaw_frame (st : State) (p : UInt32) (super : CheckedSuper) :
    SameTables st.storage (loadDirectoryUnchecked st p super).2.storage ∧
      (loadDirectoryUnchecked st p super).2.superCache = st.superCache ∧
      (loadDirectoryUnchecked st p super).2.dataCache = st.dataCache := by
  rcases loadRaw_cases st p super with ⟨-, h⟩ | ⟨-, ok, st₁, hf, h⟩ <;> rw [h]
  · exact ⟨.refl _, rfl, rfl⟩
  obtain ⟨hs, -, hsuper, hdata⟩ := flushDir_frame st
  rw [hf] at hs hsuper hdata
  cases ok with
  | false => exact ⟨hs, hsuper, hdata⟩
  | true =>
    obtain ⟨hs', hsuper', hdata'⟩ := readDir_frame st₁ p super
    exact ⟨hs.trans hs', hsuper'.trans hsuper, hdata'.trans hdata⟩

/-- A directory that was loaded is in the buffer. -/
lemma loadRaw_tag (h : loadDirectoryUnchecked st p super = (true, st')) :
    ∃ dirty, st'.directoryTag = some ⟨p, dirty⟩ := by
  rcases loadRaw_cases st p super with ⟨htag, h'⟩ | ⟨-, ok, st₁, -, h'⟩ <;>
    rw [h'] at h
  · cases h
    exact htag
  cases ok with
  | false => cases h
  | true =>
    rw [if_pos rfl, readDirectory] at h
    split at h <;> cases h
    exact ⟨false, rfl⟩

/-! ### Opened partitions -/

/-- Superblock and directory of the partition are cached. -/
structure Opened (st : State) (p : UInt32) (super : CheckedSuper) : Prop where
  super : st.superCache = some (p, super)
  tag : ∃ dirty, st.directoryTag = some ⟨p, dirty⟩

lemma Opened.congr (h : Opened st p super) (hs : SameMeta st st') : Opened st' p super :=
  ⟨hs.superCache.trans h.super, by rw [hs.directoryTag]; exact h.tag⟩

lemma loadDirectory_of_tag (h : ∃ dirty, st.directoryTag = some ⟨p, dirty⟩) :
    loadDirectoryUnchecked st p super = (true, st) := by
  obtain ⟨dirty, htag⟩ := h
  rw [loadDirectoryUnchecked, htag]
  exact if_pos rfl

lemma readSuper_of_cached
    (h : st.superCache = some (p, super)) : readSuper st p = (some super, st) := by
  rw [readSuper, h]
  exact if_pos rfl

/-- Opening a partition that is open only validates the table again. -/
lemma Opened.open_eq (h : Opened st p super) : openDirectory st p =
      match validateDirectory (storageGetPartition st.storage p) super.1 st.directory with
      | none => (.ok super, st)
      | some _ => (.error .badDirectory, { st with directoryTag := none }) := by
  rw [LainFS.openDirectory, readSuper_of_cached h.super]
  dsimp only
  rw [loadDirectory, loadDirectory_of_tag h.tag]
  dsimp only
  cases validateDirectory (storageGetPartition st.storage p) super.1 st.directory <;> rfl

/-- All that the prologue of a call can do. -/
lemma openRaw_cases (st : State) (p : UInt32) : (∃ st₁, readSuper st p = (none, st₁) ∧
      openDirectoryUnchecked st p = (.error .badSuper, st₁)) ∨
    ∃ super st₁ ok st₂, readSuper st p = (some super, st₁) ∧
      loadDirectoryUnchecked st₁ p super = (ok, st₂) ∧
      openDirectoryUnchecked st p = (if ok then .ok super else .error .badDirectory, st₂) := by
  rw [openDirectoryUnchecked]
  rcases readSuper st p with ⟨found, st₁⟩
  rcases found with _ | super
  · exact .inl ⟨st₁, rfl, rfl⟩
  dsimp only
  rcases hl : loadDirectoryUnchecked st₁ p super with ⟨ok, st₂⟩
  refine .inr ⟨super, st₁, ok, st₂, rfl, hl, ?_⟩
  cases ok <;> rfl

/-- What a successful prologue leaves behind. -/
lemma openRaw_eq_ok (h : openDirectoryUnchecked st p = (.ok super, st')) :
    Opened st' p super ∧ SameTables st.storage st'.storage := by
  rcases openRaw_cases st p with
    ⟨_, -, ho⟩ | ⟨super₁, st₁, ok, st₂, hread, hload, ho⟩ <;> rw [ho] at h
  · cases h
  obtain ⟨hs, hsuper, -⟩ := loadRaw_frame st₁ p super₁
  rw [hload] at hs hsuper
  cases ok with
  | false => cases h
  | true =>
    cases h
    exact ⟨⟨hsuper.trans (readSuper_cached hread), loadRaw_tag hload⟩,
      (readSuper_sameTables hread).trans hs⟩

/-- The checked prologue is the unchecked one followed by the validator. -/
lemma open_eq (st : State) (q : UInt32) : openDirectory st q =
      match openDirectoryUnchecked st q with
      | (.error e, st') => (.error e, st')
      | (.ok super, st') =>
        match validateDirectory (storageGetPartition st'.storage q) super.1 st'.directory with
        | none => (.ok super, st')
        | some _ => (.error .badDirectory, { st' with directoryTag := none }) := by
  rw [openDirectory]
  rcases openRaw_cases st q with
    ⟨st₁, hread, ho⟩ | ⟨super, st₁, ok, st₂, hread, hload, ho⟩ <;> rw [hread, ho]
  dsimp only
  rw [loadDirectory, hload]
  cases ok with
  | false => rfl
  | true =>
    rw [if_pos rfl]
    dsimp only
    cases validateDirectory (storageGetPartition st₂.storage q) super.1 st₂.directory <;> rfl

lemma open_eq_ok (h : openDirectory st p = (.ok super, st')) :
    openDirectoryUnchecked st p = (.ok super, st') ∧
      validateDirectory (storageGetPartition st'.storage p) super.1 st'.directory = none := by
  rw [open_eq] at h
  rcases ho : openDirectoryUnchecked st p with ⟨result, st₁⟩
  rw [ho] at h
  rcases result with e | super₁
  · cases h
  dsimp only at h
  cases hv : validateDirectory (storageGetPartition st₁.storage p) super₁.1 st₁.directory with
  | some _ => rw [hv] at h; cases h
  | none =>
    rw [hv] at h
    cases h
    exact ⟨rfl, hv⟩

lemma open_opened (h : openDirectory st p = (.ok super, st')) :
    Opened st' p super ∧ SameTables st.storage st'.storage ∧
      validateDirectory (storageGetPartition st'.storage p) super.1 st'.directory = none := by
  obtain ⟨ho, hv⟩ := open_eq_ok h
  obtain ⟨hopened, htables⟩ := openRaw_eq_ok ho
  exact ⟨hopened, htables, hv⟩

end LainFS
