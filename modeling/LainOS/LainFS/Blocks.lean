import LainOS.LainFS.Frame

/-!
# Block traffic

What reading and writing blocks through the cache does to one partition: `BlockStep` says that the
blocks stay coherent and look the same except where they are written, that only the named blocks
are brought into the cache, and that the disk changes only behind cached blocks. The steps compose,
so the loops over the blocks of a file are covered as well.
-/

namespace LainFS

open Storage WriteBack List

variable {ok : Bool} {st' : State} {i : Fin dataCacheSlots} {size q lba : UInt32}
  {lbas : List UInt32}

def sectorAt (s : Storage.State) (k : BlockKey) : Sector := partSector s k.1 k.2.toNat

/-- The block as the file system sees it. -/
def blockView (st : State) (p lba : UInt32) : Sector :=
  view st.dataCache (sectorAt st.storage) (p, lba)

def blocksOf (p : UInt32) : Set BlockKey := { k | k.1 = p }

/-- No block of the partition is cached twice, and the clean ones agree with the disk. -/
def BlocksAt (st : State) (p : UInt32) : Prop :=
  CoherentOn (blocksOf p) st.dataCache (sectorAt st.storage)

/-- From `st` to `st'` the blocks in `E` may have been written and those in `K` brought in. -/
structure BlockStep (p : UInt32) (E K : Set UInt32) (st st' : State) : Prop where
  sameMeta : SameMeta st st'
  blocks : BlocksAt st' p
  view : ∀ lba ∉ E, blockView st' p lba = blockView st p lba
  lines : ∀ i l, st'.dataCache i = some l → l.key.1 = p →
    l.key.2 ∈ K ∨ ∃ j m, st.dataCache j = some m ∧ m.key = l.key
  sectors : ∀ n, (∀ lba ∈ K, lba.toNat ≠ n) →
    (∀ i l, st.dataCache i = some l → l.key.1 = p → l.key.2.toNat ≠ n) →
    partSector st'.storage p n = partSector st.storage p n

namespace BlockStep

variable {p : UInt32} {E K : Set UInt32} {st st'' : State}

lemma refl (h : BlocksAt st p) (E K : Set UInt32) : BlockStep p E K st st :=
  ⟨.refl st, h, fun _ _ => rfl, fun i l hl _ => .inr ⟨i, l, hl, rfl⟩, fun _ _ _ => rfl⟩

lemma trans (h : BlockStep p E K st st') (h' : BlockStep p E K st' st'') :
    BlockStep p E K st st'' := by
  refine ⟨h.sameMeta.trans h'.sameMeta, h'.blocks, fun lba hE => (h'.view lba hE).trans
    (h.view lba hE), fun i l hl hp => ?_, fun n hK hn => ?_⟩
  · rcases h'.lines i l hl hp with hmem | ⟨j, m, hm, hkey⟩
    · exact .inl hmem
    · rcases h.lines j m hm (by rw [hkey]; exact hp) with hmem | ⟨j', m', hm', hkey'⟩
      · exact .inl (hkey ▸ hmem)
      · exact .inr ⟨j', m', hm', hkey'.trans hkey⟩
  · refine (h'.sectors n hK fun i l hl hp => ?_).trans (h.sectors n hK hn)
    rcases h.lines i l hl hp with hmem | ⟨j, m, hm, hkey⟩
    · exact hK _ hmem
    · rw [← hkey]
      exact hn j m hm (by rw [hkey]; exact hp)

lemma mono {E' K' : Set UInt32} (h : BlockStep p E K st st') (hE : E ⊆ E') (hK : K ⊆ K') :
    BlockStep p E' K' st st' :=
  ⟨h.sameMeta, h.blocks, fun lba hn => h.view lba fun hmem => hn (hE hmem),
    fun i l hl hp => (h.lines i l hl hp).imp_left fun hmem => hK hmem,
    fun n hn => h.sectors n fun lba hmem => hn lba (hK hmem)⟩

end BlockStep

/-! ### The disk as a store -/

/-- The disk is a store for the keys in `K`, as long as its tables satisfy `Ok`: an access changes
only what it names. -/
structure StoreOf (K : Set BlockKey) (Ok : Storage.State → Prop)
    (store : Storage.State → BlockKey → Sector) : Prop where
  accesses : ∀ s n, store { s with accesses := n } = store s
  congr : ∀ {s s'}, Ok s → SameTables s s' → Ok s'
  found : ∀ {s s' k f}, Ok s → k ∈ K →
    storageReadPartition s k.1 k.2.toUInt64 1 = (some f, s') → f 0 = store s k
  other : ∀ {s s' k k' data ok}, Ok s → k' ∈ K → k' ≠ k →
    storageWritePartition s k.1 k.2.toUInt64 1 (fun _ => data) = (ok, s') → store s' k' = store s k'
  self : ∀ {s s' k data}, Ok s → k ∈ K →
    storageWritePartition s k.1 k.2.toUInt64 1 (fun _ => data) = (true, s') → store s' k = data

/-- What is seen under the keys in `K` stays the same, except in `E`. -/
structure Seen (K : Set BlockKey) (store : Storage.State → BlockKey → Sector) (E : Set BlockKey)
    (st st' : State) : Prop where
  coherent : CoherentOn K st'.dataCache (store st'.storage)
  view : ∀ k ∈ K, k ∉ E → WriteBack.view st'.dataCache (store st'.storage) k =
    WriteBack.view st.dataCache (store st.storage) k

section

variable {K E : Set BlockKey} {Ok : Storage.State → Prop}
  {store : Storage.State → BlockKey → Sector} {st : State}

lemma Seen.refl (h : CoherentOn K st.dataCache (store st.storage)) : Seen K store E st st :=
  ⟨h, fun _ _ _ => rfl⟩

namespace StoreOf

variable (hstore : StoreOf K Ok store) (hok : Ok st.storage)
  (h : CoherentOn K st.dataCache (store st.storage))
include hstore hok h

lemma flush (hf : flushDataCacheSlot st i = (ok, st')) : Seen K store E st st' := by
  rcases flushSlot_cases st i with ⟨hf', -⟩ | ⟨l, s, hl, hd, ⟨hw, hf'⟩ | ⟨hw, hf'⟩⟩ <;>
    rw [hf'] at hf <;> cases hf
  · exact Seen.refl h
  -- whatever the write leaves on the disk is behind the line
  · obtain ⟨hcoh, hview⟩ := h.store_behind (store s) hl hd fun k hk hne => hstore.other hok hk hne hw
    exact ⟨hcoh, fun k hk _ => hview k hk⟩
  obtain ⟨hcoh, hview⟩ := h.store_behind (store s) hl hd fun k hk hne => hstore.other hok hk hne hw
  obtain ⟨hcoh', hother, hself⟩ := hcoh.modify hl { l with dirty := false } rfl
    fun _ hk => (hstore.self hok hk hw).symm
  refine ⟨hcoh', fun k hk _ => ?_⟩
  by_cases hkey : k = l.key
  · subst hkey
    exact (hself hk).trans (h.view_of_line hl hk).symm
  · exact (hother k hk hkey).trans (hview k hk)

/-- Reading is not seen, and a read that succeeds returns what is seen. -/
lemma read (k : BlockKey) : Seen K store ∅ st (cachedReadBlock st k.1 k.2).2 ∧ (k ∈ K → ∀ data,
      (cachedReadBlock st k.1 k.2).1 = some data →
        data = WriteBack.view st.dataCache (store st.storage) k) := by
  rcases cacheRead_cases st k with
    ⟨i, l, hlook, hr⟩ | ⟨i, ok, st₁, hf, habs, ⟨-, hr⟩ | ⟨rfl, r, s, hread, hcase⟩⟩
  · obtain ⟨hl, rfl⟩ := lookup_eq_some hlook
    obtain ⟨hcoh, hother, hself⟩ := h.modify hl
      ⟨l.key, l.data, l.dirty, st.cacheClock + 1⟩ rfl fun hd hk => h.clean i l hl hk hd
    have hdata : WriteBack.view st.dataCache (store st.storage) l.key = l.data :=
      view_of_lookup hlook
    rw [hr]
    refine ⟨⟨hcoh, fun x hx _ => ?_⟩, fun _ data hread => ?_⟩
    · by_cases hkey : x = l.key
      · subst hkey
        exact (hself hx).trans hdata.symm
      · exact hother x hx hkey
    · cases hread
      exact hdata.symm
  · rw [hr]
    exact ⟨hstore.flush hok h hf, fun _ data hread => by cases hread⟩
  have h₁ : Seen K store ∅ st st₁ := hstore.flush hok h hf
  have hclean : ∀ l, st₁.dataCache i = some l → l.key ∈ K → l.dirty = false :=
    fun l hl _ => flushSlot_clean hf hl
  have hview : ∀ x ∈ K, WriteBack.view st₁.dataCache (store st₁.storage) x =
      WriteBack.view st.dataCache (store st.storage) x := fun x hx => h₁.view x hx (Set.notMem_empty x)
  obtain ⟨n, rfl⟩ := read_state hread
  rcases hcase with ⟨-, hr⟩ | ⟨f, rfl, hr⟩
  · obtain ⟨hcoh, hsame⟩ := h₁.coherent.forget hclean
    rw [hr]
    refine ⟨⟨?_, fun x hx _ => ?_⟩, fun _ data hread => by cases hread⟩ <;>
      dsimp only <;> rw [hstore.accesses]
    · exact hcoh
    · exact (hsame x hx).trans (hview x hx)
  have hf0 : k ∈ K → f 0 = store st₁.storage k := fun hk =>
    hstore.found (hstore.congr hok (Fetches.flush (A := ∅) hf).sameMeta.tables) hk hread
  have hdata : k ∈ K → f 0 = WriteBack.view st.dataCache (store st.storage) k := fun hk =>
    (hf0 hk).trans ((view_of_absent habs).symm.trans (hview k hk))
  obtain ⟨hcoh, hother, hself⟩ := h₁.coherent.replace hclean
    ⟨k, f 0, false, st₁.cacheClock + 1⟩ habs fun _ => hf0
  rw [hr]
  refine ⟨⟨?_, fun x hx _ => ?_⟩, fun hk data hread => ?_⟩
  · rw [State.putLine, hstore.accesses]
    exact hcoh
  · rw [State.putLine, hstore.accesses]
    by_cases hkey : x = k
    · subst hkey
      exact (hself hx).trans (hdata hx)
    · exact (hother x hx hkey).trans (hview x hx)
  · cases hread
    exact hdata hk

/-- A write is seen under its own key, if it succeeds. -/
lemma write (k : BlockKey) (data : Sector) :
    Seen K store { k } st (cachedWriteBlock st k.1 k.2 data).2 ∧
      (k ∈ K → WriteBack.view (cachedWriteBlock st k.1 k.2 data).2.dataCache
        (store (cachedWriteBlock st k.1 k.2 data).2.storage) k =
          if (cachedWriteBlock st k.1 k.2 data).1 then data
          else WriteBack.view st.dataCache (store st.storage) k) := by
  rcases cacheWrite_cases st k data with
    ⟨i, l, hlook, hw⟩ | ⟨i, ok, st₁, hf, habs, ⟨-, hw⟩ | ⟨rfl, hw⟩⟩ <;> rw [hw]
  · obtain ⟨hl, rfl⟩ := lookup_eq_some hlook
    obtain ⟨hcoh, hother, hself⟩ := h.modify hl ⟨l.key, data, true, st.cacheClock + 1⟩ rfl
      fun hd => by cases hd
    exact ⟨⟨hcoh, hother⟩, hself⟩
  · exact ⟨hstore.flush hok h hf, fun hk =>
      (hstore.flush (E := ∅) hok h hf).view k hk (Set.notMem_empty k)⟩
  · have h₁ : Seen K store ∅ st st₁ := hstore.flush hok h hf
    obtain ⟨hcoh, hother, hself⟩ := h₁.coherent.replace (fun l hl _ => flushSlot_clean hf hl)
      ⟨k, data, true, st₁.cacheClock + 1⟩ habs fun hd => by cases hd
    exact ⟨⟨hcoh, fun x hx hne => (hother x hx hne).trans (h₁.view x hx (Set.notMem_empty x))⟩, hself⟩

end StoreOf

end

/-! ### One partition -/

variable {p : UInt32}

/-- The sectors of an isolated partition. -/
lemma storeOf_sectorAt (p : UInt32) : StoreOf (blocksOf p) (Isolated · p) sectorAt where
  accesses _ _ := rfl
  congr := Isolated.congr
  found hiso _ hr := by
    obtain ⟨part, -, -, hread⟩ := read_eq_some (hiso.fits _) hr
    exact hread 0 (by decide)
  other {s s' k k' data ok} hiso hk' hne hw := by
    obtain ⟨q, lba⟩ := k'
    obtain rfl : q = p := hk'
    by_cases hq : k.1 = q
    · subst hq
      have hlba : lba.toNat ≠ k.2.toNat := fun heq => hne (Prod.ext rfl (UInt32.toNat_inj.mp heq))
      refine write_outside (hiso.fits _) hw ?_
      rw [show (1 : UInt32).toNat = 1 from rfl]
      dsimp only
      omega
    · exact write_other hiso hq hw _
  self hiso _ hw := write_stored (hiso.fits _) hw (i := 0) (by decide)

variable {st : State}

lemma BlockStep.of_seen {E K : Set UInt32} {A B : Set BlockKey} (hiso : Isolated st.storage p)
    (h : Seen (blocksOf p) sectorAt A st st') (hf : Fetches B st st')
    (hA : ∀ lba, (p, lba) ∈ A → lba ∈ E) (hB : ∀ lba, (p, lba) ∈ B → lba ∈ K) :
    BlockStep p E K st st' := by
  refine ⟨hf.sameMeta, h.coherent, fun lba hE => h.view (p, lba) rfl fun hmem => hE (hA lba hmem),
    fun i l hl hp => ?_, fun n _ hn => hf.sectors p n hiso hn⟩
  subst hp
  exact (hf.lines i l hl).imp_left (hB l.key.2)

lemma flushSlot_step (h : BlocksAt st p) (hiso : Isolated st.storage p)
    (hf : flushDataCacheSlot st i = (ok, st')) (E K : Set UInt32) : BlockStep p E K st st' :=
  BlockStep.of_seen hiso ((storeOf_sectorAt p).flush (E := ∅) hiso h hf) (.flush (A := ∅) hf)
    (fun _ => False.elim) fun _ => False.elim

lemma flushSlots_step (which : CachedBlock → Bool) (is : List (Fin dataCacheSlots))
    (h : BlocksAt st p) (hiso : Isolated st.storage p) (E K : Set UInt32) :
    BlockStep p E K st (flushSlots which is st).2 := by
  induction is generalizing st with
  | nil => exact .refl h E K
  | cons i rest ih =>
    rw [flushSlots]
    rcases st.dataCache i with _ | l
    · exact ih h hiso
    dsimp only
    split_ifs
    · rcases hf : flushDataCacheSlot st i with ⟨ok, st'⟩
      have h₁ := flushSlot_step h hiso hf E K
      cases ok with
      | false => exact h₁
      | true => exact h₁.trans (ih h₁.blocks (hiso.congr h₁.sameMeta.tables))
    · exact ih h hiso

lemma cacheRead_step (h : BlocksAt st p) (hiso : Isolated st.storage p) (q lba : UInt32) :
    BlockStep p ∅ { x | (p, x) = (q, lba) } st (cachedReadBlock st q lba).2 ∧
      (q = p → ∀ data, (cachedReadBlock st q lba).1 = some data → data = blockView st p lba) := by
  obtain ⟨hseen, hdata⟩ := (storeOf_sectorAt p).read hiso h (q, lba)
  refine ⟨.of_seen hiso hseen (cacheRead_fetches st (q, lba)) (fun _ => False.elim)
    fun x hx => hx, ?_⟩
  rintro rfl
  exact hdata rfl

lemma cacheWrite_step (h : BlocksAt st p) (hiso : Isolated st.storage p) (q lba : UInt32)
    (data : Sector) : BlockStep p { x | (p, x) = (q, lba) } { x | (p, x) = (q, lba) } st
        (cachedWriteBlock st q lba data).2 ∧
      (q = p → (cachedWriteBlock st q lba data).1 = true →
        blockView (cachedWriteBlock st q lba data).2 p lba = data) := by
  obtain ⟨hseen, hdata⟩ := (storeOf_sectorAt p).write hiso h (q, lba) data
  refine ⟨.of_seen hiso hseen (cacheWrite_fetches st (q, lba) data) (fun x hx => hx)
    fun x hx => hx, ?_⟩
  rintro rfl hok
  exact (hdata rfl).trans (if_pos hok)

/-- The bytes the read loop copies, from logical block `k` on. -/
def bytesOf (size : UInt32) (block : UInt32 → Sector) : ℕ → List UInt32 → List UInt8
  | _, [] => []
  | k, lba :: rest =>
    (List.ofFn (block lba)).take (bytesInBlock size k) ++ bytesOf size block (k + 1) rest

lemma bytesOf_congr {block block' : UInt32 → Sector} (h : ∀ lba ∈ lbas, block' lba = block lba)
    (k : ℕ) : bytesOf size block' k lbas = bytesOf size block k lbas := by
  induction lbas generalizing k with
  | nil => rfl
  | cons lba rest ih =>
    rw [bytesOf, bytesOf, h lba mem_cons_self, ih (fun x hx => h x (mem_cons_of_mem _ hx))]

lemma readBlocks_step (q size : UInt32) (lbas : List UInt32) (k : ℕ)
    (bytes : List UInt8) (h : BlocksAt st p) (hiso : Isolated st.storage p) :
    BlockStep p ∅ { x | q = p ∧ x ∈ lbas } st (readBlocks q size k lbas bytes st).2.2 ∧
      (q = p → (readBlocks q size k lbas bytes st).1 = true →
        (readBlocks q size k lbas bytes st).2.1 =
          bytes ++ bytesOf size (blockView st p) k lbas) := by
  induction lbas generalizing k bytes st with
  | nil => exact ⟨.refl h _ _, fun _ _ => (append_nil bytes).symm⟩
  | cons lba rest ih =>
    obtain ⟨h₁, hdata⟩ := cacheRead_step h hiso q lba
    replace h₁ := h₁.mono (.refl _)
      (show { x | (p, x) = (q, lba) } ⊆ { x | q = p ∧ x ∈ lba :: rest } from fun x hx => by
        cases hx
        exact ⟨rfl, mem_cons_self⟩)
    rw [readBlocks]
    generalize cachedReadBlock st q lba = r at h₁ hdata
    obtain ⟨_ | data, st₁⟩ := r
    · exact ⟨h₁, fun _ h => by cases h⟩
    obtain ⟨h₂, hrest⟩ := ih (k + 1) (bytes ++ (List.ofFn data).take (bytesInBlock size k))
      h₁.blocks (hiso.congr h₁.sameMeta.tables)
    refine ⟨h₁.trans (h₂.mono (.refl _) fun x hx =>
      ⟨hx.1, mem_cons_of_mem _ hx.2⟩), fun hq hok => ?_⟩
    rw [hrest hq hok, bytesOf, hdata hq data rfl, append_assoc]
    congr 2
    exact bytesOf_congr (fun x _ => h₁.view x (Set.notMem_empty _)) _

lemma writeBlocks_step (q : UInt32) (buffer : ℕ → UInt8) (size : UInt32)
    (lbas : List UInt32) (k : ℕ) (h : BlocksAt st p) (hiso : Isolated st.storage p) :
    BlockStep p { x | q = p ∧ x ∈ lbas } { x | q = p ∧ x ∈ lbas } st
        (writeBlocks q buffer size k lbas st).2 ∧
      (q = p → lbas.Nodup → (writeBlocks q buffer size k lbas st).1 = true →
        ∀ j lba, lbas[j]? = some lba →
          blockView (writeBlocks q buffer size k lbas st).2 p lba = fileBlock buffer size (k + j)) := by
  induction lbas generalizing k st with
  | nil => exact ⟨.refl h _ _, fun _ _ _ j lba hj => by cases hj⟩
  | cons lba rest ih =>
    obtain ⟨h₁, hdata⟩ := cacheWrite_step h hiso q lba (fileBlock buffer size k)
    have hsub : { x | (p, x) = (q, lba) } ⊆ { x | q = p ∧ x ∈ lba :: rest } := fun x hx => by
      cases hx
      exact ⟨rfl, mem_cons_self⟩
    replace h₁ := h₁.mono hsub hsub
    rw [writeBlocks]
    generalize cachedWriteBlock st q lba (fileBlock buffer size k) = r at h₁ hdata
    obtain ⟨_ | _, st₁⟩ := r
    · exact ⟨h₁, fun _ _ h => by cases h⟩
    obtain ⟨h₂, hrest⟩ := ih (k + 1) h₁.blocks (hiso.congr h₁.sameMeta.tables)
    have hsub' : { x | q = p ∧ x ∈ rest } ⊆ { x | q = p ∧ x ∈ lba :: rest } :=
      fun x hx => ⟨hx.1, mem_cons_of_mem _ hx.2⟩
    refine ⟨h₁.trans (h₂.mono hsub' hsub'), fun hq hnodup hok j x hj => ?_⟩
    rw [nodup_cons] at hnodup
    cases j with
    | zero =>
      -- later blocks of the file are other blocks
      cases hj
      exact (h₂.view lba fun hmem => hnodup.1 hmem.2).trans (hdata hq rfl)
    | succ j =>
      rw [hrest hq hnodup.2 hok j x hj]
      congr 1
      omega

/-! ### Without faults -/

/-- No access fails. -/
def Quiet (s : Storage.State) : Prop := ∀ n, s.faults n = none

/-- A write to the sector reaches a writable device. -/
def CanWrite (s : Storage.State) (q lba : UInt32) : Prop :=
  ∃ part dev, storageGetPartition s q = some part ∧
    storageGetBlockDevice s part.deviceIndex = some dev ∧ dev.hasWrite = true ∧
    part.startLba.toNat + part.blockCount.toNat ≤ dev.blockCount.toNat ∧
    lba.toNat < part.blockCount.toNat

/-- A read of the sector reaches a device. -/
def CanRead (s : Storage.State) (q lba : UInt32) : Prop :=
  ∃ part, storageGetPartition s q = some part ∧ Fits s part ∧ lba.toNat < part.blockCount.toNat

/-- Every unsaved block can be saved. -/
def Evictable (st : State) : Prop :=
  ∀ i l, st.dataCache i = some l → l.dirty = true → CanWrite st.storage l.key.1 l.key.2

variable {s s' : Storage.State}

lemma Quiet.congr (h : Quiet s) (hs : SameTables s s') : Quiet s' :=
  fun n => by rw [hs.faults]; exact h n

lemma CanWrite.congr (h : CanWrite s q lba) (hs : SameTables s s') : CanWrite s' q lba := by
  obtain ⟨part, dev, hp, hd, hrest⟩ := h
  exact ⟨part, dev, (hs.getPartition q).trans hp, (hs.getBlockDevice _).trans hd, hrest⟩

lemma CanRead.congr (h : CanRead s q lba) (hs : SameTables s s') : CanRead s' q lba := by
  obtain ⟨part, hp, ⟨dev, hd, hrest⟩, hlt⟩ := h
  exact ⟨part, (hs.getPartition q).trans hp, ⟨dev, (hs.getBlockDevice _).trans hd, hrest⟩, hlt⟩

variable {st : State}

/-- A line is added that is saved or can be. -/
lemma Evictable.putLine (he : Evictable st) {s : Storage.State} (hs : SameTables st.storage s)
    {k : BlockKey} {data : Sector} {dirty : Bool} (hk : dirty = true → CanWrite st.storage k.1 k.2) :
    Evictable (st.putLine s i k data dirty) := by
  intro j m hm hd
  rcases update_eq_some hm with ⟨-, ⟨⟩⟩ | ⟨-, hm⟩
  · exact (hk hd).congr hs
  · exact (he j m hm hd).congr hs

section

variable (hquiet : Quiet st.storage) (he : Evictable st)
include hquiet he

lemma flushSlot_ok (hf : flushDataCacheSlot st i = (ok, st')) :
    ok = true ∧ Evictable st' ∧ SameTables st.storage st'.storage := by
  have hsame := (Fetches.flush (A := ∅) hf).sameMeta.tables
  refine ⟨?_, fun j l hl hd => ?_, hsame⟩
  · rcases flushSlot_cases st i with ⟨hf', -⟩ | ⟨l, s, hl, hd, ⟨hw, -⟩ | ⟨-, hf'⟩⟩
    · rw [hf'] at hf
      cases hf
      rfl
    · obtain ⟨part, dev, hp, hdev, hwr, hle, hlt⟩ := he i l hl hd
      have hone : l.key.2.toNat + (1 : UInt32).toNat ≤ part.blockCount.toNat := hlt
      obtain ⟨s', hw'⟩ := write_isTrue hp hdev hwr hle (hquiet _) hone fun _ => l.data
      rw [hw] at hw'
      cases hw'
    · rw [hf'] at hf
      cases hf
      rfl
  · obtain ⟨m, hm, hkey, -, hdirty⟩ :=
      flushSlot_lines (i := i) (j := j) (l := l) (by rw [hf]; exact hl)
    rw [← hkey]
    exact (he j m hm (hdirty hd)).congr hsame

lemma cacheRead_ok (hread : CanRead st.storage q lba) :
    ∃ data st', cachedReadBlock st q lba = (some data, st') ∧ Evictable st' := by
  rcases cacheRead_cases st (q, lba) with
    ⟨i, l, hlook, hr⟩ | ⟨i, ok, st₁, hf, -, ⟨rfl, -⟩ | ⟨-, r, s, hs, hcase⟩⟩
  · obtain ⟨hl, hkey⟩ := lookup_eq_some hlook
    exact ⟨_, _, hr, he.putLine (.refl _) fun hd => hkey ▸ he i l hl hd⟩
  · cases (flushSlot_ok hquiet he hf).1
  obtain ⟨-, he₁, htables⟩ := flushSlot_ok hquiet he hf
  obtain ⟨part, hp, hfit, hlt⟩ := hread.congr htables
  obtain ⟨f, s', hs'⟩ := read_isSome hp hfit ((hquiet.congr htables) _)
    (show lba.toNat + (1 : UInt32).toNat ≤ part.blockCount.toNat from hlt)
  rcases hcase with ⟨rfl, -⟩ | ⟨f', rfl, hr⟩
  · cases hs.symm.trans hs'
  · exact ⟨_, _, hr, he₁.putLine (read_sameTables hs) fun hd => by cases hd⟩

lemma cacheWrite_ok (hwrite : CanWrite st.storage q lba) (data : Sector) :
    ∃ st', cachedWriteBlock st q lba data = (true, st') ∧ Evictable st' := by
  rcases cacheWrite_cases st (q, lba) data with
    ⟨i, l, -, hw⟩ | ⟨i, ok, st₁, hf, -, ⟨rfl, -⟩ | ⟨-, hw⟩⟩
  · exact ⟨_, hw, he.putLine (.refl _) fun _ => hwrite⟩
  · cases (flushSlot_ok hquiet he hf).1
  · obtain ⟨-, he₁, htables⟩ := flushSlot_ok hquiet he hf
    exact ⟨_, hw, he₁.putLine (.refl _) fun _ => hwrite.congr htables⟩

end

lemma readBlocks_ok (k : ℕ) (bytes : List UInt8) (hquiet : Quiet st.storage) (he : Evictable st)
    (hread : ∀ lba ∈ lbas, CanRead st.storage q lba) :
    (readBlocks q size k lbas bytes st).1 = true := by
  induction lbas generalizing k bytes st with
  | nil => rfl
  | cons lba rest ih =>
    obtain ⟨data, st₁, hr, he₁⟩ := cacheRead_ok hquiet he (hread lba mem_cons_self)
    have hs := (cacheRead_fetches st (q, lba)).sameMeta
    rw [hr] at hs
    rw [readBlocks, hr]
    exact ih (k + 1) _ (hquiet.congr hs.tables) he₁
      fun x hx => (hread x (mem_cons_of_mem _ hx)).congr hs.tables

lemma writeBlocks_ok {buffer : ℕ → UInt8} (k : ℕ) (hquiet : Quiet st.storage) (he : Evictable st)
    (hwrite : ∀ lba ∈ lbas, CanWrite st.storage q lba) :
    (writeBlocks q buffer size k lbas st).1 = true := by
  induction lbas generalizing k st with
  | nil => rfl
  | cons lba rest ih =>
    obtain ⟨st₁, hw, he₁⟩ := cacheWrite_ok hquiet he (hwrite lba mem_cons_self)
      (fileBlock buffer size k)
    have hs := (cacheWrite_fetches st (q, lba) (fileBlock buffer size k)).sameMeta
    rw [hw] at hs
    rw [writeBlocks, hw]
    exact ih (k + 1) (hquiet.congr hs.tables) he₁
      fun x hx => (hwrite x (mem_cons_of_mem _ hx)).congr hs.tables

end LainFS
