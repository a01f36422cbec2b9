import LainOS.LainFS.Atomic
import LainOS.LainFS.Volume

/-!
# Calls and partitions

What a whole call does to the partition it works on and to the others. Another partition keeps all
it holds (`FileCall.keeps_other`). The partition itself stays coherent (`FileCall.cacheAt`), but
for a save that fails with a new entry in a clean buffer.
-/

namespace LainFS

open Storage WriteBack

variable {st : State} {p : UInt32} {part : Partition} {drive : UInt8}

/-- The calls on files and directories of mounted volumes. -/
inductive FileCall
  | table (call : TableCall)
  | load (drive : UInt8) (parentId : UInt32) (name : CString) (bufferSize : UInt32)
  | list (drive : UInt8) (parentId : UInt32)
  | check (drive : UInt8)
  | flush (drive : UInt8)
  | flushAll

namespace FileCall

/-- The state after the call; the results are dropped. -/
def run (st : State) : FileCall → State
  | table call => (call.run st).2
  | load drive parentId name bufferSize => (lainfsLoadFileInDir st drive parentId name bufferSize).2
  | list drive parentId => (lainfsListDir st drive parentId).2
  | check drive => (lainfsCheck st drive).2
  | flush drive => (lainfsFlush st drive).2
  | flushAll => (lainfsFlushAll st).2

/-- The partition the call opens; flushing opens none. -/
def target (st : State) : FileCall → Option UInt32
  | table call => mountForDrive st call.drive
  | load drive _ _ _ => mountForDrive st drive
  | list drive _ => mountForDrive st drive
  | check drive => mountForDrive st drive
  | flush _ => none
  | flushAll => none

end FileCall

/-! ### Flushing -/

section

variable (hc : CacheAt st p) (hiso : Isolated st.storage p)
include hc hiso

lemma flushPartition_keeps (q : UInt32) : Keeps p ∅ st (flushPartitionCache st q).2 := by
  rw [flushPartitionCache, flushDataCachePartition]
  have h₁ := flushSlots_keeps (fun l => l.key.1 == q) (List.finRange dataCacheSlots) hc hiso
  generalize flushSlots (fun l => l.key.1 == q) (List.finRange dataCacheSlots) st = r at h₁
  obtain ⟨_ | _, st₁⟩ := r
  · exact h₁
  dsimp only
  split
  · exact h₁
  · split_ifs
    · exact h₁.trans (flushDir_keeps h₁.cache (hiso.congr h₁.tables))
    · exact h₁

lemma lainfsFlush_keeps (drive : UInt8) : Keeps p ∅ st (lainfsFlush st drive).2 := by
  rw [lainfsFlush]
  rcases mountForDrive st drive with _ | q
  · exact .refl hc ∅
  have h₁ := flushPartition_keeps hc hiso q
  dsimp only
  generalize flushPartitionCache st q = r at h₁
  obtain ⟨_ | _, st₁⟩ := r <;> exact h₁

lemma flushAll_keeps : Keeps p ∅ st (lainfsFlushAll st).2 := by
  rw [lainfsFlushAll]
  have h₁ := flushSlots_keeps (fun _ => true) (List.finRange dataCacheSlots) hc hiso
  generalize flushSlots (fun _ => true) (List.finRange dataCacheSlots) st = r at h₁
  obtain ⟨_ | _, st₁⟩ := r
  · exact h₁
  · have h₂ := flushDir_keeps h₁.cache (hiso.congr h₁.tables)
    dsimp only
    generalize flushDirectoryCache st₁ = r at h₂
    obtain ⟨_ | _, st₂⟩ := r <;> exact h₁.trans h₂

end

/-! ### Other partitions -/

section

variable {q : UInt32}

/-- The buffer of another partition changes. -/
lemma Keeps.of_other_buffer {super : CheckedSuper} (hc : CacheAt st p) (hne : q ≠ p)
    (ho : Opened st q super) (d : Directory) (tag : Option DirectoryTag)
    (htag : ∀ dirty, tag ≠ some ⟨p, dirty⟩) :
    Keeps p ∅ st { st with directory := d, directoryTag := tag } := by
  refine .of_agree hc (.refl _) (fun _ => rfl) (fun x hx => hc.super x hx)
    (fun _ _ _ => .rfl) (.inr ⟨fun h => ?_, htag⟩)
  obtain ⟨dirty, hq⟩ := ho.tag
  rw [hq] at h
  cases h
  exact hne rfl

lemma tag_ne_of_ne (hne : q ≠ p) (dirty dirty' : Bool) :
    (some ⟨q, dirty⟩ : Option DirectoryTag) ≠ some ⟨p, dirty'⟩ := by
  intro h
  cases h
  exact hne rfl

variable (hc : CacheAt st p) (hiso : Isolated st.storage p) (hne : mountForDrive st drive ≠ some p)
include hc hiso hne

lemma call_keeps_other (namesOk : Bool) (op : Directory → Except ℤ Directory) :
    Keeps p ∅ st (tableCall st drive namesOk op).2 := by
  rcases hm : mountForDrive st drive with _ | q
  · rw [tableCall, hm]
    exact .refl hc ∅
  have hqp : q ≠ p := fun h => hne (h ▸ hm)
  have h := call_outcome hm namesOk op
  rcases ho : openDirectory st q with ⟨result, st₁⟩
  have h₁ := (open_keeps hc hiso ho).resolve_right fun h => hqp h.1
  rw [ho] at h
  generalize tableCall st drive namesOk op = r at h
  cases h with
  | refused => exact .refl hc ∅
  | unopened => exact h₁
  | failed => exact h₁
  | done =>
    exact h₁.trans (.of_other_buffer h₁.cache hqp (open_opened ho).1 _ _ (tag_ne_of_ne hqp true))

lemma saveFile_keeps_other (parentId : UInt32) (name : CString) (buffer : ℕ → UInt8)
    (size : UInt32) : Keeps p ∅ st (lainfsSaveFileInDir st drive parentId name buffer size).2 := by
  rcases hm : mountForDrive st drive with _ | q
  · rw [lainfsSaveFileInDir, hm]
    exact .refl hc ∅
  have hqp : q ≠ p := fun h => hne (h ▸ hm)
  have h := saveFile_outcome hm parentId name buffer size
  rcases ho : openDirectory st q with ⟨result, st₁⟩
  have h₁ := (open_keeps hc hiso ho).resolve_right fun h => hqp h.1
  rw [ho] at h
  generalize lainfsSaveFileInDir st drive parentId name buffer size = r at h
  -- whatever is put into the buffer, it is the buffer of the other partition
  have hbuffer : ∀ super, result = .ok super → ∀ d, Keeps p ∅ st { st₁ with directory := d } := by
    rintro super rfl d
    obtain ⟨dirty, htag⟩ := (open_opened ho).1.tag
    exact h₁.trans (.of_other_buffer h₁.cache hqp (open_opened ho).1 d
      st₁.directoryTag (by rw [htag]; exact tag_ne_of_ne hqp dirty))
  cases h with
  | refused => exact .refl hc ∅
  | unopened => exact h₁
  | unclaimed => exact h₁
  | full => exact hbuffer _ rfl _
  | @written _ _ i d₁ xs ok st₃ _ _ _ _ hw =>
    have h₂ := hbuffer _ rfl (d₁.set i (fileEntry (d₁ i) name.bytes size xs))
    have hstep := (writeBlocks_step q buffer size (fileLbas xs) 0 h₂.cache.blocks
      (hiso.congr h₂.tables)).1
    rw [hw] at hstep
    have h₃ := h₂.trans ((Keeps.of_blockStep h₂.cache hstep
      fun lba hlba => absurd hlba.1 hqp).mono fun lba hlba => absurd hlba.1 hqp)
    cases ok with
    | false => exact h₃
    | true =>
      have ho₃ := ((open_opened ho).1.setDirectory _).congr hstep.sameMeta
      exact h₃.trans (.of_other_buffer h₃.cache hqp ho₃ st₃.directory _ (tag_ne_of_ne hqp true))

end

/-- The check never looks at the table with a mind to change anything. -/
lemma check_keeps (hc : CacheAt st p) (hiso : Isolated st.storage p) (drive : UInt8) :
    Keeps p ∅ st (lainfsCheck st drive).2 := by
  rw [lainfsCheck]
  rcases mountForDrive st drive with _ | q
  · exact .refl hc ∅
  have h₁ := (openRaw_keeps hc hiso q).1
  dsimp only
  generalize openDirectoryUnchecked st q = r at h₁
  obtain ⟨(_ | _) | super, st₁⟩ := r
  · exact h₁
  · exact h₁
  · dsimp only
    split <;> exact h₁

/-! ### The partition itself -/

/-- The partition is smaller than the block numbers. -/
def Small (s : Storage.State) (p : UInt32) : Prop :=
  ∀ part, storageGetPartition s p = some part → part.blockCount.toNat < 2 ^ 32

lemma Small.congr {s s' : Storage.State} (h : Small s p) (hs : SameTables s s') : Small s' p := by
  intro part hp
  rw [hs.getPartition] at hp
  exact h part hp

section

variable {st st₁ : State} {p : UInt32} {super : CheckedSuper} (hc : CacheAt st p)
include hc

/-- Changes of the table leave the rest of the cache alone. -/
lemma CacheAt.setDirectory (d : Directory) : CacheAt { st with directory := d } p :=
  ⟨hc.super, hc.blocks, hc.lines, hc.dirty⟩

lemma CacheAt.saveDirectory (hu : Usable st.storage p part super) : CacheAt (saveDirectory st p) p :=
  ⟨hc.super, hc.blocks, hc.lines, fun _ => ⟨part, super, hu⟩⟩

variable (hiso : Isolated st.storage p)
include hiso

/-- A table that was opened, and what it belongs to. -/
lemma open_own (ho : openDirectory st p = (.ok super, st₁)) :
    Keeps p ∅ st st₁ ∧ st₁.directory = tableView st p super ∧ ∃ part,
      Usable st₁.storage p part super ∧
      DirectorySound super.1 part.blockCount st₁.directory := by
  obtain ⟨hu, hv⟩ := open_eq_ok ho
  obtain ⟨h₁, hd⟩ := openRaw_keeps hc hiso p
  rw [hu] at h₁ hd
  obtain ⟨hsuper, hdir⟩ := hd rfl super rfl
  obtain ⟨part, hp, hs⟩ := sound_of_accepted hv
  exact ⟨h₁, hdir, part, ⟨hp, h₁.super.trans hsuper, hs.layout⟩, hs⟩

/-- A partition that could not be opened. -/
lemma open_failed {e : OpenError} (ho : openDirectory st p = (.error e, st₁)) :
    CacheAt st₁ p ∧ SameTables st.storage st₁.storage ∧ (CleanAt st p → CleanAt st₁ p) := by
  obtain ⟨h₁, -⟩ := openRaw_keeps hc hiso p
  rw [open_eq] at ho
  generalize openDirectoryUnchecked st p = r at ho h₁
  obtain ⟨e' | super, st₂⟩ := r
  · cases ho
    exact ⟨h₁.cache, h₁.tables, fun hcl => (h₁.table hcl).1⟩
  dsimp only at ho
  split at ho <;> cases ho
  refine ⟨⟨h₁.cache.super, h₁.cache.blocks, h₁.cache.lines, fun h => ?_⟩, h₁.tables,
    fun _ => .of_not_tag fun _ => (Option.some_ne_none _).symm⟩
  cases h

lemma call_coherent (hm : mountForDrive st drive = some p) (namesOk : Bool)
    (op : Directory → Except ℤ Directory) : CacheAt (tableCall st drive namesOk op).2 p ∧
      (CleanAt st p → CleanAt (tableCall st drive namesOk op).2 p) := by
  have h := call_outcome hm namesOk op
  rcases ho : openDirectory st p with ⟨result, st₁⟩
  rw [ho] at h
  generalize tableCall st drive namesOk op = r at h ⊢
  cases h with
  | refused => exact ⟨hc, id⟩
  | unopened =>
    obtain ⟨hc', -, hcl⟩ := open_failed hc hiso ho
    exact ⟨hc', hcl⟩
  | failed =>
    obtain ⟨h₁, -⟩ := open_own hc hiso ho
    exact ⟨h₁.cache, fun hcl => (h₁.table hcl).1⟩
  | @done _ _ d =>
    obtain ⟨h₁, -, part, hu, -⟩ := open_own hc hiso ho
    exact ⟨(h₁.cache.setDirectory d).saveDirectory hu, fun _ => .of_dirty rfl⟩

/-- The blocks of a saved file are written inside the data area. -/
lemma writeFile_keeps {d₁ d : Directory} {i : Fin maxFiles} {parentId : UInt32} {name : List UInt8}
    {xs : List Extent} {size : UInt32} {ok : Bool} {st₃ : State} {buffer : ℕ → UInt8}
    (hu : Usable st.storage p part super)
    (hplan : SavePlan part super.1 st.directory parentId name size i d₁ xs)
    (hw : writeBlocks p buffer size 0 (fileLbas xs) { st with directory := d } = (ok, st₃)) :
    Keeps p { lba | lba ∈ fileLbas xs } { st with directory := d } st₃ ∧
      SameMeta { st with directory := d } st₃ ∧
      (ok = true → ∀ j lba, (fileLbas xs)[j]? = some lba →
        blockView st₃ p lba = fileBlock buffer size j) := by
  obtain ⟨hfresh, -, -⟩ := hplan.fresh
  obtain ⟨hstep, hdata⟩ := writeBlocks_step p buffer size (fileLbas xs) 0
    (hc.setDirectory d).blocks hiso
  rw [hw] at hstep hdata
  have hsmall : ∀ x ∈ xs, x.startLba.toNat + x.blocks.toNat < 2 ^ 32 :=
    fun x hx => lt_of_le_of_lt (hfresh.sound.inData x hx).2 hplan.small
  have hnodup : (fileLbas xs).Nodup := by
    refine fileLbas_nodup (fun x hx => (hsmall x hx).le) ?_
    refine hfresh.sound.apart.imp_of_mem fun {x y} hx hy hxy => ?_
    exact (overlap_eq_false (hsmall x hx) (hsmall y hy) (hfresh.nonzero x hx)
      (hfresh.nonzero y hy)).mp hxy
  refine ⟨(Keeps.of_blockStep (hc.setDirectory d) hstep fun lba hlba => ?_).mono
    fun lba hlba => hlba.2, hstep.sameMeta, fun hok j lba hj => ?_⟩
  · exact ⟨part, super, hu, fileLbas_inData hplan.small hfresh.sound hlba.2⟩
  · rw [hdata rfl hnodup hok j lba hj, zero_add]

lemma saveFile_cacheAt (hsmall : Small st.storage p) (hm : mountForDrive st drive = some p)
    (parentId : UInt32) (name : CString) (buffer : ℕ → UInt8) (size : UInt32) : CacheAt
    (lainfsSaveFileInDir st drive parentId name buffer size).2 p := by
  have h := saveFile_outcome hm parentId name buffer size
  rcases ho : openDirectory st p with ⟨result, st₁⟩
  rw [ho] at h
  generalize lainfsSaveFileInDir st drive parentId name buffer size = r at h ⊢
  cases h with
  | refused => exact hc
  | unopened => exact (open_failed hc hiso ho).1
  | unclaimed => exact (open_own hc hiso ho).1.cache
  | full => exact (open_own hc hiso ho).1.cache.setDirectory _
  | @written _ _ _ _ _ ok _ hname hsize hclaim hext hw =>
    obtain ⟨h₁, -, part, hu, hsound⟩ := open_own hc hiso ho
    rw [hu.partition] at hext
    obtain ⟨h₃, -, -⟩ := writeFile_keeps h₁.cache (hiso.congr h₁.tables) hu
      ⟨hsmall.congr h₁.tables part hu.partition, hsound, hname, name.nonzero, hsize, hclaim, hext⟩
      hw
    cases ok with
    | false => exact h₃.cache
    | true => exact h₃.cache.saveDirectory (hu.congr h₃.tables h₃.super)

/-- A load keeps what a partition holds, unless it is the one that does not open. -/
lemma loadFile_keeps (hsmall : mountForDrive st drive = some p → Small st.storage p)
    (parentId : UInt32) (name : CString) (bufferSize : UInt32) :
    Keeps p ∅ st (lainfsLoadFileInDir st drive parentId name bufferSize).2 ∨
      mountForDrive st drive = some p ∧ ∃ e, openDirectory st p =
        (.error e, (lainfsLoadFileInDir st drive parentId name bufferSize).2) := by
  rw [lainfsLoadFileInDir]
  rcases hm : mountForDrive st drive with _ | q
  · exact .inl (.refl hc ∅)
  dsimp only
  split_ifs
  · exact .inl (.refl hc ∅)
  rcases ho : openDirectory st q with ⟨result, st₁⟩
  rcases result with e | super
  · have h := open_keeps hc hiso ho
    cases e <;> exact h.imp_right fun h => ⟨congrArg some h.1, _, h.1 ▸ ho⟩
  have h₁ := open_ok_keeps hc hiso ho
  left
  dsimp only
  split_ifs
  · exact h₁
  rcases hfind : findFileInDir st₁.directory parentId name.bytes with _ | i
  · exact h₁
  dsimp only
  split_ifs
  · exact h₁
  rcases hxs : entryExtents (st₁.directory i) with _ | xs
  · exact h₁
  have hstep := (readBlocks_step q (st₁.directory i).byteSize (fileLbas xs) 0 []
    h₁.cache.blocks (hiso.congr h₁.tables)).1
  have h₂ := h₁.trans (.of_blockStep h₁.cache hstep fun lba hlba => by
    obtain ⟨rfl, hlba⟩ := hlba
    obtain ⟨-, -, part, hu, hsound⟩ := open_own hc hiso ho
    exact ⟨part, super, hu, fileLbas_inData ((hsmall hm).congr h₁.tables part hu.partition)
      (hsound.extentsSound (findFileInDir_sound hsound hfind).1 hxs) hlba⟩)
  dsimp only
  generalize readBlocks q (st₁.directory i).byteSize 0 (fileLbas xs) [] st₁ = r at h₂
  obtain ⟨_ | _, bytes, st₂⟩ := r <;> exact h₂

lemma listDir_keeps (parentId : UInt32) : Keeps p ∅ st (lainfsListDir st drive parentId).2 ∨
      mountForDrive st drive = some p ∧
        ∃ e, openDirectory st p = (.error e, (lainfsListDir st drive parentId).2) := by
  rw [lainfsListDir]
  rcases hm : mountForDrive st drive with _ | q
  · exact .inl (.refl hc ∅)
  dsimp only
  rcases ho : openDirectory st q with ⟨result, st₁⟩
  rcases result with e | super
  · have h := open_keeps hc hiso ho
    cases e <;> exact h.imp_right fun h => ⟨congrArg some h.1, _, h.1 ▸ ho⟩
  · have h₁ := open_ok_keeps hc hiso ho
    left
    dsimp only
    split_ifs <;> exact h₁

end

/-- A call leaves the partitions it does not open as they are. -/
theorem FileCall.keeps_other (hc : CacheAt st p) (hiso : Isolated st.storage p) {call : FileCall}
    (hne : call.target st ≠ some p) : Keeps p ∅ st (call.run st) := by
  cases call with
  | table call =>
    cases call with
    | save drive parentId name buffer size =>
      exact saveFile_keeps_other hc hiso hne parentId name buffer size
    -- the other calls are one operation on the table
    | _ =>
      rw [FileCall.run, TableCall.run]
      exact call_keeps_other hc hiso hne _ _
  | load drive parentId name bufferSize =>
    exact (loadFile_keeps hc hiso (fun h => absurd h hne) parentId name
      bufferSize).resolve_right fun h => hne h.1
  | list drive parentId => exact (listDir_keeps hc hiso parentId).resolve_right fun h => hne h.1
  | check drive => exact check_keeps hc hiso drive
  | flush drive => exact lainfsFlush_keeps hc hiso drive
  | flushAll => exact flushAll_keeps hc hiso

/-- Every call keeps what is cached in step with the disk. -/
theorem FileCall.cacheAt (hc : CacheAt st p) (hiso : Isolated st.storage p)
    (hsmall : Small st.storage p) (call : FileCall) : CacheAt (call.run st) p := by
  by_cases hne : call.target st ≠ some p
  · exact (FileCall.keeps_other hc hiso hne).cache
  rw [not_not] at hne
  cases call with
  | table call =>
    cases call with
    | save drive parentId name buffer size =>
      exact saveFile_cacheAt hc hiso hsmall hne parentId name buffer size
    | _ =>
      rw [FileCall.run, TableCall.run]
      exact (call_coherent hc hiso hne _ _).1
  | load drive parentId name bufferSize =>
    rcases loadFile_keeps hc hiso (fun _ => hsmall) parentId name bufferSize with
      h | ⟨-, e, ho⟩
    · exact h.cache
    · exact (open_failed hc hiso ho).1
  | list drive parentId =>
    rcases listDir_keeps hc hiso parentId with h | ⟨-, e, ho⟩
    · exact h.cache
    · exact (open_failed hc hiso ho).1
  | check drive => exact (check_keeps hc hiso drive).cache
  | flush drive => exact (lainfsFlush_keeps hc hiso drive).cache
  | flushAll => exact (flushAll_keeps hc hiso).cache

end LainFS
