import LainOS.LainFS.Codec
import LainOS.LainFS.Host
import LainOS.LainFS.Ops
import LainOS.LainFS.Table

/-!
# How often a table is repaired

Every repair of `lainfs_repair` moves one entry to the root, clears the data fields of one directory
or drops the extent metadata of one file, and none of them is undone or called for by another. The
table itself tells which these are (`Moved`, `StrayFields`, `BrokenExtents`), so it tells how many
repairs the loop makes, up to its limit (`repair_reaches_verdict_iff`).
-/

namespace LainFS

open Storage ParentWalk Relation Option Directory
open Host (Mendable)

variable {e : Dirent} {i k : Fin maxFiles} {P : Dirent → Prop} {blockCount : UInt64}
  {report : CheckReason × UInt32}

/-! ### Pending repairs -/

section

variable (part : Partition) (super : Superblock) (d : Directory)

/-- The validator gets as far as the parent link of entry `i`: what is before it can be repaired. -/
structure Examined (i : Fin maxFiles) : Prop where
  layout : ¬ layoutIsBad super part.blockCount
  type : (d i).used = entryFile ∨ (d i).used = entryDir
  name : entryNameIsValid (d i).name = true
  before : ∀ j < i, (d j).used = 0 ∨ Mendable part super (d j)

/-- The parent id is none, or the id of something that is not a directory. -/
def DeadLink (i : Fin maxFiles) : Prop :=
  maxFiles < (entryParentId (d i)).toNat ∨ (entryParentId (d i) ≠ rootDir ∧
    (d (indexFromEntryId (entryParentId (d i)))).used ≠ entryDir)

/-- A repair moves the entry to the root: its parent link is dead, or it is the entry at which a
cycle of directories is cut. -/
def Moved (i : Fin maxFiles) : Prop :=
  (Examined part super d i ∧ DeadLink d i) ∨
    CutAt (parentLink d) (fun j => Examined part super d j ∧ (d j).used = entryDir) i

/-- A repair clears the data fields of the directory. -/
def StrayFields (i : Fin maxFiles) : Prop :=
  Examined part super d i ∧ (d i).used = entryDir ∧ ((d i).startLba ≠ 0 ∨ (d i).byteSize ≠ 0)

/-- A repair drops the extent metadata of the file. -/
def BrokenExtents (i : Fin maxFiles) : Prop :=
  Examined part super d i ∧ (d i).used = entryFile ∧ Mendable part super (d i) ∧
    entryExtents (d i) = none

noncomputable def pendingRepairs : ℕ :=
  {i | Moved part super d i}.ncard + {i | StrayFields part super d i}.ncard +
    {i | BrokenExtents part super d i}.ncard

end

/-! ### What a repair leaves alone -/

section

variable {part : Partition} {super : Superblock} {d d' : Directory}

/-- Neither the kind nor the name of an entry changes, nor whether it can be repaired. -/
structure SameKinds (part : Partition) (super : Superblock) (d d' : Directory) : Prop where
  used : ∀ i, (d' i).used = (d i).used
  name : ∀ i, (d' i).name = (d i).name
  mendable : ∀ i, Mendable part super (d' i) ↔ Mendable part super (d i)

lemma EntryRepair.sameKinds {z : Fin maxFiles} (h : EntryRepair (some part) super (d z) e) :
    SameKinds part super d (d.set z e) := by
  have hname : e.name = (d z).name := by
    cases h with
    | parent => rfl
    | directory hdir => rfl
    | extents hfile hlegacy hbad => exact (setExtents_fields _ _).2.1
  obtain ⟨hused, -, hmend⟩ := Host.entryRepair_congr h
  refine ⟨fun i => ?_, fun i => ?_, fun i => ?_⟩
  all_goals
    by_cases hi : i = z
    · subst hi
      rw [set_self]
      assumption
    · rw [set_of_ne d e hi]

variable (h : SameKinds part super d d')
include h

lemma SameKinds.symm : SameKinds part super d' d :=
  ⟨fun i => (h.used i).symm, fun i => (h.name i).symm, fun i => (h.mendable i).symm⟩

lemma SameKinds.examined (hx : Examined part super d i) : Examined part super d' i := by
  refine ⟨hx.layout, ?_, ?_, fun j hj => ?_⟩
  · rw [h.used]
    exact hx.type
  · rw [h.name]
    exact hx.name
  · rw [h.used, h.mendable]
    exact hx.before j hj

lemma SameKinds.examined_iff : Examined part super d' i ↔ Examined part super d i :=
  ⟨h.symm.examined, h.examined⟩

/-- Links that are the same are dead alike, and lead into the same cycles. -/
lemma SameKinds.moved_iff (hparent : ∀ i, entryParentId (d' i) = entryParentId (d i)) :
    Moved part super d' i ↔ Moved part super d i := by
  have hlink : parentLink d' = parentLink d := by
    funext j
    simp only [parentLink, h.used, hparent]
  simp only [Moved, DeadLink, hparent, h.used, h.examined_iff, hlink]

end

/-! ### What a repair does to the pending ones -/

/-- The repair that is made, and that it was pending. -/
inductive Repaired (part : Partition) (super : Superblock) (d : Directory) (z : Fin maxFiles) :
    Directory → Prop
  | moved : Moved part super d z →
    Repaired part super d z (d.set z (setEntryParentId (d z) rootDir))
  | fields : StrayFields part super d z →
    Repaired part super d z (d.set z { d z with startLba := 0, byteSize := 0 })
  | extents : BrokenExtents part super d z →
    Repaired part super d z
      (d.set z (setEntryExtents (d z) [⟨(d z).startLba, allocatedBlocksForEntry (d z)⟩]))

section

variable {part : Partition} {super : Superblock} {d d' : Directory} {z i : Fin maxFiles}

/-- An entry that is as bad after a repair as before. -/
lemma SameKinds.pending_iff (h : SameKinds part super d (d.set z e)) (he : P e ↔ P (d z))
    (i : Fin maxFiles) :
    Examined part super (d.set z e) i ∧ P (d.set z e i) ↔ Examined part super d i ∧ P (d i) := by
  rw [h.examined_iff]
  by_cases hi : i = z
  · rw [hi, set_self, he]
  · rw [set_of_ne d e hi]

/-- A repaired entry has the defect no more, and it is the only one that is changed. -/
lemma SameKinds.pending_iff_ne (h : SameKinds part super d (d.set z e)) (he : ¬ P e)
    (i : Fin maxFiles) : Examined part super (d.set z e) i ∧ P (d.set z e i) ↔
      (Examined part super d i ∧ P (d i)) ∧ i ≠ z := by
  rw [h.examined_iff]
  by_cases hi : i = z
  · rw [hi, set_self]
    exact iff_of_false (fun hz => he hz.2) fun hz => hz.2 rfl
  · rw [set_of_ne d e hi]
    exact (and_iff_left hi).symm

lemma deadLink_move :
    DeadLink (d.set z (setEntryParentId (d z) rootDir)) i ↔ DeadLink d i ∧ i ≠ z := by
  have hused : ∀ j, (d.set z (setEntryParentId (d z) rootDir) j).used = (d j).used := by
    intro j
    by_cases hj : j = z
    · rw [hj, set_self]
      rfl
    · rw [set_of_ne d _ hj]
  rw [DeadLink, hused]
  by_cases hi : i = z
  · rw [hi, set_self, parentId_setParent]
    refine iff_of_false ?_ fun hz => hz.2 rfl
    rintro (hlt | ⟨hne, -⟩)
    · exact absurd hlt (by decide)
    · exact hne rfl
  · rw [set_of_ne d _ hi]
    exact (and_iff_left hi).symm

lemma link_move_self : parentLink (d.set z (setEntryParentId (d z) rootDir)) z = none := by
  rw [parentLink, set_self, parentId_setParent, if_neg]
  exact fun h => h.2.1 rfl

lemma link_move_of_ne (h : i ≠ z) :
    parentLink (d.set z (setEntryParentId (d z) rootDir)) i = parentLink d i := by
  rw [parentLink, parentLink, set_of_ne d _ h]

/-- From a dead link the walk ends. -/
lemma DeadLink.grounded (h : DeadLink d i) : Grounded (parentLink d) i := by
  rcases hlink : parentLink d i with _ | j
  · exact .stop hlink
  obtain ⟨-, hparent⟩ := link_eq_some.mp hlink
  refine .step hlink (.stop ?_)
  rcases h with h | ⟨-, h⟩
  · rw [hparent] at h
    exact absurd h (toNat_entryId_le j).not_gt
  · rw [hparent, index_entryId] at h
    rw [parentLink, if_neg]
    exact fun hdir => h hdir.1

/-- Moving an entry settles its own link only. -/
lemma moved_move (hz : Moved part super d z) :
    Moved part super (d.set z (setEntryParentId (d z) rootDir)) i ↔
      Moved part super d i ∧ i ≠ z := by
  have hsame : SameKinds part super d (d.set z (setEntryParentId (d z) rootDir)) :=
    EntryRepair.sameKinds .parent
  have hcut : Grounded (parentLink d) z ∨ CutAt (parentLink d)
      (fun j => Examined part super d j ∧ (d j).used = entryDir) z :=
    hz.imp_left fun h => h.2.grounded
  simp only [Moved, hsame.examined_iff, hsame.used, deadLink_move, or_and_right, and_assoc,
    cutAt_cut_iff link_move_self (fun w hw => link_move_of_ne hw) hcut]

lemma ncard_of_iff_ne {P P' : Fin maxFiles → Prop} (h : ∀ i, P' i ↔ P i ∧ i ≠ z) (hz : P z) :
    {i | P i}.ncard = {i | P' i}.ncard + 1 := by
  have hdiff : {i | P' i} = {i | P i} \ {z} := by
    ext i
    exact h i
  rw [hdiff, Set.ncard_sdiff_singleton_add_one (show z ∈ {i | P i} from hz) (Set.toFinite _)]

/-- What is wrong with the entry in `StrayFields` and in `BrokenExtents`. -/
def Stray (e : Dirent) : Prop := e.used = entryDir ∧ (e.startLba ≠ 0 ∨ e.byteSize ≠ 0)

def Broken (part : Partition) (super : Superblock) (e : Dirent) : Prop :=
  e.used = entryFile ∧ Mendable part super e ∧ entryExtents e = none

lemma pending_eq (part : Partition) (super : Superblock) (d : Directory) :
    pendingRepairs part super d = {i | Moved part super d i}.ncard +
      {i | Examined part super d i ∧ Stray (d i)}.ncard +
      {i | Examined part super d i ∧ Broken part super (d i)}.ncard := rfl

lemma pending_move (hz : Moved part super d z) : pendingRepairs part super d =
      pendingRepairs part super (d.set z (setEntryParentId (d z) rootDir)) + 1 := by
  have hrepair : EntryRepair (some part) super (d z) (setEntryParentId (d z) rootDir) := .parent
  have hstray := hrepair.sameKinds.pending_iff (P := Stray) Iff.rfl
  have hbroken := hrepair.sameKinds.pending_iff (P := Broken part super)
    (by rw [Broken, (Host.entryRepair_congr hrepair).2.2, extents_setParent]; rfl)
  rw [pending_eq, pending_eq, ncard_of_iff_ne (fun i => moved_move hz) hz]
  simp only [hstray, hbroken]
  omega

/-- The parent ids stay where only another field of entry `z` changes. -/
lemma parentId_set (h : entryParentId e = entryParentId (d z)) (j : Fin maxFiles) :
    entryParentId (d.set z e j) = entryParentId (d j) := by
  by_cases hj : j = z
  · rw [hj, set_self, h]
  · rw [set_of_ne d e hj]

lemma pending_fields (hz : StrayFields part super d z) : pendingRepairs part super d =
      pendingRepairs part super (d.set z { d z with startLba := 0, byteSize := 0 }) + 1 := by
  obtain ⟨-, hdir, -⟩ := id hz
  have hsame : SameKinds part super d (d.set z { d z with startLba := 0, byteSize := 0 }) :=
    EntryRepair.sameKinds (.directory hdir)
  have hnot : ∀ e : Dirent, e.used = entryDir → ¬ Broken part super e := by
    rintro e hdir ⟨hfile, -⟩
    rw [hdir] at hfile
    cases hfile
  have hmoved := fun i => hsame.moved_iff (parentId_set rfl) (i := i)
  have hstray := hsame.pending_iff_ne (P := Stray) (by simp [Stray])
  have hbroken := hsame.pending_iff (P := Broken part super)
    (iff_of_false (hnot _ hdir) (hnot _ hdir))
  rw [pending_eq, pending_eq, ncard_of_iff_ne hstray hz]
  simp only [hmoved, hbroken]
  omega

lemma pending_extents (hz : BrokenExtents part super d z) :
    pendingRepairs part super d = pendingRepairs part super (d.set z
      (setEntryExtents (d z) [⟨(d z).startLba, allocatedBlocksForEntry (d z)⟩])) + 1 := by
  obtain ⟨-, hfile, hmend, hnone⟩ := id hz
  have hsame : SameKinds part super d (d.set z _) :=
    EntryRepair.sameKinds (.extents hfile (hmend.legacy hfile hnone) hnone)
  have hdecodes := extents_set_legacy (d z)
  obtain ⟨hused, -, -, hparent⟩ := setExtents_fields (d z)
    [⟨(d z).startLba, allocatedBlocksForEntry (d z)⟩]
  generalize setEntryExtents (d z) [⟨(d z).startLba, allocatedBlocksForEntry (d z)⟩] = e
    at hsame hdecodes hused hparent ⊢
  have hnot : ∀ e : Dirent, e.used = entryFile → ¬ Stray e := by
    rintro e hfile ⟨hdir, -⟩
    rw [hdir] at hfile
    cases hfile
  have hmoved := fun i => hsame.moved_iff (parentId_set hparent) (i := i)
  have hstray := hsame.pending_iff (P := Stray)
    (iff_of_false (hnot _ (hused.trans hfile)) (hnot _ hfile))
  have hbroken := hsame.pending_iff_ne (P := Broken part super) fun hb => by
    rw [Broken, hdecodes] at hb
    cases hb.2.2
  rw [pending_eq, pending_eq, ncard_of_iff_ne hbroken hz]
  simp only [hmoved, hstray]
  omega

/-- Each repair is one less. -/
lemma Repaired.pending_eq (h : Repaired part super d z d') :
    pendingRepairs part super d = pendingRepairs part super d' + 1 := by
  cases h with
  | moved hz => exact pending_move hz
  | fields hz => exact pending_fields hz
  | extents hz => exact pending_extents hz

end

/-! ### The reported defect is pending -/

section

variable {part : Partition} {super : Superblock} {d d' : Directory} {reason : CheckReason}
  {id : UInt32}

/-- What a report about a parent link means: the link of the entry itself is bad, or its walk comes
to a cycle. -/
lemma checkEntry_badParent (h : checkEntry super blockCount d i = some (.badParent, id)) :
    ((d i).used = entryFile ∨ (d i).used = entryDir) ∧ entryNameIsValid (d i).name = true ∧
      ((id = entryIdFromIndex i ∧ (DeadLink d i ∨ entryParentId (d i) = entryIdFromIndex i)) ∨
        ((d i).used = entryDir ∧ findDirectoryParentCycle d (entryIdFromIndex i) = some id)) := by
  simp only [checkEntry] at h
  split_ifs at h with hused htype hname hparent hpdir hdir hdata hsize
  · cases h
  · cases h
  · cases h
    refine ⟨file_or_dir htype, by simpa using hname, .inl ⟨rfl, ?_⟩⟩
    exact hparent.imp Or.inl fun hself => hself
  · cases h
    exact ⟨file_or_dir htype, by simpa using hname, .inl ⟨rfl, .inl (.inr hpdir)⟩⟩
  · cases h
  · refine ⟨file_or_dir htype, by simpa using hname, .inr ⟨hdir, ?_⟩⟩
    rcases hc : findDirectoryParentCycle d (entryIdFromIndex i) with _ | c
    · rw [hc] at h
      cases h
    rw [hc] at h
    obtain ⟨k, rfl, -⟩ := findCycle_eq_some hc
    have hk0 : entryIdFromIndex k ≠ 0 := entryId_ne_root k
    dsimp only at h
    rw [if_pos hk0] at h
    cases h
    rfl
  · cases h
  · cases hx : entryExtents (d i) with
    | none =>
      rw [hx] at h
      cases h
    | some xs =>
      rw [hx] at h
      obtain ⟨reason, hreason, heq⟩ := Option.map_eq_some_iff.mp h
      rcases checkExtents_eq_some hreason with hr | hr <;> rw [hr] at heq <;> cases heq

lemma findCycle_entryId :
    findDirectoryParentCycle d (entryIdFromIndex i) = some (entryIdFromIndex k) ↔
      findRepeat (parentLink d) ∅ i = some k := by
  rw [findCycle_eq, Option.map_eq_some_iff]
  constructor
  · rintro ⟨j, hj, heq⟩
    rw [hj, entryId_injective heq]
  · intro h
    exact ⟨k, h, rfl⟩

/-- The entries before the reported one have been accepted. -/
lemma examined_of_accepted (hlayout : ¬ layoutIsBad super part.blockCount)
    (hbefore : ∀ j < i, checkEntry super part.blockCount d j = none)
    (htype : (d i).used = entryFile ∨ (d i).used = entryDir)
    (hname : entryNameIsValid (d i).name = true) : Examined part super d i :=
  ⟨hlayout, htype, hname, fun j hj => Host.mendable_of_checkEntry (hbefore j hj)⟩

/-- No accepted directory leads to a cycle. -/
lemma not_reaches_of_accepted {j : Fin maxFiles} (h : checkEntry super part.blockCount d j = none)
    (hdir : (d j).used = entryDir) (hk : TransGen (Step (parentLink d)) k k) :
    ¬ ReflTransGen (Step (parentLink d)) j k := by
  intro hreach
  have hground : Grounded (parentLink d) j := by
    rcases entry_eq_none.mp h with h0 | hs
    · rw [hdir] at h0
      cases h0
    · exact (hs.dir hdir).2.2
  rcases reflTransGen_iff_eq_or_transGen.mp hreach with rfl | hreach
  · exact hground.not_transGen hk
  · exact (hground.of_transGen hreach).not_transGen hk

/-- A report about a parent link is about an entry that is to be moved. -/
lemma moved_of_badParent (hlayout : ¬ layoutIsBad super part.blockCount)
    (hbefore : ∀ j < i, checkEntry super part.blockCount d j = none)
    (h : checkEntry super part.blockCount d i = some (.badParent, id)) :
    ∃ k, id = entryIdFromIndex k ∧ Moved part super d k := by
  obtain ⟨htype, hname, hcase⟩ := checkEntry_badParent h
  have hexamined := examined_of_accepted hlayout hbefore htype hname
  -- the search from `i` reports `k`, and `i` is the first whose walk comes to `k`
  have hcut : ∀ k, (d i).used = entryDir → findRepeat (parentLink d) ∅ i = some k →
      Moved part super d k := by
    intro k hdir hk
    refine .inr ⟨i, ⟨hexamined, hdir⟩, hk, fun j hj hstart => ?_⟩
    exact not_reaches_of_accepted (hbefore j hj) hstart.2 (findRepeat_spec hk).1
  rcases hcase with ⟨rfl, hdead | hself⟩ | ⟨hdir, hcycle⟩
  · exact ⟨i, rfl, .inl ⟨hexamined, hdead⟩⟩
  · rcases htype with hfile | hdir
    · refine ⟨i, rfl, .inl ⟨hexamined, .inr ?_⟩⟩
      rw [hself, index_entryId, hfile]
      exact ⟨entryId_ne_root i, by decide⟩
    have hlink : parentLink d i = some i := link_eq_some.mpr ⟨hdir, hself⟩
    refine ⟨i, rfl, hcut i hdir ?_⟩
    rw [findRepeat, if_neg (Finset.notMem_empty i), hlink]
    dsimp only
    rw [findRepeat, if_pos (Finset.mem_insert_self i ∅)]
  · obtain ⟨k, rfl, -⟩ := findCycle_eq_some hcycle
    exact ⟨k, rfl, hcut k hdir (findCycle_entryId.mp hcycle)⟩

/-- The three repairs by what they are an answer to. -/
lemma repairDir_cases
    (h : repairDirectoryOnce (some part) super (reason, id) d = some d') :
    let k := indexFromEntryId id
    (reason = .badParent ∧ d' = d.set k (setEntryParentId (d k) rootDir)) ∨
    (reason = .badDirectory ∧ d' = d.set k { d k with startLba := 0, byteSize := 0 }) ∨
    (reason = .badFileExtent ∧ legacyExtentFieldsValid (some part) super (d k) = true ∧
      entryExtents (d k) = none ∧ d' = d.set k (setEntryExtents (d k)
        [⟨(d k).startLba, allocatedBlocksForEntry (d k)⟩])) := by
  intro k
  simp only [repairDirectoryOnce] at h
  split_ifs at h with hid htype hparent hdir hext
  · exact .inl ⟨hparent.1, (some.inj h).symm⟩
  · exact .inr (.inl ⟨hdir.1, (some.inj h).symm⟩)
  · exact .inr (.inr ⟨hext.1, hext.2.2.2.1, hext.2.2.2.2, (some.inj h).symm⟩)

/-- Every repair that is made was pending. -/
theorem repaired_of_report (h : validateDirectory (some part) super d = some report)
    (hrepair : repairDirectoryOnce (some part) super report d = some d') :
    ∃ z, Repaired part super d z d' := by
  obtain ⟨reason, id⟩ := report
  rcases validate_eq_some h with ⟨-, heq⟩ | ⟨hlayout, i, hi, hbefore⟩ | ⟨-, hall, hover⟩
  · cases heq
    cases hrepair
  · have hcases := repairDir_cases hrepair
    rcases hcases with ⟨rfl, rfl⟩ | ⟨rfl, rfl⟩ | ⟨rfl, hlegacy, hnone, rfl⟩
    · obtain ⟨k, rfl, hmoved⟩ := moved_of_badParent hlayout hbefore hi
      rw [index_entryId]
      exact ⟨k, .moved hmoved⟩
    · cases entry_eq_some hi with
      | directory hdir hname hdata =>
        rw [index_entryId]
        exact ⟨i, .fields ⟨examined_of_accepted hlayout hbefore (.inr hdir) hname, hdir, hdata⟩⟩
      | extents _ _ _ _ _ _ hbad => rcases checkExtents_eq_some hbad with hb | hb <;> cases hb
    cases entry_eq_some hi with
    | undecodable hfile hname hsize =>
      rw [index_entryId] at hlegacy hnone ⊢
      refine ⟨i, .extents ⟨examined_of_accepted hlayout hbefore (.inl hfile) hname, hfile,
        ⟨.inl hfile, hname, fun _ => hsize, fun _ _ => hlegacy, fun _ xs hxs => ?_⟩, hnone⟩⟩
      rw [hnone] at hxs
      cases hxs
    | extents _ _ _ _ hdecodes =>
      rw [index_entryId, hdecodes] at hnone
      cases hnone
  · obtain rfl : reason = .overlappingExtents := overlaps_eq_some hall hover
    simp [repairDirectoryOnce] at hrepair

/-! ### When nothing is left to repair -/

/-- Of an accepted entry nothing is pending. -/
lemma not_pending_of_accepted (h : checkEntry super part.blockCount d i = none) :
    ¬ (Examined part super d i ∧ DeadLink d i) ∧ ¬ StrayFields part super d i ∧
      ¬ BrokenExtents part super d i := by
  rcases entry_eq_none.mp h with h0 | hs
  · have hnot : ¬ Examined part super d i := by
      intro hx
      rcases hx.type with ht | ht <;> rw [h0] at ht <;> cases ht
    exact ⟨fun hx => hnot hx.1, fun hx => hnot hx.1, fun hx => hnot hx.1⟩
  refine ⟨?_, ?_, ?_⟩
  · rintro ⟨-, hlt | ⟨hroot, hdir⟩⟩
    · exact absurd hs.parent.le (not_le.mpr hlt)
    · exact hdir (hs.parent.isDir hroot)
  · rintro ⟨-, hdir, hdata⟩
    exact hdata.elim (fun hne => hne (hs.dir hdir).1) fun hne => hne (hs.dir hdir).2.1
  · rintro ⟨-, hfile, -, hnone⟩
    obtain ⟨-, xs, hxs, -⟩ := hs.file hfile
    rw [hnone] at hxs
    cases hxs

/-- Nothing is pending if every examined entry is accepted or has an end of its own. -/
lemma pending_eq_zero
    (h : ∀ i, Examined part super d i → ¬ DeadLink d i ∧ ¬ StrayFields part super d i ∧
      ¬ BrokenExtents part super d i ∧
      ((d i).used = entryDir → checkEntry super part.blockCount d i = none)) :
    pendingRepairs part super d = 0 := by
  have hmoved : ∀ i, ¬ Moved part super d i := by
    rintro i (⟨hexamined, hdead⟩ | hcut)
    · exact (h i hexamined).1 hdead
    · obtain ⟨j, ⟨hexamined, hdir⟩, hj, -⟩ := id hcut
      exact not_reaches_of_accepted ((h j hexamined).2.2.2 hdir) hdir hcut.onCycle
        (findRepeat_spec hj).2
  have hstray : ∀ i, ¬ StrayFields part super d i := fun i hi => (h i hi.1).2.1 hi
  have hbroken : ∀ i, ¬ BrokenExtents part super d i := fun i hi => (h i hi.1).2.2.1 hi
  simp [pendingRepairs, hmoved, hstray, hbroken]

/-- An accepted table, or one whose entries are accepted and whose files overlap. -/
lemma pending_of_accepted
    (h : ∀ i, checkEntry super part.blockCount d i = none) : pendingRepairs part super d = 0 := by
  refine pending_eq_zero fun i hx => ?_
  obtain ⟨hdead, hstray, hbroken⟩ := not_pending_of_accepted (h i)
  exact ⟨fun hd => hdead ⟨hx, hd⟩, hstray, hbroken, fun _ => h i⟩

/-- A report that is not answered leaves nothing pending: nothing behind the entry is examined. -/
theorem pending_of_refused (h : validateDirectory (some part) super d = some report)
    (hrepair : repairDirectoryOnce (some part) super report d = none) :
    pendingRepairs part super d = 0 := by
  rcases validate_eq_some h with ⟨hlayout, -⟩ | ⟨hlayout, i, hi, hbefore⟩ | ⟨-, hall, -⟩
  · exact pending_eq_zero fun i hx => absurd hlayout hx.layout
  swap
  · exact pending_of_accepted hall
  have hdefect := entry_eq_some hi
  have hnot : ¬ ((d i).used = 0 ∨ Mendable part super (d i)) := by
    intro hm
    obtain ⟨d', hd'⟩ := Host.repairDir_of_mendable hm hdefect
    rw [hrepair] at hd'
    cases hd'
  refine pending_eq_zero fun k hx => ?_
  rcases lt_trichotomy k i with hlt | rfl | hlt
  · obtain ⟨hdead, hstray, hbroken⟩ := not_pending_of_accepted (hbefore k hlt)
    exact ⟨fun hd => hdead ⟨hx, hd⟩, hstray, hbroken, fun _ => hbefore k hlt⟩
  · -- the entry itself: a file with a size or extents that cannot be repaired
    have hfile : (d k).used = entryFile := by
      refine hx.type.resolve_right fun hdir => hnot (.inr ?_)
      have hnf : (d k).used ≠ entryFile := by rw [hdir]; decide
      exact ⟨.inr hdir, hx.name, fun hf => absurd hf hnf, fun hf => absurd hf hnf,
        fun hf => absurd hf hnf⟩
    have hnd : (d k).used ≠ entryDir := by rw [hfile]; decide
    have hlink : ParentSound d k := by
      by_contra hbad
      rw [checkEntry_of_not_parentSound hx.type hx.name hbad] at hi
      cases hi
      rw [repairDir_badParent _ _ hx.type (linkIsBad_of_not_parentSound hbad)] at hrepair
      cases hrepair
    refine ⟨?_, fun hs => hnd hs.2.1, fun hb => hnot (.inr hb.2.2.1), fun hdir => absurd hdir hnd⟩
    rintro (hlt | ⟨hroot, hdir⟩)
    · exact absurd hlink.le (not_le.mpr hlt)
    · exact hdir (hlink.isDir hroot)
  · exact absurd (hx.before i hlt) hnot

end

/-! ### Main result -/

/-- The loop has ended with a table that validates, or at a defect that it cannot repair, after at
most `LAINFS_MAX_FILES` repairs. -/
def Verdict (part : Option Partition) (super : Superblock)
    (result : RepairLoop.End (CheckReason × UInt32) × Directory) : Prop :=
  result.1.repairs ≤ maxFiles ∧
    ((∃ n, result.1 = .clean n ∧ validateDirectory part super result.2 = none) ∨
      ∃ n defect, result.1 = .stuck n defect ∧
        validateDirectory part super result.2 = some defect ∧
        repairDirectoryOnce part super defect result.2 = none)

lemma repairLoop_repairs (part : Partition) (super : Superblock) (d : Directory) :
    (repairLoop (some part) super d).1.repairs = min (pendingRepairs part super d) (maxFiles + 1) ∧
      ((∃ n defect, (repairLoop (some part) super d).1 = .tooMany n defect) ↔
        maxFiles < pendingRepairs part super d) := by
  have h := @RepairLoop.loop_repairs _ _ (validateDirectory (some part) super)
    (repairDirectoryOnce (some part) super) maxFiles 0 d (pendingRepairs part super)
    (fun d defect d' hcheck hrepair => by
      obtain ⟨z, hz⟩ := repaired_of_report hcheck hrepair
      exact hz.pending_eq)
    (fun d hcheck => pending_of_accepted fun i =>
      entry_eq_none.mpr ((validate_eq_none.mp hcheck).entry i))
    (fun d defect => pending_of_refused) (Nat.zero_le _)
  rwa [zero_add] at h

/-- The loop of `lainfs_repair` comes to a verdict exactly if the table calls for at most
`LAINFS_MAX_FILES` repairs. -/
theorem repair_reaches_verdict_iff (part : Partition) (super : Superblock) (d : Directory) :
    Verdict (some part) super (repairLoop (some part) super d) ↔
      pendingRepairs part super d ≤ maxFiles := by
  obtain ⟨hrepairs, htooMany⟩ := repairLoop_repairs part super d
  constructor
  · rintro ⟨hle, -⟩
    omega
  intro hle
  refine ⟨by rw [hrepairs]; exact (min_le_left _ _).trans hle, ?_⟩
  cases hend : (repairLoop (some part) super d).1 with
  | clean n =>
    refine .inl ⟨n, rfl, RepairLoop.check_of_isClean ?_⟩
    rw [← repairLoop, hend]
    rfl
  | stuck n defect => exact .inr ⟨n, defect, rfl, RepairLoop.of_stuck hend⟩
  | tooMany n defect => exact absurd (htooMany.mp ⟨n, defect, hend⟩) (not_lt.mpr hle)

/-- `lainfs_repair` only gives up with -4 on a table that calls for more repairs, and on such a table it
ends in no other way, unless the directory cannot be written back. -/
theorem lainfsRepair_gives_up {st st' : State} {drive : UInt8} {p : UInt32}
    {super : CheckedSuper} {part : Partition}
    (hmount : mountForDrive st drive = some p)
    (hopen : openDirectoryUnchecked st p = (.ok super, st'))
    (hpart : storageGetPartition st'.storage p = some part) :
    ((lainfsRepair st drive).1.status = -4 → maxFiles < pendingRepairs part super.1 st'.directory) ∧
      (maxFiles < pendingRepairs part super.1 st'.directory →
        (lainfsRepair st drive).1.status = -4 ∨ (lainfsRepair st drive).1.status = -1) := by
  obtain ⟨-, htooMany⟩ := repairLoop_repairs part super.1 st'.directory
  have hflush : ∀ s n result, (flushAfterRepair s n result).1.status = result.status ∨
      (flushAfterRepair s n result).1.status = -1 := by
    intro s n result
    rw [flushAfterRepair]
    split <;> simp
  rw [lainfsRepair, hmount]
  simp only [hopen, hpart]
  rw [← htooMany]
  cases hend : (repairLoop (some part) super.1 st'.directory).1 with
  | clean n =>
    refine ⟨fun h => ?_, by simp⟩
    rcases hflush _ n ⟨0, .ok, 0, n⟩ with hstatus | hstatus <;> rw [hstatus] at h <;> cases h
  | stuck n defect =>
    refine ⟨fun h => ?_, by simp⟩
    dsimp only at h
    by_cases hn : n = 0
    · rw [if_pos hn] at h
      cases h
    · rw [if_neg hn] at h
      rcases hflush _ n ⟨-3, defect.1, defect.2, n⟩ with hstatus | hstatus <;>
        rw [hstatus] at h <;> cases h
  | tooMany n defect =>
    exact ⟨fun _ => ⟨n, defect, rfl⟩, fun _ => hflush _ n ⟨-4, defect.1, defect.2, n⟩⟩

/-! ### A table with two defects in every entry -/

/-- A directory `a` with a parent id and a start sector that mean nothing. -/
def strayDir : Dirent :=
  setEntryParentId { newDirEntry rootDir [0x61] with startLba := 1 } 3000

def strayTable : Directory := fun _ => strayDir

def strayPartition : Partition := ⟨true, [], 0, 1, 2048, 300, 0x99, .lainfs⟩

/-- Each of the 2048 entries is moved and cleared. -/
lemma stray_pendingRepairs :
    pendingRepairs strayPartition formatSuper strayTable = maxFiles + maxFiles := by
  have hdir : strayDir.used = entryDir := rfl
  have hnf : strayDir.used ≠ entryFile := by decide
  have hname : entryNameIsValid strayDir.name = true := by decide
  have hstart : strayDir.startLba ≠ 0 := by decide
  have hparent : entryParentId strayDir = 3000 := parentId_setParent _ _
  have hmend : Mendable strayPartition formatSuper strayDir :=
    ⟨.inr hdir, hname, fun hf => absurd hf hnf, fun hf => absurd hf hnf, fun hf => absurd hf hnf⟩
  have hexamined : ∀ i, Examined strayPartition formatSuper strayTable i :=
    fun i => ⟨by decide, .inr hdir, hname, fun j _ => .inr hmend⟩
  have hmoved : {i | Moved strayPartition formatSuper strayTable i} = Set.univ :=
    Set.eq_univ_of_forall fun i =>
      Or.inl ⟨hexamined i, .inl (by rw [strayTable, hparent]; decide)⟩
  have hstray : {i | StrayFields strayPartition formatSuper strayTable i} = Set.univ :=
    Set.eq_univ_of_forall fun i => ⟨hexamined i, hdir, .inl hstart⟩
  have hbroken : {i | BrokenExtents strayPartition formatSuper strayTable i} = ∅ :=
    Set.eq_empty_of_forall_notMem fun i hb => hnf hb.2.1
  rw [pendingRepairs, hmoved, hstray, hbroken, Set.ncard_univ, Set.ncard_empty, Nat.card_fin,
    add_zero]

/-- 2048 directories with a bad parent and a start sector each: the loop gives up after 2049
repairs, although every defect could be repaired. -/
theorem repair_gives_up_on_strayTable :
    ∃ n defect, n = 2049 ∧
      (repairLoop (some strayPartition) formatSuper strayTable).1 = .tooMany n defect := by
  obtain ⟨hrepairs, htooMany⟩ := repairLoop_repairs strayPartition formatSuper strayTable
  rw [stray_pendingRepairs] at hrepairs htooMany
  obtain ⟨n, defect, hend⟩ := htooMany.mpr (by decide)
  rw [hend] at hrepairs
  exact ⟨n, defect, hrepairs, hend⟩

end LainFS
