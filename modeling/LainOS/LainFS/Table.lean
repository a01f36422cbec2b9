import LainOS.LainFS.Alloc

/-!
# Operations on the table

The part of make-directory, delete, rename and save that works on the directory table alone:
an error code, or the new table. Each keeps a valid table valid.
-/

namespace LainFS

open Storage ParentWalk Directory

variable {i k : Fin maxFiles} {name newName : List UInt8} {blockCount : UInt64}

/-! ### The operations -/

def validDirId (d : Directory) (id : UInt32) : Bool :=
  if id = rootDir then true
  else if maxFiles < id.toNat then false
  else (d (indexFromEntryId id)).used == entryDir

def dirHasChildren (d : Directory) (parentId : UInt32) : Bool :=
  (List.finRange maxFiles).any fun i => (d i).used != 0 && entryParentId (d i) == parentId

/-- `none` when the walk has not ended after `fuel` rounds. -/
def dirIsDescendantOf (d : Directory) (ancestorId : UInt32) : ℕ → UInt32 → Option Bool
  | 0, _ => none
  | fuel + 1, current =>
    if current = rootDir then some (ancestorId == rootDir)
    else if maxFiles < current.toNat then some false
    else if current = ancestorId then some true
    else if (d (indexFromEntryId current)).used ≠ entryDir then some false
    else dirIsDescendantOf d ancestorId fuel (entryParentId (d (indexFromEntryId current)))

/-- The entry of a new directory. -/
def newDirEntry (parentId : UInt32) (name : List UInt8) : Dirent :=
  let e := { Dirent.zero with used := entryDir }
  setEntryParentId { e with name := copyName e.name name } parentId

def makeDirEntry (d : Directory) (parentId : UInt32) (name : List UInt8) : Except ℤ Directory :=
  if validDirId d parentId = false then .error (-7)
  else if (findEntryInDir d parentId name).isSome then .error (-6)
  else
    match findFreeEntry d with
    | none => .error (-5)
    | some i => .ok (d.set i (newDirEntry parentId name))

def deleteEntry (d : Directory) (parentId : UInt32) (name : List UInt8) : Except ℤ Directory :=
  if validDirId d parentId = false then .error (-7)
  else
    match findEntryInDir d parentId name with
    | none => .error (-5)
    | some i =>
      if (d i).used = entryDir ∧ dirHasChildren d (entryIdFromIndex i) = true then .error (-9)
      else .ok (d.set i Dirent.zero)

/-- On an accepted table the walk up from the new parent ends; where it does not the call would
hang, which the model counts as a refusal. -/
def renameEntry (d : Directory) (oldParentId : UInt32) (oldName : List UInt8)
    (newParentId : UInt32) (newName : List UInt8) : Except ℤ Directory :=
  if validDirId d oldParentId = false ∨ validDirId d newParentId = false then .error (-7)
  else
    match findEntryInDir d oldParentId oldName with
    | none => .error (-5)
    | some i =>
      if (d i).used = entryDir ∧ (entryIdFromIndex i = newParentId ∨
          dirIsDescendantOf d (entryIdFromIndex i) (maxFiles + 1) newParentId ≠ some false) then
        .error (-8)
      else if (findEntryInDir d newParentId newName).isSome then .error (-6)
      else
        .ok (d.set i
          (setEntryParentId { d i with name := copyName (d i).name newName } newParentId))

/-- A slot just claimed for a file: no name, no size, no sectors. -/
def claimedEntry (parentId : UInt32) : Dirent :=
  setEntryParentId { Dirent.zero with used := entryFile } parentId

/-- The slot `lainfs_save_file_in_dir` will use, and the table with the slot claimed. -/
def claimSlot (d : Directory) (parentId : UInt32) (name : List UInt8) :
    Except ℤ (Fin maxFiles × Directory) :=
  if validDirId d parentId = false then .error (-7)
  else
    match findEntryInDir d parentId name with
    | some i => if (d i).used = entryDir then .error (-8) else .ok (i, d)
    | none =>
      match findFreeEntry d with
      | some i => .ok (i, d.set i (claimedEntry parentId))
      | none => .error (-5)

def requiredBlocks (size : UInt32) : UInt32 :=
  let newBlocks := blocksForSize size
  if newBlocks = 0 then 1 else newBlocks

/-- The entry of a saved file. -/
def fileEntry (slot : Dirent) (name : List UInt8) (size : UInt32) (extents : List Extent) :
    Dirent :=
  setEntryExtents { slot with name := copyName slot.name name, byteSize := size } extents

/-! ### What a successful operation did -/

section

variable {d d' : Directory} {parentId newParentId : UInt32}

lemma makeDirEntry_eq_ok (h : makeDirEntry d parentId name = .ok d') :
    validDirId d parentId = true ∧ findEntryInDir d parentId name = none ∧
      ∃ i, (d i).used = 0 ∧ d' = d.set i (newDirEntry parentId name) := by
  rw [makeDirEntry] at h
  split_ifs at h with hdir hexists
  cases hfree : findFreeEntry d with
  | none => rw [hfree] at h; cases h
  | some i =>
    rw [hfree] at h
    cases h
    exact ⟨by simpa using hdir, by simpa using hexists, i, freeEntry_eq_some hfree, rfl⟩

lemma deleteEntry_eq_ok (h : deleteEntry d parentId name = .ok d') :
    ∃ i, findEntryInDir d parentId name = some i ∧
      ¬ ((d i).used = entryDir ∧ dirHasChildren d (entryIdFromIndex i) = true) ∧
      d' = d.set i Dirent.zero := by
  rw [deleteEntry] at h
  split_ifs at h
  rcases hfind : findEntryInDir d parentId name with _ | i
  · rw [hfind] at h; cases h
  rw [hfind] at h
  dsimp only at h
  split_ifs at h with hchildren
  cases h
  exact ⟨i, rfl, hchildren, rfl⟩

lemma renameEntry_eq_ok (h : renameEntry d parentId name newParentId newName = .ok d') :
    validDirId d newParentId = true ∧ findEntryInDir d newParentId newName = none ∧
      ∃ i, findEntryInDir d parentId name = some i ∧
        ((d i).used = entryDir → entryIdFromIndex i ≠ newParentId ∧
          dirIsDescendantOf d (entryIdFromIndex i) (maxFiles + 1) newParentId = some false) ∧
        d' = d.set i
          (setEntryParentId { d i with name := copyName (d i).name newName } newParentId) := by
  rw [renameEntry] at h
  split at h
  · cases h
  rename_i hdirs
  rcases hfind : findEntryInDir d parentId name with _ | i
  · rw [hfind] at h; cases h
  rw [hfind] at h
  dsimp only at h
  split_ifs at h with hdesc hexists
  cases h
  refine ⟨by simp at hdirs; exact hdirs.2, by simpa using hexists, i, rfl, fun hd => ?_, rfl⟩
  exact ⟨fun he => hdesc ⟨hd, .inl he⟩, by_contra fun hn => hdesc ⟨hd, .inr hn⟩⟩

lemma claim_eq_ok (h : claimSlot d parentId name = .ok (i, d')) : validDirId d parentId = true ∧
      ((findEntryInDir d parentId name = some i ∧ (d i).used ≠ entryDir ∧ d' = d) ∨
        (findEntryInDir d parentId name = none ∧ (d i).used = 0 ∧
          d' = d.set i (claimedEntry parentId))) := by
  rw [claimSlot] at h
  split at h
  · cases h
  rename_i hdir
  refine ⟨by simpa using hdir, ?_⟩
  cases hfind : findEntryInDir d parentId name with
  | some k =>
    rw [hfind] at h
    dsimp only at h
    split_ifs at h with hk
    cases h
    exact .inl ⟨rfl, hk, rfl⟩
  | none =>
    rw [hfind] at h
    cases hfree : findFreeEntry d with
    | none => rw [hfree] at h; cases h
    | some k =>
      rw [hfree] at h
      cases h
      exact .inr ⟨rfl, freeEntry_eq_some hfree, rfl⟩

end

/-! ### Valid tables -/

/-- No two used entries have the same parent and name. -/
def NamesDistinct (d : Directory) : Prop :=
  ∀ i j, (d i).used ≠ 0 → (d j).used ≠ 0 → entryParentId (d i) = entryParentId (d j) →
    entryName (d i) = entryName (d j) → i = j

variable {d : Directory}

/-- Distinct names are found, each at its entry. -/
lemma NamesDistinct.findEntryInDir (h : NamesDistinct d) (hi : (d i).used ≠ 0) :
    LainFS.findEntryInDir d (entryParentId (d i)) (entryName (d i)) = some i := by
  cases hf : LainFS.findEntryInDir d (entryParentId (d i)) (entryName (d i)) with
  | none => exact absurd ⟨hi, rfl, rfl⟩ (findEntry_eq_none hf i)
  | some k =>
    obtain ⟨hk, hparent, hname⟩ := findEntry_eq_some hf
    rw [h k i hk hi hparent hname]

/-- The validator accepts the table and sibling names are distinct. -/
structure TableValid (part : Partition) (super : Superblock) (d : Directory) : Prop where
  accepted : validateDirectory (some part) super d = none
  names : NamesDistinct d

lemma TableValid.sound {part : Partition} {super : Superblock}
    (h : TableValid part super d) : DirectorySound super part.blockCount d :=
  validate_eq_none.mp h.accepted

variable {k : Fin maxFiles}

lemma validDirId_of_dir (hk : (d k).used = entryDir) :
    validDirId d (entryIdFromIndex k) = true := by
  rw [validDirId, if_neg (entryId_ne_root k),
    if_neg (by rw [toNat_entryId]; omega), index_entryId, hk]
  rfl

lemma validDirId_eq_true {id : UInt32} (h : validDirId d id = true) :
    id = rootDir ∨ ∃ k, id = entryIdFromIndex k ∧ (d k).used = entryDir := by
  simp only [validDirId] at h
  split_ifs at h with hroot hle
  · exact .inl hroot
  · exact .inr ⟨indexFromEntryId id, (entryId_index hroot (not_lt.mp hle)).symm, by simpa using h⟩

/-! ### Replacing one entry -/

section

variable {super : Superblock} {d : Directory} {e : Dirent} {j : Fin maxFiles}

lemma link_set_of_ne (h : j ≠ i) : parentLink (d.set i e) j = parentLink d j := by
  simp only [parentLink, set_of_ne d e h]

lemma link_set_self : parentLink (d.set i e) i =
      if e.used = entryDir ∧ entryParentId e ≠ rootDir ∧ (entryParentId e).toNat ≤ maxFiles then
        some (indexFromEntryId (entryParentId e))
      else none := by
  simp only [parentLink, set_self]

section

variable (hd : DirectorySound super blockCount d)
include hd

/-- Replacing entry `i` keeps a table sound when the children of `i` keep a directory as their
parent, parent chains still end, and the new entry is free or sound and apart. -/
lemma directorySound_set
    (hchild : ∀ j, j ≠ i → (d j).used ≠ 0 → entryParentId (d j) = entryIdFromIndex i →
      e.used = entryDir)
    (hground : ∀ j, j ≠ i → (d j).used = entryDir → Grounded (parentLink (d.set i e)) j)
    (he : e.used = 0 ∨ EntrySound super blockCount (d.set i e) i)
    (hapart : e.used = entryFile → ∀ j, j ≠ i → (d j).used = entryFile → ∃ xs ys,
      entryExtents e = some xs ∧ entryExtents (d j) = some ys ∧
        ∀ x ∈ xs, ∀ y ∈ ys, rangesOverlap x.startLba x.blocks y.startLba y.blocks = false) :
    DirectorySound super blockCount (d.set i e) := by
  refine ⟨hd.layout, fun j => ?_, fun j k hjk hj hk => ?_⟩
  · by_cases hji : j = i
    · subst hji
      rw [set_self]
      exact he
    rw [set_of_ne d e hji]
    rcases hd.entry j with h0 | hs
    · exact .inl h0
    refine .inr ⟨?_, ?_, ⟨?_, ?_, fun hroot => ?_⟩, fun hdir => ?_, fun hfile => ?_⟩
    all_goals simp only [set_of_ne d e hji] at *
    · exact hs.type
    · exact hs.name
    · exact hs.parent.le
    · exact hs.parent.ne_self
    · by_cases hp : indexFromEntryId (entryParentId (d j)) = i
      · rw [hp, set_self]
        apply hchild j hji (used_ne_zero hs.type)
        rw [← hp, entryId_index hroot hs.parent.le]
      · rw [set_of_ne d e hp]
        exact hs.parent.isDir hroot
    · exact ⟨(hs.dir hdir).1, (hs.dir hdir).2.1, hground j hji hdir⟩
    · exact hs.file hfile
  · by_cases hji : j = i
    · subst hji
      have hkj : k ≠ j := hjk.ne'
      rw [set_self] at hj ⊢
      rw [set_of_ne d e hkj] at hk ⊢
      exact hapart hj k hkj hk
    rw [set_of_ne d e hji] at hj ⊢
    by_cases hki : k = i
    · subst hki
      rw [set_self] at hk ⊢
      obtain ⟨xs, ys, hxs, hys, hap⟩ := hapart hk j hji hj
      refine ⟨ys, xs, hys, hxs, fun y hy x hx => ?_⟩
      rw [overlap_comm]
      exact hap x hx y hy
    · rw [set_of_ne d e hki] at hk ⊢
      exact hd.apart j k hjk hj hk

/-- The directories of a sound table have parent chains that end. -/
lemma DirectorySound.grounded (hj : (d j).used = entryDir) : Grounded (parentLink d) j := by
  rcases hd.entry j with h0 | hs
  · rw [hj] at h0
    cases h0
  · exact (hs.dir hj).2.2

/-- Only directories are parents. -/
lemma DirectorySound.parent_isDir (hj : (d j).used ≠ 0)
    (hp : entryParentId (d j) = entryIdFromIndex k) : (d k).used = entryDir := by
  have hs := (hd.entry j).resolve_left hj
  have := hs.parent.isDir (by rw [hp]; exact entryId_ne_root k)
  rwa [hp, index_entryId] at this

/-- The pairs of files in either order. -/
lemma DirectorySound.apart_symm (hne : k ≠ j) (hj : (d j).used = entryFile)
    (hk : (d k).used = entryFile) :
    ∃ xs ys, entryExtents (d j) = some xs ∧ entryExtents (d k) = some ys ∧
      ∀ x ∈ xs, ∀ y ∈ ys, rangesOverlap x.startLba x.blocks y.startLba y.blocks = false := by
  rcases lt_or_gt_of_ne hne with hlt | hgt
  · obtain ⟨ys, xs, hys, hxs, hap⟩ := hd.apart k j hlt hk hj
    refine ⟨xs, ys, hxs, hys, fun x hx y hy => ?_⟩
    rw [overlap_comm]
    exact hap y hy x hx
  · exact hd.apart j k hgt hj hk

end

lemma NamesDistinct.set (hn : NamesDistinct d) (he : e.used ≠ 0 → ∀ j, j ≠ i → (d j).used ≠ 0 →
      ¬ (entryParentId (d j) = entryParentId e ∧ entryName (d j) = entryName e)) :
    NamesDistinct (d.set i e) := by
  intro j k hj hk hp hname
  by_cases hji : j = i
  · by_cases hki : k = i
    · rw [hji, hki]
    · subst hji
      rw [set_self] at hj hp hname
      rw [set_of_ne d e hki] at hk hp hname
      exact absurd ⟨hp.symm, hname.symm⟩ (he hj k hki hk)
  · rw [set_of_ne d e hji] at hj hp hname
    by_cases hki : k = i
    · subst hki
      rw [set_self] at hk hp hname
      exact absurd ⟨hp, hname⟩ (he hk j hji hj)
    · rw [set_of_ne d e hki] at hk hp hname
      exact hn j k hj hk hp hname

end

/-! ### Names -/

lemma validName_length (h : validName name = true) : name.length ≤ 30 := by
  simp only [validName, Bool.and_eq_true, Bool.not_eq_true', Bool.or_eq_false_iff,
    decide_eq_false_iff_not] at h
  omega

lemma nameIsValid_copy (dst : Vector UInt8 31) (hname : validName name = true)
    (hnz : ∀ b ∈ name, b ≠ 0) : entryNameIsValid (copyName dst name) = true := by
  rw [nameIsValid_eq_true, cString_copy dst (validName_length hname) hnz]
  exact hname

/-! ### Walking up -/

/-- On a chain that ends the walk returns. -/
lemma descendant_isSome {ancestorId : UInt32} (h : Grounded (parentLink d) k) :
    (dirIsDescendantOf d ancestorId (maxFiles + 1) (entryIdFromIndex k)).isSome = true := by
  have hnone := findRepeat_none_iff.mpr h
  have hfuel : ∀ (seen : Finset (Fin maxFiles)) (k : Fin maxFiles) (fuel : ℕ),
      findRepeat (parentLink d) seen k = none → maxFiles - seen.card < fuel →
      (dirIsDescendantOf d ancestorId fuel (entryIdFromIndex k)).isSome = true := by
    intro seen k
    -- each round puts one more entry into `seen`, so the fuel lasts
    fun_induction findRepeat (parentLink d) seen k with
    | case1 seen k hmem => intro fuel hc; cases hc
    | case2 seen k hmem hlink =>
      intro fuel _ hlt
      have hcard : seen.card < maxFiles := by simpa using Finset.card_lt_univ_of_notMem hmem
      obtain ⟨fuel, rfl⟩ : ∃ n, fuel = n + 2 := ⟨fuel - 2, by omega⟩
      rw [dirIsDescendantOf]
      split_ifs with hroot hle hanc hdir <;> try rfl
      rw [index_entryId] at hdir ⊢
      simp only [parentLink, ite_eq_right_iff, reduceCtorEq, imp_false] at hlink
      rw [dirIsDescendantOf]
      split_ifs with hroot' hle' <;> try rfl
      all_goals exact absurd ⟨not_not.mp hdir, hroot', not_lt.mp hle'⟩ hlink
    | case3 seen k hmem l hlink ih =>
      intro fuel hrep hlt
      have hcard : seen.card < maxFiles := by simpa using Finset.card_lt_univ_of_notMem hmem
      have hins := Finset.card_insert_of_notMem hmem
      obtain ⟨fuel, rfl⟩ : ∃ n, fuel = n + 1 := ⟨fuel - 1, by omega⟩
      rw [dirIsDescendantOf]
      split_ifs with hroot hle hanc hdir <;> try rfl
      rw [index_entryId, (link_eq_some.mp hlink).2]
      exact ih fuel hrep (by omega)
  exact hfuel ∅ k (maxFiles + 1) hnone (by simp)

/-- A walk that answers no never meets the ancestor. -/
lemma not_reaches_of_descendant {fuel : ℕ}
    (h : dirIsDescendantOf d (entryIdFromIndex i) fuel (entryIdFromIndex k) = some false) :
    ¬ Relation.ReflTransGen (Step (parentLink d)) k i := by
  induction fuel generalizing k with
  | zero => cases h
  | succ fuel ih =>
    rw [dirIsDescendantOf, if_neg (entryId_ne_root k), if_neg (toNat_entryId_le k).not_gt,
      index_entryId] at h
    intro hreach
    rcases Relation.ReflTransGen.cases_head hreach with rfl | ⟨l, hstep, hrest⟩
    · rw [if_pos rfl] at h
      cases h
    obtain ⟨hdir, hparent⟩ := link_eq_some.mp hstep
    split_ifs at h with hanc hnd
    · cases h
    · exact hnd hdir
    · rw [hparent] at h
      exact ih h hrest

/-! ### The operations keep tables valid -/

section

variable {part : Partition} {super : Superblock} {d d' : Directory} {parentId : UInt32}
  {name : List UInt8} {i : Fin maxFiles} {e : Dirent}

/-- An entry that is no directory is not a legal parent. -/
lemma ne_of_validDirId (hdir : validDirId d parentId = true) (hnd : (d i).used ≠ entryDir) :
    parentId ≠ entryIdFromIndex i := by
  rintro rfl
  rcases validDirId_eq_true hdir with hroot | ⟨k, hk, hkdir⟩
  · exact entryId_ne_root i hroot
  · rw [← entryId_injective hk] at hkdir
    exact hnd hkdir

/-- The parent a call names is legal for any entry but itself. -/
lemma parentSound_of_valid
    (hp : validDirId d parentId = true) (hparent : entryParentId e = parentId)
    (hne : parentId ≠ entryIdFromIndex i) : ParentSound (d.set i e) i := by
  have hself : entryParentId (d.set i e i) = parentId := by rw [set_self, hparent]
  rcases validDirId_eq_true hp with rfl | ⟨k, rfl, hk⟩
  · exact ⟨by rw [hself]; exact Nat.zero_le _, by rw [hself]; exact hne, fun h => absurd hself h⟩
  have hki : k ≠ i := fun h => hne (by rw [h])
  refine ⟨?_, by rw [hself]; exact hne, fun _ => ?_⟩
  · rw [hself]
    exact toNat_entryId_le k
  · rw [hself, index_entryId, set_of_ne d e hki]
    exact hk

/-- An entry that is no directory ends every chain that comes to it. -/
lemma grounded_set_file {j : Fin maxFiles} (he : e.used ≠ entryDir)
    (hj : Grounded (parentLink d) j) : Grounded (parentLink (d.set i e)) j := by
  refine Grounded.of_agree (fun w hw => link_set_of_ne hw) (.stop ?_) hj
  rw [link_set_self, if_neg fun h => he h.1]

/-- A directory hung below one that does not lie under it leaves every chain finite. -/
lemma grounded_set_of_dir (hd : DirectorySound super blockCount d)
    (hp : validDirId d parentId = true) (hparent : entryParentId e = parentId)
    (hnot : ∀ k, parentId = entryIdFromIndex k →
      ¬ Relation.ReflTransGen (Step (parentLink d)) k i) : Grounded (parentLink (d.set i e)) i ∧
      ∀ j, (d j).used = entryDir → Grounded (parentLink (d.set i e)) j := by
  have hi : Grounded (parentLink (d.set i e)) i := by
    rcases validDirId_eq_true hp with rfl | ⟨k, rfl, hk⟩
    · exact .stop (by rw [link_set_self, hparent, if_neg fun h => h.2.1 rfl])
    have hgk := (hd.grounded hk).of_agree_of_not_reaches
      (fun w hw => link_set_of_ne (e := e) hw) (hnot k rfl)
    by_cases hlink : e.used = entryDir
    · refine .step ?_ hgk
      rw [link_set_self, hparent, if_pos, index_entryId]
      exact ⟨hlink, entryId_ne_root k, toNat_entryId_le k⟩
    · exact .stop (by rw [link_set_self, if_neg fun h => hlink h.1])
  exact ⟨hi, fun j hj =>
    Grounded.of_agree (fun w hw => link_set_of_ne hw) hi (hd.grounded hj)⟩

theorem makeDirEntry_valid (h : TableValid part super d) (hname : validName name = true)
    (hnz : ∀ b ∈ name, b ≠ 0) (hop : makeDirEntry d parentId name = .ok d') :
    TableValid part super d' := by
  obtain ⟨hdir, hfind, i, hi, rfl⟩ := makeDirEntry_eq_ok hop
  have hsound := h.sound
  have hparent : entryParentId (newDirEntry parentId name) = parentId := parentId_setParent _ _
  have hnone : ∀ j, (d j).used ≠ 0 → entryParentId (d j) ≠ entryIdFromIndex i := by
    intro j hj hp
    have := hsound.parent_isDir hj hp
    rw [hi] at this
    cases this
  have hne := ne_of_validDirId hdir (show (d i).used ≠ entryDir by rw [hi]; decide)
  -- a free slot is nobody's parent, so no chain leads to it
  have hnot : ∀ k, parentId = entryIdFromIndex k →
      ¬ Relation.ReflTransGen (Step (parentLink d)) k i := by
    intro k hk hreach
    rcases Relation.ReflTransGen.cases_tail hreach with rfl | ⟨l, -, hstep⟩
    · exact hne hk
    · obtain ⟨hl, hlp⟩ := link_eq_some.mp hstep
      exact hnone l (by rw [hl]; decide) hlp
  obtain ⟨hgi, hgj⟩ := grounded_set_of_dir (e := newDirEntry parentId name) hsound hdir hparent hnot
  refine ⟨validate_eq_none.mpr (directorySound_set hsound ?_ ?_ (.inr ?_) ?_), ?_⟩
  · exact fun j _ hj hp => absurd hp (hnone j hj)
  · exact fun j _ hj => hgj j hj
  · refine ⟨?_, ?_, parentSound_of_valid hdir hparent hne, fun _ => ?_, fun hf => ?_⟩
    all_goals simp only [set_self] at *
    · exact .inr rfl
    · exact nameIsValid_copy _ hname hnz
    · exact ⟨rfl, rfl, hgi⟩
    · cases hf
  · intro hf
    cases hf
  · refine h.names.set fun _ j _ hj hsame => ?_
    rw [hparent] at hsame
    have hnm : entryName (newDirEntry parentId name) = name :=
      cString_copy _ (validName_length hname) hnz
    rw [hnm] at hsame
    exact findEntry_eq_none hfind j ⟨hj, hsame⟩

theorem deleteEntry_valid (h : TableValid part super d)
    (hop : deleteEntry d parentId name = .ok d') : TableValid part super d' := by
  obtain ⟨i, -, hchildren, rfl⟩ := deleteEntry_eq_ok hop
  have hsound := h.sound
  refine ⟨validate_eq_none.mpr (directorySound_set hsound ?_ ?_ (.inl rfl) ?_), ?_⟩
  · intro j _ hj hp
    refine absurd ⟨hsound.parent_isDir hj hp, List.any_eq_true.mpr ⟨j, List.mem_finRange j, ?_⟩⟩
      hchildren
    simp [hj, hp]
  · exact fun j _ hj => grounded_set_file (by decide) (hsound.grounded hj)
  · intro hf
    cases hf
  · exact h.names.set fun h0 => absurd rfl h0

lemma renamed_fields (e : Dirent) (newParentId : UInt32) (hname : validName newName = true)
    (hnz : ∀ b ∈ newName, b ≠ 0) :
    let e' := setEntryParentId { e with name := copyName e.name newName } newParentId
    e'.used = e.used ∧ e'.startLba = e.startLba ∧ e'.byteSize = e.byteSize ∧
      entryParentId e' = newParentId ∧ entryNameIsValid e'.name = true ∧
      entryName e' = newName ∧ entryExtents e' = entryExtents e := by
  intro e'
  have hext : entryExtents { e with name := copyName e.name newName } = entryExtents e :=
    extents_congr rfl rfl rfl
  refine ⟨?_, ?_, ?_, ?_, ?_, ?_, ?_⟩
  · simp only [e', setEntryParentId]
  · simp only [e', setEntryParentId]
  · simp only [e', setEntryParentId]
  · exact parentId_setParent _ _
  · simp only [e', setEntryParentId]
    exact nameIsValid_copy _ hname hnz
  · simp only [e', setEntryParentId, entryName]
    exact cString_copy _ (validName_length hname) hnz
  · simp only [e']
    rw [extents_setParent, hext]

theorem renameEntry_valid {newParentId : UInt32} (h : TableValid part super d)
    (hname : validName newName = true) (hnz : ∀ b ∈ newName, b ≠ 0)
    (hop : renameEntry d parentId name newParentId newName = .ok d') :
    TableValid part super d' := by
  obtain ⟨hdir, hfree, i, hfind, hdesc, rfl⟩ := renameEntry_eq_ok hop
  obtain ⟨hused, -⟩ := findEntry_eq_some hfind
  have hsound := h.sound
  have hold := (hsound.entry i).resolve_left hused
  -- all that matters of the new entry, which is opaque from here on
  obtain ⟨hu, hs, hb, hparent, hvalid, hnm, hext⟩ := renamed_fields (d i) newParentId hname hnz
  generalize setEntryParentId { d i with name := copyName (d i).name newName } newParentId = e
    at hu hs hb hparent hvalid hnm hext
  have hne : newParentId ≠ entryIdFromIndex i := by
    by_cases hidir : (d i).used = entryDir
    · exact (hdesc hidir).1.symm
    · exact ne_of_validDirId hdir hidir
  have hgrounded : (e.used = entryDir → Grounded (parentLink (d.set i e)) i) ∧
      ∀ j, (d j).used = entryDir → Grounded (parentLink (d.set i e)) j := by
    by_cases hidir : (d i).used = entryDir
    · have hnot : ∀ k, newParentId = entryIdFromIndex k →
          ¬ Relation.ReflTransGen (Step (parentLink d)) k i := by
        rintro k rfl
        exact not_reaches_of_descendant (hdesc hidir).2
      obtain ⟨hgi, hgj⟩ := grounded_set_of_dir (e := e) hsound hdir hparent hnot
      exact ⟨fun _ => hgi, hgj⟩
    · have hedir : e.used ≠ entryDir := hu ▸ hidir
      exact ⟨fun hd => absurd hd hedir, fun j hj => grounded_set_file hedir (hsound.grounded hj)⟩
  refine ⟨validate_eq_none.mpr (directorySound_set hsound ?_ ?_ (.inr ?_) ?_), ?_⟩
  · exact fun j _ hj hp => hu.trans (hsound.parent_isDir hj hp)
  · exact fun j _ hj => hgrounded.2 j hj
  · refine ⟨?_, ?_, parentSound_of_valid hdir hparent hne, fun hd => ?_, fun hf => ?_⟩
    all_goals rw [set_self] at *
    · rw [hu]
      exact hold.type
    · exact hvalid
    · rw [hs, hb]
      exact ⟨(hold.dir (hu ▸ hd)).1, (hold.dir (hu ▸ hd)).2.1, hgrounded.1 hd⟩
    · rw [hb, hext]
      exact hold.file (hu ▸ hf)
  · intro hf j hj hjf
    rw [hu] at hf
    rw [hext]
    exact hsound.apart_symm hj hf hjf
  · refine h.names.set fun _ j _ hj hsame => ?_
    rw [hparent, hnm] at hsame
    exact findEntry_eq_none hfree j ⟨hj, hsame⟩

variable {size : UInt32} {xs : List Extent}

/-- The entry of a file. -/
structure HoldsFile (e : Dirent) (parentId : UInt32) (name : List UInt8) (size : UInt32)
    (xs : List Extent) : Prop where
  used : e.used = entryFile
  parent : entryParentId e = parentId
  byteSize : e.byteSize = size
  valid : entryNameIsValid e.name = true
  named : entryName e = name
  extents : entryExtents e = some xs

/-- What the slot of a saved file holds. -/
lemma fileEntry_holdsFile {slot : Dirent} (hslot : slot.used = entryFile)
    (hparent : entryParentId slot = parentId) (hname : validName name = true)
    (hnz : ∀ b ∈ name, b ≠ 0) (hsize : size.toNat ≤ fileCapacity.toNat) (hne : xs ≠ [])
    (hlen : xs.length ≤ 3) (hx0 : ∀ x ∈ xs, x.blocks ≠ 0)
    (hsum : blockSum xs = (requiredBlocks size).toNat) :
    HoldsFile (fileEntry slot name size xs) parentId name size xs := by
  obtain ⟨base, hbase⟩ : ∃ b : Dirent,
      b = { slot with name := copyName slot.name name, byteSize := size } := ⟨_, rfl⟩
  have hbu : base.used = slot.used := by rw [hbase]
  have hbn : base.name = copyName slot.name name := by rw [hbase]
  have hbs : base.byteSize = size := by rw [hbase]
  have hbp : entryParentId base = entryParentId slot := by rw [hbase, entryParentId, entryParentId]
  have hreq : (allocatedBlocksForEntry base).toNat = (requiredBlocks size).toNat := by
    rw [allocatedBlocksForEntry, hbs, requiredBlocks]
  obtain ⟨hu, hn, hb, hp⟩ := setExtents_fields base xs
  rw [fileEntry, ← hbase]
  refine ⟨hu.trans (hbu.trans hslot), hp.trans (hbp.trans hparent), hb.trans hbs, ?_, ?_, ?_⟩
  · rw [hn, hbn]
    exact nameIsValid_copy _ hname hnz
  · rw [entryName, hn, hbn]
    exact cString_copy _ (validName_length hname) hnz
  · exact extents_setExtents base hne hlen hx0 (hsum.trans hreq.symm) (by rwa [hbs])

variable {d₁ : Directory}

lemma claim_fields (hd : DirectorySound super blockCount d)
    (h : claimSlot d parentId name = .ok (i, d₁)) :
    validDirId d parentId = true ∧ (d₁ i).used = entryFile ∧ entryParentId (d₁ i) = parentId ∧
      (d i).used ≠ entryDir ∧ (∀ e, d₁.set i e = d.set i e) ∧ (∀ j, j ≠ i → d₁ j = d j) ∧
      (NamesDistinct d → ∀ j, j ≠ i → (d j).used ≠ 0 →
        ¬ (entryParentId (d j) = parentId ∧ entryName (d j) = name)) := by
  obtain ⟨hdir, ⟨hfind, hnd, rfl⟩ | ⟨hfind, h0, rfl⟩⟩ := claim_eq_ok h
  · obtain ⟨hused, hparent, hname⟩ := findEntry_eq_some hfind
    have hfile := ((hd.entry i).resolve_left hused).type.resolve_right hnd
    refine ⟨hdir, hfile, hparent, hnd, fun e => rfl, fun j _ => rfl, fun hn j hj hju hsame => ?_⟩
    exact hj (hn j i hju hused (hsame.1.trans hparent.symm) (hsame.2.trans hname.symm))
  have hnd : (d i).used ≠ entryDir := by rw [h0]; decide
  refine ⟨hdir, ?_, ?_, hnd, fun e => set_set d i _ e,
    fun j hj => set_of_ne d _ hj, fun _ j _ hju hsame => ?_⟩
  · rw [set_self]
    rfl
  · rw [set_self]
    exact parentId_setParent _ _
  · exact findEntry_eq_none hfind j ⟨hju, hsame⟩

/-- A file put into a slot that is no directory, with extents that no other file uses. -/
lemma setFile_sound
    (h : DirectorySound super part.blockCount d) (hdir : validDirId d parentId = true)
    (hnd : (d i).used ≠ entryDir) (he : HoldsFile e parentId name size xs)
    (hsize : size.toNat ≤ fileCapacity.toNat) (hin : ExtentsSound super part.blockCount xs)
    (hapart : ∀ j, j ≠ i → (d j).used = entryFile → ∃ ys, entryExtents (d j) = some ys ∧
      ∀ x ∈ xs, ∀ y ∈ ys, rangesOverlap x.startLba x.blocks y.startLba y.blocks = false) :
    DirectorySound super part.blockCount (d.set i e) := by
  have hed : e.used ≠ entryDir := by rw [he.used]; decide
  have hne := ne_of_validDirId hdir hnd
  refine directorySound_set h ?_ ?_ (.inr ?_) ?_
  · exact fun j _ hj hpj => absurd (h.parent_isDir hj hpj) hnd
  · exact fun j _ hj => grounded_set_file hed (h.grounded hj)
  · refine ⟨?_, ?_, parentSound_of_valid hdir he.parent hne, fun hd => ?_, fun hf => ?_⟩
    all_goals rw [set_self] at *
    · exact .inl he.used
    · exact he.valid
    · exact absurd hd hed
    · rw [he.byteSize]
      exact ⟨hsize, xs, he.extents, hin⟩
  · intro _ j hj hjf
    obtain ⟨ys, hys, hap⟩ := hapart j hj hjf
    exact ⟨xs, ys, he.extents, hys, hap⟩

lemma setFile_valid (h : TableValid part super d) (hdir : validDirId d parentId = true)
    (hnd : (d i).used ≠ entryDir) (he : HoldsFile e parentId name size xs)
    (hsize : size.toNat ≤ fileCapacity.toNat) (hin : ExtentsSound super part.blockCount xs)
    (hapart : ∀ j, j ≠ i → (d j).used = entryFile → ∃ ys, entryExtents (d j) = some ys ∧
      ∀ x ∈ xs, ∀ y ∈ ys, rangesOverlap x.startLba x.blocks y.startLba y.blocks = false)
    (hnames : ∀ j, j ≠ i → (d j).used ≠ 0 →
      ¬ (entryParentId (d j) = parentId ∧ entryName (d j) = name)) :
    TableValid part super (d.set i e) := by
  refine ⟨validate_eq_none.mpr (setFile_sound h.sound hdir hnd he hsize hin hapart), ?_⟩
  refine h.names.set fun _ j hj hju hsame => ?_
  rw [he.parent, he.named] at hsame
  exact hnames j hj hju hsame

/-- A save gets slot `i`, which makes the table `d₁`, and finds the extents `xs`. -/
structure SavePlan (part : Partition) (super : Superblock) (d : Directory) (parentId : UInt32)
    (name : List UInt8) (size : UInt32) (i : Fin maxFiles) (d₁ : Directory) (xs : List Extent) :
    Prop where
  small : part.blockCount.toNat < 2 ^ 32
  sound : DirectorySound super part.blockCount d
  named : validName name = true
  nonzero : ∀ b ∈ name, b ≠ 0
  size_le : size.toNat ≤ fileCapacity.toNat
  claim : claimSlot d parentId name = .ok (i, d₁)
  room : findFreeExtents (some part) super (requiredBlocks size) i d₁ = some xs

namespace SavePlan

variable (h : SavePlan part super d parentId name size i d₁ xs)
include h

/-- The extents found for a save are free and lie in the data area. -/
lemma fresh : FreshExtents super part.blockCount d₁ i xs ∧
    blockSum xs = (requiredBlocks size).toNat ∧ requiredBlocks size ≠ 0 := by
  obtain ⟨-, -, -, -, -, hother, -⟩ := claim_fields h.sound h.claim
  refine freeExtents_spec h.small (fun j hj hjf => ?_) h.room
  rw [hother j hj] at hjf ⊢
  obtain ⟨-, ys, hys, hin⟩ := h.sound.file hjf
  exact ⟨ys, hys, fun y hy => ⟨(extents_spec hys).2.2.1 y hy, (hin.inData y hy).2⟩⟩

/-- The entry a save puts into the slot it claimed. -/
lemma holdsFile : HoldsFile (fileEntry (d₁ i) name size xs) parentId name size xs := by
  obtain ⟨-, hfile, hparent, -, -, -, -⟩ := claim_fields h.sound h.claim
  obtain ⟨hfresh, hsum, hb0⟩ := h.fresh
  have hne : xs ≠ [] := by
    rintro rfl
    exact hb0 (UInt32.toNat_inj.mp hsum.symm)
  exact fileEntry_holdsFile hfile hparent h.named h.nonzero h.size_le hne hfresh.length_le
    hfresh.nonzero hsum

lemma sound_set :
    DirectorySound super part.blockCount (d₁.set i (fileEntry (d₁ i) name size xs)) := by
  obtain ⟨hdir, -, -, hnd, hset, hother, -⟩ := claim_fields h.sound h.claim
  obtain ⟨hfresh, -, -⟩ := h.fresh
  rw [hset]
  refine setFile_sound h.sound hdir hnd h.holdsFile h.size_le hfresh.sound fun j hj hjf => ?_
  rw [← hother j hj] at hjf ⊢
  exact hfresh.apart j hj hjf

end SavePlan

theorem saveEntry_valid (h : SavePlan part super d parentId name size i d₁ xs)
    (hn : NamesDistinct d) : TableValid part super (d₁.set i (fileEntry (d₁ i) name size xs)) := by
  refine ⟨validate_eq_none.mpr h.sound_set, ?_⟩
  obtain ⟨-, -, -, -, hset, -, hnames⟩ := claim_fields h.sound h.claim
  rw [hset]
  refine hn.set fun _ j hj hju hsame => ?_
  rw [h.holdsFile.parent, h.holdsFile.named] at hsame
  exact hnames hn j hj hju hsame

end

/-! ### What a valid table is -/

/-- The ids from which the parent links lead to the root. -/
inductive Rooted (d : Directory) : UInt32 → Prop
  | root : Rooted d rootDir
  | dir {k : Fin maxFiles} : (d k).used = entryDir → Rooted d (entryParentId (d k)) →
      Rooted d (entryIdFromIndex k)

/-- A legal table in terms of trees and sets of sectors, without the tests of the code. -/
structure TableLegal (part : Partition) (super : Superblock) (d : Directory) : Prop where
  type : ∀ i, (d i).used ≠ 0 → (d i).used = entryFile ∨ (d i).used = entryDir
  name : ∀ i, (d i).used ≠ 0 → validName (entryName (d i)) = true
  distinct : NamesDistinct d
  forest : ∀ i, (d i).used ≠ 0 → Rooted d (entryParentId (d i))
  noData : ∀ i, (d i).used = entryDir → (d i).startLba = 0 ∧ (d i).byteSize = 0
  inData : ∀ i, (d i).used = entryFile → ∃ xs, entryExtents (d i) = some xs ∧
    (∀ x ∈ xs, x.sectors ⊆ Set.Ico super.dataStartLba.toNat part.blockCount.toNat) ∧
    xs.Pairwise fun x y => Disjoint x.sectors y.sectors
  apart : ∀ i j xs ys, i ≠ j → (d i).used = entryFile → (d j).used = entryFile →
    entryExtents (d i) = some xs → entryExtents (d j) = some ys →
    ∀ x ∈ xs, ∀ y ∈ ys, Disjoint x.sectors y.sectors

variable {part : Partition} {super : Superblock} {d : Directory}

lemma rooted_of_grounded (hd : DirectorySound super blockCount d) (hg : Grounded (parentLink d) i)
    (hi : (d i).used = entryDir) : Rooted d (entryParentId (d i)) := by
  induction hg with
  | @stop i hnone =>
    by_cases hroot : entryParentId (d i) = rootDir
    · rw [hroot]
      exact .root
    · have hs := (hd.entry i).resolve_left (by rw [hi]; decide)
      rw [parentLink, if_pos ⟨hi, hroot, hs.parent.le⟩] at hnone
      cases hnone
  | @step i j hij _ ih =>
    obtain ⟨-, hp⟩ := link_eq_some.mp hij
    have hj := hd.parent_isDir (by rw [hi]; decide) hp
    rw [hp]
    exact .dir hj (ih hj)

lemma nameIsValid_validName {e : Dirent} (h : entryNameIsValid e.name = true) :
    validName (entryName e) = true := by
  rw [entryNameIsValid] at h
  split_ifs at h
  exact h

theorem TableValid.legal (h : TableValid part super d) (hbc : part.blockCount.toNat < 2 ^ 32) :
    TableLegal part super d := by
  have hs := h.sound
  have hentry : ∀ i, (d i).used ≠ 0 → EntrySound super part.blockCount d i :=
    fun i hi => (hs.entry i).resolve_left hi
  -- the extents of a file end below `2 ^ 32`, where the test of the code is exact
  have hfile : ∀ i xs, (d i).used = entryFile → entryExtents (d i) = some xs →
      ExtentsSound super part.blockCount xs ∧
        ∀ x ∈ xs, x.blocks ≠ 0 ∧ x.startLba.toNat + x.blocks.toNat < 2 ^ 32 := by
    intro i xs hi hxs
    obtain ⟨-, ys, hys, hin⟩ := (hentry i (by rw [hi]; decide)).file hi
    rw [hxs] at hys
    cases hys
    exact ⟨hin, fun x hx => ⟨(extents_spec hxs).2.2.1 x hx, lt_of_le_of_lt (hin.inData x hx).2 hbc⟩⟩
  refine ⟨fun i hi => (hentry i hi).type,
    fun i hi => nameIsValid_validName (hentry i hi).name, h.names, fun i hi => ?_,
    fun i hi => ?_, fun i hi => ?_, fun i j xs ys hne hi hj hxs hys x hx y hy => ?_⟩
  · by_cases hroot : entryParentId (d i) = rootDir
    · rw [hroot]
      exact .root
    · have hp := (hentry i hi).parent
      have hk := hp.isDir hroot
      rw [← entryId_index hroot hp.le]
      exact .dir hk (rooted_of_grounded hs (hs.grounded hk) hk)
  · obtain ⟨hstart, hsize, -⟩ := (hentry i (by rw [hi]; decide)).dir hi
    exact ⟨hstart, hsize⟩
  · obtain ⟨-, xs, hxs, -⟩ := (hentry i (by rw [hi]; decide)).file hi
    obtain ⟨hin, hx⟩ := hfile i xs hi hxs
    refine ⟨xs, hxs, fun x hmem => ?_, ?_⟩
    · exact Set.Ico_subset_Ico (hin.inData x hmem).1 (hin.inData x hmem).2
    · refine hin.apart.imp_of_mem fun {x y} hmx hmy hap => ?_
      exact (overlap_eq_false (hx x hmx).2 (hx y hmy).2 (hx x hmx).1 (hx y hmy).1).mp hap
  · obtain ⟨-, hxin⟩ := hfile i xs hi hxs
    obtain ⟨-, hyin⟩ := hfile j ys hj hys
    obtain ⟨xs', ys', hxs', hys', hap⟩ := hs.apart_symm hne.symm hi hj
    rw [hxs] at hxs'
    rw [hys] at hys'
    cases hxs'
    cases hys'
    exact (overlap_eq_false (hxin x hx).2 (hyin y hy).2 (hxin x hx).1 (hyin y hy).1).mp
      (hap x hx y hy)

end LainFS
