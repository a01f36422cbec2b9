import LainOS.LainFS.Codec
import LainOS.LainFS.Table

/-!
# The tree of directories

The parent ids of a table seen as a relation between ids. The search for a cycle finds one exactly
if the relation leads into one, whatever the table holds; in an accepted table every chain of parents
ends at the root, and `dir_is_descendant_of` decides the ancestor relation.
-/

namespace LainFS

open Storage ParentWalk Relation Option

variable {a c : UInt32} {fuel : ℕ} {b : Bool}

/-- The directory with id `c` has the parent id `p`. -/
def ParentStep (d : Directory) (c p : UInt32) : Prop :=
  c ≠ rootDir ∧ c.toNat ≤ maxFiles ∧ (d (indexFromEntryId c)).used = entryDir ∧
    entryParentId (d (indexFromEntryId c)) = p

/-- The id `a` is reached from `c` by going up through directories. -/
def IsAncestor (d : Directory) (a c : UInt32) : Prop :=
  c.toNat ≤ maxFiles ∧ ReflTransGen (ParentStep d) c a

section

variable {d : Directory} {i j : Fin maxFiles} {p : UInt32}

lemma exists_index (h0 : c ≠ rootDir) (hle : c.toNat ≤ maxFiles) : ∃ i, c = entryIdFromIndex i :=
  ⟨indexFromEntryId c, (entryId_index h0 hle).symm⟩

lemma parentStep_entryId :
    ParentStep d (entryIdFromIndex i) p ↔ (d i).used = entryDir ∧ entryParentId (d i) = p := by
  rw [ParentStep, index_entryId]
  constructor
  · rintro ⟨-, -, h⟩
    exact h
  · intro h
    exact ⟨entryId_ne_root i, toNat_entryId_le i, h⟩

lemma ParentStep.exists_index (h : ParentStep d c p) : ∃ i, c = entryIdFromIndex i :=
  LainFS.exists_index h.1 h.2.1

/-- Between entries a step is a parent link. -/
lemma parentStep_iff :
    ParentStep d (entryIdFromIndex i) (entryIdFromIndex j) ↔ Step (parentLink d) i j := by
  rw [parentStep_entryId, Step, link_eq_some]

lemma not_parentStep_root : ¬ ParentStep d rootDir p := fun h => h.1 rfl

lemma transGen_parentStep (h : TransGen (Step (parentLink d)) i j) :
    TransGen (ParentStep d) (entryIdFromIndex i) (entryIdFromIndex j) :=
  h.lift entryIdFromIndex fun _ _ hs => parentStep_iff.mpr hs

lemma reflTransGen_parentStep (h : ReflTransGen (Step (parentLink d)) i j) :
    ReflTransGen (ParentStep d) (entryIdFromIndex i) (entryIdFromIndex j) :=
  h.lift entryIdFromIndex fun _ _ hs => parentStep_iff.mpr hs

/-- A chain that ends at an entry starts at one. -/
lemma index_of_reaches (h : ReflTransGen (ParentStep d) c (entryIdFromIndex j)) :
    ∃ k, c = entryIdFromIndex k := by
  rcases ReflTransGen.cases_head h with rfl | ⟨q, hq, -⟩
  · exact ⟨j, rfl⟩
  · exact hq.exists_index

lemma reflTransGen_step (h : ReflTransGen (ParentStep d) (entryIdFromIndex i) (entryIdFromIndex j)) :
    ReflTransGen (Step (parentLink d)) i j := by
  generalize hc : entryIdFromIndex i = c at h
  induction h using ReflTransGen.head_induction_on generalizing i with
  | refl => rw [entryId_injective hc]
  | @head c p hstep hrest ih =>
    subst hc
    obtain ⟨k, rfl⟩ := index_of_reaches hrest
    exact .head (parentStep_iff.mp hstep) (ih rfl)

lemma transGen_step (h : TransGen (ParentStep d) (entryIdFromIndex i) (entryIdFromIndex j)) :
    TransGen (Step (parentLink d)) i j := by
  obtain ⟨p, hstep, hrest⟩ := TransGen.head'_iff.mp h
  obtain ⟨k, rfl⟩ := index_of_reaches hrest
  exact TransGen.head'_iff.mpr ⟨k, parentStep_iff.mp hstep, reflTransGen_step hrest⟩

end

/-! ### The search for a cycle -/

section

variable {d : Directory} {id : UInt32}

/-- A reported id lies on a cycle that the chain leads to. -/
lemma findCycle_onCycle (h : findDirectoryParentCycle d id = some c) :
    ReflTransGen (ParentStep d) id c ∧ TransGen (ParentStep d) c c := by
  have hrange : ¬ (id = rootDir ∨ maxFiles < id.toNat) := by
    intro hbad
    rw [findDirectoryParentCycle, if_pos hbad] at h
    cases h
  rw [not_or, not_lt] at hrange
  obtain ⟨i, rfl⟩ := exists_index hrange.1 hrange.2
  rw [findDirectoryParentCycle, if_neg (by rw [not_or, not_lt]; exact hrange),
    cycleLoop_entryId] at h
  obtain ⟨k, hk, rfl⟩ := Option.map_eq_some_iff.mp h
  obtain ⟨hkk, hik⟩ := findRepeat_eq_some (by simp) hk
  exact ⟨reflTransGen_parentStep hik, transGen_parentStep hkk⟩

/-- The search succeeds exactly if the chain leads to a cycle. -/
lemma findCycle_isSome_iff : (findDirectoryParentCycle d id).isSome = true ↔
      ∃ c, ReflTransGen (ParentStep d) id c ∧ TransGen (ParentStep d) c c := by
  constructor
  · intro h
    obtain ⟨c, hc⟩ := Option.isSome_iff_exists.mp h
    exact ⟨c, findCycle_onCycle hc⟩
  rintro ⟨c, hreach, hcycle⟩
  -- an id on a cycle has a step, so it is an entry, and so is the start of the chain
  obtain ⟨p, hcp, -⟩ := TransGen.head'_iff.mp hcycle
  obtain ⟨k, rfl⟩ := hcp.exists_index
  obtain ⟨i, rfl⟩ := index_of_reaches hreach
  rw [Option.isSome_iff_ne_none, Ne, findCycle_eq_none]
  intro hground
  have hkk := transGen_step hcycle
  rcases reflTransGen_iff_eq_or_transGen.mp (reflTransGen_step hreach) with rfl | hik
  · exact hground.not_transGen hkk
  · exact (hground.of_transGen hik).not_transGen hkk

end

/-! ### Accepted tables -/

section

variable {super : Superblock} {blockCount : UInt64} {d : Directory}

lemma reflTransGen_of_rooted {p : UInt32} (h : Rooted d p) : ReflTransGen (ParentStep d) p rootDir := by
  induction h with
  | root => exact .refl
  | dir hdir _ ih => exact .head (parentStep_entryId.mpr ⟨hdir, rfl⟩) ih

/-- From every used entry the parents lead to the root. -/
lemma DirectorySound.reaches_root (hd : DirectorySound super blockCount d) {i : Fin maxFiles}
    (hi : (d i).used ≠ 0) : ReflTransGen (ParentStep d) (entryParentId (d i)) rootDir := by
  have hs := (hd.entry i).resolve_left hi
  by_cases hroot : entryParentId (d i) = rootDir
  · rw [hroot]
  obtain ⟨k, hk⟩ := exists_index hroot hs.parent.le
  have hdir := hd.parent_isDir hi hk
  have hup := reflTransGen_of_rooted (rooted_of_grounded hd (hd.grounded hdir) hdir)
  rw [hk]
  exact .head (parentStep_entryId.mpr ⟨hdir, rfl⟩) hup

/-- More fuel does not change an answer. -/
lemma descendant_mono {fuel' : ℕ} (hle : fuel ≤ fuel')
    (h : dirIsDescendantOf d a fuel c = some b) : dirIsDescendantOf d a fuel' c = some b := by
  induction fuel generalizing fuel' c with
  | zero => cases h
  | succ fuel ih =>
    obtain ⟨n, rfl⟩ : ∃ n, fuel' = n + 1 := ⟨fuel' - 1, by omega⟩
    rw [dirIsDescendantOf] at h ⊢
    split_ifs at h ⊢ with hroot hle hanc hdir
    · exact h
    · exact h
    · exact h
    · exact h
    · exact ih (Nat.succ_le_succ_iff.mp ‹_›) h

/-- An answer tells whether the ancestor is on the chain. -/
lemma descendant_eq_some (hd : DirectorySound super blockCount d)
    (h : dirIsDescendantOf d a fuel c = some b) : b = true ↔ IsAncestor d a c := by
  induction fuel generalizing c with
  | zero => cases h
  | succ fuel ih =>
    rw [dirIsDescendantOf] at h
    split_ifs at h with hroot hrange hanc hdir
    · subst hroot
      obtain rfl := some.inj h
      rw [beq_iff_eq]
      constructor
      · rintro rfl
        exact ⟨Nat.zero_le _, .refl⟩
      · rintro ⟨-, hreach⟩
        rcases ReflTransGen.cases_head hreach with heq | ⟨p, hp, -⟩
        · exact heq.symm
        · exact absurd hp not_parentStep_root
    · obtain rfl := some.inj h
      simp only [Bool.false_eq_true, false_iff]
      exact fun hanc => absurd hanc.1 (not_le.mpr hrange)
    · subst hanc
      obtain rfl := some.inj h
      simp only [true_iff]
      exact ⟨not_lt.mp hrange, .refl⟩
    · obtain rfl := some.inj h
      simp only [Bool.false_eq_true, false_iff]
      rintro ⟨-, hreach⟩
      rcases ReflTransGen.cases_head hreach with heq | ⟨p, hp, -⟩
      · exact hanc heq
      · exact hdir hp.2.2.1
    · rw [not_not] at hdir
      obtain ⟨i, rfl⟩ := exists_index hroot (not_lt.mp hrange)
      rw [index_entryId] at hdir h
      have hs := (hd.entry i).resolve_left (by rw [hdir]; decide)
      have hstep : ParentStep d (entryIdFromIndex i) (entryParentId (d i)) :=
        parentStep_entryId.mpr ⟨hdir, rfl⟩
      rw [ih h]
      constructor
      · rintro ⟨-, hreach⟩
        exact ⟨not_lt.mp hrange, .head hstep hreach⟩
      rintro ⟨-, hreach⟩
      refine ⟨hs.parent.le, ?_⟩
      rcases ReflTransGen.cases_head hreach with heq | ⟨p, hp, hrest⟩
      · exact absurd heq hanc
      · obtain rfl := (parentStep_entryId.mp hp).2
        exact hrest

/-- On an accepted table the walk returns from every id. -/
lemma DirectorySound.descendant_isSome (hd : DirectorySound super blockCount d)
    (a c : UInt32) : ∃ b, dirIsDescendantOf d a (maxFiles + 1) c = some b := by
  by_cases hroot : c = rootDir
  · exact ⟨_, by rw [dirIsDescendantOf, if_pos hroot]⟩
  by_cases hrange : maxFiles < c.toNat
  · exact ⟨_, by rw [dirIsDescendantOf, if_neg hroot, if_pos hrange]⟩
  obtain ⟨i, rfl⟩ := exists_index hroot (not_lt.mp hrange)
  by_cases hdir : (d i).used = entryDir
  · exact Option.isSome_iff_exists.mp (LainFS.descendant_isSome (hd.grounded hdir))
  · rw [dirIsDescendantOf, if_neg hroot, if_neg hrange, index_entryId]
    split_ifs
    · exact ⟨_, rfl⟩
    · exact ⟨_, rfl⟩

end

/-! ### Main result -/

/-- In an accepted table the parents of every used entry lead to the root, and the walk of
`dir_is_descendant_of` ends with the ancestor relation as its answer. On any table the search for a
cycle succeeds exactly if the chain of parents enters one, and reports an id on it. -/
theorem directories_form_tree (part : Option Partition) (super : Superblock) (d : Directory) :
    (validateDirectory part super d = none →
      (∀ i, (d i).used ≠ 0 → ReflTransGen (ParentStep d) (entryParentId (d i)) rootDir) ∧
      ∀ candidateId ancestorId, ∃ answer,
        (∀ fuel, maxFiles < fuel → dirIsDescendantOf d ancestorId fuel candidateId = some answer) ∧
        (answer = true ↔ IsAncestor d ancestorId candidateId)) ∧
    ∀ id, ((findDirectoryParentCycle d id).isSome = true ↔
        ∃ c, ReflTransGen (ParentStep d) id c ∧ TransGen (ParentStep d) c c) ∧
      ∀ c, findDirectoryParentCycle d id = some c →
        ReflTransGen (ParentStep d) id c ∧ TransGen (ParentStep d) c c := by
  refine ⟨fun hvalid => ?_, fun id =>
    ⟨findCycle_isSome_iff, fun c => findCycle_onCycle⟩⟩
  rcases part with _ | part
  · cases hvalid
  have hd := validate_eq_none.mp hvalid
  refine ⟨fun i hi => hd.reaches_root hi, fun candidateId ancestorId => ?_⟩
  obtain ⟨answer, hanswer⟩ := hd.descendant_isSome ancestorId candidateId
  refine ⟨answer, fun fuel hfuel => ?_, descendant_eq_some hd hanswer⟩
  exact descendant_mono hfuel hanswer

/-- A table with a directory `a` in the root. -/
def oneDirectory : Directory := Directory.single (newDirEntry rootDir [0x61])

theorem directories_form_tree_oneDirectory :
    let part : Partition := ⟨true, [], 0, 1, 2048, 300, 0x99, .lainfs⟩
    validateDirectory (some part) formatSuper oneDirectory = none ∧
      dirIsDescendantOf oneDirectory rootDir 2049 1 = some true ∧ IsAncestor oneDirectory rootDir 1 := by
  intro part
  have hvalid : validateDirectory (some part) formatSuper oneDirectory = none :=
    validate_eq_none.mpr (sound_single (by decide) (by decide +kernel))
  obtain ⟨⟨-, hwalk⟩, -⟩ := (directories_form_tree (some part) formatSuper oneDirectory).imp_left
    fun h => h hvalid
  obtain ⟨answer, hanswer, hiff⟩ := hwalk 1 rootDir
  have hfuel := hanswer 2049 (by decide)
  have hrun : dirIsDescendantOf oneDirectory rootDir 2049 1 = some true := by decide +kernel
  obtain rfl := some.inj (hrun.symm.trans hfuel)
  exact ⟨hvalid, hfuel, hiff.mp rfl⟩

end LainFS
