import LainOS.LainFS.Atomic
import LainOS.Lib.FirstRun

/-!
# Calls that fail

A call that fails leaves the table as it was, except for a save. A save claims a slot for a new file
before it looks for room, and it rewrites its slot before it writes the blocks. What it finds to
write there is determined by the table: again and again the first longest run of sectors that no
other file has (`Placed`).
-/

namespace LainFS

open Storage Directory RunSearch

variable {namesOk : Bool} {parentId size : UInt32} {buffer : ℕ → UInt8} {i : Fin maxFiles}
  {d₁ : Directory} {op : Directory → Except ℤ Directory}

/-! ### Where a file goes -/

/-- The extents of `n` more blocks for the file in slot `i` behind those selected so far: the first
longest run of sectors that are free but for the file itself, then that of what is left, up to three
extents in all. -/
inductive Placed (super : Superblock) (stop : ℕ) (d : Directory) (i : Fin maxFiles) :
    List Extent → ℕ → List Extent → Prop
  | done (selected : List Extent) : Placed super stop d i selected 0 selected
  | next {selected xs : List Extent} {n : ℕ} {r : ℕ × ℕ} (room : selected.length < 3)
    (run : FirstLongest (sectorIsFree super d i selected) super.dataStartLba.toNat stop n r)
    (rest : Placed super stop d i (selected ++ [⟨.ofNat r.1, .ofNat r.2⟩]) (n - r.2) xs) :
    Placed super stop d i selected n xs

lemma placed_iff {super : Superblock} {stop n : ℕ} {d : Directory} {selected xs : List Extent} :
    Placed super stop d i selected n xs ↔ findFreeExtentsLoop super stop d i n selected = some xs := by
  fun_induction findFreeExtentsLoop super stop d i n selected with
  | case1 =>
    constructor
    · intro h
      cases h with
      | done => rfl
      | next _ run => exact absurd (run.pos.trans_le run.le) (lt_irrefl 0)
    · intro h
      cases h
      exact .done _
  | case2 n selected hn best hnone =>
    refine iff_of_false (fun h => ?_) (by simp)
    cases h with
    | done => exact hn rfl
    | next room run =>
      have hbest := ((bestRun_eq_iff (Nat.pos_of_ne_zero hn)).mp run).1
      have hpos := run.pos
      rcases hnone with hzero | hfull
      · rw [← hbest] at hpos
        exact absurd hzero hpos.ne'
      · exact absurd room (not_lt.mpr hfull)
  | case3 n selected hn best hsome ih =>
    rw [not_or, not_le] at hsome
    rw [← ih]
    constructor
    · intro h
      cases h with
      | done => exact absurd rfl hn
      | next _ run rest =>
        rw [← ((bestRun_eq_iff (Nat.pos_of_ne_zero hn)).mp run).1] at rest
        exact rest
    · exact fun h => .next hsome.2
        ((bestRun_eq_iff (Nat.pos_of_ne_zero hn)).mpr ⟨rfl, Nat.pos_of_ne_zero hsome.1⟩) h

/-- The number of blocks of a file that is not too large is one the search accepts. -/
lemma requiredBlocks_bounds (h : size.toNat ≤ fileCapacity.toNat) :
    ¬ (requiredBlocks size = 0 ∨ requiredBlocks size > maxFileBlocks) := by
  have hle := toNat_allocated_le (e := { Dirent.zero with byteSize := size }) h
  have hpos := allocated_pos { Dirent.zero with byteSize := size }
  rintro (h0 | hgt)
  · rw [show allocatedBlocksForEntry { Dirent.zero with byteSize := size } = requiredBlocks size
      from rfl, h0] at hpos
    exact absurd hpos (by decide)
  · exact absurd (UInt32.lt_iff_toNat_lt.mp hgt) (not_lt.mpr hle)

lemma freeExtents_eq_some_iff {part : Option Partition} {super : Superblock} {d : Directory}
    {xs : List Extent} (h : size.toNat ≤ fileCapacity.toNat) :
    findFreeExtents part super (requiredBlocks size) i d = some xs ↔
      ∃ p ∈ part, Placed super p.blockCount.toNat d i [] (requiredBlocks size).toNat xs := by
  cases part with
  | none => simp [findFreeExtents]
  | some p =>
    simp only [findFreeExtents, if_neg (requiredBlocks_bounds h), Option.mem_def,
      Option.some.injEq, exists_eq_left', placed_iff]

/-! ### Failed calls -/

/-- A save that fails from here on has not changed the table `d`: it gets no slot, since the parent
is no directory, the name is a directory or the table is full; or the file is there, and it has no
room, or it has the size and just the extents that are written. -/
def SaveHarmless (part : Option Partition) (super : Superblock) (d : Directory) (parentId : UInt32)
    (name : List UInt8) (size : UInt32) : Prop :=
  validDirId d parentId = false ∨
  (findEntryInDir d parentId name = none ∧ ∀ j, (d j).used ≠ 0) ∨
  ∃ i, findEntryInDir d parentId name = some i ∧ ((d i).used = entryDir ∨
    ∀ p ∈ part, ∀ xs, Placed super p.blockCount.toNat d i [] (requiredBlocks size).toNat xs →
      (d i).byteSize = size ∧ setEntryExtents (d i) xs = d i)

/-- The condition under which a call that fails has left the table alone. -/
def TableCall.Harmless (part : Option Partition) (super : Superblock) (d : Directory) :
    TableCall → Prop
  | .save _ parentId name _ size =>
    validName name.bytes = false ∨ size > fileCapacity ∨
      SaveHarmless part super d parentId name.bytes size
  | _ => True

variable {st st₁ st₂ : State} {drive : UInt8} {p : UInt32} {super : CheckedSuper} {d : Directory}

/-- The table of an open partition, seen from a state in which it was `d`. -/
lemma openedTable_eq_iff (hopened : Opened st₂ p super)
    (htables : SameTables st.storage st₂.storage)
    (hvalid : validateDirectory (storageGetPartition st.storage p) super.1 d = none) :
    openedTable st₂ p = some (super, d) ↔ st₂.directory = d := by
  rw [hopened.openedTable, htables.getPartition]
  constructor
  · intro h
    split_ifs at h
    cases h
    rfl
  · rintro rfl
    rw [if_pos hvalid]

variable {parentId : UInt32}

/-- Rewriting the claimed slot restores the table only if it writes what was there. -/
lemma claim_set_eq_iff {name : List UInt8} (h : claimSlot d parentId name = .ok (i, d₁))
    (e : Dirent) : d₁.set i e = d ↔ e = d i := by
  have hother : ∀ j, j ≠ i → d₁ j = d j := by
    intro j hj
    obtain ⟨-, ⟨-, -, rfl⟩ | ⟨-, -, rfl⟩⟩ := claim_eq_ok h
    · rfl
    · exact set_of_ne d _ hj
  constructor
  · intro heq
    rw [← heq, set_self]
  rintro rfl
  funext j
  by_cases hj : j = i
  · rw [hj, set_self]
  · rw [set_of_ne d₁ _ hj, hother j hj]

/-- Claiming changes the table unless the file exists. -/
lemma claim_eq_iff {name : List UInt8} (h : claimSlot d parentId name = .ok (i, d₁)) :
    d₁ = d ↔ (d i).used ≠ 0 := by
  obtain ⟨-, ⟨hfind, -, rfl⟩ | ⟨-, hfree, rfl⟩⟩ := claim_eq_ok h
  · exact iff_of_true rfl (findEntry_eq_some hfind).1
  · refine iff_of_false (fun heq => ?_) (not_not.mpr hfree)
    rw [← heq, set_self] at hfree
    cases hfree

lemma call_failed (hmount : mountForDrive st drive = some p)
    (hopen : openDirectory st p = (.ok super, st₁)) (hfail : (tableCall st drive namesOk op).1 ≠ 0)
    :
    openedTable (tableCall st drive namesOk op).2 p = openedTable st p := by
  obtain ⟨hopened, htables, hvalid⟩ := open_opened hopen
  have hst : openedTable st p = some (super, st₁.directory) := by rw [openedTable, hopen]
  have h := call_outcome hmount namesOk op
  rw [hopen] at h
  generalize tableCall st drive namesOk op = r at h hfail ⊢
  cases h with
  | refused => rfl
  | failed =>
    rw [hst]
    exact (openedTable_eq_iff hopened (.refl _) hvalid).mpr rfl
  | done => exact absurd rfl hfail

/-- A name that is there already is not changed by copying it. -/
lemma copyName_self {e : Dirent} {name : List UInt8} (hname : validName name = true)
    (h : entryName e = name) : copyName e.name name = e.name := by
  have hlen : name.length ≤ 30 := by
    simp only [validName, Bool.and_eq_true, Bool.not_eq_true', Bool.or_eq_false_iff,
      decide_eq_false_iff_not, not_lt] at hname
    exact hname.1.2
  -- the field is the name, a NUL and whatever follows it
  have hsplit : name ++ e.name.toList.dropWhile (· ≠ 0) = e.name.toList := by
    rw [← h, entryName, cString, List.takeWhile_append_dropWhile]
  obtain ⟨b, rest, hrest⟩ : ∃ b rest, e.name.toList.dropWhile (· ≠ 0) = b :: rest := by
    refine List.exists_cons_of_ne_nil fun hnil => ?_
    have := congrArg List.length hsplit
    rw [hnil, List.append_nil, Vector.length_toList] at this
    omega
  obtain rfl : b = 0 := by
    have hb := List.head?_dropWhile_not (fun x : UInt8 => decide (x ≠ 0)) e.name.toList
    rw [hrest] at hb
    simpa using hb
  rw [hrest] at hsplit
  refine Vector.ext fun k hk => ?_
  have hfield : (name ++ 0 :: rest)[k]? = some e.name[k] := by
    rw [hsplit, List.getElem?_eq_getElem (by simpa using hk), Vector.getElem_toList]
  simp only [copyName, Vector.getElem_ofFn]
  split_ifs with hin hend
  · rw [List.getElem?_append_left hin.1, List.getElem?_eq_getElem hin.1] at hfield
    exact Option.some.inj hfield
  · rw [List.getElem?_append_right (by omega), show k - name.length = 0 by omega] at hfield
    exact Option.some.inj hfield
  · rfl

lemma fileEntry_eq_self_iff {e : Dirent} {name : List UInt8} {xs : List Extent}
    (hname : copyName e.name name = e.name) :
    fileEntry e name size xs = e ↔ e.byteSize = size ∧ setEntryExtents e xs = e := by
  rw [fileEntry, hname]
  constructor
  · intro h
    have hsize := congrArg Dirent.byteSize h
    rw [(setExtents_fields _ xs).2.2.1] at hsize
    subst hsize
    exact ⟨rfl, h⟩
  · rintro ⟨rfl, h⟩
    exact h

lemma saveHarmless_of_unclaimed {part : Option Partition} {super : Superblock} {name : List UInt8}
    {code : ℤ} (h : claimSlot d parentId name = .error code) :
    SaveHarmless part super d parentId name size := by
  rw [claimSlot] at h
  split_ifs at h with hparent
  · exact .inl hparent
  cases hfind : findEntryInDir d parentId name with
  | some i =>
    rw [hfind] at h
    dsimp only at h
    split_ifs at h with hdir
    exact .inr (.inr ⟨i, hfind, .inl hdir⟩)
  | none =>
    rw [hfind] at h
    cases hfree : findFreeEntry d with
    | some i =>
      rw [hfree] at h
      cases h
    | none =>
      refine .inr (.inl ⟨hfind, fun j hj => ?_⟩)
      have := List.find?_eq_none.mp hfree j (List.mem_finRange j)
      exact this (by simpa using hj)

/-- The condition for a save that has claimed a slot. -/
lemma saveHarmless_iff {part : Option Partition} {super : Superblock} {name : List UInt8}
    (hname : validName name = true) (hsize : size.toNat ≤ fileCapacity.toNat)
    (hclaim : claimSlot d parentId name = .ok (i, d₁)) :
    SaveHarmless part super d parentId name size ↔
      match findFreeExtents part super (requiredBlocks size) i d₁ with
      | none => (d i).used ≠ 0
      | some xs => fileEntry (d₁ i) name size xs = d i := by
  obtain ⟨hparent, ⟨hfind, hfile, rfl⟩ | ⟨hfind, hfree, rfl⟩⟩ := claim_eq_ok hclaim
  · -- the file is there
    obtain ⟨hused, -, hnamed⟩ := findEntry_eq_some hfind
    have hiff : SaveHarmless part super d₁ parentId name size ↔ ∀ xs,
        findFreeExtents part super (requiredBlocks size) i d₁ = some xs →
        (d₁ i).byteSize = size ∧ setEntryExtents (d₁ i) xs = d₁ i := by
      simp only [SaveHarmless, hparent, hfind, reduceCtorEq, false_and, false_or, Option.some.injEq,
        exists_eq_left', hfile, freeExtents_eq_some_iff hsize, Bool.true_eq_false]
      exact ⟨fun h xs ⟨p, hp, hxs⟩ => h p hp xs hxs, fun h p hp xs hxs => h xs ⟨p, hp, hxs⟩⟩
    rw [hiff]
    cases hext : findFreeExtents part super (requiredBlocks size) i d₁ with
    | none => simp [hused]
    | some xs =>
      simp only [Option.some.injEq, forall_eq']
      exact (fileEntry_eq_self_iff (copyName_self hname hnamed)).symm
  · -- a new file: the slot was free
    refine iff_of_false ?_ ?_
    · rintro (h | ⟨-, h⟩ | ⟨k, hk, -⟩)
      · rw [hparent] at h
        cases h
      · exact h i hfree
      · rw [hfind] at hk
        cases hk
    · cases findFreeExtents part super (requiredBlocks size) i (d.set i (claimedEntry parentId)) with
      | none => exact not_not.mpr hfree
      | some xs =>
        dsimp only
        intro h
        have hfileUsed := (setExtents_fields
          { claimedEntry parentId with
            name := copyName (claimedEntry parentId).name name, byteSize := size } xs).1
        rw [set_self, fileEntry] at h
        rw [← h, hfileUsed] at hfree
        exact absurd hfree (show entryFile ≠ 0 by decide)

lemma saveFile_failed (hmount : mountForDrive st drive = some p)
    (hopen : openDirectory st p = (.ok super, st₁)) {name : CString}
    (hfail : (lainfsSaveFileInDir st drive parentId name buffer size).1 ≠ 0) :
    openedTable (lainfsSaveFileInDir st drive parentId name buffer size).2 p = openedTable st p ↔
      (validName name.bytes = false ∨ size > fileCapacity) ∨
        SaveHarmless (storageGetPartition st₁.storage p) super.1 st₁.directory parentId name.bytes
          size := by
  obtain ⟨hopened, -, hvalid⟩ := open_opened hopen
  have hst : openedTable st p = some (super, st₁.directory) := by rw [openedTable, hopen]
  have hiff : ∀ st₂, Opened st₂ p super → SameTables st₁.storage st₂.storage →
      (openedTable st₂ p = some (super, st₁.directory) ↔ st₂.directory = st₁.directory) :=
    fun st₂ ho hs => openedTable_eq_iff ho hs hvalid
  have harg : validName name.bytes = true → size.toNat ≤ fileCapacity.toNat →
      ¬ (validName name.bytes = false ∨ size > fileCapacity) := by
    intro hname hsize
    rw [hname, gt_iff_lt, UInt32.lt_iff_toNat_lt, not_or, not_lt]
    exact ⟨Bool.noConfusion, hsize⟩
  have h := saveFile_outcome hmount parentId name buffer size
  rw [hopen] at h
  generalize lainfsSaveFileInDir st drive parentId name buffer size = r at h hfail ⊢
  cases h with
  | refused hbad => exact iff_of_true rfl (.inl hbad)
  | unclaimed hname hsize hclaim =>
    rw [hst]
    exact iff_of_true ((hiff st₁ hopened (.refl _)).mpr rfl) (.inr (saveHarmless_of_unclaimed hclaim))
  | @full _ _ _ d₁ hname hsize hclaim hext =>
    rw [hst, or_iff_right (harg hname hsize), saveHarmless_iff hname hsize hclaim, hext]
    exact (hiff { st₁ with directory := d₁ } (hopened.setDirectory d₁) (.refl _)).trans
      (claim_eq_iff hclaim)
  | @written _ _ _ _ _ ok st₃ hname hsize hclaim hext hw =>
    cases ok with
    | true => exact absurd rfl hfail
    | false =>
      have hsame := writeBlocks_sameMeta hw
      rw [hst, or_iff_right (harg hname hsize), saveHarmless_iff hname hsize hclaim, hext]
      refine (hiff st₃ ((hopened.setDirectory _).congr hsame) hsame.tables).trans ?_
      rw [hsame.directory]
      exact claim_set_eq_iff hclaim _

/-- A failed call leaves the table as it was exactly when it is not a save that has claimed a new
slot without finding room, or rewritten its slot before a block could not be written. -/
theorem run_failed_table_iff {call : TableCall} (hmount : mountForDrive st call.drive = some p)
    (htable : openedTable st p = some (super, d)) (hfail : (call.run st).1 ≠ 0) :
    openedTable (call.run st).2 p = openedTable st p ↔
      call.Harmless (storageGetPartition st.storage p) super.1 d := by
  obtain ⟨st₁, hopen, rfl⟩ := openedTable_eq_some htable
  cases call with
  | save drive parentId name buffer size =>
    rw [TableCall.Harmless, ← or_assoc, ← (open_opened hopen).2.1.getPartition]
    exact saveFile_failed hmount hopen hfail
  -- the other calls are one operation on the table
  | _ =>
    rw [TableCall.run] at hfail ⊢
    exact iff_of_true (call_failed hmount hopen hfail) trivial

/-- There is one data sector, so that two blocks have no place. -/
lemma not_placed_smallFile (xs : List Extent) :
    ¬ Placed formatSuper 258 (single smallFile) 0 [] 2 xs := by
  intro h
  -- the first run is the one sector, and nothing is left behind it
  cases h with
  | @next _ _ _ r _ run rest =>
    obtain ⟨hlow, hstop, -⟩ := run.run
    have hpos := run.pos
    change 257 ≤ r.1 at hlow
    obtain rfl : r = (257, 1) := Prod.ext (by simp only; omega) (by simp only; omega)
    cases rest with
    | @next _ _ _ q _ run' =>
      obtain ⟨hlow', hstop', hfree⟩ := run'.run
      have hpos' := run'.pos
      change 257 ≤ q.1 at hlow'
      have hq : q.1 = 257 := by omega
      have htaken := hfree 257 (by omega) (by omega)
      simp [sectorIsFree, extentOverlapsSelected, rangesOverlap] at htaken

/-- On a volume with one data sector the file `a` cannot grow; saving it fails and leaves the
table. -/
theorem save_grown_keeps_table :
    let st := bufferedVolume 258 (single smallFile) true
    let result := (TableCall.save 0x43 rootDir nameA (fun _ => 0) 1024).run st
    result.1 = -9 ∧ openedTable result.2 0 = openedTable st 0 := by
  intro st result
  have hplace (p) (hp : p ∈ some (volumePartition 258)) (xs : List Extent) :
      ¬ Placed formatSuper p.blockCount.toNat (single smallFile) 0 [] (requiredBlocks 1024).toNat xs := by
    cases hp
    exact not_placed_smallFile xs
  have hnone : findFreeExtents (some (volumePartition 258)) formatSuper (requiredBlocks 1024) 0
      (single smallFile) = none := by
    cases hext : findFreeExtents (some (volumePartition 258)) formatSuper (requiredBlocks 1024) 0
        (single smallFile) with
    | none => rfl
    | some xs =>
      obtain ⟨p, hp, hxs⟩ := (freeExtents_eq_some_iff (by decide)).mp hext
      exact absurd hxs (hplace p hp xs)
  have hclaim : claimSlot (single smallFile) rootDir nameA.bytes = .ok (0, single smallFile) := by
    rw [claimSlot, if_neg (by decide), findEntry_smallFile_self]
    exact if_neg (by decide)
  have hcode : result.1 = -9 := by
    change (lainfsSaveFileInDir st 0x43 rootDir nameA (fun _ => 0) 1024).1 = -9
    rw [saveFile_of_open (p := 0) rfl (buffered_openDirectory validate_smallFile) (by decide) hclaim]
    change (match findFreeExtents (some (volumePartition 258)) formatSuper _ _ _ with
      | none => _ | some xs => _ : ℤ × State).1 = -9
    rw [hnone]
  refine ⟨hcode, (run_failed_table_iff (p := 0) rfl (buffered_openedTable validate_smallFile)
    (show result.1 ≠ 0 by rw [hcode]; decide)).mpr (.inr (.inr (.inr (.inr
      ⟨0, findEntry_smallFile_self, .inr fun p hp xs hxs => absurd hxs (hplace p hp xs)⟩))))⟩

/-- On a volume whose only data sector holds the file `a`, not yet written to the disk, saving `b`
fails for lack of space and the next call finds no valid table. -/
theorem save_on_full_loses_table :
    let st := bufferedVolume 258 (single smallFile) true
    let result := (TableCall.save 0x43 rootDir nameB (fun _ => 0) 1).run st
    openedTable st 0 = some (checkedFormatSuper, single smallFile) ∧
      result.1 = -9 ∧ openedTable result.2 0 = none := by
  intro st result
  obtain ⟨hresult, st₂, hopen⟩ := save_beside_smallFile
    (buffered_opened 258 (single smallFile) true) rfl rfl rfl fun _ => 0
  replace hresult : result = (-9, { st with directory := claimedBeside }) := hresult
  refine ⟨buffered_openedTable validate_smallFile, by rw [hresult], ?_⟩
  rw [hresult, openedTable, hopen]

end LainFS
