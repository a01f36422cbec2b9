import LainOS.Shell.CopyFaithful

/-!
# Copying with a pattern

The loop of `shell_api_copy_file_glob` numbers the children of the source directory while it saves
files, perhaps into the same directory. The children stay the same all the time, since a save changes
an entry of the source directory only to what it was (`Progress.save`).
-/

namespace Shell

open LainFS List Directory Session
open Option (bind_some map_some getD_some bind_eq_bind)
open Storage (storageGetPartition SameTables)

variable {name : List UInt8} {item : Item} {k : Fin maxFiles}

/-! ### Patterns -/

variable {pattern : List UInt8}

lemma matchOneStar_iff : shellMatchOneStar name pattern = true ↔ Matches pattern name := by
  induction pattern generalizing name with
  | nil => simp [shellMatchOneStar, Matches]
  | cons c pattern ih =>
    rw [shellMatchOneStar.eq_def]
    dsimp only
    split_ifs with hc
    · subst hc
      rw [Bool.and_eq_true, decide_eq_true_iff, beq_iff_eq]
      constructor
      · rintro ⟨-, hdrop⟩
        refine .inr ⟨[], name.take (name.length - pattern.length), pattern, rfl, by simp, ?_⟩
        have hsplit := take_append_drop (name.length - pattern.length) name
        rw [hdrop] at hsplit
        exact hsplit.symm
      · rintro (⟨hno, -⟩ | ⟨before, middle, after, heq, hno, rfl⟩)
        · exact absurd mem_cons_self hno
        cases before with
        | cons b before =>
          cases heq
          exact absurd mem_cons_self hno
        | nil =>
          cases heq
          simp
    · cases name with
      | nil =>
        simp only [Bool.false_eq_true, false_iff]
        rintro (⟨-, heq⟩ | ⟨before, middle, after, heq, -, hname⟩)
        · cases heq
        cases before with
        | nil =>
          cases heq
          exact hc rfl
        | cons b before => cases hname
      | cons n name =>
        rw [Bool.and_eq_true, beq_iff_eq, ih]
        constructor
        · rintro ⟨rfl, ⟨hno, rfl⟩ | ⟨before, middle, after, rfl, hno, rfl⟩⟩
          · exact .inl ⟨by simp [hno, Ne.symm hc], rfl⟩
          · exact .inr ⟨n :: before, middle, after, rfl, by simp [hno, Ne.symm hc], rfl⟩
        rintro (⟨hno, heq⟩ | ⟨before, middle, after, heq, hno, hname⟩)
        · cases heq
          exact ⟨rfl, .inl ⟨fun h => hno (mem_cons_of_mem _ h), rfl⟩⟩
        rcases before with _ | ⟨b, before⟩
        · cases heq
          exact absurd rfl hc
        cases heq
        cases hname
        exact ⟨rfl, .inr ⟨before, middle, after, rfl, fun h => hno (mem_cons_of_mem _ h), rfl⟩⟩

/-- A name that matches has at least the bytes of the pattern but for the star. -/
lemma Matches.length_le (h : Matches pattern name) : pattern.length ≤ name.length + 1 := by
  rcases h with ⟨-, rfl⟩ | ⟨before, middle, after, rfl, -, rfl⟩
  · exact Nat.le_succ _
  · simp only [length_append, length_cons]
    omega

/-- For valid names only a pattern that is not cut has matches. -/
lemma Matches.take (h : Matches pattern name) (hname : validName name = true) :
    Matches (pattern.take (nameSize - 1)) name := by
  have hlen := validName_length hname
  have hle := h.length_le
  rwa [take_of_length_le (by rw [nameSize]; omega)]

/-! ### Runs on tables -/

/-- The table after the copy of some files, if none fails, and the bytes that are loaded. -/
def copyRun (take : Directory → List UInt8 → UInt32 → Option Directory) :
    Directory → List (List UInt8 × UInt32) → Option Directory × List ℕ
  | d, [] => (some d, [])
  | d, file :: rest =>
    if asmSourceSize < file.2.toNat then (none, [0])
    else
      match take d file.1 file.2 with
      | none => (none, [file.2.toNat])
      | some d' => ((copyRun take d' rest).1, file.2.toNat :: (copyRun take d' rest).2)

section

variable {take : Directory → List UInt8 → UInt32 → Option Directory} {d d' : Directory}
  {files : List (List UInt8 × UInt32)}

lemma copyRun_eq_some : (copyRun take d files).1 = some d' ↔
    (∀ f ∈ files, f.2.toNat ≤ asmSourceSize) ∧ takeAll take d files = some d' := by
  induction files generalizing d with
  | nil => simp [copyRun, takeAll]
  | cons file rest ih =>
    rw [copyRun, takeAll]
    split_ifs with hlong
    · simp only [mem_cons, forall_eq_or_imp, false_iff]
      exact fun h => absurd h.1.1 (not_le.mpr hlong)
    rw [forall_mem_cons]
    cases take d file.1 file.2 with
    | none => simp
    | some d₁ =>
      rw [ih, bind_some, and_assoc]
      exact ⟨fun h => ⟨not_lt.mp hlong, h⟩, fun h => h.2⟩

/-- No file that the run gets to is too long for the buffer. -/
def NoneOverruns (take : Directory → List UInt8 → UInt32 → Option Directory) (d : Directory)
    (files : List (List UInt8 × UInt32)) : Prop :=
  ∀ before file after, files = before ++ file :: after →
    (∀ f ∈ before, f.2.toNat ≤ asmSourceSize) → (takeAll take d before).isSome = true →
    ¬ Overruns file.2

/-- A file after the first is reached if the first was taken. -/
lemma noneOverruns_cons {file : List UInt8 × UInt32} {rest : List (List UInt8 × UInt32)} :
    NoneOverruns take d (file :: rest) ↔ ¬ Overruns file.2 ∧ (file.2.toNat ≤ asmSourceSize →
      ∀ d₁, take d file.1 file.2 = some d₁ → NoneOverruns take d₁ rest) := by
  constructor
  · intro h
    refine ⟨h [] file rest rfl (fun f hf => (by cases hf)) rfl, fun hle d₁ hd₁ before f after heq
      hbefore htakes => ?_⟩
    refine h (file :: before) f after (by rw [heq]; rfl) ?_ ?_
    · rw [forall_mem_cons]
      exact ⟨hle, hbefore⟩
    · rw [takeAll, hd₁, bind_some]
      exact htakes
  · rintro ⟨hfirst, hrest⟩ before f after heq hbefore htakes
    rcases before with _ | ⟨g, before⟩
    · cases heq
      exact hfirst
    cases heq
    rw [forall_mem_cons] at hbefore
    rw [takeAll] at htakes
    cases hd₁ : take d file.1 file.2 with
    | none =>
      rw [hd₁] at htakes
      cases htakes
    | some d₁ =>
      rw [hd₁, bind_some] at htakes
      exact hrest hbefore.1 d₁ hd₁ before f after rfl hbefore.2 htakes

lemma copyRun_loaded_le :
    (∀ n ∈ (copyRun take d files).2, n ≤ copyBufferSize) ↔ NoneOverruns take d files := by
  induction files generalizing d with
  | nil => simp [copyRun, NoneOverruns]
  | cons file rest ih =>
    rw [noneOverruns_cons, copyRun]
    split_ifs with hlong
    · refine iff_of_true (fun n hn => ?_) ⟨fun h => absurd h.2 (not_le.mpr hlong),
        fun h => absurd h (not_le.mpr hlong)⟩
      rw [mem_singleton.mp hn]
      exact Nat.zero_le _
    rw [not_lt] at hlong
    have hfile : ¬ Overruns file.2 ↔ file.2.toNat ≤ copyBufferSize := by
      rw [Overruns]
      omega
    rw [hfile]
    rcases hd₁ : take d file.1 file.2 with _ | d₁
    · simp
    rw [forall_mem_cons, ih]
    refine and_congr_right fun _ => ⟨fun h _ d₂ hd₂ => ?_, fun h => h hlong d₁ rfl⟩
    cases hd₂
    exact h

end

/-! ### The loop -/

/-- What holds after the files with these names were copied and the destination has the table `d`. -/
structure Progress (job : GlobJob) (st₀ st : State) (names : List (List UInt8)) (d : Directory) :
    Prop where
  validated : Validated st
  tables : SameTables st₀.storage st.storage
  children : SameChildren job.srcDir (itemOf st₀ job.srcVol) (itemOf st job.srcVol)
  isDir : validDirId (tableOf st job.srcVol) job.srcDir = true
  table : ∀ dst, mountForDrive st₀ (driveLetter job.dstDrive) = some dst →
    ∃ super d₀, heldTable st₀ dst = .ok (super, d₀) ∧ heldTable st dst = .ok (super, d)
  arrived : ∀ n ∈ names, ∃ dst item, mountForDrive st₀ (driveLetter job.dstDrive) = some dst ∧
    itemUnder (itemOf st₀ job.srcVol) job.srcDir n = some item ∧
    itemUnder (itemOf st dst) job.dstDir n = some { item with parent := job.dstDir }
  kept : ∀ dst n k, mountForDrive st₀ (driveLetter job.dstDrive) = some dst →
    fileUnder (itemOf st₀ dst) job.dstDir n = some k →
    fileUnder (itemOf st dst) job.dstDir n = some k
  others : ∀ q k, itemOf st q k = itemOf st₀ q k ∨
    mountForDrive st₀ (driveLetter job.dstDrive) = some q ∧ ∃ n ∈ names,
      fileUnder (itemOf st q) job.dstDir n = some k ∧
      ∀ old, itemOf st₀ q k = some old → old.parent = job.dstDir ∧ old.name = n

section

variable {job : GlobJob} {st₀ st st' : State} {names : List (List UInt8)} {d : Directory}

lemma itemUnder_some {items : Fin maxFiles → Option Item} {dir : UInt32}
    (h : itemUnder items dir name = some item) :
    ∃ k, fileUnder items dir name = some k ∧ items k = some item ∧ item.used ≠ entryDir ∧
      item.parent = dir ∧ item.name = name := by
  obtain ⟨k, hk, hitem⟩ := Option.bind_eq_some_iff.mp h
  obtain ⟨item', hk', hu, hp, hn⟩ := fileUnder_some hk
  rw [hitem] at hk'
  cases hk'
  exact ⟨k, hk, hitem, hu, hp, hn⟩

lemma Progress.undisturbed (h : Progress job st₀ st names d) (hund : Undisturbed st st') :
    Progress job st₀ st' names d := by
  refine ⟨hund.validated h.validated, h.tables.trans hund.tables, ?_, ?_, ?_, ?_, ?_, ?_⟩
  all_goals simp only [itemOf_congr hund, tableOf_congr hund, hund.held]
  exacts [h.children, h.isDir, h.table, h.arrived, h.kept, h.others]

lemma Progress.mountForDrive (h : Progress job st₀ st names d) (drive : UInt8) :
    LainFS.mountForDrive st drive = LainFS.mountForDrive st₀ drive := by
  rw [LainFS.mountForDrive, LainFS.mountForDrive, h.tables.getMountByDrive]

section

variable {dst : UInt32} {super : CheckedSuper} {i : Fin maxFiles} {d' : Directory}
  (h : Progress job st₀ st names d) (hheld : heldTable st dst = .ok (super, d))
  (hin : saveIn (storageGetPartition st.storage dst) super.1 d job.dstDir name item.size
  = some (i, d')) (hsaved : Saved st st' dst i { item with parent := job.dstDir })
include h hheld hin hsaved

/-- A save into the source directory changes the entry of a child to what it was. -/
lemma Progress.sameChildren_of_save
    (hitem : itemUnder (itemOf st₀ job.srcVol) job.srcDir name = some item) :
    SameChildren job.srcDir (itemOf st job.srcVol) (itemOf st' job.srcVol) := by
  intro k child hchild
  by_cases hk : job.srcVol = dst ∧ k = i
  · obtain ⟨rfl, rfl⟩ := hk
    obtain ⟨hfirst, hnd, hold⟩ := saveIn_slot hin (blockView st job.srcVol)
    rw [← itemOf_eq hheld] at hold
    rw [hsaved.self]
    by_cases hdir : job.dstDir = job.srcDir
    · -- the file that was loaded is the one that is replaced
      obtain ⟨j, hj, hjitem, -, hparent, -⟩ := itemUnder_some hitem
      rw [← h.children.fileUnder] at hj
      rw [← h.children j item hparent] at hjitem
      have hitems : itemOf st job.srcVol = itemAt d (blockView st job.srcVol) :=
        funext (itemOf_eq hheld)
      rw [hitems, ← hdir] at hj
      obtain rfl := eq_of_fileUnder hfirst hnd hj
      rw [hjitem, hdir, ← hparent]
    · constructor
      · intro heq
        cases heq
        exact absurd hchild hdir
      · intro heq
        exact absurd ((hold child heq).1.symm.trans hchild) hdir
  · rw [hsaved.other job.srcVol k hk]

lemma Progress.isDir_of_save (hheld' : heldTable st' dst = .ok (super, d')) :
    validDirId (tableOf st' job.srcVol) job.srcDir = true := by
  have hdir := h.isDir
  by_cases hvol : job.srcVol = dst
  · rw [hvol] at hdir ⊢
    rw [tableOf_eq hheld] at hdir
    rw [tableOf_eq hheld']
    obtain ⟨-, hnd, -⟩ := saveIn_slot hin (blockView st dst)
    rcases validDirId_eq_true hdir with hroot | ⟨k, hk, hkdir⟩
    · rw [hroot]
      rfl
    -- the slot of the directory is not the one that is used
    have hki : k ≠ i := fun hki => hnd (hki ▸ hkdir)
    have hentry : itemAt d (blockView st dst) k = some _ :=
      itemAt_eq_some.mpr ⟨by rw [hkdir]; decide, rfl⟩
    have hsame := hsaved.other dst k fun hc => hki hc.2
    rw [itemOf_eq hheld, itemOf_eq hheld', hentry] at hsame
    obtain ⟨-, heq⟩ := itemAt_eq_some.mp hsame
    rw [hk]
    exact validDirId_of_dir ((congrArg Item.used heq).symm.trans hkdir)
  · rw [tableOf, hsaved.held _ hvol]
    exact hdir

lemma Progress.save (hdst : LainFS.mountForDrive st₀ (driveLetter job.dstDrive) = some dst)
    (hitem : itemUnder (itemOf st₀ job.srcVol) job.srcDir name = some item)
    (hheld' : heldTable st' dst = .ok (super, d')) : Progress job st₀ st' (names ++ [name]) d' := by
  obtain ⟨hfirst, hnd, hold⟩ := saveIn_slot hin (blockView st dst)
  obtain ⟨-, -, -, hfile, -, hname⟩ := itemUnder_some hitem
  have hitems : itemOf st dst = itemAt d (blockView st dst) := funext (itemOf_eq hheld)
  have hother : ∀ k, k ≠ i → itemOf st' dst k = itemAt d (blockView st dst) k := by
    intro k hk
    rw [hsaved.other dst k fun hc => hk hc.2, hitems]
  have hself : fileUnder (itemOf st' dst) job.dstDir name = some i :=
    fileUnder_self hfirst hsaved.self hfile rfl hname hother
  have helse : ∀ n, n ≠ name →
      fileUnder (itemOf st' dst) job.dstDir n = fileUnder (itemOf st dst) job.dstDir n := by
    intro n hn
    rw [hitems]
    exact fileUnder_other hold hsaved.self rfl hname hother fun hc => hn hc.2
  have hbefore : ∀ k, fileUnder (itemOf st dst) job.dstDir name = some k → k = i := by
    intro k hk
    rw [hitems] at hk
    exact eq_of_fileUnder hfirst hnd hk
  refine ⟨⟨hsaved.tidy, fun drive p hm => ?_⟩, h.tables.trans hsaved.tables,
    h.children.trans (h.sameChildren_of_save hheld hin hsaved hitem),
    h.isDir_of_save hheld hin hsaved hheld', fun dst' hdst' => ?_, fun n hn => ?_,
    fun dst' n k hdst' hk => ?_, fun q k => ?_⟩
  · by_cases hp : p = dst
    · exact ⟨super, d', hp ▸ hheld'⟩
    · rw [hsaved.held p hp]
      rw [LainFS.mountForDrive, hsaved.tables.getMountByDrive] at hm
      exact h.validated.valid drive p hm
  · obtain ⟨super₀, d₀, hheld₀, hheld₁⟩ := h.table dst' hdst'
    rw [hdst] at hdst'
    cases hdst'
    rw [hheld] at hheld₁
    cases hheld₁
    exact ⟨super, d₀, hheld₀, hheld'⟩
  · by_cases heq : n = name
    · subst heq
      refine ⟨dst, item, hdst, hitem, ?_⟩
      rw [itemUnder, hself]
      exact hsaved.self
    obtain ⟨dst', item', hdst', hsrc, harr⟩ := h.arrived n
      ((mem_append.mp hn).resolve_right fun hc => heq (mem_singleton.mp hc))
    rw [hdst] at hdst'
    cases hdst'
    refine ⟨dst, item', hdst, hsrc, ?_⟩
    obtain ⟨k, hk, hkitem, -, -, hkname⟩ := itemUnder_some harr
    -- a slot with another name is not the one that was used
    have hki : k ≠ i := by
      rintro rfl
      rw [hitems] at hkitem
      exact heq (hkname.symm.trans (hold _ hkitem).2)
    rw [itemUnder, helse n heq, hk, bind_some, hother k hki, ← hitems, hkitem]
  · have hk' := h.kept dst' n k hdst' hk
    rw [hdst] at hdst'
    cases hdst'
    by_cases heq : n = name
    · subst heq
      rw [hbefore k hk', hself]
    · rw [helse n heq, hk']
  · by_cases hqk : q = dst ∧ k = i
    · obtain ⟨rfl, rfl⟩ := hqk
      refine .inr ⟨hdst, name, by simp, hself, fun old ho => ?_⟩
      rcases h.others q k with hsame | ⟨-, n, -, hn, hbefore'⟩
      · rw [hitems, ho] at hsame
        exact hold old hsame
      · obtain ⟨it, hit, -, -, hitname⟩ := fileUnder_some hn
        rw [hitems] at hit
        rw [← (hold it hit).2, hitname]
        exact hbefore' old ho
    · rcases h.others q k with hsame | ⟨hq, n, hn, hfound, hbefore'⟩
      · exact .inl ((hsaved.other q k hqk).trans hsame)
      refine .inr ⟨hq, n, mem_append_left _ hn, ?_, hbefore'⟩
      rw [hdst] at hq
      cases hq
      by_cases heq : n = name
      · rw [heq] at hfound
        exact absurd ⟨rfl, hbefore k hfound⟩ hqk
      · rw [helse n heq, hfound]

end

variable {srcDrive : UInt8} {name : CString}

section

variable (h : Progress job st₀ st names d)
include h

lemma Progress.load (hsrc : LainFS.mountForDrive st₀ srcDrive = some job.srcVol)
    (hname : validName name.bytes = true)
    (hitem : itemUnder (itemOf st₀ job.srcVol) job.srcDir name.bytes = some item) :
    let r := lainfsLoadFileInDir st srcDrive job.srcDir name (UInt32.ofNat asmSourceSize)
    Progress job st₀ r.2 names d ∧ item.used = entryFile ∧
      item.size.toNat ≤ fileCapacity.toNat ∧ item.bytes.length = item.size.toNat ∧
      ((asmSourceSize < item.size.toNat ∧ r.1.status ≠ 0 ∧ r.1.bytes = []) ∨
        (item.size.toNat ≤ asmSourceSize ∧ r.1 = ⟨0, item.size, item.bytes⟩)) := by
  intro r
  have hm : LainFS.mountForDrive st srcDrive = some job.srcVol := by rw [h.mountForDrive, hsrc]
  obtain ⟨super, t, hheld⟩ := h.validated.valid srcDrive _ hm
  have hcases := h.validated.toTidy.load_cases hm hheld job.srcDir name
    (by decide : UInt32.ofNat asmSourceSize ≠ 0)
  have hund := (h.validated.toTidy.load hm hheld job.srcDir name (UInt32.ofNat asmSourceSize)).2
  obtain ⟨j, hj, hjitem, -, hparent, -⟩ := itemUnder_some hitem
  have hfound : fileNamed st job.srcVol job.srcDir name.bytes = some j := by
    rw [fileNamed, if_pos ⟨hname, h.isDir⟩, h.children.fileUnder, hj]
  rcases hcases with ⟨hnone, -⟩ | ⟨i, item', hi, hitem', hused, hp', -, hcap, hlen, hload⟩
  · rw [hfound] at hnone
    cases hnone
  rw [hfound] at hi
  cases hi
  rw [h.children j item' hp', hjitem] at hitem'
  cases hitem'
  exact ⟨h.undisturbed hund, hused, hcap, hlen, hload⟩

lemma Progress.store (hname : validName name.bytes = true)
    (hitem : itemUnder (itemOf st₀ job.srcVol) job.srcDir name.bytes = some item)
    (hused : item.used = entryFile) (hcap : item.size.toNat ≤ fileCapacity.toNat)
    (hlen : item.bytes.length = item.size.toNat) :
    let r := lainfsSaveFileInDir st (driveLetter job.dstDrive) job.dstDir name
      (bufferOf ⟨0, item.size, item.bytes⟩) item.size
    (takeIn st₀ (driveLetter job.dstDrive) job.dstDir d name.bytes item.size = none ∧ r.1 ≠ 0) ∨
      ∃ d', takeIn st₀ (driveLetter job.dstDrive) job.dstDir d name.bytes item.size = some d' ∧
        r.1 = 0 ∧ Progress job st₀ r.2 (names ++ [name.bytes]) d' := by
  intro r
  rw [takeIn]
  rcases hdst : LainFS.mountForDrive st₀ (driveLetter job.dstDrive) with _ | dst
  · left
    have hr : r = (-1, st) := by
      simp only [r]
      rw [lainfsSaveFileInDir, h.mountForDrive, hdst]
    rw [hr]
    exact ⟨rfl, (by decide : (-1 : ℤ) ≠ 0)⟩
  obtain ⟨super, d₀, hheld₀, hheld⟩ := h.table dst hdst
  have hm : LainFS.mountForDrive st (driveLetter job.dstDrive) = some dst := by
    rw [h.mountForDrive, hdst]
  obtain ⟨-, -, -, -, -, hitemName⟩ := itemUnder_some hitem
  dsimp only
  rw [hheld₀]
  dsimp only
  rw [← h.tables.getPartition dst]
  rcases h.validated.toTidy.save hm hheld job.dstDir hname
    (bufferOf ⟨0, item.size, item.bytes⟩) hcap with
    ⟨hnone, hne⟩ | ⟨i, d', hin, h0, hheld', hsaved⟩
  · rw [hnone]
    exact .inl ⟨rfl, hne⟩
  · rw [hin]
    rw [map_bufferOf hlen, ← hused, ← hitemName] at hsaved
    exact .inr ⟨d', rfl, h0, h.save hheld hin hsaved hdst hitem hheld'⟩

/-- The entry of a child is the one it was at the start. -/
lemma Progress.child (hk : k ∈ childrenOf (tableOf st₀ job.srcVol) job.srcDir) :
    (tableOf st job.srcVol k).used = (tableOf st₀ job.srcVol k).used ∧
      entryName (tableOf st job.srcVol k) = entryName (tableOf st₀ job.srcVol k) := by
  obtain ⟨hu, hp⟩ := mem_childrenOf.mp hk
  have hentry : itemOf st₀ job.srcVol k = some _ := itemAt_eq_some.mpr ⟨hu, rfl⟩
  rw [← h.children k _ hp] at hentry
  obtain ⟨-, heq⟩ := itemAt_eq_some.mp hentry
  exact ⟨(congrArg Item.used heq).symm, (congrArg Item.name heq).symm⟩

end

variable (hst₀ : Validated st₀) (hsrc : mountForDrive st₀ srcDrive = some job.srcVol)
include hst₀ hsrc

/-- A picked child has a file under its name. -/
lemma exists_itemUnder (hk : k ∈ childrenOf (tableOf st₀ job.srcVol) job.srcDir)
    (hpick : job.picks st₀ k = true) : validName (entryName (tableOf st₀ job.srcVol k)) = true ∧
      ∃ item, itemUnder (itemOf st₀ job.srcVol) job.srcDir
        (entryName (tableOf st₀ job.srcVol k)) = some item ∧
        job.file st₀ k = (entryName (tableOf st₀ job.srcVol k), item.size) := by
  obtain ⟨super, t, hheld⟩ := hst₀.valid srcDrive _ hsrc
  obtain ⟨-, part, -, hsound⟩ := heldTable_eq_ok hheld
  obtain ⟨hu, hp⟩ := mem_childrenOf.mp hk
  rw [GlobJob.picks, Bool.and_eq_true, beq_iff_eq] at hpick
  have hvalid : validName (entryName (tableOf st₀ job.srcVol k)) = true := by
    rw [tableOf_eq hheld] at hu ⊢
    exact nameIsValid_validName ((hsound.entry k).resolve_left hu).name
  refine ⟨hvalid, ?_⟩
  have hentry : itemOf st₀ job.srcVol k = some _ := itemAt_eq_some.mpr ⟨hu, rfl⟩
  obtain ⟨j, hj⟩ := exists_fileUnder hentry
    (fun hdir => absurd (hpick.1.symm.trans hdir) (by decide)) hp rfl
  obtain ⟨item, hitem, -⟩ := fileUnder_some hj
  have hunder : itemUnder (itemOf st₀ job.srcVol) job.srcDir
      (entryName (tableOf st₀ job.srcVol k)) = some item := by
    rw [itemUnder, hj]
    exact hitem
  refine ⟨item, hunder, ?_⟩
  simp only [GlobJob.file, hunder, map_some, getD_some]

/-- The loop does what the run on the tables does. -/
lemma copyChildren_run {cs : List (Fin maxFiles)} {m : ℕ}
    (hcs : (childrenOf (tableOf st₀ job.srcVol) job.srcDir).drop m = cs)
    (h : Progress job st₀ st names d) (copied : ℕ) (loaded : List ℕ) :
    let run := copyRun (takeIn st₀ (driveLetter job.dstDrive) job.dstDir) d
      ((cs.filter (job.picks st₀)).map (job.file st₀))
    let r := copyChildren srcDrive job.srcDir (job.pattern.take (nameSize - 1))
      (driveLetter job.dstDrive) job.dstDir (List.range' m cs.length) copied loaded st
    r.2.1 = loaded ++ run.2 ∧ ((run.1 = none ∧ r.1 ≠ 0) ∨
      ∃ d', run.1 = some d' ∧
        r.1 = (if copied + (cs.filter (job.picks st₀)).length = 0 then -1 else 0) ∧
        Progress job st₀ r.2.2
          (names ++ (cs.filter (job.picks st₀)).map fun k => (job.file st₀ k).1) d') := by
  induction cs generalizing m st names d copied loaded with
  | nil =>
    refine ⟨(append_nil loaded).symm, .inr ⟨d, rfl, rfl, ?_⟩⟩
    simpa [copyChildren] using h
  | cons c cs ih =>
    have hc : c ∈ childrenOf (tableOf st₀ job.srcVol) job.srcDir :=
      mem_of_mem_drop (hcs ▸ mem_cons_self)
    have hnth : ((childrenOf (tableOf st₀ job.srcVol) job.srcDir).drop m)[0]? = some c := by
      rw [hcs]
      rfl
    rw [getElem?_drop, add_zero] at hnth
    have hnext : (childrenOf (tableOf st₀ job.srcVol) job.srcDir).drop (m + 1) = cs := by
      rw [← tail_drop, hcs, tail_cons]
    -- the row of the child
    have hm : mountForDrive st srcDrive = some job.srcVol := by rw [h.mountForDrive, hsrc]
    obtain ⟨super, t, hheld⟩ := h.validated.valid srcDrive _ hm
    have htable : tableOf st job.srcVol = t := tableOf_eq hheld
    have hchildren : childrenOf t job.srcDir = childrenOf (tableOf st₀ job.srcVol) job.srcDir := by
      rw [← htable]
      exact h.children.childrenOf
    rw [← hchildren] at hnth
    obtain ⟨hinfo, hund⟩ := h.validated.toTidy.childInfo hm hheld (htable ▸ h.isDir) hnth
    obtain ⟨hused, hname⟩ := h.child hc
    rw [htable] at hused hname
    have h₁ := h.undisturbed hund
    rw [length_cons, range'_succ, copyChildren]
    generalize lainfsChildInfo st srcDrive job.srcDir m = info at hinfo hund h₁
    obtain ⟨info, st₁⟩ := info
    subst hinfo
    have hskip : ((childInfo (t c)).type ≠ entryFile ∨
        shellMatchOneStar (childInfo (t c)).name.bytes (job.pattern.take (nameSize - 1)) = false) ↔
        ¬ job.picks st₀ c = true := by
      have htype : (childInfo (t c)).type = (tableOf st₀ job.srcVol c).used := hused
      have hbytes : (childInfo (t c)).name.bytes = entryName (tableOf st₀ job.srcVol c) := hname
      rw [htype, hbytes, GlobJob.picks, Bool.and_eq_true, beq_iff_eq, not_and_or, Bool.not_eq_true]
    dsimp only
    by_cases hpick : job.picks st₀ c = true
    · rw [if_neg (fun hs => hskip.mp hs hpick), filter_cons_of_pos hpick, map_cons, map_cons]
      obtain ⟨hvalid, item, hitem, hfile⟩ := exists_itemUnder hst₀ hsrc hc hpick
      have hbytes : (childInfo (t c)).name.bytes = entryName (tableOf st₀ job.srcVol c) := hname
      rw [← hbytes] at hvalid hitem hfile
      generalize (childInfo (t c)).name = name at hvalid hitem hfile
      obtain ⟨h₂, hfileUsed, hcap, hlen, hload⟩ := h₁.load hsrc hvalid hitem
      generalize lainfsLoadFileInDir st₁ srcDrive job.srcDir name (UInt32.ofNat asmSourceSize) = l
        at h₂ hload
      obtain ⟨result, st₂⟩ := l
      rw [hfile, copyRun]
      rcases hload with ⟨hlong, hstatus, hempty⟩ | ⟨hfit, rfl⟩
      · rw [if_pos hstatus, if_pos hlong, hempty]
        exact ⟨rfl, .inl ⟨rfl, (by decide : (-1 : ℤ) ≠ 0)⟩⟩
      rw [if_neg (not_not.mpr rfl), if_neg (not_lt.mpr hfit)]
      have hstore := h₂.store hvalid hitem hfileUsed hcap hlen
      rw [hlen]
      generalize lainfsSaveFileInDir st₂ (driveLetter job.dstDrive) job.dstDir name
        (bufferOf ⟨0, item.size, item.bytes⟩) item.size = saved at hstore
      obtain ⟨status, st₃⟩ := saved
      rcases hstore with ⟨hnone, hne⟩ | ⟨d', hsome, rfl, h₃⟩
      · rw [if_pos hne, hnone]
        exact ⟨rfl, .inl ⟨rfl, (by decide : (-1 : ℤ) ≠ 0)⟩⟩
      rw [if_neg (not_not.mpr rfl), hsome]
      obtain ⟨ihloaded, ihrun⟩ := ih hnext h₃ (copied + 1) (loaded ++ [item.size.toNat])
      rw [append_assoc, singleton_append] at ihloaded
      refine ⟨ihloaded, ?_⟩
      rcases ihrun with hfail | ⟨d'', hrun, hstatus, hprogress⟩
      · exact .inl hfail
      · refine .inr ⟨d'', hrun, ?_, ?_⟩
        · rw [hstatus, length_cons, Nat.add_right_comm, Nat.add_assoc copied]
        · rwa [append_assoc, singleton_append] at hprogress
    · rw [if_pos (hskip.mpr hpick), filter_cons_of_neg hpick]
      exact ih hnext h₁ copied loaded

end

/-! ### The whole copy -/

section

variable {sh : Session} {srcPath dstPath : List UInt8} {job : GlobJob} {st : State}

lemma Progress.start (hst : Validated st)
    (hdir : validDirId (tableOf st job.srcVol) job.srcDir = true) :
    Progress job st st [] ((driveTable st (driveLetter job.dstDrive)).getD empty) := by
  refine ⟨hst, .refl _, SameChildren.refl _ _, hdir, fun dst hdst => ?_,
    fun n hn => (by cases hn), fun _ _ _ _ hk => hk, fun q k => .inl rfl⟩
  obtain ⟨super, d, hheld⟩ := hst.valid _ dst hdst
  refine ⟨super, d, hheld, ?_⟩
  rw [driveTable, hdst, map_some, getD_some, tableOf_eq hheld, hheld]

lemma splitSource_eq (hst : Validated sh.fs) (path : List UInt8) (fallback : Fin maxDrives) : ∃ sh',
    shellSplitGlobSource sh path fallback =
        ((sh.globPlace path fallback).map fun x => (x.1, x.2.1, x.2.2.take (nameSize - 1)), sh') ∧
      Steady sh sh' := by
  obtain ⟨sh₁, hdrive, hsteady, hdir⟩ := pathDrivePrefix_eq hst.toTidy path fallback
  rw [shellSplitGlobSource, globPlace, hdrive]
  split_ifs with ha
  · dsimp only
    rcases dirPath (drivePart path fallback).2 with _ | dir
    · exact ⟨sh₁, rfl, hsteady⟩
    obtain ⟨heq, hund⟩ := resolveDirPath_eq (driveLetter (drivePart path fallback).1)
      (hsteady.undisturbed.validated hst) (sh₁.dirIds (drivePart path fallback).1) dir
    rw [bind_some, ← hdir ha, ← driveTable_eq _ hsteady.undisturbed, ← heq]
    dsimp only
    generalize resolveDirPath sh₁.fs (driveLetter (drivePart path fallback).1)
      (sh₁.dirIds (drivePart path fallback).1) dir = r at hund
    obtain ⟨_ | dirId, fs⟩ := r
    · exact ⟨_, rfl, hsteady.trans (.setFs hund)⟩
    · exact ⟨_, rfl, hsteady.trans (.setFs hund)⟩
  · exact ⟨sh₁, rfl, hsteady⟩

lemma globTarget_eq {result : ℤ × UInt32} {d : Option Directory} {parent : UInt32} {name : CString}
    (h : Answers result (d.bind (findDirIn · parent name.bytes))) : globTarget d parent name =
      if result.1 ≠ 0 ∧ name ≠ dot then none
      else some (if result.1 ≠ 0 then parent else result.2) := by
  rw [globTarget]
  cases hd : d.bind (findDirIn · parent name.bytes) with
  | none =>
    rw [hd] at h
    have hne : result.1 ≠ 0 := h
    by_cases hname : name = dot
    · rw [if_pos hname, if_neg (fun hc => hc.2 hname), if_pos hne]
    · rw [if_neg hname, if_pos ⟨hne, hname⟩]
  | some dirId =>
    rw [hd] at h
    obtain rfl : result = (0, dirId) := h
    rfl

lemma copyMatching_run {st₀ : State} (hst₀ : Validated st₀) (hund : Undisturbed st₀ st)
    (srcDrive : UInt8) (srcDir : UInt32) (pattern : List UInt8) (dstDrive : Fin maxDrives)
    (dstDir : UInt32) :
    let r := copyMatching st srcDrive srcDir (pattern.take (nameSize - 1)) (driveLetter dstDrive)
      dstDir
    ((∀ p, mountForDrive st₀ srcDrive = some p → validDirId (tableOf st₀ p) srcDir = false) ∧
        r.1 ≠ 0 ∧ r.2.1 = []) ∨
      ∃ p, mountForDrive st₀ srcDrive = some p ∧ validDirId (tableOf st₀ p) srcDir = true ∧
        let job : GlobJob := ⟨p, srcDir, pattern, dstDrive, dstDir⟩
        let run := copyRun (takeIn st₀ (driveLetter dstDrive) dstDir)
          ((driveTable st₀ (driveLetter dstDrive)).getD empty) (job.files st₀)
        r.2.1 = run.2 ∧ ((run.1 = none ∧ r.1 ≠ 0) ∨
          ∃ d', run.1 = some d' ∧ r.1 = (if (job.picked st₀).length = 0 then -1 else 0) ∧
            Progress job st₀ r.2.2 ((job.picked st₀).map fun k => (job.file st₀ k).1) d') := by
  intro r
  have hr : r = copyMatching st srcDrive srcDir (pattern.take (nameSize - 1))
    (driveLetter dstDrive) dstDir := rfl
  rw [copyMatching] at hr
  rcases hm : mountForDrive st₀ srcDrive with _ | p
  · left
    rw [← hund.mountForDrive] at hm
    rw [lainfsChildCount, hm] at hr
    rw [hr]
    exact ⟨fun p hp => (by cases hp), (by decide : (-1 : ℤ) ≠ 0), rfl⟩
  obtain ⟨super, d, hheld₀⟩ := hst₀.valid srcDrive p hm
  have hheld : heldTable st p = .ok (super, d) := (hund.held p).trans hheld₀
  obtain rfl : tableOf st₀ p = d := tableOf_eq hheld₀
  have hm' : mountForDrive st srcDrive = some p := (hund.mountForDrive srcDrive).trans hm
  obtain ⟨hcount, hund'⟩ := hund.tidy.childCount hm' hheld srcDir
  generalize lainfsChildCount st srcDrive srcDir = count at hcount hund' hr
  obtain ⟨⟨status, childCount⟩, st₁⟩ := count
  dsimp only at hcount hund' hr
  by_cases hdir : validDirId (tableOf st₀ p) srcDir = false
  · left
    rw [if_pos hdir] at hcount
    cases hcount
    rw [if_pos (by decide)] at hr
    rw [hr]
    refine ⟨fun q hq => ?_, (by decide : (-1 : ℤ) ≠ 0), rfl⟩
    cases hq
    exact hdir
  right
  rw [if_neg hdir] at hcount
  cases hcount
  rw [Bool.not_eq_false] at hdir
  rw [if_neg (not_not.mpr rfl), range_eq_range'] at hr
  refine ⟨p, rfl, hdir, ?_⟩
  have hstart : Progress ⟨p, srcDir, pattern, dstDrive, dstDir⟩ st₀ st₀ []
      ((driveTable st₀ (driveLetter dstDrive)).getD empty) :=
    Progress.start hst₀ hdir
  have hrun := copyChildren_run hst₀ hm drop_zero (hstart.undisturbed (hund.trans hund')) 0 []
  dsimp only at hrun ⊢
  obtain ⟨hloaded, hcases⟩ := hrun
  rw [nil_append] at hloaded
  rw [hr, GlobJob.files, GlobJob.picked]
  refine ⟨hloaded, ?_⟩
  rcases hcases with hfail | ⟨d', hrun, hstatus, hprogress⟩
  · exact .inl hfail
  · rw [zero_add] at hstatus
    rw [nil_append] at hprogress
    exact .inr ⟨d', hrun, hstatus, hprogress⟩

/-- The copy with a pattern fails at its paths, or it runs its job. -/
lemma copyGlob_run (hst : Validated sh.fs) (srcPath dstPath : List UInt8) :
    let r := shellApiCopyFileGlob sh srcPath dstPath
    (sh.globJob srcPath dstPath = none ∧ r.status ≠ 0 ∧ r.loaded = []) ∨
      ∃ job srcDrive, sh.globJob srcPath dstPath = some job ∧
        mountForDrive sh.fs srcDrive = some job.srcVol ∧
        let run := copyRun (takeIn sh.fs (driveLetter job.dstDrive) job.dstDir)
          ((driveTable sh.fs (driveLetter job.dstDrive)).getD empty) (job.files sh.fs)
        r.loaded = run.2 ∧ ((run.1 = none ∧ r.status ≠ 0) ∨
          ∃ d', run.1 = some d' ∧ r.status = (if (job.picked sh.fs).length = 0 then -1 else 0) ∧
            Progress job sh.fs r.session.fs
              ((job.picked sh.fs).map fun k => (job.file sh.fs k).1) d') := by
  intro r
  have hr : r = shellApiCopyFileGlob sh srcPath dstPath := rfl
  rw [shellApiCopyFileGlob] at hr
  have hnone : ∀ {sh' : Session}, r = ⟨-1, [], sh'⟩ → r.status ≠ 0 ∧ r.loaded = [] := by
    rintro sh' h
    rw [h]
    exact ⟨(by decide : (-1 : ℤ) ≠ 0), rfl⟩
  rcases hdrive : sh.drive with _ | active
  · rw [hdrive] at hr
    refine .inl ⟨?_, hnone hr⟩
    rw [globJob, hdrive]
    rfl
  rw [hdrive] at hr
  dsimp only at hr
  obtain ⟨sh₁, hfound₁, hs₁⟩ := splitSource_eq hst srcPath active
  rw [hfound₁] at hr
  rcases hsrc : sh.globPlace srcPath active with _ | src
  · rw [hsrc] at hr
    refine .inl ⟨?_, hnone hr⟩
    simp [globJob, hdrive, hsrc]
  obtain ⟨srcDrive, srcDir, pattern⟩ := src
  rw [hsrc] at hr
  dsimp only [map_some] at hr
  obtain ⟨sh₂, hfound₂, hs₂⟩ := resolveFile_eq (hs₁.undisturbed.validated hst) dstPath active
  rw [hfound₂, hs₁.place] at hr
  rcases hdst : sh.place dstPath active with _ | dst
  · rw [hdst] at hr
    refine .inl ⟨?_, hnone hr⟩
    simp [globJob, hdrive, hsrc, hdst]
  obtain ⟨dstDrive, dstParent, dstName⟩ := dst
  rw [hdst] at hr
  dsimp only at hr
  have hund₂ := hs₁.undisturbed.trans hs₂.undisturbed
  have hst₂ := hund₂.validated hst
  obtain ⟨hans, hund₃⟩ := findDir_answers (driveLetter dstDrive) hst₂ dstParent dstName
  rw [driveTable_eq _ hund₂] at hans
  have htarget := globTarget_eq hans
  generalize lainfsFindDir sh₂.fs (driveLetter dstDrive) dstParent dstName = found
    at hans hund₃ htarget hr
  obtain ⟨⟨status, dirId⟩, st₃⟩ := found
  have hund := hund₂.trans hund₃
  by_cases hbad : status ≠ 0 ∧ dstName ≠ dot
  · rw [if_pos hbad] at hr htarget
    refine .inl ⟨?_, hnone hr⟩
    simp [globJob, hdrive, hsrc, hdst, htarget]
  rw [if_neg hbad] at hr htarget
  generalize (if status ≠ 0 then dstParent else dirId) = dstDir at hr htarget
  have hrun := copyMatching_run hst hund (driveLetter srcDrive) srcDir pattern dstDrive dstDir
  generalize copyMatching st₃ (driveLetter srcDrive) srcDir (pattern.take (nameSize - 1))
    (driveLetter dstDrive) dstDir = result at hrun hr
  obtain ⟨rs, rl, rsh⟩ := r
  cases hr
  rcases hrun with ⟨hnodir, hstatus, hloaded⟩ | ⟨p, hm, hdir, hrest⟩
  · refine .inl ⟨?_, hstatus, hloaded⟩
    simp only [globJob, hdrive, hsrc, hdst, htarget, bind_eq_bind, bind_some]
    cases hm : mountForDrive sh.fs (driveLetter srcDrive) with
    | none => rfl
    | some p => rw [bind_some, if_neg (by rw [hnodir p hm]; decide)]
  · refine .inr ⟨⟨p, srcDir, pattern, dstDrive, dstDir⟩, driveLetter srcDrive, ?_, hm, hrest⟩
    simp only [globJob, hdrive, hsrc, hdst, htarget, bind_eq_bind, bind_some, hm, if_pos hdir]

end

/-! ### The result -/

section

variable {sh : Session} {srcPath dstPath : List UInt8} {job : GlobJob} {st st' : State}
  {srcDrive : UInt8} {dst : UInt32} {d : Directory} {k : Fin maxFiles} {item : Item}

lemma GlobJob.mem_picked : k ∈ job.picked st ↔ ∃ item, itemOf st job.srcVol k = some item ∧
    item.used = entryFile ∧ item.parent = job.srcDir ∧
    Matches (job.pattern.take (nameSize - 1)) item.name := by
  rw [GlobJob.picked, mem_filter, GlobJob.picks, Bool.and_eq_true, beq_iff_eq,
    matchOneStar_iff, mem_childrenOf]
  constructor
  · rintro ⟨⟨hu, hp⟩, hfile, hmatch⟩
    exact ⟨_, itemAt_eq_some.mpr ⟨hu, rfl⟩, hfile, hp, hmatch⟩
  · rintro ⟨item, hitem, hfile, hp, hmatch⟩
    obtain ⟨hu, rfl⟩ := itemAt_eq_some.mp hitem
    exact ⟨⟨hu, hp⟩, hfile, hmatch⟩

lemma itemOf_name (h : itemOf st job.srcVol k = some item) : (job.file st k).1 = item.name := by
  obtain ⟨-, rfl⟩ := itemAt_eq_some.mp h
  rfl

lemma GlobJob.selected_picked (hst : Validated st)
    (hsrc : mountForDrive st srcDrive = some job.srcVol) (hk : k ∈ job.selected st) :
    k ∈ job.picked st := by
  obtain ⟨item, hitem, hfile, hp, hmatch⟩ := hk
  refine GlobJob.mem_picked.mpr ⟨item, hitem, hfile, hp, hmatch.take ?_⟩
  obtain ⟨super, t, hheld⟩ := hst.valid srcDrive _ hsrc
  obtain ⟨-, part, -, hsound⟩ := heldTable_eq_ok hheld
  rw [itemOf_eq hheld] at hitem
  obtain ⟨hu, rfl⟩ := itemAt_eq_some.mp hitem
  exact nameIsValid_validName ((hsound.entry k).resolve_left hu).name

/-- A file that has its name from the start was found there from the start. -/
lemma Progress.fileUnder_start {names : List (List UInt8)} (h : Progress job st st' names d)
    (hdst : LainFS.mountForDrive st (driveLetter job.dstDrive) = some dst)
    (hk : fileUnder (itemOf st' dst) job.dstDir name = some k) (hitem : itemOf st dst k = some item)
    (hused : item.used ≠ entryDir) (hparent : item.parent = job.dstDir) (hname : item.name = name) :
    fileUnder (itemOf st dst) job.dstDir name = some k := by
  obtain ⟨j, hj⟩ := exists_fileUnder hitem hused hparent hname
  have hj' := h.kept dst name j hdst hj
  rw [hk] at hj'
  rw [hj, hj']

/-- A copy of all picked files is right if the picked files are the right ones. -/
lemma Progress.delivered_iff (hst : Validated st)
    (hsrc : LainFS.mountForDrive st srcDrive = some job.srcVol)
    (hdst : LainFS.mountForDrive st (driveLetter job.dstDrive) = some dst)
    (h : Progress job st st' ((job.picked st).map fun k => (job.file st k).1) d) :
    Delivered st st' job.srcVol dst (job.deliveries st) ↔ job.Right st := by
  have hnames : ∀ k ∈ job.picked st, ∀ item, itemOf st job.srcVol k = some item →
      item.name ∈ (job.picked st).map fun k => (job.file st k).1 := by
    intro k hk item hitem
    exact mem_map.mpr ⟨k, hk, itemOf_name hitem⟩
  have harrived : ∀ n ∈ (job.picked st).map fun k => (job.file st k).1, ∃ item i,
      itemUnder (itemOf st job.srcVol) job.srcDir n = some item ∧ item.parent = job.srcDir ∧
      item.name = n ∧ fileUnder (itemOf st' dst) job.dstDir n = some i ∧
      itemOf st' dst i = some { item with parent := job.dstDir } := by
    intro n hn
    obtain ⟨dst', item, hdst', hitem, harr⟩ := h.arrived n hn
    rw [hdst] at hdst'
    cases hdst'
    obtain ⟨-, -, -, -, hp, hname⟩ := itemUnder_some hitem
    obtain ⟨i, hi, hitem', -⟩ := itemUnder_some harr
    exact ⟨item, i, hitem, hp, hname, hi, hitem'⟩
  constructor
  · intro hdel
    refine ⟨fun k hk item hitem => ?_, fun k hk hnot item dst' hitem hdst' => ?_⟩
    · obtain ⟨item', i, hunder, hp, hname, hi, hitem'⟩ := harrived item.name
        (hnames k (GlobJob.selected_picked hst hsrc hk) item hitem)
      obtain ⟨i', item'', hi', hk', hdelivered⟩ := hdel.arrived ⟨k, job.dstDir, item.name⟩
        ⟨hk, rfl, item, hitem, rfl⟩
      obtain ⟨item₂, hitem₂, -, hp₂, -⟩ := hk
      rw [hitem] at hk' hitem₂
      cases hk'
      cases hitem₂
      rw [hi] at hi'
      cases hi'
      rw [hitem'] at hdelivered
      rw [hunder]
      obtain ⟨used, parent, name, size, bytes⟩ := item'
      cases hdelivered
      rw [Option.some_inj]
      obtain rfl : parent = item.parent := hp.trans hp₂.symm
      rfl
    · rw [hdst] at hdst'
      cases hdst'
      obtain ⟨item', i, hunder, hp, hname, hi, hitem'⟩ := harrived item.name (hnames k hk item hitem)
      rcases hdel.others dst i with hsame | ⟨-, x, ⟨⟨itemx, hx, -, -, hmatch⟩, -, itemx', hx', hxname⟩,
        hxi, -⟩
      · have hfound : fileUnder (itemOf st dst) job.dstDir item.name = some i := by
          obtain ⟨-, -, -, hused, -, -⟩ := itemUnder_some hunder
          rw [hitem'] at hsame
          exact h.fileUnder_start hdst hi hsame.symm hused rfl hname
        rw [itemUnder, hfound, bind_some, ← hsame, hitem', hunder]
        rfl
      -- the name would match the whole pattern
      refine absurd ?_ hnot
      obtain ⟨item₂, hitem₂, hfile₂, hp₂, -⟩ := GlobJob.mem_picked.mp hk
      rw [hitem] at hitem₂
      cases hitem₂
      obtain ⟨found, hfound, -, -, hfoundName⟩ := fileUnder_some hxi
      rw [hitem'] at hfound
      cases hfound
      rw [hx] at hx'
      cases hx'
      refine ⟨item, hitem, hfile₂, hp₂, ?_⟩
      rwa [← hname, ← hxname.symm.trans hfoundName.symm]
  · intro hright
    refine ⟨?_, fun q i => ?_⟩
    · rintro ⟨k, dir, name⟩ ⟨hk, rfl, item, hitem, rfl⟩
      obtain ⟨item', i, hunder, -, -, hi, hitem'⟩ := harrived item.name
        (hnames k (GlobJob.selected_picked hst hsrc hk) item hitem)
      rw [hright.first k hk item hitem] at hunder
      cases hunder
      exact ⟨i, item, hi, hitem, hitem'⟩
    rcases h.others q i with hsame | ⟨hq, n, hn, hi, hold⟩
    · exact .inl hsame
    rw [hdst] at hq
    cases hq
    obtain ⟨k, hk, rfl⟩ := mem_map.mp hn
    obtain ⟨item, hitem, hfile, hp, -⟩ := GlobJob.mem_picked.mp hk
    rw [itemOf_name hitem] at hn hi hold
    by_cases hsel : k ∈ job.selected st
    · exact .inr ⟨rfl, ⟨k, job.dstDir, item.name⟩, ⟨hsel, rfl, item, hitem, rfl⟩, hi, hold⟩
    left
    obtain ⟨item', i', hunder, -, -, hi', hitem'⟩ := harrived item.name hn
    rw [hi] at hi'
    cases hi'
    have hthere := hright.there k hk hsel item dst hitem hdst
    rw [hunder, map_some] at hthere
    obtain ⟨j, hj, hjitem, -⟩ := itemUnder_some hthere
    have hj' := h.kept dst item.name j hdst hj
    rw [hi] at hj'
    cases hj'
    rw [hitem', hjitem]

lemma loadedSize_le_iff (size : UInt32) :
    (if asmSourceSize < size.toNat then 0 else size.toNat) ≤ copyBufferSize ↔ ¬ Overruns size := by
  rw [Overruns]
  split_ifs with h <;> omega

/-- A copy with this result stays inside the buffer and does what its paths say. -/
def CopiesRight (sh : Session) (srcPath dstPath : List UInt8) (r : CopyResult) : Prop :=
  (∀ n ∈ r.loaded, n ≤ copyBufferSize) ∧ (r.status = 0 → Faithful sh srcPath dstPath r.session.fs)

lemma copy_single_iff (hst : Validated sh.fs) (hstar : star ∉ srcPath) :
    CopiesRight sh srcPath dstPath (shellApiCopyFile sh srcPath dstPath) ↔
      Copyable sh srcPath dstPath := by
  rw [CopiesRight, Copyable, if_neg hstar, Faithful, if_neg hstar]
  rcases copyFile_single hst hstar dstPath with
    ⟨hjob, hstatus, hloaded⟩ | ⟨job, item, hjob, hitem, hloaded, hdel⟩
  · refine iff_of_true ⟨fun n hn => ?_, fun h0 => absurd h0 hstatus⟩ fun job hjob' => ?_
    · rw [hloaded n hn]
      exact Nat.zero_le _
    · rw [hjob] at hjob'
      cases hjob'
  rw [hloaded, forall_mem_singleton, loadedSize_le_iff]
  constructor
  · rintro ⟨hsize, -⟩ job' hjob' item' hitem'
    rw [hjob] at hjob'
    cases hjob'
    rw [hitem] at hitem'
    cases hitem'
    exact hsize
  · intro h
    refine ⟨h job hjob item hitem, fun h0 => ?_⟩
    obtain ⟨dst, hdst, hdelivered⟩ := hdel h0
    exact ⟨job, dst, hjob, hdst, hdelivered⟩

lemma copy_glob_iff (hst : Validated sh.fs) (hstar : star ∈ srcPath) :
    CopiesRight sh srcPath dstPath (shellApiCopyFile sh srcPath dstPath) ↔
      Copyable sh srcPath dstPath := by
  rw [CopiesRight, Copyable, if_pos hstar, Faithful, if_pos hstar, shellApiCopyFile, if_pos hstar]
  rcases copyGlob_run hst srcPath dstPath with
    ⟨hjob, hstatus, hloaded⟩ | ⟨job, srcDrive, hjob, hsrc, hloaded, hrun⟩
  · refine iff_of_true ⟨fun n hn => ?_, fun h0 => absurd h0 hstatus⟩ fun job hjob' => ?_
    · rw [hloaded] at hn
      cases hn
    · rw [hjob] at hjob'
      cases hjob'
  have hall : (∀ job', sh.globJob srcPath dstPath = some job' → job'.Copyable sh.fs) ↔
      job.Copyable sh.fs := by
    refine ⟨fun h => h job hjob, fun h job' hjob' => ?_⟩
    rw [hjob] at hjob'
    cases hjob'
    exact h
  rw [hall, hloaded, copyRun_loaded_le]
  have hfiles : job.files sh.fs ≠ [] ↔ (job.picked sh.fs).length ≠ 0 := by
    rw [GlobJob.files, ne_eq, map_eq_nil_iff, ← length_eq_zero_iff]
  rcases hrun with ⟨hfail, hstatus⟩ | ⟨d', hsome, hstatus, hprogress⟩
  · -- the copy stops at a file
    refine ⟨fun h => ⟨h.1, fun _ hsizes htakes => ?_⟩, fun h => ⟨h.fits, fun h0 => absurd h0 hstatus⟩⟩
    obtain ⟨d', hd'⟩ := Option.isSome_iff_exists.mp htakes
    have := copyRun_eq_some.mpr ⟨hsizes, hd'⟩
    rw [hfail] at this
    cases this
  obtain ⟨hsizes, htakes⟩ := copyRun_eq_some.mp hsome
  by_cases hnone : (job.picked sh.fs).length = 0
  · -- nothing matches
    rw [if_pos hnone] at hstatus
    refine ⟨fun h => ⟨h.1, fun hne => absurd hnone (hfiles.mp hne)⟩,
      fun h => ⟨h.fits, fun h0 => ?_⟩⟩
    rw [hstatus] at h0
    cases h0
  rw [if_neg hnone] at hstatus
  obtain ⟨k, hk⟩ := exists_mem_of_length_pos (Nat.pos_of_ne_zero hnone)
  obtain ⟨dst, -, hdst, -⟩ := hprogress.arrived _ (mem_map_of_mem hk)
  have hiff := hprogress.delivered_iff hst hsrc hdst
  constructor
  · rintro ⟨hfits, hfaithful⟩
    refine ⟨hfits, fun _ _ _ => hiff.mp ?_⟩
    obtain ⟨job', dst', hjob', hdst', hdel⟩ := hfaithful hstatus
    rw [hjob] at hjob'
    cases hjob'
    rw [hdst] at hdst'
    cases hdst'
    exact hdel
  · intro h
    refine ⟨h.fits, fun _ => ⟨job, dst, hjob, hdst, hiff.mpr ?_⟩⟩
    exact h.right (hfiles.mpr hnone) hsizes (Option.isSome_iff_exists.mpr ⟨d', htakes⟩)

/-- A copy stays inside its buffer and does what its paths say under the condition, and only then. -/
theorem copy_faithful_iff {Heap : Type} {kmalloc : Heap → ℕ → Option UInt64 × Heap}
    {w : WorkBuffers} (hw : Allocated kmalloc w) (hready : w.ready = true) (hst : Validated sh.fs)
    (srcPath dstPath : List UInt8) :
    (InsideBuffer w (shellApiCopyFile sh srcPath dstPath).loaded ∧
      ((shellApiCopyFile sh srcPath dstPath).status = 0 →
        Faithful sh srcPath dstPath (shellApiCopyFile sh srcPath dstPath).session.fs)) ↔
      Copyable sh srcPath dstPath := by
  rw [insideBuffer_iff hw hready]
  by_cases hstar : star ∈ srcPath
  · exact copy_glob_iff hst hstar
  · exact copy_single_iff hst hstar

end

/-! ### Examples -/

/-- A heap that hands out one block after the other. -/
def bumpAlloc (next size : ℕ) : Option UInt64 × ℕ := (some (UInt64.ofNat next), next + size)

def bumpBuffers : WorkBuffers := (shellAllocWorkBuffers bumpAlloc WorkBuffers.null 0x100000).1

/-- A file `a` of the given size at the start of the data area. -/
def loneFile (size : UInt32) : Dirent :=
  fileEntry (claimedEntry rootDir) nameA.bytes size [⟨257, requiredBlocks size⟩]

/-- Drive C with that file on it and nothing else. -/
def loneSession (size : UInt32) : Session :=
  { fs := bufferedVolume 6000 (single (loneFile size)) true
    present := fun _ => false
    dirIds := fun _ => rootDir
    drive := some ⟨2, by decide⟩ }

section

variable {size : UInt32} (hsize : size.toNat ≤ fileCapacity.toNat)
  (hblocks : 257 + (requiredBlocks size).toNat ≤ 6000)
include hsize

lemma loneFile_holdsFile :
    HoldsFile (loneFile size) rootDir nameA.bytes size [⟨257, requiredBlocks size⟩] := by
  have hne : requiredBlocks size ≠ 0 := by
    rw [requiredBlocks]
    split_ifs with h
    · decide
    · exact h
  exact fileEntry_holdsFile rfl (parentId_setParent _ _) (by decide) nameA.nonzero hsize
    (by simp) (by simp) (by simpa using hne) (by simp [blockSum])

include hblocks

lemma lone_validated : Validated (loneSession size).fs ∧
    heldTable (loneSession size).fs 0 = .ok (checkedFormatSuper, single (loneFile size)) := by
  have hl : ¬ layoutIsBad formatSuper 6000 := by decide
  refine buffered_validated (by decide) hl (validate_eq_none.mpr ?_)
  exact setFile_sound (sound_empty hl) rfl (by decide) (loneFile_holdsFile hsize) hsize
    (extents_singleton (le_refl 257) hblocks) fun j _ hj => (by cases hj)

omit hsize hblocks in
lemma lone_eq_zero (h : (single (loneFile size) k).used ≠ 0) : k = 0 := by
  by_contra hk
  rw [single, set_of_ne _ _ hk] at h
  exact h rfl

lemma lone_item : ∃ item, itemOf (loneSession size).fs 0 0 = some item ∧
    item.used = entryFile ∧ item.parent = rootDir ∧ item.name = nameA.bytes := by
  obtain ⟨-, hheld⟩ := lone_validated hsize hblocks
  have he := loneFile_holdsFile hsize
  have hself : single (loneFile size) 0 = loneFile size := set_self _ _ _
  rw [itemOf_eq hheld]
  refine ⟨_, itemAt_eq_some.mpr ⟨by rw [hself, he.used]; decide, rfl⟩, ?_⟩
  exact ⟨he.used, he.parent, he.named⟩

/-- There is no other file. -/
lemma size_of_item (h : itemOf (loneSession size).fs 0 k = some item) : item.size = size := by
  obtain ⟨-, hheld⟩ := lone_validated hsize hblocks
  rw [itemOf_eq hheld] at h
  obtain ⟨hused, rfl⟩ := itemAt_eq_some.mp h
  obtain rfl := lone_eq_zero hused
  exact (loneFile_holdsFile hsize).byteSize

/-- The copy of `a` to `b` has something to do. -/
lemma exists_fileJob : ∃ job,
    (loneSession size).fileJob nameA.bytes nameB.bytes = some job ∧ job.srcVol = 0 := by
  obtain ⟨hst, hheld⟩ := lone_validated hsize hblocks
  obtain ⟨item, hitem, hu, hp, hn⟩ := lone_item hsize hblocks
  have hplace : ∀ name : CString, pathParts (name.bytes.dropWhile isSpace) = [name] →
      drivePart name.bytes ⟨2, by decide⟩ = (⟨2, by decide⟩, name.bytes) →
      startDir rootDir (name.bytes.dropWhile isSpace) = rootDir →
      name.bytes.dropWhile isSpace ≠ [] → partFits nameSize name.bytes = true →
      (loneSession size).place name.bytes ⟨2, by decide⟩ = some (⟨2, by decide⟩, rootDir, name) := by
    intro name hparts hdrive hstart hne hfits
    simp only [place, hdrive, filePlace, hparts, hne, if_false]
    have hmounted : (loneSession size).Accessible ⟨2, by decide⟩ := .inr rfl
    have hdir : (loneSession size).workingDir ⟨2, by decide⟩ = rootDir := rfl
    rw [if_pos hmounted, hdir, hstart, fileIn, if_pos hfits]
    rfl
  have hfile : fileNamed (loneSession size).fs 0 rootDir nameA.bytes = some 0 := by
    rw [fileNamed, if_pos ⟨by decide, rfl⟩]
    refine fileUnder_self (fun k hk => ?_) hitem (by rw [hu]; decide) hp hn
      fun k _ => itemOf_eq hheld k
    exact lone_eq_zero (findEntry_eq_some hk).1
  have hletter : driveLetter ⟨2, by decide⟩ = 0x43 := rfl
  have hm : mountForDrive (loneSession size).fs 0x43 = some 0 := rfl
  have hdrive : (loneSession size).drive = some ⟨2, by decide⟩ := rfl
  simp only [fileJob, hdrive, hplace nameA (by decide) rfl rfl (by decide) rfl,
    hplace nameB (by decide) rfl rfl (by decide) rfl, hletter, hm, hfile, bind_eq_bind,
    bind_some]
  exact ⟨_, rfl, rfl⟩

end

lemma bump_allocated : Allocated bumpAlloc bumpBuffers ∧ bumpBuffers.ready = true :=
  ⟨Allocated.call _ Allocated.null, rfl⟩

/-- A file of five bytes is copied. -/
theorem copy_lone_file_faithful :
    (shellApiCopyFile (loneSession 5) nameA.bytes nameB.bytes).status = 0 ∧
      InsideBuffer bumpBuffers (shellApiCopyFile (loneSession 5) nameA.bytes nameB.bytes).loaded ∧
      Faithful (loneSession 5) nameA.bytes nameB.bytes
        (shellApiCopyFile (loneSession 5) nameA.bytes nameB.bytes).session.fs := by
  have hsize : (5 : UInt32).toNat ≤ fileCapacity.toNat := by decide
  have hblocks : 257 + (requiredBlocks 5).toNat ≤ 6000 := by decide
  have hstatus : (shellApiCopyFile (loneSession 5) nameA.bytes nameB.bytes).status = 0 := by
    decide +kernel
  suffices h : _ from And.intro hstatus (And.imp_right (· hstatus)
    ((copy_faithful_iff bump_allocated.1 bump_allocated.2 (lone_validated hsize hblocks).1
      nameA.bytes nameB.bytes).mpr h))
  intro job hjob item hitem hover
  obtain ⟨job', hjob', hvol⟩ := exists_fileJob hsize hblocks
  rw [hjob] at hjob'
  cases hjob'
  rw [hvol] at hitem
  rw [size_of_item hsize hblocks hitem] at hover
  exact absurd hover.1 (by decide)

/-- One byte more than the buffer has is loaded into it. -/
theorem copy_overruns_buffer :
    Allocated bumpAlloc bumpBuffers ∧ bumpBuffers.ready = true ∧
      Validated (loneSession 2097157).fs ∧
      (shellApiCopyFile (loneSession 2097157) nameA.bytes nameB.bytes).loaded = [2097157] ∧
      ¬ InsideBuffer bumpBuffers
        (shellApiCopyFile (loneSession 2097157) nameA.bytes nameB.bytes).loaded := by
  have hsize : (2097157 : UInt32).toNat ≤ fileCapacity.toNat := by decide
  have hblocks : 257 + (requiredBlocks 2097157).toNat ≤ 6000 := by decide
  have hst := (lone_validated hsize hblocks).1
  obtain ⟨job', hjob', hvol⟩ := exists_fileJob hsize hblocks
  have hloaded : (shellApiCopyFile (loneSession 2097157) nameA.bytes nameB.bytes).loaded =
      [2097157] := by
    rcases copyFile_single hst (by decide : star ∉ nameA.bytes) nameB.bytes with
      ⟨hjob, -⟩ | ⟨job, item, hjob, hitem, hloaded, -⟩
    · rw [hjob'] at hjob
      cases hjob
    rw [hjob'] at hjob
    cases hjob
    rw [hvol] at hitem
    rw [hloaded, size_of_item hsize hblocks hitem]
    rfl
  refine ⟨bump_allocated.1, bump_allocated.2, hst, hloaded, fun hinside => ?_⟩
  rw [hloaded, insideBuffer_iff bump_allocated.1 bump_allocated.2] at hinside
  exact absurd (hinside 2097157 mem_cons_self) (by decide)

end Shell
