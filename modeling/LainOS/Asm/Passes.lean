import LainOS.Asm.Agree

/-!
# The two passes

The passes agree on every instruction and every line, so that they reach each line at the same offset,
and a label has the offset at which the emitting pass reaches its line.
-/

namespace Asm

open TwoPass ZObject List

variable {s s' t t' : Out Relocation} {offset : UInt32} {source : List UInt8}
  {exportNames : List Text} {a : Assembled} {ctx₀ ctx : Context} (labels labels' : List Label)

/-! ### Data -/

lemma alike_dbItems (fuel : ℕ) (s : Text) : Alike ctx₀ ctx (emitDbItems · · fuel s) := by
  induction fuel generalizing s with
  | zero => exact .fail_left
  | succ fuel ih =>
    simp only [Alike, emitDbItems]
    refine .ite (.pure () ()) ?_
    cases dbItem s with
    | none => exact .fail_left
    | some item => exact (agree_bytes rfl).bind fun _ _ => ih _

lemma agree_dqItems (fuel : ℕ) (s : Text) :
    Abreast (Grew ctx) (emitDqItems ctx₀ false labels fuel s) (emitDqItems ctx true labels' fuel s) := by
  induction fuel generalizing s with
  | zero => exact .fail_left
  | succ fuel ih =>
    simp only [emitDqItems]
    refine Abreast.ite (Abreast.pure () ()) (Abreast.guard ?_)
    refine (Abreast.lift _ _).bind fun _ _ => ?_
    exact (agree_emitU64 _ _).bind fun _ _ => ih _

/-! ### Instructions -/

lemma alike_ret (args : Text) : Alike ctx₀ ctx (assembleRet · · args) := by
  refine Abreast.ite (agree_byte _ _) ((Abreast.lift _ _).bind fun _ _ => Abreast.guard ?_)
  exact (agree_byte _ _).bind fun _ _ => agree_emitU16 _ _

lemma alike_int (args : Text) : Alike ctx₀ ctx (assembleInt · · args) :=
  (Abreast.lift _ _).bind fun _ _ => Abreast.guard (agree_bytes rfl)

lemma agree_movMem (dst : Mem) (src : Text) :
    Abreast (Grew ctx) (assembleMovMem ctx₀ false labels dst src)
      (assembleMovMem ctx true labels' dst src) := by
  rw [assembleMovMem, assembleMovMem]
  cases register src with
  | some src =>
    cases dst with
    | label label bits => exact agree_movMemLabelReg _ _ _ _
    | base base displacement bits => exact alike_movMemBaseReg _ _ _ _
  | none =>
    refine (Abreast.lift _ _).bind fun _ _ => ?_
    cases dst with
    | label label bits => exact agree_movMemLabelImm _ _ _ _ _ _
    | base base displacement bits => exact agree_movMemBaseImm _ _ _ _ _

lemma relocFits_movReloc (src : Text) : RelocFits ctx 8 (movReloc ctx labels src) := by
  rintro type name h
  rw [movReloc] at h
  split_ifs at h with hext hlabel
  all_goals
    obtain ⟨rfl, rfl⟩ := Prod.mk.inj (Option.some.inj h)
    refine ⟨rfl, fun n hn => ?_⟩
    cases hn
  exact hext

lemma agree_movImm (dst : Reg) (src : Text) :
    Abreast (Grew ctx) (assembleMovImm ctx₀ false labels dst src)
      (assembleMovImm ctx true labels' dst src) := by
  refine (Abreast.lift _ _).bind fun _ _ => Abreast.ite ?_ (Abreast.guard ?_)
  · exact agree_movImm64 _ _ _ (relocFits_movReloc _ _)
  · refine (alike_rex _ _ _).bind fun _ _ => ?_
    exact (agree_byte _ _).bind fun _ _ => agree_emitU32 _ _

lemma agree_movReg (dst : Reg) (src : Text) :
    Abreast (Grew ctx) (assembleMovReg ctx₀ false labels dst src)
      (assembleMovReg ctx true labels' dst src) := by
  rw [assembleMovReg, assembleMovReg]
  split
  next => exact alike_regRegOp _ _ _ _
  next => exact agree_movRegMemLabel _ _ _ _
  next => exact alike_movRegMemBase _ _ _ _
  next => exact agree_movImm _ _ _ _

lemma agree_mov (args : Text) :
    Abreast (Grew ctx) (assembleMov ctx₀ false labels args) (assembleMov ctx true labels' args) := by
  refine .option fun (dst, src) => ?_
  simp only
  cases parseMemoryOperand dst with
  | some mem => exact agree_movMem _ _ _ _
  | none => exact .option fun dst => agree_movReg _ _ _ _

lemma agree_extending (k : Extending) (args : Text) :
    Abreast (Grew ctx) (assembleExtending ctx₀ false labels k args)
      (assembleExtending ctx true labels' k args) := by
  refine .option fun (dst, src) => ?_
  refine .option fun dst => ?_
  refine .option fun mem => ?_
  exact .option fun (w, opcode) => agree_extendingLoad _ _ _ _ _ _

lemma agree_imulImm (dst src : Reg) (imm : Text) :
    Abreast (Grew ctx) (emitImulImm ctx₀ false labels dst src imm)
      (emitImulImm ctx true labels' dst src imm) := by
  refine (Abreast.lift _ _).bind fun _ _ => Abreast.guard ?_
  refine (alike_rex _ _ _).bind fun _ _ => ?_
  refine (agree_byte _ _).bind fun _ _ => ?_
  exact (alike_modrmReg _ _).bind fun _ _ => agree_emitU32 _ _

lemma agree_imul (args : Text) :
    Abreast (Grew ctx) (assembleImul ctx₀ false labels args) (assembleImul ctx true labels' args) := by
  rw [assembleImul, assembleImul]
  split
  next =>
    refine .option fun dst => ?_
    exact .option fun src => .guard (agree_imulImm _ _ _ _ _)
  next =>
    refine .option fun (dst, src) => ?_
    refine .option fun dst => ?_
    cases register src with
    | some src => exact alike_regRegTwoByteOp _ _ _ _
    | none => exact agree_imulImm _ _ _ _ _

lemma agree_arithImm (k : Arith) (dst : Reg) (src : Text) :
    Abreast (Grew ctx) (assembleArithImm ctx₀ false labels k dst src)
      (assembleArithImm ctx true labels' k dst src) := by
  refine (Abreast.lift _ _).bind fun _ _ => Abreast.ite (Abreast.guard ?_) (agree_group1Imm32 _ _ _ _ _)
  exact (alike_group _ _ _ _).bind fun _ _ => agree_emitU32 _ _

lemma agree_arith (k : Arith) (args : Text) :
    Abreast (Grew ctx) (assembleArith ctx₀ false labels k args)
      (assembleArith ctx true labels' k args) := by
  refine .option fun (dst, src) => ?_
  refine .option fun dst => ?_
  split
  next => exact alike_regRegOp _ _ _ _
  next => exact agree_regMemLabelOp _ _ _ _ _
  next => exact agree_arithImm _ _ _ _ _

lemma alike_unary (opcode : UInt8) (group : ℕ) (args : Text) :
    Alike ctx₀ ctx (assembleUnary · · opcode group args) :=
  Abreast.option fun _ => alike_group _ _ _ _

lemma alike_idiv (args : Text) : Alike ctx₀ ctx (assembleIdiv · · args) :=
  Abreast.option fun _ => .guard (alike_group _ _ _ _)

lemma agree_shift (k : Shift) (args : Text) :
    Abreast (Grew ctx) (assembleShift ctx₀ false labels k args)
      (assembleShift ctx true labels' k args) := by
  refine .option fun (dst, src) => ?_
  refine .option fun dst => ?_
  cases register src with
  | some src => exact .guard (alike_group _ _ _ _)
  | none =>
    refine (Abreast.lift _ _).bind fun _ _ => Abreast.guard ?_
    exact (alike_group _ _ _ _).bind fun _ _ => agree_byte _ _

lemma alike_pushPop (opcode : ℕ) (args : Text) :
    Alike ctx₀ ctx (assemblePushPop · · opcode args) := by
  refine .option fun reg => .guard ?_
  exact (alike_rex _ _ _).bind fun _ _ => agree_byte _ _

/-- The instruction goes to a name of which one of the contexts loads the address and the other one
does not. -/
def Unlike (ctx₀ ctx : Context) (args : Text) (k : Mnemonic) : Prop :=
  (k = .call ∨ k = .jmp) ∧ register args = none ∧ ctx₀.isFar args ≠ ctx.isFar args

lemma not_unlike_self (ctx : Context) (args : Text) (k : Mnemonic) : ¬ Unlike ctx ctx args k :=
  fun h => h.2.2 rfl

/-- One case for each kind of instruction. -/
lemma agree_mnemonic {args : Text} {k : Mnemonic} (h : ¬ Unlike ctx₀ ctx args k) :
    Abreast (Grew ctx) (assembleMnemonic ctx₀ false labels args k)
      (assembleMnemonic ctx true labels' args k) := by
  have hfar : k = .call ∨ k = .jmp → register args = none → ctx₀.isFar args = ctx.isFar args :=
    fun hk hregister => by_contra fun hne => h ⟨hk, hregister, hne⟩
  cases k with
  | fixed bytes => exact agree_bytes rfl
  | ret => exact alike_ret _
  | int => exact alike_int _
  | db => exact alike_dbItems _ _
  | dq => exact agree_dqItems _ _ _ _
  | bits => exact .ite (.pure () ()) Abreast.fail_left
  | default => exact .ite (.pure () ()) Abreast.fail_left
  | ignored => exact .pure () ()
  | mov => exact agree_mov _ _ _
  | extending k => exact agree_extending _ _ _ _
  | imul => exact agree_imul _ _ _
  | arith k => exact agree_arith _ _ _ _
  | inc => exact alike_unary _ _ _
  | dec => exact alike_unary _ _ _
  | idiv => exact alike_idiv _
  | not => exact alike_unary _ _ _
  | shift k => exact agree_shift _ _ _ _
  | push => exact alike_pushPop _ _
  | pop => exact alike_pushPop _ _
  | call => exact agree_target _ _ (hfar (.inl rfl)) _ _
  | jmp => exact agree_target _ _ (hfar (.inr rfl)) _ _
  | jcc opcode => exact agree_relative labels labels' _ _

lemma agree_instruction (line : Text) :
    Abreast (Grew ctx) (assembleInstruction ctx false labels line)
      (assembleInstruction ctx true labels' line) :=
  Abreast.option fun _ => agree_mnemonic _ _ (not_unlike_self _ _ _)

/-! ### Lines -/

variable {line name : Text} {labels labels' : List Label}

/-- In the measuring pass a line adds its labels with the offset it begins at. -/
lemma assembleLine_measuring (h : assembleLine ctx false labels line s = some (labels', s')) :
    addLabels s.offset labels (readLine line).labels = some labels' ∧
      ((readLine line).instruction.elim (pure ()) (assembleInstruction ctx false labels')) s =
        some ((), s') := by
  obtain ⟨labels₁, s₁, h₁, h₂⟩ := bind_eq_some.mp h
  obtain ⟨_, s₂, hoffset, hadd⟩ := bind_eq_some.mp h₁
  obtain ⟨rfl, rfl⟩ := offset_eq_some.mp hoffset
  obtain ⟨hadded, rfl⟩ := lift_eq_some.mp hadd
  obtain ⟨_, s₃, hrun, hpure⟩ := bind_eq_some.mp h₂
  obtain ⟨rfl, rfl⟩ := pure_eq_some.mp hpure
  exact ⟨hadded, hrun⟩

lemma assembleLine_emitting (h : assembleLine ctx true labels line t = some (labels', t')) :
    labels' = labels ∧
      ((readLine line).instruction.elim (pure ()) (assembleInstruction ctx true labels)) t =
        some ((), t') := by
  obtain ⟨labels₁, t₁, h₁, h₂⟩ := bind_eq_some.mp h
  obtain ⟨rfl, rfl⟩ := pure_eq_some.mp h₁
  obtain ⟨_, t₂, hrun, hpure⟩ := bind_eq_some.mp h₂
  obtain ⟨rfl, rfl⟩ := pure_eq_some.mp hpure
  exact ⟨rfl, hrun⟩

lemma agree_line {known known' : List Label} (ho : s.offset = t.offset)
    (hm : assembleLine ctx false labels line s = some (labels', s'))
    (he : assembleLine ctx true known line t = some (known', t')) :
    s'.offset = t'.offset ∧ Grew ctx t t' := by
  obtain ⟨-, hm⟩ := assembleLine_measuring hm
  obtain ⟨-, he⟩ := assembleLine_emitting he
  cases hinstruction : (readLine line).instruction with
  | none =>
    rw [hinstruction] at hm he
    exact (Abreast.pure () ()).agree ho hm he
  | some instruction =>
    rw [hinstruction] at hm he
    exact (agree_instruction _ _ _).agree ho hm he

/-! ### Labels -/

/-- No name is defined twice. -/
def Distinct (labels : List Label) : Prop := (labels.map (·.name)).Nodup

lemma findLabel_eq_none : findLabel labels name = none ↔ name ∉ labels.map (·.name) := by
  simp [findLabel]

lemma findLabel_of_mem {l : Label} (hdistinct : Distinct labels)
    (h : l ∈ labels) : findLabel labels l.name = some l.offset := by
  induction labels with
  | nil => cases h
  | cons l' labels ih =>
    obtain ⟨hnotMem, hrest⟩ := nodup_cons.mp hdistinct
    rcases mem_cons.mp h with rfl | hmem
    · simp [findLabel]
    · have hne : l'.name ≠ l.name := fun heq => hnotMem (mem_map.mpr ⟨l, hmem, heq.symm⟩)
      rw [← ih hrest hmem, findLabel, find?_cons_of_neg (by simpa using hne), findLabel]

lemma addLabel_eq_some (h : addLabel labels name offset = some labels') :
    labels' = labels ++ [⟨name, offset⟩] ∧ (Distinct labels → Distinct labels') := by
  rw [addLabel] at h
  split_ifs at h with hempty hknown hmany hlong
  cases h
  refine ⟨rfl, fun hdistinct => ?_⟩
  have hnew : name ∉ labels.map (·.name) := by
    rw [← findLabel_eq_none]
    simpa using hknown
  simpa [Distinct, nodup_append, hnew] using ⟨hdistinct, by simpa using hnew⟩

lemma addLabels_eq_some {names : List Text} (h : addLabels offset labels names = some labels') :
    labels' = labels ++ names.map (⟨·, offset⟩) ∧ (Distinct labels → Distinct labels') := by
  induction names generalizing labels with
  | nil =>
    cases h
    exact ⟨by simp, id⟩
  | cons name names ih =>
    rw [addLabels, foldlM_cons] at h
    obtain ⟨labels₁, h₁, h₂⟩ := Option.bind_eq_some_iff.mp h
    obtain ⟨rfl, hdistinct₁⟩ := addLabel_eq_some h₁
    obtain ⟨rfl, hdistinct⟩ := ih h₂
    exact ⟨by simp, hdistinct ∘ hdistinct₁⟩

/-! ### Passes -/

/-- The states in which a pass reaches the lines, and the last one. -/
def reached (ctx : Context) (emit : Bool) : List Text → PassState → List PassState
  | [], st => [st]
  | line :: lines, st =>
    st :: (assembleLine ctx emit st.labels line st.out).elim [] fun (labels, out) =>
      reached ctx emit lines ⟨labels, out⟩

variable {emit : Bool} {n : ℕ} {lines : List Text} {st st' e e' m m' : PassState}

lemma pass_cons_eq_ok (h : pass ctx emit n (line :: lines) st = .ok st') :
    ∃ st₁, assembleLine ctx emit st.labels line st.out = some (st₁.labels, st₁.out) ∧
      pass ctx emit (n + 1) lines st₁ = .ok st' ∧
      reached ctx emit (line :: lines) st = st :: reached ctx emit lines st₁ := by
  rw [pass] at h
  cases hline : assembleLine ctx emit st.labels line st.out with
  | none =>
    rw [hline] at h
    cases h
  | some p =>
    rw [hline] at h
    exact ⟨⟨p.1, p.2⟩, rfl, h, by simp [reached, hline]⟩

lemma reached_head (emit : Bool) (lines : List Text) (st : PassState) :
    ∃ rest, reached ctx emit lines st = st :: rest := by
  cases lines with
  | nil => exact ⟨[], rfl⟩
  | cons line lines => exact ⟨_, rfl⟩

section

variable (h : pass ctx emit n lines st = .ok st')
include h

lemma getLast?_reached : (reached ctx emit lines st).getLast? = some st' := by
  induction lines generalizing n st with
  | nil =>
    cases h
    rfl
  | cons line lines ih =>
    obtain ⟨st₁, -, hrest, hreached⟩ := pass_cons_eq_ok h
    obtain ⟨rest, hhead⟩ : ∃ rest, reached ctx emit lines st₁ = st₁ :: rest :=
      reached_head emit lines st₁
    rw [hreached, ← ih hrest, hhead, getLast?_cons_cons]

lemma length_reached : (reached ctx emit lines st).length = lines.length + 1 := by
  induction lines generalizing n st with
  | nil => rfl
  | cons line lines ih =>
    obtain ⟨st₁, -, hrest, hreached⟩ := pass_cons_eq_ok h
    rw [hreached, length_cons, ih hrest, length_cons]

/-- Each line takes the pass from the state it is reached in to the next one. -/
lemma reached_step {i : ℕ} (hline : lines[i]? = some line)
    (he : (reached ctx emit lines st)[i]? = some e)
    (he' : (reached ctx emit lines st)[i + 1]? = some e') :
    assembleLine ctx emit e.labels line e.out = some (e'.labels, e'.out) := by
  induction lines generalizing n st i with
  | nil => cases hline
  | cons first lines ih =>
    obtain ⟨st₁, hfirst, hrest, hreached⟩ := pass_cons_eq_ok h
    rw [hreached, getElem?_cons_succ] at he'
    cases i with
    | zero =>
      obtain ⟨rest, hhead⟩ : ∃ rest, reached ctx emit lines st₁ = st₁ :: rest :=
        reached_head emit lines st₁
      rw [hhead] at he'
      rw [hreached] at he
      cases hline
      cases he
      cases he'
      exact hfirst
    | succ i =>
      rw [hreached, getElem?_cons_succ] at he
      exact ih hrest hline he he'

end

/-- The measuring pass `m` and the emitting pass `e` are at the same place. -/
def Level (m e : PassState) : Prop :=
  m.out.offset = e.out.offset ∧ e.out.bytes.length = e.out.offset.toNat

lemma level_step (h : Level m e)
    (hm : assembleLine ctx false m.labels line m.out = some (m'.labels, m'.out))
    (he : assembleLine ctx true e.labels line e.out = some (e'.labels, e'.out)) : Level m' e' := by
  obtain ⟨hoffset, hgrew⟩ := agree_line h.1 hm he
  obtain ⟨new, hbytes, hlength⟩ := hgrew.bytes
  exact ⟨hoffset, by rw [hbytes, length_append, h.2, hlength]⟩

/-- The passes reach every line at the same place. -/
lemma level_reached {n' : ℕ} (h : Level m e)
    (hm : pass ctx false n lines m = .ok m') (he : pass ctx true n' lines e = .ok e') :
    List.Forall₂ Level (reached ctx false lines m) (reached ctx true lines e) := by
  induction lines generalizing n n' m e with
  | nil => exact .cons h .nil
  | cons line lines ih =>
    obtain ⟨m₁, hmline, hmrest, hmreached⟩ := pass_cons_eq_ok hm
    obtain ⟨e₁, heline, herest, hereached⟩ := pass_cons_eq_ok he
    rw [hmreached, hereached]
    exact .cons h (ih (level_step h hmline heline) hmrest herest)

/-- The labels of a line are in the final table, with the offset at which the measuring pass reached
the line. -/
lemma pass_labels (h : pass ctx false n lines m = .ok m') :
    m.labels ⊆ m'.labels ∧ (Distinct m.labels → Distinct m'.labels) ∧
      ∀ (i : ℕ) (line : Text) (st : PassState), lines[i]? = some line →
        (reached ctx false lines m)[i]? = some st →
        ∀ name ∈ (readLine line).labels, ⟨name, st.out.offset⟩ ∈ m'.labels := by
  induction lines generalizing n m with
  | nil =>
    cases h
    exact ⟨.refl _, id, fun i line st hline => nomatch hline⟩
  | cons first lines ih =>
    obtain ⟨m₁, hfirst, hrest, hreached⟩ := pass_cons_eq_ok h
    obtain ⟨hlabels, hdistinct₁⟩ := addLabels_eq_some (assembleLine_measuring hfirst).1
    obtain ⟨hsubset, hdistinct, hmem⟩ := ih hrest
    refine ⟨?_, hdistinct ∘ hdistinct₁, fun i line st hline hst name hname => ?_⟩
    · exact List.Subset.trans (hlabels ▸ subset_append_left _ _) hsubset
    rw [hreached] at hst
    cases i with
    | zero =>
      cases hline
      cases hst
      apply hsubset
      rw [hlabels]
      exact mem_append_right _ (mem_map_of_mem hname)
    | succ i => exact hmem i line st hline hst name hname

/-! ### Assembling -/

lemma assemble_eq_ok (h : assembleSource ctx source exportNames = .ok a) :
    ∃ measured emitted, pass ctx false 0 (sourceLines source) ⟨[], .empty⟩ = .ok measured ∧
      exportNames.mapM (ctx.value a.labels) = some a.exportValues ∧
      pass ctx true 0 (sourceLines source) ⟨a.labels, .empty⟩ = .ok emitted ∧
      measured.labels = a.labels ∧ emitted.out = a.out := by
  rw [assembleSource] at h
  split_ifs at h
  rcases hmeasured : pass ctx false 0 (sourceLines source) ⟨[], .empty⟩ with n | measured
  · rw [hmeasured] at h
    cases h
  rw [hmeasured] at h
  simp only [bind, Except.bind] at h
  split at h
  next => cases h
  next exportValues hexports =>
    cases hemitted : pass ctx true 0 (sourceLines source) ⟨measured.labels, .empty⟩ with
    | error n =>
      rw [hemitted] at h
      cases h
    | ok emitted =>
      rw [hemitted] at h
      cases h
      exact ⟨measured, emitted, rfl, hexports, hemitted, rfl, rfl⟩

lemma skipSpaces_takeWhile {p : UInt8 → Bool} (hp : ∀ ch, p ch → charIsSpace ch = false) (s : Text) :
    skipSpaces (s.takeWhile p) = s.takeWhile p := by
  cases s with
  | nil => rfl
  | cons ch s =>
    cases hch : p ch with
    | false => simp [takeWhile_cons_of_neg, hch, skipSpaces]
    | true => simp [takeWhile_cons_of_pos, hch, skipSpaces, hp ch hch]

/-- A label has no blanks. -/
lemma skipSpaces_of_mem_labels (h : name ∈ (readLine line).labels) : skipSpaces name = name := by
  have hstatement : ∀ before s, name ∈ (readStatement before s).labels →
      name ∈ before ∨ skipSpaces name = name := by
    intro before s hname
    rw [readStatement] at hname
    split_ifs at hname
    · exact .inl hname
    split at hname
    next => exact .inl hname
    next word rest hsplit =>
      split_ifs at hname
      · rcases mem_append.mp hname with hname | hname
        · exact .inl hname
        · obtain rfl := mem_singleton.mp hname
          rw [← (Prod.mk.inj hsplit).1]
          exact .inr (skipSpaces_takeWhile (by simp) _)
      · exact .inl hname
  simp only [readLine] at h
  split_ifs at h
  · rcases hstatement _ _ h with hmem | hname
    · obtain rfl := mem_singleton.mp hmem
      exact skipSpaces_takeWhile (by simp +contextual) _
    · exact hname
  · rcases hstatement _ _ h with hmem | hname
    · cases hmem
    · exact hname

/-- Every line puts out as many bytes as were counted for it. -/
def LinesAlike (measured emitted : List PassState) : Prop :=
  ∀ (i : ℕ) (m m' e e' : PassState), measured[i]? = some m → measured[i + 1]? = some m' →
    emitted[i]? = some e → emitted[i + 1]? = some e' →
    ∃ new, e'.out.bytes = e.out.bytes ++ new ∧ m'.out.offset.toNat = m.out.offset.toNat + new.length

/-- A label stands for the place at which the emitting pass reaches its line. A use of a label that
spells a number is read as the number. -/
def LabelsPlaced (ctx : Context) (labels : List Label) (lines : List Text)
    (emitted : List PassState) : Prop :=
  ∀ (i : ℕ) (line : Text) (e : PassState), lines[i]? = some line → emitted[i]? = some e →
    ∀ name ∈ (readLine line).labels,
      (findLabel labels name).map (·.toNat) = some e.out.bytes.length ∧
      (parseU64 name = none →
        ctx.value labels name = some (ctx.baseAddress + UInt64.ofNat e.out.bytes.length))

section

variable {n n' i : ℕ} {lines : List Text} {m m' e e' : PassState}

section

variable (h : Level m e) (hm : pass ctx false n lines m = .ok m')
  (he : pass ctx true n' lines e = .ok e')
include h hm he

lemma level_of_reached {mi ei : PassState} (hmi : (reached ctx false lines m)[i]? = some mi)
    (hei : (reached ctx true lines e)[i]? = some ei) : Level mi ei := by
  obtain ⟨hi, rfl⟩ := List.getElem?_eq_some_iff.mp hmi
  obtain ⟨hi', rfl⟩ := List.getElem?_eq_some_iff.mp hei
  exact (List.forall₂_iff_get.mp (level_reached h hm he)).2 i hi hi'

lemma linesAlike_reached : LinesAlike (reached ctx false lines m) (reached ctx true lines e) := by
  intro i mi mi' ei ei' hmi hmi' hei hei'
  have hi : i < lines.length := by
    have hlength := length_reached hm
    have := (List.getElem?_eq_some_iff.mp hmi').1
    omega
  have hline := List.getElem?_eq_getElem hi
  obtain ⟨hoffset, hlength⟩ := level_of_reached h hm he hmi hei
  obtain ⟨hoffset', hlength'⟩ := level_of_reached h hm he hmi' hei'
  obtain ⟨-, hgrew⟩ := agree_line hoffset (reached_step hm hline hmi hmi')
    (reached_step he hline hei hei')
  obtain ⟨new, hbytes, -⟩ := hgrew.bytes
  refine ⟨new, hbytes, ?_⟩
  rw [hoffset', hoffset, ← hlength', ← hlength, hbytes, length_append]

end

lemma labelsPlaced_reached (h : Level m e) (hdistinct : Distinct m.labels)
    (hm : pass ctx false n lines m = .ok m') (he : pass ctx true n' lines e = .ok e') :
    LabelsPlaced ctx m'.labels lines (reached ctx true lines e) := by
  intro i line ei hline hei name hname
  obtain ⟨-, hkept, hmem⟩ := pass_labels hm
  have hi : i < (reached ctx false lines m).length := by
    have hlength := length_reached hm
    have := (List.getElem?_eq_some_iff.mp hline).1
    omega
  have hmi := List.getElem?_eq_getElem hi
  obtain ⟨hoffset, hlength⟩ := level_of_reached h hm he hmi hei
  have hlabel : findLabel m'.labels name = some _ :=
    findLabel_of_mem (hkept hdistinct) (hmem i line _ hline hmi name hname)
  refine ⟨by rw [hlabel, Option.map_some, hoffset, hlength], fun hnumber => ?_⟩
  simp only [Context.value, skipSpaces_of_mem_labels hname, hnumber, hlabel, hlength, hoffset,
    UInt64.ofNat_uInt32ToNat]

variable (h : Level m e) (hm : pass ctx false n lines m = .ok m')
  (he : pass ctx true n' lines e = .ok e')
include h hm he

/-- What the emitting pass adds to its output on the way. -/
lemma grew_pass : Grew ctx e.out e'.out := by
  induction lines generalizing n n' m e with
  | nil =>
    cases he
    exact Std.Refl.refl _
  | cons line lines ih =>
    obtain ⟨m₁, hmline, hmrest, -⟩ := pass_cons_eq_ok hm
    obtain ⟨e₁, heline, herest, -⟩ := pass_cons_eq_ok he
    obtain ⟨-, hgrew⟩ := agree_line h.1 hmline heline
    exact Trans.trans hgrew (ih (level_step h hmline heline) hmrest herest)

/-- At the end, too, the passes are at the same place. -/
lemma level_end : Level m' e' := by
  have hm' := getLast?_reached hm
  have he' := getLast?_reached he
  rw [getLast?_eq_getElem?, length_reached hm] at hm'
  rw [getLast?_eq_getElem?, length_reached he] at he'
  exact level_of_reached h hm he hm' he'

end

lemma assemble_grew (h : assembleSource ctx source exportNames = .ok a) :
    Grew ctx .empty a.out := by
  obtain ⟨m', e', hm, -, he, -, hout⟩ := assemble_eq_ok h
  rw [← hout]
  have hstart : Level ⟨[], .empty⟩ ⟨a.labels, .empty⟩ := ⟨rfl, rfl⟩
  exact grew_pass hstart hm he

/-- When a source is assembled, both passes reach all its lines, every line puts out as many bytes as
were counted for it, the labels have the values at which the emitting pass reaches their lines, and
the size is the one measured. -/
theorem assembleSource_passes_agree {source : List UInt8} {exportNames : List Text} {a : Assembled}
    (h : assembleSource ctx source exportNames = .ok a) :
    let lines := sourceLines source
    let measured := reached ctx false lines ⟨[], .empty⟩
    let emitted := reached ctx true lines ⟨a.labels, .empty⟩
    measured.length = lines.length + 1 ∧ emitted.length = lines.length + 1 ∧
      LinesAlike measured emitted ∧ LabelsPlaced ctx a.labels lines emitted ∧
      measured.getLast?.map (·.out.offset) = some a.outSize ∧
      a.out.bytes.length = a.outSize.toNat := by
  obtain ⟨m', e', hm, -, he, hlabels, hout⟩ := assemble_eq_ok h
  have hstart : Level ⟨[], .empty⟩ ⟨a.labels, .empty⟩ := ⟨rfl, rfl⟩
  have hend := level_end hstart hm he
  refine ⟨length_reached hm, length_reached he, linesAlike_reached hstart hm he, ?_, ?_, ?_⟩
  · have hplaced := labelsPlaced_reached hstart nodup_nil hm he
    rwa [hlabels] at hplaced
  · rw [getLast?_reached hm, Option.map_some, hend.1, hout, Assembled.outSize]
  · rw [Assembled.outSize, ← hout, hend.2]

/-- A forward and a backward jump, data and a relocated address. -/
def jumpsAndData : List UInt8 :=
  str "start: jmp last\nmov rax, msg\nmsg db \"a;b\", 10\nlast: jne start\ndq msg\n"

theorem assembleSource_passes_agree_jumpsAndData :
    ∃ a, assembleSource ⟨64, 0x1000, [], none, []⟩ jumpsAndData [] = .ok a ∧
      a.out.bytes.length = a.outSize.toNat ∧ a.outSize = 33 := by
  have hsize : (assembleSource ⟨64, 0x1000, [], none, []⟩ jumpsAndData []).toOption.map
      (·.outSize) = some 33 := by decide +kernel
  cases h : assembleSource ⟨64, 0x1000, [], none, []⟩ jumpsAndData [] with
  | error n =>
    rw [h] at hsize
    cases hsize
  | ok a =>
    rw [h] at hsize
    exact ⟨a, rfl, (assembleSource_passes_agree h).2.2.2.2.2, Option.some.inj hsize⟩

end Asm
