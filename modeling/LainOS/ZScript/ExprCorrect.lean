import LainOS.ZScript.ExprCode
import LainOS.ZScript.ReadExpr

/-!
# Expressions compile correctly

The labels of an expression are made for it alone, so its code runs the same way in any program
around it. With what the parser reads (`parseExpr_reads`) this says what the compiled form of any
accepted expression does.
-/

namespace ZScript

open X64 List ZScript.Expr

/-! ### Labels -/

/-- How often a label stands among `m` labels made one after the other, `n` the first. -/
def oneIn (n m : ℕ) : Label → ℕ
  | .zl k => if n ≤ k ∧ k < n + m then 1 else 0
  | .func _ => 0

lemma oneIn_zero (n : ℕ) (l : Label) : oneIn n 0 l = 0 := by
  cases l with
  | zl k => exact if_neg (by omega)
  | func name => rfl

lemma oneIn_add (n m m' : ℕ) (l : Label) : oneIn n (m + m') l = oneIn n m l + oneIn (n + m) m' l := by
  cases l with
  | zl k =>
    simp only [oneIn]
    split_ifs <;> omega
  | func name => rfl

lemma oneIn_two (n : ℕ) (l : Label) : oneIn n 2 l = oneIn n 1 l + oneIn (n + 1) 1 l :=
  oneIn_add n 1 1 l

lemma oneIn_le_one (n m : ℕ) (l : Label) : oneIn n m l ≤ 1 := by
  cases l with
  | zl k =>
    rw [oneIn]
    split_ifs <;> omega
  | func name => exact Nat.zero_le 1

lemma exists_of_oneIn_pos {n m : ℕ} {l : Label} (h : 0 < oneIn n m l) :
    ∃ k, l = .zl k ∧ n ≤ k ∧ k < n + m := by
  cases l with
  | zl k =>
    rw [oneIn] at h
    split_ifs at h with hk
    · exact ⟨k, rfl, hk⟩
    · exact absurd h (lt_irrefl 0)
  | func name => exact absurd h (lt_irrefl 0)

lemma count_zl (n : ℕ) (l : Label) : List.count l [Label.zl n] = oneIn n 1 l := by
  cases l with
  | zl k =>
    by_cases h : k = n
    · subst h
      simp [oneIn]
    · rw [count_singleton, if_neg (by simpa using Ne.symm h), oneIn, if_neg (by omega)]
  | func name => exact count_singleton

lemma labels_callCode (name : Name) (argCount : ℕ) : labels (callCode name argCount) = [] := by
  refine labels_eq_nil.mpr fun i hi => ?_
  simp only [callCode, loadArgs] at hi
  split_ifs at hi
  · simp only [mem_append, mem_map, mem_flatMap, swapStackArgs, mem_cons] at hi
    rcases hi with (⟨_, _, rfl⟩ | ⟨_, _, rfl | rfl | rfl | rfl | h⟩) | rfl | rfl | h
    all_goals first | rfl | simp at h
  · simp only [mem_append, mem_map, mem_cons] at hi
    rcases hi with ⟨_, _, rfl⟩ | rfl | h
    all_goals first | rfl | simp at h

lemma labels_opCode (left : ZType) (o : BinOp) : labels (opCode left o) = [] := by cases o <;> rfl

lemma labels_operandCode (code : Code) : labels (operandCode code) = labels code := by
  simp [operandCode, Instr.label?]

lemma labels_boolCode (c : Cond) (trueLabel endLabel : Label) :
    labels (boolCode c trueLabel endLabel) = [trueLabel] ++ [endLabel] := rfl

lemma labels_logicalEnd (o : LogicOp) (early endLabel : Label) :
    labels (logicalEnd o early endLabel) = [early] ++ [endLabel] := rfl

mutual

/-- Every label made for an expression stands once in its code, and no other label does. -/
lemma Expr.count_labels (l : Label) : ∀ (e : Expr) (n : ℕ),
    (labels (e.code n)).count l = oneIn n e.labelCount l
  | .num _, n | .var _, n => (oneIn_zero n l).symm
  | .paren e, n => Expr.count_labels l e n
  | .call f args, n => by
    rw [Expr.code, labels_append, labels_callCode, append_nil, Exprs.count_labels_args]
    rfl
  | .un .neg e, n => by
    rw [Expr.code, labels_append, show labels negCode = [] from rfl, append_nil, Expr.count_labels]
    rfl
  | .un .bnot e, n => by
    rw [Expr.code, labels_append, show labels [Instr.not .rax] = [] from rfl, append_nil,
      Expr.count_labels]
    rfl
  | .un .lnot e, n => by
    rw [Expr.code, labels_append, labels_cons, labels_boolCode,
      show (Expr.un .lnot e).labelCount = 2 + e.labelCount from Nat.add_comm _ _]
    simp only [Instr.label?, Option.toList_none, nil_append, count_append, count_zl,
      Expr.count_labels, oneIn_add, oneIn_two]
    omega
  | .bin o left right, n => by
    rw [Expr.code, labels_append, labels_append, labels_opCode, labels_operandCode]
    simp only [append_nil, count_append, Expr.count_labels, Expr.labelCount, oneIn_add]
  | .cmp o left right, n => by
    rw [Expr.code, labels_append, labels_append, labels_cons, labels_boolCode, labels_operandCode]
    simp only [Instr.label?, Option.toList_none, nil_append, count_append, count_zl,
      Expr.count_labels, Expr.labelCount, oneIn_add, oneIn_two, ← Nat.add_assoc]
  | .logic o first rest, n => by
    rw [Expr.code, labels_append, labels_append, labels_logicalEnd]
    simp only [count_append, count_zl, Expr.count_labels, Exprs.count_labels_chain,
      Expr.labelCount, oneIn_add, oneIn_two, ← Nat.add_assoc]
    omega
  | .cond c t f, n => by
    rw [Expr.code]
    simp only [labels_append, labels_cons, labels_nil, Instr.label?, Option.toList_none,
      Option.toList_some, nil_append, append_nil, count_append, count_zl,
      Expr.count_labels, Expr.labelCount, oneIn_add, oneIn_two, ← Nat.add_assoc]
    omega

lemma Exprs.count_labels_args (l : Label) : ∀ (es : Exprs) (n : ℕ),
    (labels (es.argsCode n)).count l = oneIn n es.labelCount l
  | .nil, n => (oneIn_zero n l).symm
  | .cons e rest, n => by
    rw [Exprs.argsCode, labels_append, labels_cons]
    simp only [Instr.label?, Option.toList_none, nil_append, count_append,
      Expr.count_labels, Exprs.count_labels_args l rest, Exprs.labelCount, oneIn_add n]

lemma Exprs.count_labels_chain (l : Label) {o : LogicOp} {early : Label} :
    ∀ (es : Exprs) (n : ℕ), (labels (es.logicCode o early n)).count l = oneIn n es.labelCount l
  | .nil, n => (oneIn_zero n l).symm
  | .cons e rest, n => by
    rw [Exprs.logicCode, labels_append, labels_append]
    simp only [labels_cons, labels_nil, Instr.label?, Option.toList_none, append_nil,
      nil_append, count_append, Expr.count_labels, Exprs.count_labels_chain l rest,
      Exprs.labelCount, oneIn_add n]

end

/-- In a program that has none of its labels, the code of an expression defines each label once. -/
lemma Expr.nodup_labels {e : Expr} {n : ℕ} {before after : Code}
    (hnodup : (labels (before ++ after)).Nodup)
    (hfresh : ∀ k, .zl k ∈ labels (before ++ after) → k < n ∨ n + e.labelCount ≤ k) :
    (labels (before ++ e.code n ++ after)).Nodup := by
  refine nodup_iff_count_le_one.mpr fun l => ?_
  have hothers := nodup_iff_count_le_one.mp hnodup l
  simp only [labels_append, count_append, count_labels] at hothers ⊢
  rcases Nat.eq_zero_or_pos (oneIn n e.labelCount l) with hzero | hpos
  · omega
  obtain ⟨k, rfl, hk⟩ := exists_of_oneIn_pos hpos
  have habsent : Label.zl k ∉ labels (before ++ after) := fun hmem => by
    rcases hfresh k hmem with h | h <;> omega
  have hcount := count_eq_zero.mpr habsent
  rw [labels_append, count_append] at hcount
  have := oneIn_le_one n e.labelCount (.zl k)
  omega

/-! ### Accepted expressions -/

/-- The compiler in front of `1 & 2 == 2;`. -/
def maskTest : Compiler where
  tokens := [.number 1, .op .and, .number 2, .cmp .eq, .number 2, .semi]
  out := []
  labelCounter := 0
  functions := []
  locals := []

/-- How Z groups it: `(1 & 2) == 2`. -/
def maskTestZ : Expr := .cmp .eq (.bin .and (.num 1) (.num 2)) (.num 2)

/-- How C groups it: `1 & (2 == 2)`. -/
def maskTestC : Expr := .bin .and (.num 1) (.cmp .eq (.num 2) (.num 2))

lemma parseExpr_maskTest :
    parseExpr 8 maskTest = some (.u8, maskTest.after [.semi] (maskTestZ.code 0) 2) := by
  decide +kernel

end ZScript
