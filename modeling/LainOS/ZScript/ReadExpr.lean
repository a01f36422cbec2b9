import LainOS.ZScript.Tree

/-!
# What the expression parsers read

Every level of the expression parser that succeeds has read the tokens of a tree, grouped as in
`zGrammar`, and has appended the code of that tree.
-/

namespace ZScript

open X64 ZScript.Expr

variable {tokens rest : List Token} {e : Expr} {o : LogicOp} {select : BinOp → Bool}

/-! ### Inverting parse functions -/

section

variable {α β : Type} {a : α} {c : Compiler} {x : Parse α}

@[simp] lemma bind_eq_some {f : α → Parse β} {r : β × Compiler} :
    (x >>= f) c = some r ↔ ∃ a c₁, x c = some (a, c₁) ∧ f a c₁ = some r := by
  simp [bind, StateT.bind, Option.bind_eq_some_iff]

@[simp] lemma pure_eq_some {r : α × Compiler} : (pure a : Parse α) c = some r ↔ r = (a, c) := by
  rw [show (pure a : Parse α) c = some (a, c) from rfl, Option.some.injEq, eq_comm]

@[simp] lemma map_eq_some {g : α → β} {r : β × Compiler} :
    (g <$> x) c = some r ↔ ∃ a c₁, x c = some (a, c₁) ∧ r = (g a, c₁) := by
  rw [show (g <$> x) c = (x c).bind fun r => some (g r.1, r.2) from rfl, Option.bind_eq_some_iff]
  simp [eq_comm]

@[simp] lemma fail_ne_some {r : α × Compiler} : ¬ (fail : Parse α) c = some r := by simp [fail]

@[simp] lemma ite_eq_some {p : Prop} [Decidable p] {y : Parse α} {r : α × Compiler} :
    (if p then x else y) c = some r ↔ p ∧ x c = some r ∨ ¬ p ∧ y c = some r := by
  by_cases hp : p <;> simp [hp]

@[simp] lemma current_eq_some {r : Option Token × Compiler} :
    current c = some r ↔ r = (c.tokens.head?, c) := by
  simp [current, eq_comm]

/-- A parser that looks at the current token goes on with it. -/
lemma current_bind {f : Option Token → Parse α} : (current >>= f) c = f c.tokens.head? c := rfl

variable {r : Unit × Compiler}

@[simp] lemma nextToken_eq_some :
    nextToken c = some r ↔ r = ((), { c with tokens := c.tokens.tail }) := by
  simp [nextToken, eq_comm]

@[simp] lemma emit_eq_some {i : Instr Label} :
    emit i c = some r ↔ r = ((), { c with out := c.out ++ [i] }) := by
  simp [emit, eq_comm]

@[simp] lemma emitAll_eq_some {code : Code} :
    emitAll code c = some r ↔ r = ((), { c with out := c.out ++ code }) := by
  simp [emitAll, eq_comm]

@[simp] lemma makeLabel_eq_some {r : Label × Compiler} : makeLabel c = some r ↔
      r = (.zl c.labelCounter, { c with labelCounter := c.labelCounter + 1 }) := by
  simp [makeLabel, eq_comm]

@[simp] lemma findLocal_eq_some {name : Name} {r : Option Local × Compiler} :
    findLocal name c = some r ↔ r = (c.locals.find? (·.name = name), c) := by
  simp [findLocal, eq_comm]

@[simp] lemma findFunction_eq_some {name : Name} {r : Option Function × Compiler} :
    findFunction name c = some r ↔ r = (c.functions.find? (·.name = name), c) := by
  simp [findFunction, eq_comm]

@[simp] lemma expect_eq_some {t : Token} :
    expect t c = some r ↔ ∃ rest, c.tokens = t :: rest ∧ r = ((), { c with tokens := rest }) := by
  rcases htokens : c.tokens with _ | ⟨t', rest⟩
  · simp [expect, htokens]
  · by_cases ht : t' = t
    · simp [expect, htokens, ht, eq_comm]
    · simp [expect, htokens, ht]

end

/-! ### Reading a tree -/

/-- The compiler after it has read up to `rest`, emitted `code` and made `labels` labels. -/
@[simps]
def Compiler.after (c : Compiler) (rest : List Token) (code : Code) (labels : ℕ) : Compiler :=
  { c with
    tokens := rest
    out := c.out ++ code
    labelCounter := c.labelCounter + labels }

/-- `e` is what stands at the front of the tokens, with `rest` behind it. -/
structure Read (c : Compiler) (e : Expr) (rest : List Token) : Prop where
  tokens : c.tokens = e.print ++ rest
  grouped : e.Grouped zGrammar
  resolved : e.Resolved c.locals c.functions

/-- Whenever `p` succeeds, it has read an expression of level `k` at most. -/
def Reads (p : Parse ZType) (k : ℕ) : Prop :=
  ∀ c type c', p c = some (type, c') → ∃ e rest, Read c e rest ∧ e.level zGrammar ≤ k ∧
    type = e.type ∧ c' = c.after rest (e.code c.labelCounter) e.labelCount

variable {k fuel : ℕ}

lemma Reads.mono {p : Parse ZType} {k' : ℕ} (h : Reads p k) (hk : k ≤ k') : Reads p k' := by
  intro c type c' hp
  obtain ⟨e, rest, hread, hlevel, htype, hc⟩ := h c type c' hp
  exact ⟨e, rest, hread, hlevel.trans hk, htype, hc⟩

/-! ### Primary expressions -/

variable {expr next : Parse ZType} {c c' : Compiler}

section

variable (hexpr : Reads expr zGrammar.cond)
include hexpr

lemma parseArgs_reads {m : ℕ} (h : parseArgs expr fuel k c = some (m, c')) :
    ∃ e args rest, c.tokens = e.print ++ args.printChain .comma ++ rest ∧
      (Exprs.cons e args).Grouped zGrammar zGrammar.cond ∧
      (Exprs.cons e args).Resolved c.locals c.functions ∧
      m = k + (Exprs.cons e args).length ∧ m ≤ maxParams ∧
      c' = c.after rest ((Exprs.cons e args).argsCode c.labelCounter)
        (Exprs.cons e args).labelCount := by
  induction fuel generalizing k c with
  | zero => simp [parseArgs] at h
  | succ fuel ih =>
    by_cases hk : k ≥ maxParams
    · simp [parseArgs, hk] at h
    simp [parseArgs, hk] at h
    obtain ⟨type, c₁, hp, h⟩ := h
    obtain ⟨e, rest, hread, hlevel, -, rfl⟩ := hexpr c type c₁ hp
    rcases h with ⟨hcomma, h⟩ | ⟨-, rfl, rfl⟩
    · obtain ⟨rest', rfl⟩ := List.head?_eq_some_iff.mp hcomma
      obtain ⟨e', args, rest, htokens, hgrouped, hresolved, hm, hmax, rfl⟩ := ih h
      refine ⟨e, .cons e' args, rest, ?_, ⟨⟨hlevel, hread.grouped⟩, hgrouped⟩,
        ⟨hread.resolved, hresolved⟩, ?_, hmax, ?_⟩
      · rw [hread.tokens, show rest' = _ from htokens]
        simp [Exprs.printChain]
      · simp only [Exprs.length] at hm ⊢
        omega
      · simp [Compiler.after, Exprs.argsCode, Exprs.labelCount, Nat.add_assoc]
    · exact ⟨e, .nil, rest, by simpa [Exprs.printChain] using hread.tokens,
        ⟨⟨hlevel, hread.grouped⟩, trivial⟩, ⟨hread.resolved, trivial⟩, rfl, by omega,
        by simp [Compiler.after, Exprs.argsCode, Exprs.labelCount]⟩

lemma parseCall_reads {name : Name} {type : ZType}
    (h : parseCallExpression fuel expr name c = some (type, c')) :
    ∃ f args rest, .ident name :: c.tokens = (call f args).print ++ rest ∧
      (call f args).Grouped zGrammar ∧ (call f args).Resolved c.locals c.functions ∧
      type = .int ∧
      c' = c.after rest ((call f args).code c.labelCounter) (call f args).labelCount := by
  rcases hf : c.functions.find? (·.name = name) with _ | f
  · simp [parseCallExpression, hf] at h
  have hname : f.name = name := by simpa using List.find?_some hf
  simp [parseCallExpression, hf] at h
  obtain ⟨-, tokens, htokens, h⟩ := h
  rcases h with ⟨-, rest, rfl, hcount, rfl, rfl⟩ | ⟨-, c₁, hargs, rest, hrest, rfl, rfl⟩
  · exact ⟨f, .nil, rest, by simp [print, htokens, hname], trivial,
      ⟨⟨hname ▸ hf, hcount, Nat.zero_le _⟩, trivial⟩, rfl,
      by simp [Compiler.after, code, Exprs.argsCode, Exprs.length, labelCount, Exprs.labelCount]⟩
  obtain ⟨e, args, rest', htokens', hgrouped, hresolved, hm, hmax, rfl⟩ :=
    parseArgs_reads hexpr hargs
  obtain rfl : rest' = .rparen :: rest := hrest
  have hlength : (Exprs.cons e args).length = f.paramCount := by omega
  refine ⟨f, .cons e args, rest, ?_, hgrouped, ⟨⟨hname ▸ hf, hlength, hlength ▸ hmax⟩,
    hresolved⟩, rfl, ?_⟩
  · rw [htokens, show tokens = _ from htokens']
    simp [print, hname]
  · simp [Compiler.after, code, labelCount, hlength]

lemma primary_reads (fuel : ℕ) : Reads (parsePrimary fuel expr) 0 := by
  intro c type c' h
  rcases htokens : c.tokens with _ | ⟨t, tokens⟩
  · simp [parsePrimary, htokens] at h
  cases t with
  | number n =>
    simp [parsePrimary, htokens] at h
    obtain ⟨rfl, rfl⟩ := h
    exact ⟨.num n, tokens, ⟨by simp [print, htokens], trivial, trivial⟩, le_rfl, rfl,
      by simp [Compiler.after, code, labelCount]⟩
  | ident name =>
    simp [parsePrimary, htokens] at h
    rcases h with ⟨-, h⟩ | ⟨-, h⟩
    · obtain ⟨f, args, rest, hprint, hgrouped, hresolved, rfl, rfl⟩ := parseCall_reads hexpr h
      exact ⟨.call f args, rest, ⟨htokens.trans hprint, hgrouped, hresolved⟩, le_rfl, rfl, rfl⟩
    rcases hx : c.locals.find? (·.name = name) with _ | x
    · simp [hx] at h
    have hname : x.name = name := by simpa using List.find?_some hx
    simp [hx] at h
    obtain ⟨hlength, rfl, rfl⟩ := h
    exact ⟨.var x, tokens, ⟨by simp [print, htokens, hname], trivial, hname ▸ hx, hlength⟩,
      le_rfl, rfl, by simp [Compiler.after, code, labelCount, loadLocal]⟩
  | lparen =>
    simp [parsePrimary, htokens] at h
    obtain ⟨c₁, hp, rest, hrest, rfl⟩ := h
    obtain ⟨e, rest', hread, -, rfl, rfl⟩ := hexpr _ _ _ hp
    obtain rfl : rest' = .rparen :: rest := hrest
    refine ⟨.paren e, rest, ⟨?_, hread.grouped, hread.resolved⟩, le_rfl, rfl, rfl⟩
    rw [htokens, show tokens = _ from hread.tokens]
    simp [print]
  | _ =>
    rw [parsePrimary, current_bind, htokens] at h
    exact absurd h fail_ne_some

end

/-! ### Operators -/

/-- One token and an operand after it. -/
lemma Read.token_cons {t : Token} (htokens : c.tokens = t :: tokens) {c₁ : Compiler}
    (hc₁ : c₁.tokens = tokens) (hread : Read c₁ e rest) : c.tokens = t :: e.print ++ rest := by
  rw [htokens, ← hc₁, hread.tokens, List.cons_append]

lemma Read.un {o : UnOp} {n : ℕ}
    (hread : Read { c with tokens := tokens, labelCounter := n } e rest)
    (htokens : c.tokens = o.token :: tokens) (hlevel : e.level zGrammar ≤ 1) :
    Read c (.un o e) rest :=
  ⟨Read.token_cons htokens rfl hread, ⟨hlevel, hread.grouped⟩, hread.resolved⟩

lemma unary_reads (hexpr : Reads expr zGrammar.cond) (fuel : ℕ) :
    Reads (parseUnary expr fuel) 1 := by
  induction fuel with
  | zero => intro c type c' h; simp [parseUnary] at h
  | succ fuel ih =>
    intro c type c' h
    have hprimary := (primary_reads hexpr fuel).mono (Nat.zero_le 1) c type c'
    rcases htokens : c.tokens with _ | ⟨t, tokens⟩
    · rw [parseUnary, current_bind, htokens] at h
      exact hprimary h
    cases t with
    | op o =>
      cases o with
      | sub =>
        simp [parseUnary, htokens] at h
        obtain ⟨c₁, hp, rfl⟩ := h
        obtain ⟨e, rest, hread, hlevel, rfl, rfl⟩ := ih _ _ _ hp
        exact ⟨.un .neg e, rest, hread.un htokens hlevel, le_rfl, rfl,
          by simp [Compiler.after, code, labelCount]⟩
      | _ =>
        rw [parseUnary, current_bind, htokens] at h
        exact hprimary h
    | tilde =>
      simp [parseUnary, htokens] at h
      obtain ⟨c₁, hp, rfl⟩ := h
      obtain ⟨e, rest, hread, hlevel, rfl, rfl⟩ := ih _ _ _ hp
      exact ⟨.un .bnot e, rest, hread.un htokens hlevel, le_rfl, rfl,
        by simp [Compiler.after, code, labelCount]⟩
    | bang =>
      simp [parseUnary, htokens] at h
      obtain ⟨type₁, c₁, hp, rfl, rfl⟩ := h
      obtain ⟨e, rest, hread, hlevel, -, rfl⟩ := ih _ _ _ hp
      exact ⟨.un .lnot e, rest, hread.un htokens hlevel, le_rfl, rfl,
        by simp [Compiler.after, code, labelCount, Nat.add_assoc, Nat.add_comm 2]⟩
    | _ =>
      rw [parseUnary, current_bind, htokens] at h
      exact hprimary h

section

variable (hnext : Reads next k) (hselect : ∀ o, select o = true → zGrammar.bin o = k + 1)
include hnext hselect

/-- The loop of a level of operators keeps to the tree read so far as its left operand. -/
lemma binaryRest_reads {c₀ : Compiler} {left : Expr} {type : ZType} (hread : Read c₀ left rest)
    (hlevel : left.level zGrammar ≤ k + 1) (h : parseBinaryRest next select fuel left.type
      (c₀.after rest (left.code c₀.labelCounter) left.labelCount) = some (type, c')) :
    ∃ e rest', Read c₀ e rest' ∧ e.level zGrammar ≤ k + 1 ∧ type = e.type ∧
      c' = c₀.after rest' (e.code c₀.labelCounter) e.labelCount := by
  induction fuel generalizing left rest with
  | zero => simp [parseBinaryRest] at h
  | succ fuel ih =>
    by_cases ho : ∃ o tokens, rest = .op o :: tokens ∧ select o = true
    · obtain ⟨o, tokens, rfl, ho⟩ := ho
      simp [parseBinaryRest, ho] at h
      obtain ⟨type₁, c₁, hp, h⟩ := h
      obtain ⟨right, rest, hread', hlevel', rfl, rfl⟩ := hnext _ _ _ hp
      have hk := hselect o ho
      have hbin : Read c₀ (.bin o left right) rest := by
        refine ⟨?_, ?_, ⟨hread.resolved, hread'.resolved⟩⟩
        · rw [hread.tokens, show tokens = _ from hread'.tokens]
          simp [Expr.print]
        · exact ⟨⟨hk ▸ hlevel, hread.grouped⟩, hk ▸ Nat.lt_succ_of_le hlevel', hread'.grouped⟩
      refine ih hbin ?_ ?_
      · exact hk.le
      · rw [← h]
        simp [Compiler.after, Expr.type, Expr.code, Expr.labelCount, operandCode, Nat.add_assoc]
    · have hstop : type = left.type ∧
          c' = c₀.after rest (left.code c₀.labelCounter) left.labelCount := by
        rcases rest with _ | ⟨t, tokens⟩
        · simpa [parseBinaryRest] using h
        cases t with
        | op o =>
          have : select o = false := by simpa using ho
          simpa [parseBinaryRest, this] using h
        | _ => exact Prod.mk.inj (pure_eq_some.mp h)
      exact ⟨left, rest, hread, hlevel, hstop⟩

lemma binary_reads (fuel : ℕ) : Reads (parseBinary next select fuel) (k + 1) := by
  intro c type c' h
  simp [parseBinary] at h
  obtain ⟨type₁, c₁, hp, h⟩ := h
  obtain ⟨left, rest, hread, hlevel, rfl, rfl⟩ := hnext _ _ _ hp
  exact binaryRest_reads hnext hselect hread (hlevel.trans (by omega)) h

end

lemma parseBitor_reads (hexpr : Reads expr zGrammar.cond) (fuel : ℕ) :
    Reads (parseBitor fuel expr) 7 := by
  have hmul : Reads (parseMul fuel expr) 2 :=
    binary_reads (unary_reads hexpr fuel) (by rintro ⟨⟩ <;> simp [zGrammar]) fuel
  have hadd : Reads (parseAdd fuel expr) 3 :=
    binary_reads hmul (by rintro ⟨⟩ <;> simp [zGrammar]) fuel
  have hshift : Reads (parseShift fuel expr) 4 :=
    binary_reads hadd (by rintro ⟨⟩ <;> simp [zGrammar]) fuel
  have hand : Reads (parseBitand fuel expr) 5 :=
    binary_reads hshift (by rintro ⟨⟩ <;> simp [zGrammar]) fuel
  have hxor : Reads (parseBitxor fuel expr) 6 :=
    binary_reads hand (by rintro ⟨⟩ <;> simp [zGrammar]) fuel
  exact binary_reads hxor (by rintro ⟨⟩ <;> simp [zGrammar]) fuel

lemma parseComparison_reads (hexpr : Reads expr zGrammar.cond)
    (fuel : ℕ) : Reads (parseComparisonExpr fuel expr) 8 := by
  have hbitor := parseBitor_reads hexpr fuel
  intro c type c' h
  simp [parseComparisonExpr] at h
  obtain ⟨type₁, c₁, hp, h⟩ := h
  obtain ⟨left, rest, hread, hlevel, rfl, rfl⟩ := hbitor _ _ _ hp
  rcases rest with _ | ⟨t, tokens⟩
  · simp at h
    exact ⟨left, [], hread, hlevel.trans (by omega), h⟩
  cases t with
  | cmp o =>
    simp at h
    obtain ⟨type₂, c₂, hp', rfl, rfl⟩ := h
    obtain ⟨right, rest, hread', hlevel', rfl, rfl⟩ := hbitor _ _ _ hp'
    refine ⟨.cmp o left right, rest, ⟨?_, ⟨⟨hlevel, hread.grouped⟩, Nat.lt_succ_of_le hlevel',
      hread'.grouped⟩, hread.resolved, hread'.resolved⟩, le_rfl, rfl, ?_⟩
    · rw [hread.tokens, show tokens = _ from hread'.tokens]
      simp [print]
    · simp [Compiler.after, code, labelCount, operandCode, Nat.add_assoc]
  | _ =>
    simp at h
    exact ⟨left, _, hread, hlevel.trans (by omega), h⟩

lemma parseLogicalRest_reads (hnext : Reads next k) {early : Label}
    (htoken : c.tokens.head? = some o.token)
    (h : parseLogicalRest o next early fuel c = some ((), c')) :
    ∃ e es rest, c.tokens = (Exprs.cons e es).printChain o.token ++ rest ∧
      (Exprs.cons e es).Grouped zGrammar k ∧ (Exprs.cons e es).Resolved c.locals c.functions ∧
      c' = c.after rest ((Exprs.cons e es).logicCode o early c.labelCounter)
        (Exprs.cons e es).labelCount := by
  induction fuel generalizing c with
  | zero => simp [parseLogicalRest] at h
  | succ fuel ih =>
    obtain ⟨tokens, htokens⟩ := List.head?_eq_some_iff.mp htoken
    simp [parseLogicalRest, htokens] at h
    obtain ⟨type, c₁, hp, h⟩ := h
    obtain ⟨e, rest, hread, hlevel, -, rfl⟩ := hnext _ _ _ hp
    have hprint : c.tokens = o.token :: e.print ++ rest := Read.token_cons htokens rfl hread
    rcases h with ⟨htoken', h⟩ | ⟨-, rfl⟩
    · obtain ⟨e', es, rest', htokens', hgrouped, hresolved, rfl⟩ := ih htoken' h
      refine ⟨e, .cons e' es, rest', ?_, ⟨⟨hlevel, hread.grouped⟩, hgrouped⟩,
        ⟨hread.resolved, hresolved⟩, ?_⟩
      · rw [hprint, show rest = _ from htokens']
        simp [Exprs.printChain]
      · simp [Compiler.after, Exprs.logicCode, Exprs.labelCount, Nat.add_assoc]
    · exact ⟨e, .nil, rest, by simpa [Exprs.printChain] using hprint,
        ⟨⟨hlevel, hread.grouped⟩, trivial⟩, ⟨hread.resolved, trivial⟩,
        by simp [Compiler.after, Exprs.logicCode, Exprs.labelCount]⟩

lemma parseLogical_reads (hnext : Reads next k) (hk : zGrammar.logic o = k + 1) (fuel : ℕ) :
    Reads (parseLogical o next fuel) (k + 1) := by
  intro c type c' h
  simp [parseLogical] at h
  obtain ⟨type₁, c₁, hp, h⟩ := h
  obtain ⟨first, rest, hread, hlevel, rfl, rfl⟩ := hnext _ _ _ hp
  rcases h with ⟨htoken, _, c₂, h, rfl, rfl⟩ | ⟨-, rfl, rfl⟩
  · obtain ⟨e, es, rest', htokens, hgrouped, hresolved, rfl⟩ :=
      parseLogicalRest_reads hnext (by exact htoken) h
    refine ⟨.logic o first (.cons e es), rest', ⟨?_, ?_, hread.resolved, hresolved⟩, hk.le, rfl, ?_⟩
    · rw [hread.tokens, show rest = _ from htokens]
      simp [print]
    · refine ⟨⟨hk ▸ Nat.lt_succ_of_le hlevel, hread.grouped⟩, Nat.succ_pos _, ?_⟩
      rwa [hk, Nat.add_sub_cancel]
    · simp [Compiler.after, code, labelCount, Nat.add_assoc, Nat.add_comm 2]
  · exact ⟨first, rest, hread, hlevel.trans (by omega), rfl, rfl⟩

/-- Whatever the expression parser accepts is the tokens of a tree, and what it emits is the code of
that tree. -/
theorem parseExpr_reads (fuel : ℕ) : Reads (parseExpr fuel) zGrammar.cond := by
  induction fuel with
  | zero => intro c type c' h; simp [parseExpr] at h
  | succ fuel ih =>
    have hor : Reads (parseLogicalOrExpr fuel (parseExpr fuel)) 10 :=
      parseLogical_reads (parseLogical_reads (parseComparison_reads ih fuel) rfl fuel) rfl fuel
    intro c type c' h
    simp [parseExpr] at h
    obtain ⟨type₁, c₁, hp, h⟩ := h
    obtain ⟨cond, rest, hread, hlevel, rfl, rfl⟩ := hor _ _ _ hp
    rcases h with ⟨hquestion, h⟩ | ⟨-, rfl, rfl⟩
    · obtain ⟨tokens, rfl⟩ := List.head?_eq_some_iff.mp hquestion
      simp at h
      obtain ⟨type₁, c₁, ht, rest₁, hrest₁, type₂, c₂, hf, rfl, rfl⟩ := h
      obtain ⟨t, rest, hread₁, hlevel₁, rfl, rfl⟩ := ih _ _ _ ht
      obtain rfl : rest = .colon :: rest₁ := hrest₁
      obtain ⟨f, rest₂, hread₂, hlevel₂, rfl, rfl⟩ := ih _ _ _ hf
      refine ⟨.cond cond t f, rest₂, ⟨?_, ⟨⟨Nat.lt_succ_of_le hlevel, hread.grouped⟩,
        hread₁.grouped, hread₂.grouped⟩, hread.resolved, hread₁.resolved, hread₂.resolved⟩, le_rfl,
        rfl, ?_⟩
      · rw [hread.tokens, show tokens = _ from hread₁.tokens, show rest₁ = _ from hread₂.tokens]
        simp [print]
      · simp [Compiler.after, code, labelCount, Nat.add_assoc]
    · exact ⟨cond, rest, hread, hlevel.trans (by decide), rfl, rfl⟩

end ZScript
