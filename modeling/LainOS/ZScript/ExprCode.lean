import LainOS.Lib.X64Stack
import LainOS.ZScript.Eval

/-!
# The code of an expression computes its value

The blocks an expression is compiled to, one lemma each, and from them, by induction on the tree,
that its code leaves the value in `rax`. The locals have to lie at or above `rsp`, and below `rsp`
there has to be room for the temporaries.
-/

namespace ZScript

open X64 Option ZScript.Expr BitVec Exprs

variable {c : Cond} {trueLabel endLabel early : Label} {o : LogicOp} {p : ℕ} {prog : Code}
  {s : State} {x y v : Word}

/-! ### Blocks -/

lemma holds_jump (o : CmpOp) (isUnsigned : Bool) (x y : Word) :
    (o.jump isUnsigned).holds x y = o.eval isUnsigned x y := by
  cases o with
  | eq => simp only [CmpOp.jump, Cond.holds, CmpOp.eval, beq_eq_decide]
  | ne => simp only [CmpOp.jump, Cond.holds, CmpOp.eval, bne, beq_eq_decide, decide_not]
  | _ =>
    cases isUnsigned <;>
      simp [CmpOp.jump, CmpOp.eval, Cond.holds, slt_eq_decide, sle_eq_decide,
        ult_eq_decide, ule_eq_decide]

lemma boolCode_yields (hnodup : (labels prog).Nodup)
    (hcode : CodeAt prog s.pc (boolCode c trueLabel endLabel)) (hflags : s.flags = some (x, y)) :
    Yields prog s (s.pc + 6) (truth (c.holds x y)) := by
  have htrue := target_eq hnodup hcode.tail.tail.tail.head
  by_cases hc : c.holds x y
  · have hjump : Moves prog s (s.goto (s.pc + 1 + 1 + 1)) :=
      .single hcode.head (by rw [exec_jcc hflags, if_pos hc, htrue, map_some]) rfl
    have hlabel : Moves prog (s.goto (s.pc + 1 + 1 + 1)) (s.goto (s.pc + 1 + 1 + 1)).next :=
      .single hcode.tail.tail.tail.head rfl rfl
    have hmov : Moves prog (s.goto (s.pc + 1 + 1 + 1)).next
        ((s.goto (s.pc + 1 + 1 + 1)).next.set .rax 1).next :=
      .single hcode.tail.tail.tail.tail.head rfl rfl
    have hlabel' : Moves prog ((s.goto (s.pc + 1 + 1 + 1)).next.set .rax 1).next
        ((s.goto (s.pc + 1 + 1 + 1)).next.set .rax 1).next.next :=
      .single hcode.tail.tail.tail.tail.tail.head rfl rfl
    exact ⟨_, ((hjump.trans hlabel).trans hmov).trans hlabel', rfl, by rw [hc]; rfl⟩
  · have hfall : Moves prog s s.next := .single hcode.head (by rw [exec_jcc hflags, if_neg hc]) rfl
    have hmov : Moves prog s.next (s.next.set .rax 0).next := .single hcode.tail.head rfl rfl
    have hjump := Moves.jmp (s := (s.next.set .rax 0).next) hnodup hcode.tail.tail.head
      hcode.tail.tail.tail.tail.tail.head
    exact ⟨_, (hfall.trans hmov).trans hjump, rfl, by rw [Bool.not_eq_true] at hc; rw [hc]; rfl⟩

lemma divide_cqo (x y : Word) :
    idivide (if x.msb then -1 else 0) x y =
      if divides x y then
        some (BitVec.ofInt 64 (x.toInt.tdiv y.toInt), BitVec.ofInt 64 (x.toInt.tmod y.toInt))
      else none := by
  have hwide : (if x.msb then (-1 : Word) else 0).toInt * 2 ^ 64 + x.toNat = x.toInt := by
    have hx := toInt_eq_msb_cond x
    cases hmsb : x.msb with
    | false =>
      rw [hmsb, if_neg (by decide)] at hx
      simp [hx]
    | true =>
      rw [hmsb, if_pos rfl] at hx
      rw [if_pos rfl, show (-1 : Word).toInt = -1 from rfl, hx]
      omega
  have hquotient : (x.toInt.tdiv y.toInt).natAbs ≤ x.toInt.natAbs := by
    rw [Int.natAbs_tdiv]
    exact Nat.div_le_self ..
  have hx : x.toInt.natAbs ≤ 2 ^ 63 := by
    have := toInt_lt (x := x)
    have := le_toInt (x := x)
    omega
  rw [idivide, hwide]
  by_cases hy : y = 0
  · simp [hy, divides]
  by_cases hmax : x.toInt.tdiv y.toInt = 2 ^ 63
  · simp [hmax, divides]
  · have hrange : ¬ (x.toInt.tdiv y.toInt < -2 ^ 63 ∨ 2 ^ 63 ≤ x.toInt.tdiv y.toInt) := by omega
    have hdivides : divides x y = true := decide_eq_true ⟨hy, hmax⟩
    rw [if_neg hy, if_neg hrange, if_pos hdivides]

lemma divCode_moves {rest : Code} (hcode : CodeAt prog s.pc (divCode rest))
    (hdivides : divides (s.regs .rax) (s.regs .rcx) = true) :
    ∃ s', Moves prog s s' ∧ s'.pc = s.pc + 2 ∧
      s'.regs .rax = BitVec.ofInt 64 ((s.regs .rax).toInt.tdiv (s.regs .rcx).toInt) ∧
      s'.regs .rdx = BitVec.ofInt 64 ((s.regs .rax).toInt.tmod (s.regs .rcx).toInt) := by
  set s₁ := (s.set .rdx (if (s.regs .rax).msb then -1 else 0)).next with hs₁
  have hcqo : Moves prog s s₁ := .single hcode.head rfl rfl
  have hdivide := divide_cqo (s.regs .rax) (s.regs .rcx)
  rw [if_pos hdivides] at hdivide
  have hidiv : exec prog s₁ (.idiv .rcx) = _ := congrArg (Option.map _) hdivide
  exact ⟨_, hcqo.trans (.single hcode.tail.head hidiv rfl), rfl, rfl, rfl⟩

/-- The operation on `rax` and `rcx`. -/
lemma opCode_yields {o : BinOp} {left : ZType} (hcode : CodeAt prog s.pc (opCode left o))
    (heval : o.eval left.isUnsigned (s.regs .rax) (s.regs .rcx) = some v) :
    Yields prog s (s.pc + (opCode left o).length) v := by
  cases o with
  | div =>
    simp only [BinOp.eval, ite_none_right_eq_some] at heval
    obtain ⟨hdivides, heval⟩ := heval
    obtain rfl := some.inj heval
    obtain ⟨s', hmoves, hpc, hrax, -⟩ := divCode_moves hcode hdivides
    exact ⟨s', hmoves, hpc, hrax⟩
  | mod =>
    simp only [BinOp.eval, ite_none_right_eq_some] at heval
    obtain ⟨hdivides, heval⟩ := heval
    obtain rfl := some.inj heval
    obtain ⟨s', hmoves, hpc, -, hrdx⟩ := divCode_moves hcode hdivides
    have hmov : Moves prog s' (s'.set .rax (s'.regs .rdx)).next :=
      .single (by rw [hpc]; exact hcode.tail.tail.head) rfl rfl
    exact ⟨_, hmoves.trans hmov, congrArg (· + 1) hpc, hrdx⟩
  | shr =>
    obtain rfl := some.inj heval
    refine ⟨_, .single hcode.head rfl rfl, rfl, ?_⟩
    cases left.isUnsigned <;> rfl
  | _ =>
    obtain rfl := some.inj heval
    exact ⟨_, .single hcode.head rfl rfl, rfl, rfl⟩

lemma negCode_yields (hcode : CodeAt prog s.pc negCode) :
    Yields prog s (s.pc + 3) (-s.regs .rax) := by
  have hzero : Moves prog s (s.set .rcx 0).next := .single hcode.head rfl rfl
  set s₁ := (((s.set .rcx 0).next.set .rcx (0 - s.regs .rax)).setFlags none).next with hs₁
  have hsub : Moves prog (s.set .rcx 0).next s₁ := .single hcode.tail.head rfl rfl
  have hmov : Moves prog s₁ (s₁.set .rax (s₁.regs .rcx)).next := .single hcode.tail.tail.head rfl rfl
  exact ⟨_, (hzero.trans hsub).trans hmov, rfl, BitVec.zero_sub _⟩

section

variable (hnodup : (labels prog).Nodup)
include hnodup

lemma lnotCode_yields
    (hcode : CodeAt prog s.pc (.cmpImm .rax 0 :: boolCode .e trueLabel endLabel)) :
    Yields prog s (s.pc + 7) (UnOp.lnot.eval (s.regs .rax)) := by
  have hcmp : Moves prog s (s.setFlags (some (s.regs .rax, 0))).next := .single hcode.head rfl rfl
  have hbool := boolCode_yields (s := (s.setFlags (some (s.regs .rax, 0))).next) hnodup
    hcode.tail rfl
  have hvalue : truth (Cond.e.holds (s.regs .rax) 0) = UnOp.lnot.eval (s.regs .rax) := by
    by_cases hx : s.regs .rax = 0 <;> simp [truth, Cond.holds, UnOp.eval, hx]
  rw [hvalue, show (s.setFlags (some (s.regs .rax, 0))).next.pc = s.pc + 1 from rfl,
    Nat.add_assoc] at hbool
  exact hcmp.yields hbool

lemma cmpCode_yields {o : CmpOp} {isUnsigned : Bool}
    (hcode : CodeAt prog s.pc (.cmp .rax .rcx :: boolCode (o.jump isUnsigned) trueLabel endLabel)) :
    Yields prog s (s.pc + 7) (truth (o.eval isUnsigned (s.regs .rax) (s.regs .rcx))) := by
  have hcmp : Moves prog s (s.setFlags (some (s.regs .rax, s.regs .rcx))).next :=
    .single hcode.head rfl rfl
  have hbool := boolCode_yields (s := (s.setFlags (some (s.regs .rax, s.regs .rcx))).next) hnodup
    hcode.tail rfl
  rw [holds_jump, show (s.setFlags (some (s.regs .rax, s.regs .rcx))).next.pc = s.pc + 1 from rfl,
    Nat.add_assoc] at hbool
  exact hcmp.yields hbool

/-- A comparison with zero, and the jump it decides. -/
lemma test_moves {l : Label} (hcode : CodeAt prog s.pc [.cmpImm .rax 0, .jcc c l])
    (hl : prog[p]? = some (.label l)) :
    ∃ s', Moves prog s s' ∧ s'.pc = (if c.holds (s.regs .rax) 0 then p else s.pc + 2) ∧
      s'.regs .rax = s.regs .rax := by
  set s₁ := (s.setFlags (some (s.regs .rax, 0))).next with hs₁
  have hcmp : Moves prog s s₁ := .single hcode.head rfl rfl
  by_cases hc : c.holds (s.regs .rax) 0
  · refine ⟨s₁.goto p, hcmp.trans (.single hcode.tail.head ?_ rfl), ?_, rfl⟩
    · rw [exec_jcc (show s₁.flags = some (s.regs .rax, 0) from rfl), if_pos hc,
        target_eq hnodup hl, map_some]
    · rw [if_pos hc]
      rfl
  · refine ⟨s₁.next, hcmp.trans (.single hcode.tail.head ?_ rfl), ?_, rfl⟩
    · rw [exec_jcc (show s₁.flags = some (s.regs .rax, 0) from rfl), if_neg hc]
    · rw [if_neg hc]
      rfl

end

/-! ### Locals -/

/-- The word-sized locals lie at or above `rsp` and hold the values `ρ`. -/
def Holds (locals : List Local) (ρ : Local → Word) (s : State) : Prop :=
  ∀ x ∈ locals, x.arrayLength = 0 →
    (s.regs .rsp).toNat ≤ s.addr .rbp x.stackOffset ∧ s.addr .rbp x.stackOffset + 8 ≤ 2 ^ 64 ∧
      BitVec.ofNat 64 (Mem.load 8 s.mem (s.addr .rbp x.stackOffset)) = ρ x

variable {locals : List Local} {ρ : Local → Word} {s' : State}

lemma addr_congr {r : Reg} (h : s'.regs r = s.regs r) (off : ℤ) : s'.addr r off = s.addr r off := by
  rw [State.addr, State.addr, h]

/-- A state with a lower `rsp` and the memory above the old one still holds them. -/
lemma Holds.congr (h : Holds locals ρ s) (hrsp : (s'.regs .rsp).toNat ≤ (s.regs .rsp).toNat)
    (hrbp : s'.regs .rbp = s.regs .rbp)
    (hmem : ∀ a, (s.regs .rsp).toNat ≤ a → s'.mem a = s.mem a) : Holds locals ρ s' := by
  intro x hx hlength
  obtain ⟨habove, hfits, hvalue⟩ := h x hx hlength
  rw [addr_congr hrbp]
  refine ⟨hrsp.trans habove, hfits, ?_⟩
  rw [← hvalue, Mem.load_congr fun a ha _ => hmem a (habove.trans ha)]

lemma Holds.of_sameStack (h : Holds locals ρ s) (hstack : SameStack s s') : Holds locals ρ s' :=
  h.congr (by rw [hstack.rsp]) hstack.rbp hstack.mem

lemma Holds.of_pushed (h : Holds locals ρ s) (hroom : 8 ≤ (s.regs .rsp).toNat)
    (hpushed : Pushed s x s') : Holds locals ρ s' := by
  refine h.congr ?_ (hpushed.regs _ (by decide)) hpushed.mem
  rw [hpushed.rsp, toNat_sub_eight hroom]
  omega

lemma loadLocal_yields {z : Local} (hholds : Holds locals ρ s) (hz : z ∈ locals)
    (hlength : z.arrayLength = 0) (hcode : CodeAt prog s.pc [loadLocal z]) :
    Yields prog s (s.pc + 1) (ρ z) := by
  obtain ⟨-, hfits, hvalue⟩ := hholds z hz hlength
  have hexec : exec prog s (loadLocal z) = some (s.set .rax (ρ z)).next := by
    rw [loadLocal, exec, State.read, if_pos hfits, map_some, Word.merge, if_pos (by decide), hvalue]
  exact ⟨_, .single hcode.head hexec rfl, rfl, rfl⟩

/-! ### Trees -/

mutual

/-- The number of words the code of the expression has on the stack at most. -/
def Expr.depth : Expr → ℕ
  | .num _ | .var _ | .call _ _ => 0
  | .paren e | .un _ e => e.depth
  | .bin _ l r | .cmp _ l r => max l.depth (r.depth + 1)
  | .logic _ first rest => max first.depth rest.depth
  | .cond c t f => max c.depth (max t.depth f.depth)

def Exprs.depth : Exprs → ℕ
  | .nil => 0
  | .cons e rest => max e.depth rest.depth

end

lemma operandCode_moves {code : Code} {d : ℕ} (hholds : Holds locals ρ s)
    (hroom : 8 * (d + 1) ≤ (s.regs .rsp).toNat) (hcode : CodeAt prog s.pc (operandCode code))
    (hright : ∀ s₁ : State, Holds locals ρ s₁ → 8 * d ≤ (s₁.regs .rsp).toNat →
      CodeAt prog s₁.pc code → Yields prog s₁ (s₁.pc + code.length) y) :
    ∃ s', Moves prog s s' ∧ s'.pc = s.pc + (operandCode code).length ∧
      s'.regs .rax = s.regs .rax ∧ s'.regs .rcx = y := by
  obtain ⟨s', hmoves, hpc, hrax, hrcx⟩ := Moves.operand hcode (by omega) fun s₁ hpushed => by
    rw [← hpushed.pc]
    refine hright s₁ (hholds.of_pushed (by omega) hpushed) ?_ ?_
    · rw [hpushed.rsp, toNat_sub_eight (by omega)]
      omega
    · rw [hpushed.pc]
      exact hcode.left.tail
  refine ⟨s', hmoves, ?_, hrax, hrcx⟩
  rw [hpc, operandCode]
  simp
  omega

lemma holds_logicJump (o : LogicOp) (x : Word) : o.jump.holds x 0 = o.decides x := by
  cases o with
  | and => simp only [LogicOp.jump, Cond.holds, LogicOp.decides, beq_eq_decide]
  | or => simp only [LogicOp.jump, Cond.holds, LogicOp.decides, bne, beq_eq_decide, decide_not]

/-- What an operand that decides the chain makes of it. -/
lemma truth_of_decides (h : o.decides x = true) : truth (x ≠ 0) = BitVec.ofNat 64 o.early := by
  cases o with
  | and =>
    obtain rfl : x = 0 := of_decide_eq_true h
    rfl
  | or =>
    have hx : x ≠ 0 := of_decide_eq_true h
    rw [decide_eq_true hx]
    rfl

lemma truth_of_not_decides (h : o.decides x = false) :
    truth (x ≠ 0) = BitVec.ofNat 64 (1 - o.early) := by
  cases o with
  | and =>
    have hx : x ≠ 0 := of_decide_eq_false h
    rw [decide_eq_true hx]
    rfl
  | or =>
    obtain rfl : x = 0 := not_not.mp (of_decide_eq_false h)
    rfl

/-- A jump to the end of a chain that one operand has decided. -/
lemma early_yields (hcode : CodeAt prog p (logicalEnd o early endLabel)) (hpc : s.pc = p + 4) :
    Yields prog s (p + 7) (BitVec.ofNat 64 o.early) := by
  have hlabel : Moves prog s s.next :=
    .single (by rw [hpc]; exact hcode.tail.tail.tail.tail.head) rfl rfl
  have hmov : Moves prog s.next (s.next.set .rax (BitVec.ofNat 64 o.early)).next :=
    .single (by rw [State.next, hpc]; exact hcode.tail.tail.tail.tail.tail.head) rfl rfl
  have hlabel' : Moves prog (s.next.set .rax (BitVec.ofNat 64 o.early)).next
      (s.next.set .rax (BitVec.ofNat 64 o.early)).next.next :=
    .single (by rw [State.next, State.set, State.next, hpc]
                exact hcode.tail.tail.tail.tail.tail.tail.head) rfl rfl
  refine ⟨_, (hlabel.trans hmov).trans hlabel', ?_, rfl⟩
  change s.pc + 1 + 1 + 1 = p + 7
  omega

/-- The end of a chain: the last operand is in `rax`. -/
lemma logicalEnd_yields (hnodup : (labels prog).Nodup)
    (hcode : CodeAt prog s.pc (logicalEnd o early endLabel)) :
    Yields prog s (s.pc + 7) (truth (s.regs .rax ≠ 0)) := by
  have htest : CodeAt prog s.pc ([.cmpImm .rax 0, .jcc o.jump early] ++ _) := hcode
  obtain ⟨s₁, hmoves, hpc, -⟩ := test_moves hnodup htest.left hcode.tail.tail.tail.tail.head
  rw [holds_logicJump] at hpc
  refine hmoves.yields ?_
  by_cases hdecides : o.decides (s.regs .rax) = true
  · rw [truth_of_decides hdecides]
    rw [if_pos hdecides] at hpc
    exact early_yields hcode hpc
  rw [if_neg hdecides] at hpc
  rw [truth_of_not_decides ((Bool.not_eq_true _).mp hdecides)]
  have hmov : Moves prog s₁ (s₁.set .rax (BitVec.ofNat 64 (1 - o.early))).next :=
    .single (by rw [hpc]; exact hcode.tail.tail.head) rfl rfl
  have hjump := hcode.tail.tail.tail.cast
    (q := (s₁.set .rax (BitVec.ofNat 64 (1 - o.early))).next.pc) (congrArg (· + 1) hpc).symm
  exact ⟨_, hmov.trans (.jmp hnodup hjump.head hcode.tail.tail.tail.tail.tail.tail.head), rfl, rfl⟩

/-- The code of `e` leaves its value in `rax`, wherever it stands in the program. -/
def Expr.Computes (prog : Code) (locals : List Local) (ρ : Local → Word) (e : Expr) : Prop :=
  ∀ ⦃n : ℕ⦄ ⦃s : State⦄ ⦃v : Word⦄, Holds locals ρ s → 8 * e.depth ≤ (s.regs .rsp).toNat →
    CodeAt prog s.pc (e.code n) → e.evalWith ZType.isUnsigned ρ = some v →
    Yields prog s (s.pc + (e.code n).length) v

/-- The later operands of a chain and its end compute the value of the chain, from the operand
before them in `rax`. -/
def Exprs.Computes (prog : Code) (locals : List Local) (ρ : Local → Word) (es : Exprs) : Prop :=
  ∀ ⦃o : LogicOp⦄ ⦃early endLabel : Label⦄ ⦃n : ℕ⦄ ⦃s : State⦄ ⦃v : Word⦄, Holds locals ρ s →
    8 * es.depth ≤ (s.regs .rsp).toNat →
    CodeAt prog s.pc (es.logicCode o early n ++ logicalEnd o early endLabel) →
    es.evalChain ZType.isUnsigned ρ o (s.regs .rax) = some v →
    Yields prog s (s.pc + (es.logicCode o early n ++ logicalEnd o early endLabel).length) v

variable {e l r c t f : Expr} {es : Exprs}

lemma Expr.Computes.un (hnodup : (labels prog).Nodup) (he : e.Computes prog locals ρ) (o : UnOp) :
    (Expr.un o e).Computes prog locals ρ := by
  intro n s v hholds hroom hcode heval
  rw [evalWith, map_eq_some_iff] at heval
  obtain ⟨x, hx, rfl⟩ := heval
  cases o with
  | neg =>
    obtain ⟨s₁, hmoves, hpc, rfl⟩ := he hholds hroom hcode.left hx
    have hneg := negCode_yields (s := s₁) (hpc ▸ hcode.right)
    rw [hpc] at hneg
    exact hmoves.yields (by simpa [code, negCode, UnOp.eval, Nat.add_assoc] using hneg)
  | bnot =>
    obtain ⟨s₁, hmoves, hpc, rfl⟩ := he hholds hroom hcode.left hx
    have hnot : Moves prog s₁ (s₁.set .rax (~~~ s₁.regs .rax)).next :=
      .single (by rw [hpc]; exact hcode.right.head) rfl rfl
    refine ⟨_, hmoves.trans hnot, ?_, rfl⟩
    simp [code, State.next, State.set, hpc, Nat.add_assoc]
  | lnot =>
    obtain ⟨s₁, hmoves, hpc, rfl⟩ := he hholds hroom hcode.left hx
    have hlnot := lnotCode_yields (s := s₁) hnodup (hpc ▸ hcode.right)
    rw [hpc] at hlnot
    exact hmoves.yields (by simpa [code, boolCode, Nat.add_assoc] using hlnot)

section

variable (hl : l.Computes prog locals ρ) (hr : r.Computes prog locals ρ)
include hl hr

/-- Both operands of a binary operator, in `rax` and `rcx`. -/
lemma operands_moves {n : ℕ} (hholds : Holds locals ρ s)
    (hroom : 8 * max l.depth (r.depth + 1) ≤ (s.regs .rsp).toNat)
    (hcode : CodeAt prog s.pc (l.code n ++ operandCode (r.code (n + l.labelCount))))
    (hx : l.evalWith ZType.isUnsigned ρ = some x) (hy : r.evalWith ZType.isUnsigned ρ = some y) :
    ∃ s', Moves prog s s' ∧
      s'.pc = s.pc + (l.code n ++ operandCode (r.code (n + l.labelCount))).length ∧
      s'.regs .rax = x ∧ s'.regs .rcx = y := by
  obtain ⟨s₁, hmoves₁, hpc₁, hrax₁⟩ := hl hholds (by omega) hcode.left hx
  obtain ⟨s₂, hmoves₂, hpc₂, hrax₂, hrcx₂⟩ := operandCode_moves (d := r.depth)
    (hholds.of_sameStack hmoves₁.2) (by rw [hmoves₁.2.rsp]; omega) (hpc₁ ▸ hcode.right)
    fun _ hholds' hroom' hcode' => hr hholds' hroom' hcode' hy
  refine ⟨s₂, hmoves₁.trans hmoves₂, ?_, hrax₂.trans hrax₁, hrcx₂⟩
  rw [hpc₂, hpc₁, List.length_append, Nat.add_assoc]

lemma Expr.Computes.bin (o : BinOp) : (Expr.bin o l r).Computes prog locals ρ := by
  intro n s v hholds hroom hcode heval
  simp only [evalWith, bind_eq_some_iff] at heval
  obtain ⟨x, hx, y, hy, hop⟩ := heval
  obtain ⟨s₁, hmoves, hpc, rfl, rfl⟩ := operands_moves hl hr hholds hroom hcode.left hx hy
  have hyields := opCode_yields (s := s₁) (hpc ▸ hcode.right) hop
  rw [hpc, Nat.add_assoc, ← List.length_append] at hyields
  exact hmoves.yields hyields

end

lemma Expr.Computes.cmp (hnodup : (labels prog).Nodup) (hl : l.Computes prog locals ρ)
    (hr : r.Computes prog locals ρ) (o : CmpOp) : (Expr.cmp o l r).Computes prog locals ρ := by
  intro n s v hholds hroom hcode heval
  simp only [evalWith, bind_eq_some_iff, map_eq_some_iff] at heval
  obtain ⟨x, hx, y, hy, rfl⟩ := heval
  obtain ⟨s₁, hmoves, hpc, rfl, rfl⟩ := operands_moves hl hr hholds hroom hcode.left hx hy
  have hyields := cmpCode_yields (s := s₁) hnodup (hpc ▸ hcode.right)
  rw [hpc, Nat.add_assoc] at hyields
  refine hmoves.yields ?_
  rwa [code, List.length_append]

lemma Expr.Computes.logic (hfirst : e.Computes prog locals ρ) (hrest : es.Computes prog locals ρ)
    (o : LogicOp) : (logic o e es).Computes prog locals ρ := by
  intro n s v hholds hroom hcode heval
  simp only [evalWith, bind_eq_some_iff] at heval
  obtain ⟨x, hx, hchain⟩ := heval
  simp only [depth] at hroom
  rw [code, List.append_assoc] at hcode ⊢
  obtain ⟨s₁, hmoves, hpc, rfl⟩ := hfirst hholds (by omega) hcode.left hx
  have hyields := hrest (hholds.of_sameStack hmoves.2) (by rw [hmoves.2.rsp]; omega)
    (hpc ▸ hcode.right) hchain
  rw [hpc, Nat.add_assoc, ← List.length_append] at hyields
  exact hmoves.yields hyields

section

variable (hnodup : (labels prog).Nodup)
include hnodup

lemma Exprs.Computes.nil : Exprs.nil.Computes prog locals ρ := by
  intro o early endLabel n s v _ _ hcode heval
  obtain rfl := some.inj heval
  exact logicalEnd_yields hnodup hcode

lemma Expr.Computes.cons_chain (he : e.Computes prog locals ρ) (hrest : es.Computes prog locals ρ) :
    (cons e es).Computes prog locals ρ := by
  intro o early endLabel n s v hholds hroom hcode heval
  simp only [Exprs.depth] at hroom
  rw [evalChain] at heval
  have hend := hcode.right
  rw [logicCode, List.append_assoc, List.append_assoc] at hcode ⊢
  obtain ⟨s₁, hmoves, hpc, hrax⟩ := test_moves hnodup hcode.left hend.tail.tail.tail.tail.head
  rw [holds_logicJump] at hpc
  by_cases hdecides : o.decides (s.regs .rax) = true
  · rw [if_pos hdecides] at hpc heval
    obtain rfl := some.inj heval
    rw [truth_of_decides hdecides]
    have hyields := early_yields hend hpc
    exact hmoves.yields (hyields.cast (by simp [logicCode, logicalEnd, Nat.add_assoc]))
  rw [if_neg hdecides] at hpc heval
  obtain ⟨x, hx, hchain⟩ := bind_eq_some_iff.mp heval
  have hstack := hmoves.2
  obtain ⟨s₂, hmoves₂, hpc₂, rfl⟩ := he (hholds.of_sameStack hstack)
    (by rw [hstack.rsp]; omega) (hpc ▸ hcode.right.left) hx
  have hstack₂ := hstack.trans hmoves₂.2
  rw [hpc] at hpc₂
  have hyields := hrest (hholds.of_sameStack hstack₂) (by rw [hstack₂.rsp]; omega)
    (hpc₂ ▸ hcode.right.right) hchain
  exact (hmoves.trans hmoves₂).yields (hyields.cast (by simp [hpc₂]; omega))

lemma Expr.Computes.cond (hc : c.Computes prog locals ρ) (ht : t.Computes prog locals ρ)
    (hf : f.Computes prog locals ρ) : (cond c t f).Computes prog locals ρ := by
  intro n s v hholds hroom hcode heval
  simp only [evalWith, bind_eq_some_iff] at heval
  obtain ⟨x, hx, hbranch⟩ := heval
  simp only [depth] at hroom
  have hjump := hcode.left.left.right
  obtain ⟨s₁, hmoves₁, hpc₁, rfl⟩ := hc hholds (by omega) hcode.left.left.left.left.left hx
  obtain ⟨s₂, hmoves₂, hpc₂, -⟩ := test_moves hnodup (hpc₁ ▸ hcode.left.left.left.left.right)
    hjump.tail.head
  have hmoves := hmoves₁.trans hmoves₂
  have hholds₂ := hholds.of_sameStack hmoves.2
  by_cases hzero : s₁.regs .rax = 0
  · -- over the label in front of the code of `f`
    rw [if_pos hzero] at hbranch
    rw [if_pos (by simp [Cond.holds, hzero])] at hpc₂
    have hlabel : Moves prog s₂ s₂.next := .single (by rw [hpc₂]; exact hjump.tail.head) rfl rfl
    have hpc₃ : s₂.next.pc = s₂.pc + 1 := rfl
    obtain ⟨s₃, hmoves₃, hpc₄, rfl⟩ := hf (hholds₂.of_sameStack hlabel.2)
      (by rw [hlabel.2.rsp, hmoves.2.rsp]; omega)
      (hcode.left.right.cast (by rw [hpc₃, hpc₂]; simp; omega)) hbranch
    have hend := hcode.right.cast (q := s₃.pc) (by rw [hpc₄, hpc₃, hpc₂]; simp; omega)
    have hlabel' : Moves prog s₃ s₃.next := .single hend.head rfl rfl
    refine ⟨_, ((hmoves.trans hlabel).trans hmoves₃).trans hlabel', ?_, rfl⟩
    change s₃.pc + 1 = _
    rw [hpc₄, hpc₃, hpc₂, code]
    simp
    omega
  · -- through the code of `t`, and from its end over that of `f`
    rw [if_neg hzero] at hbranch
    rw [if_neg (by simpa [Cond.holds] using hzero), hpc₁] at hpc₂
    obtain ⟨s₃, hmoves₃, hpc₃, rfl⟩ := ht hholds₂ (by rw [hmoves.2.rsp]; omega)
      (hcode.left.left.left.right.cast (by rw [hpc₂]; simp; omega)) hbranch
    have hjump' := hjump.cast (q := s₃.pc) (by rw [hpc₃, hpc₂]; simp; omega)
    refine ⟨_, (hmoves.trans hmoves₃).trans (.jmp hnodup hjump'.head hcode.right.head), ?_, rfl⟩
    change s.pc + _ + 1 = _
    rw [code]
    simp
    omega

end

variable {functions : List Function}

mutual

/-- The code of an expression leaves its value in `rax`. -/
theorem Expr.computes (hnodup : (labels prog).Nodup) (ρ : Local → Word) : ∀ (e : Expr),
    e.Resolved locals functions → e.Computes prog locals ρ
  | .num _, _ => by
    intro n s v _ _ hcode heval
    obtain rfl := some.inj heval
    exact ⟨_, .single hcode.head rfl rfl, rfl, rfl⟩
  | .var x, hresolved => by
    intro n s v hholds _ hcode heval
    obtain rfl := some.inj heval
    exact loadLocal_yields hholds (List.mem_of_find?_eq_some hresolved.1) hresolved.2 hcode
  | .paren e, hresolved => Expr.computes hnodup ρ e hresolved
  | .call f args, _ => by
    intro n s v _ _ _ heval
    simp [evalWith] at heval
  | .un o e, hresolved => (Expr.computes hnodup ρ e hresolved).un hnodup o
  | .bin o l r, hresolved =>
    (Expr.computes hnodup ρ l hresolved.1).bin (Expr.computes hnodup ρ r hresolved.2) o
  | .cmp o l r, hresolved =>
    (Expr.computes hnodup ρ l hresolved.1).cmp hnodup (Expr.computes hnodup ρ r hresolved.2) o
  | .logic o first rest, hresolved =>
    (Expr.computes hnodup ρ first hresolved.1).logic (Exprs.computes hnodup ρ rest hresolved.2) o
  | .cond c t f, hresolved =>
    (Expr.computes hnodup ρ c hresolved.1).cond hnodup (Expr.computes hnodup ρ t hresolved.2.1)
      (Expr.computes hnodup ρ f hresolved.2.2)

lemma Exprs.computes (hnodup : (labels prog).Nodup) (ρ : Local → Word) : ∀ (es : Exprs),
    es.Resolved locals functions → es.Computes prog locals ρ
  | .nil, _ => Exprs.Computes.nil hnodup
  | .cons e rest, hresolved =>
    (Expr.computes hnodup ρ e hresolved.1).cons_chain hnodup
      (Exprs.computes hnodup ρ rest hresolved.2)

end

end ZScript
