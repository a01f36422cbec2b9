import LainOS.ZScript.Tree

/-!
# Values of expressions

Values are 64-bit words. An expression has none if it divides by zero or its quotient overflows;
calls are given none here. The rules of Z and of C differ in one thing: which types count as
unsigned when operands are compared or shifted right. Every operand of an `int` expression is
signed in C, while in Z the result of a comparison has the type `u8`.
-/

namespace ZScript

open X64

def UnOp.eval (x : Word) : UnOp → Word
  | .neg => -x
  | .bnot => ~~~x
  | .lnot => if x = 0 then 1 else 0

/-- Division truncates; there is no result where `idiv` faults. -/
def divides (x y : Word) : Bool := y ≠ 0 ∧ x.toInt.tdiv y.toInt ≠ 2 ^ 63

def BinOp.eval (unsignedLeft : Bool) (x y : Word) : BinOp → Option Word
  | .mul => some (x * y)
  | .div => if divides x y then some (BitVec.ofInt 64 (x.toInt.tdiv y.toInt)) else none
  | .mod => if divides x y then some (BitVec.ofInt 64 (x.toInt.tmod y.toInt)) else none
  | .add => some (x + y)
  | .sub => some (x - y)
  | .shl => some (x <<< (y.toNat % 64))
  | .shr =>
    some (if unsignedLeft then x >>> (y.toNat % 64) else x.sshiftRight (y.toNat % 64))
  | .and => some (x &&& y)
  | .xor => some (x ^^^ y)
  | .or => some (x ||| y)

def CmpOp.eval (isUnsigned : Bool) (x y : Word) : CmpOp → Bool
  | .eq => x = y
  | .ne => x ≠ y
  | .lt => if isUnsigned then x.toNat < y.toNat else x.toInt < y.toInt
  | .le => if isUnsigned then x.toNat ≤ y.toNat else x.toInt ≤ y.toInt
  | .gt => if isUnsigned then y.toNat < x.toNat else y.toInt < x.toInt
  | .ge => if isUnsigned then y.toNat ≤ x.toNat else y.toInt ≤ x.toInt

/-- Whether an operand decides a chain. -/
def LogicOp.decides (x : Word) : LogicOp → Bool
  | .and => x = 0
  | .or => x ≠ 0

def truth (b : Bool) : Word := if b then 1 else 0

section

variable (isUnsigned : ZType → Bool) (ρ : Local → Word)

mutual

/-- The value under the given signedness rule; `ρ` gives the values of the locals. -/
def Expr.evalWith : Expr → Option Word
  | .num n => some (BitVec.ofNat 64 n)
  | .var x => some (ρ x)
  | .paren e => e.evalWith
  | .call _ _ => none
  | .un o e => e.evalWith.map o.eval
  | .bin o l r =>
    l.evalWith.bind fun x => r.evalWith.bind fun y => o.eval (isUnsigned l.type) x y
  | .cmp o l r =>
    l.evalWith.bind fun x => r.evalWith.map fun y =>
      truth (o.eval (isUnsigned (l.type.promoteBinary r.type)) x y)
  | .logic o first rest => first.evalWith.bind (rest.evalChain o)
  | .cond c t f => c.evalWith.bind fun x => if x = 0 then f.evalWith else t.evalWith

/-- The value of a chain whose operand before these was `x`. -/
def Exprs.evalChain (o : LogicOp) : Exprs → Word → Option Word
  | .nil, x => some (truth (x ≠ 0))
  | .cons e rest, x =>
    if o.decides x then some (truth (x ≠ 0)) else e.evalWith.bind (rest.evalChain o)

end

end

/-- The value in Z. -/
def Expr.zEval : (Local → Word) → Expr → Option Word := Expr.evalWith ZType.isUnsigned

/-- The value in C, modulo `2 ^ 64`. -/
def Expr.cEval : (Local → Word) → Expr → Option Word := Expr.evalWith fun _ => false

mutual

/-- Nothing unsigned is compared or shifted right. -/
def Expr.Signed : Expr → Bool
  | .num _ | .var _ => true
  | .paren e | .un _ e => e.Signed
  | .call _ args => args.Signed
  | .bin o l r => (o ≠ .shr || !l.type.isUnsigned) && l.Signed && r.Signed
  | .cmp _ l r => !(l.type.promoteBinary r.type).isUnsigned && l.Signed && r.Signed
  | .logic _ first rest => first.Signed && rest.Signed
  | .cond c t f => c.Signed && t.Signed && f.Signed

def Exprs.Signed : Exprs → Bool
  | .nil => true
  | .cons e rest => e.Signed && rest.Signed

end

lemma BinOp.eval_congr {o : BinOp} {b : Bool} (h : o ≠ .shr ∨ b = false) (x y : Word) :
    o.eval b x y = o.eval false x y := by
  rcases h with h | rfl
  · cases o with
    | shr => exact absurd rfl h
    | _ => rfl
  · rfl

mutual

/-- Without unsigned operands the two languages agree. -/
lemma Expr.evalWith_congr (ρ : Local → Word) : ∀ {e : Expr}, e.Signed = true →
    e.evalWith ZType.isUnsigned ρ = e.evalWith (fun _ => false) ρ
  | .num _, _ | .var _, _ | .call _ _, _ => rfl
  | .paren e, h => Expr.evalWith_congr ρ (e := e) h
  | .un o e, h => by
    rw [Expr.evalWith, Expr.evalWith, Expr.evalWith_congr ρ (e := e) h]
  | .bin o l r, h => by
    simp only [Expr.Signed, Bool.and_eq_true, Bool.or_eq_true, decide_eq_true_eq,
      Bool.not_eq_true'] at h
    rw [Expr.evalWith, Expr.evalWith, Expr.evalWith_congr ρ h.1.2, Expr.evalWith_congr ρ h.2]
    simp only [BinOp.eval_congr h.1.1]
  | .cmp o l r, h => by
    simp only [Expr.Signed, Bool.and_eq_true, Bool.not_eq_true'] at h
    rw [Expr.evalWith, Expr.evalWith, Expr.evalWith_congr ρ h.1.2, Expr.evalWith_congr ρ h.2, h.1.1]
  | .logic o first rest, h => by
    simp only [Expr.Signed, Bool.and_eq_true] at h
    rw [Expr.evalWith, Expr.evalWith, Expr.evalWith_congr ρ h.1, Exprs.evalChain_congr ρ h.2]
  | .cond c t f, h => by
    simp only [Expr.Signed, Bool.and_eq_true] at h
    rw [Expr.evalWith, Expr.evalWith, Expr.evalWith_congr ρ h.1.1, Expr.evalWith_congr ρ h.1.2,
      Expr.evalWith_congr ρ h.2]

lemma Exprs.evalChain_congr (ρ : Local → Word) {o : LogicOp} : ∀ {es : Exprs}, es.Signed = true →
    es.evalChain ZType.isUnsigned ρ o = es.evalChain (fun _ => false) ρ o
  | .nil, _ => by
    funext x
    rw [Exprs.evalChain, Exprs.evalChain]
  | .cons e rest, h => by
    simp only [Exprs.Signed, Bool.and_eq_true] at h
    funext x
    rw [Exprs.evalChain, Exprs.evalChain, Expr.evalWith_congr ρ h.1, Exprs.evalChain_congr ρ h.2]

end

end ZScript
