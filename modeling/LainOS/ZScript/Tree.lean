import LainOS.ZScript.ParseExpr

/-!
# Syntax trees and their code

The compiler builds no trees. Here they say what a run of it has read: `print` gives back the tokens
of a tree, and `code` the lines that are emitted for it when the next label has the number `n`.
Locals and functions stand in a tree as the records their names were resolved to.
-/

namespace ZScript

open X64

inductive UnOp
  | neg | bnot | lnot
  deriving DecidableEq, Repr

def UnOp.token : UnOp → Token
  | .neg => .op .sub
  | .bnot => .tilde
  | .lnot => .bang

mutual

inductive Expr
  | num (n : ℕ)
  | var (x : Local)
  | paren (e : Expr)
  | call (f : Function) (args : Exprs)
  | un (o : UnOp) (e : Expr)
  | bin (o : BinOp) (left right : Expr)
  | cmp (o : CmpOp) (left right : Expr)
  /-- A chain `first && …` or `first || …` of operands. -/
  | logic (o : LogicOp) (first : Expr) (rest : Exprs)
  | cond (c t f : Expr)

inductive Exprs
  | nil
  | cons (e : Expr) (rest : Exprs)

end

/-! ### Expressions -/

def Exprs.length : Exprs → ℕ
  | .nil => 0
  | .cons _ rest => rest.length + 1

mutual

/-- The number of labels made while the expression is parsed. -/
def Expr.labelCount : Expr → ℕ
  | .num _ | .var _ => 0
  | .paren e => e.labelCount
  | .call _ args => args.labelCount
  | .un .lnot e => e.labelCount + 2
  | .un _ e => e.labelCount
  | .bin _ l r => l.labelCount + r.labelCount
  | .cmp _ l r => l.labelCount + r.labelCount + 2
  | .logic _ first rest => first.labelCount + 2 + rest.labelCount
  | .cond c t f => c.labelCount + 2 + t.labelCount + f.labelCount

def Exprs.labelCount : Exprs → ℕ
  | .nil => 0
  | .cons e rest => e.labelCount + rest.labelCount

end

def Expr.type : Expr → ZType
  | .num _ | .var _ | .call _ _ | .un .lnot _ => .int
  | .paren e | .un _ e => e.type
  | .bin o l r => opType l.type r.type o
  | .cmp _ _ _ | .logic _ _ _ => .u8
  | .cond _ t f => t.type.promoteBinary f.type

def loadLocal (x : Local) : Instr Label := .load 8 .rax .rbp x.stackOffset

/-- The left operand has been computed; the right one is `code`. Both end up in `rax` and `rcx`. -/
def operandCode (code : Code) : Code := .push .rax :: code ++ [.mov .rcx .rax, .pop .rax]

mutual

def Expr.code : Expr → ℕ → Code
  | .num v, _ => [.movImm .rax v]
  | .var x, _ => [loadLocal x]
  | .paren e, n => e.code n
  | .call f args, n => args.argsCode n ++ callCode f.name args.length
  | .un .neg e, n => e.code n ++ negCode
  | .un .bnot e, n => e.code n ++ [.not .rax]
  | .un .lnot e, n => e.code (n + 2) ++ .cmpImm .rax 0 :: boolCode .e (.zl n) (.zl (n + 1))
  | .bin o l r, n => l.code n ++ operandCode (r.code (n + l.labelCount)) ++ opCode l.type o
  | .cmp o l r, n =>
    l.code n ++ operandCode (r.code (n + l.labelCount)) ++ .cmp .rax .rcx ::
      boolCode (o.jump (l.type.promoteBinary r.type).isUnsigned)
        (.zl (n + l.labelCount + r.labelCount)) (.zl (n + l.labelCount + r.labelCount + 1))
  | .logic o first rest, n =>
    first.code n ++ rest.logicCode o (.zl (n + first.labelCount)) (n + first.labelCount + 2) ++
      logicalEnd o (.zl (n + first.labelCount)) (.zl (n + first.labelCount + 1))
  | .cond c t f, n =>
    c.code n ++ [.cmpImm .rax 0, .jcc .e (.zl (n + c.labelCount))] ++
      t.code (n + c.labelCount + 2) ++
      [.jmp (.zl (n + c.labelCount + 1)), .label (.zl (n + c.labelCount))] ++
      f.code (n + c.labelCount + 2 + t.labelCount) ++ [.label (.zl (n + c.labelCount + 1))]

/-- Arguments, each pushed. -/
def Exprs.argsCode : Exprs → ℕ → Code
  | .nil, _ => []
  | .cons e rest, n => e.code n ++ .push .rax :: rest.argsCode (n + e.labelCount)

/-- The later operands of a chain, each behind the jump that skips it. -/
def Exprs.logicCode (o : LogicOp) (early : Label) : Exprs → ℕ → Code
  | .nil, _ => []
  | .cons e rest, n =>
    [.cmpImm .rax 0, .jcc o.jump early] ++ e.code n ++ rest.logicCode o early (n + e.labelCount)

end

mutual

def Expr.print : Expr → List Token
  | .num v => [.number v]
  | .var x => [.ident x.name]
  | .paren e => .lparen :: e.print ++ [.rparen]
  | .call f .nil => [.ident f.name, .lparen, .rparen]
  | .call f (.cons e rest) =>
    .ident f.name :: .lparen :: e.print ++ rest.printChain .comma ++ [.rparen]
  | .un o e => o.token :: e.print
  | .bin o l r => l.print ++ .op o :: r.print
  | .cmp o l r => l.print ++ .cmp o :: r.print
  | .logic o first rest => first.print ++ rest.printChain o.token
  | .cond c t f => c.print ++ .question :: t.print ++ .colon :: f.print

/-- Expressions, each behind the separator. -/
def Exprs.printChain (separator : Token) : Exprs → List Token
  | .nil => []
  | .cons e rest => separator :: e.print ++ rest.printChain separator

end

/-! ### Grouping -/

/-- How tightly the operators of a language bind; a smaller number binds tighter. The left operand
of a comparison may have the level `cmpLeft`. -/
structure Grammar where
  bin : BinOp → ℕ
  cmp : CmpOp → ℕ
  cmpLeft : CmpOp → ℕ
  logic : LogicOp → ℕ
  cond : ℕ

/-- In Z the bitwise operators bind tighter than the comparisons, and comparisons do not
associate. -/
def zGrammar : Grammar where
  bin
    | .mul | .div | .mod => 2
    | .add | .sub => 3
    | .shl | .shr => 4
    | .and => 5
    | .xor => 6
    | .or => 7
  cmp _ := 8
  cmpLeft _ := 7
  logic
    | .and => 9
    | .or => 10
  cond := 11

def cGrammar : Grammar where
  bin
    | .mul | .div | .mod => 2
    | .add | .sub => 3
    | .shl | .shr => 4
    | .and => 7
    | .xor => 8
    | .or => 9
  cmp
    | .eq | .ne => 6
    | _ => 5
  cmpLeft
    | .eq | .ne => 6
    | _ => 5
  logic
    | .and => 10
    | .or => 11
  cond := 12

def Expr.level (g : Grammar) : Expr → ℕ
  | .num _ | .var _ | .paren _ | .call _ _ => 0
  | .un _ _ => 1
  | .bin o _ _ => g.bin o
  | .cmp o _ _ => g.cmp o
  | .logic o _ _ => g.logic o
  | .cond _ _ _ => g.cond

mutual

/-- The tree is the one the grammar gives its tokens: every operand binds at least as tightly as its
place demands, and a chain has a second operand. -/
def Expr.Grouped (g : Grammar) : Expr → Prop
  | .num _ | .var _ => True
  | .paren e => e.Grouped g
  | .call _ args => args.Grouped g g.cond
  | .un _ e => e.level g ≤ 1 ∧ e.Grouped g
  | .bin o l r => (l.level g ≤ g.bin o ∧ l.Grouped g) ∧ r.level g < g.bin o ∧ r.Grouped g
  | .cmp o l r => (l.level g ≤ g.cmpLeft o ∧ l.Grouped g) ∧ r.level g < g.cmp o ∧ r.Grouped g
  | .logic o first rest =>
    (first.level g < g.logic o ∧ first.Grouped g) ∧ 0 < rest.length ∧ rest.Grouped g (g.logic o - 1)
  | .cond c t f => (c.level g < g.cond ∧ c.Grouped g) ∧ t.Grouped g ∧ f.Grouped g

/-- All of them are grouped and of the level `k` at most. -/
def Exprs.Grouped (g : Grammar) (k : ℕ) : Exprs → Prop
  | .nil => True
  | .cons e rest => (e.level g ≤ k ∧ e.Grouped g) ∧ rest.Grouped g k

end

mutual

/-- Locals and functions are those the tables give for their names. -/
def Expr.Resolved (locals : List Local) (functions : List Function) : Expr → Prop
  | .num _ => True
  | .var x => locals.find? (·.name = x.name) = some x ∧ x.arrayLength = 0
  | .paren e | .un _ e => e.Resolved locals functions
  | .call f args =>
    (functions.find? (·.name = f.name) = some f ∧ args.length = f.paramCount ∧
      args.length ≤ maxParams) ∧ args.Resolved locals functions
  | .bin _ l r | .cmp _ l r => l.Resolved locals functions ∧ r.Resolved locals functions
  | .logic _ first rest => first.Resolved locals functions ∧ rest.Resolved locals functions
  | .cond c t f =>
    c.Resolved locals functions ∧ t.Resolved locals functions ∧ f.Resolved locals functions

def Exprs.Resolved (locals : List Local) (functions : List Function) : Exprs → Prop
  | .nil => True
  | .cons e rest => e.Resolved locals functions ∧ rest.Resolved locals functions

end

end ZScript
