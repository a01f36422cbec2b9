import LainOS.Lib.X64

/-!
# The state of the Z compiler

`.Z` sources are compiled in one pass: while it reads tokens the compiler appends assembly lines to
its output. `Compiler` is the part of `z_compiler_t` that expressions of type `int` use. The output
is a list of instructions instead of their text, and the tokens are those the lexer would still
deliver, the current one first.
-/

namespace ZScript

open X64

abbrev Name : Type := String

inductive BinOp
  | mul | div | mod | add | sub | shl | shr | and | xor | or
  deriving DecidableEq, Repr

inductive CmpOp
  | eq | ne | lt | le | gt | ge
  deriving DecidableEq, Repr

inductive Token
  | number (n : ℕ) | ident (name : Name)
  | lparen | rparen | lbrace | rbrace | lbracket | rbracket | semi | comma | question | colon
  | assign | bang | tilde | ampAmp | pipePipe | plusPlus | minusMinus
  /-- `*`, `/`, `%`, `+`, `-`, `<<`, `>>`, `&`, `^`, `|`. -/
  | op (o : BinOp)
  | cmp (o : CmpOp)
  deriving DecidableEq, Repr

/-! ### Types -/

/-- The integer types. -/
inductive ZType
  | int | i8 | i16 | i32 | i64 | u8 | u16 | u32 | u64
  deriving DecidableEq, Repr

namespace ZType

def bitWidth : ZType → ℕ
  | .i8 | .u8 => 8
  | .i16 | .u16 => 16
  | .i32 | .u32 => 32
  | .int | .i64 | .u64 => 64

def isUnsigned : ZType → Bool
  | .u8 | .u16 | .u32 | .u64 => true
  | _ => false

def forBits (bits : ℕ) (isUnsigned : Bool) : ZType :=
  if bits ≤ 8 then if isUnsigned then .u8 else .i8
  else if bits ≤ 16 then if isUnsigned then .u16 else .i16
  else if bits ≤ 32 then if isUnsigned then .u32 else .i32
  else if isUnsigned then .u64 else .i64

def promoteBinary (left right : ZType) : ZType :=
  let bits := max (max left.bitWidth right.bitWidth) 32
  let isUnsigned := left.isUnsigned || right.isUnsigned
  let bits :=
    if left = .int ∨ right = .int then if isUnsigned = false ∧ bits < 64 then 64 else bits else bits
  forBits bits isUnsigned

end ZType

/-! ### The compiler -/

inductive Label
  /-- The labels `z_make_label` numbers. -/
  | zl (n : ℕ)
  | func (name : Name)
  deriving DecidableEq, Repr

abbrev Code : Type := List (Instr Label)

/-- A local of type `int`: a word, or an array of `arrayLength` words. -/
structure Local where
  name : Name
  stackOffset : ℤ
  arrayLength : ℕ
  deriving DecidableEq, Repr

/-- A declared function of `paramCount` parameters; these and its result are `int`s. -/
structure Function where
  name : Name
  paramCount : ℕ
  deriving DecidableEq, Repr

structure Compiler where
  tokens : List Token
  out : Code
  labelCounter : ℕ
  functions : List Function
  locals : List Local
  deriving DecidableEq, Repr

def maxParams : ℕ := 12
def registerParamCount : ℕ := 6

/-- A parse function: none where it reports an error. -/
abbrev Parse (α : Type) : Type := StateT Compiler Option α

def fail {α : Type} : Parse α := fun _ => none

/-- The current token; none at the end of the source. -/
def current : Parse (Option Token) := fun c => some (c.tokens.head?, c)

def nextToken : Parse Unit := fun c => some ((), { c with tokens := c.tokens.tail })

def expect (t : Token) : Parse Unit := fun c =>
  match c.tokens with
  | [] => none
  | t' :: rest => if t' = t then some ((), { c with tokens := rest }) else none

def emit (i : Instr Label) : Parse Unit := fun c => some ((), { c with out := c.out ++ [i] })

def emitAll (code : Code) : Parse Unit := fun c => some ((), { c with out := c.out ++ code })

def makeLabel : Parse Label := fun c =>
  some (.zl c.labelCounter, { c with labelCounter := c.labelCounter + 1 })

def findLocal (name : Name) : Parse (Option Local) := fun c =>
  some (c.locals.find? (·.name = name), c)

def findFunction (name : Name) : Parse (Option Function) := fun c =>
  some (c.functions.find? (·.name = name), c)

end ZScript
