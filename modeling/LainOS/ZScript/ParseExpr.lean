import LainOS.ZScript.Emit

/-!
# Parsing and compiling expressions

The levels of `z_parse_expr`, from the tightest to the loosest. Every level takes the parser of
whole expressions, which it needs inside parentheses and arguments, and leaves the value of what it
has read in `rax`. The recursion of the source, and each of its loops, is bounded by `fuel`; running
out of it is reported like a syntax error, and every source is parsed in full with some bound.
-/

namespace ZScript

open X64

/-- Which arguments of a call go where, once they have been pushed one by one: the first six into
registers. Further arguments stay on the stack, in the reverse order. -/
def argRegisters : List Reg := [.rdi, .rsi, .rdx, .rcx, .r8, .r9]

def swapStackArgs (stackArgCount i : ℕ) : Code :=
  [.load 8 .rax .rsp ↑(i * 8), .load 8 .rcx .rsp ↑((stackArgCount - 1 - i) * 8),
   .store 8 .rsp ↑(i * 8) .rcx, .store 8 .rsp ↑((stackArgCount - 1 - i) * 8) .rax]

def loadArgs (argCount : ℕ) : Code :=
  if argCount > registerParamCount then
    argRegisters.zipIdx.map (fun (r, i) => .load 8 r .rsp ↑((argCount - 1 - i) * 8)) ++
      (List.range ((argCount - registerParamCount) / 2)).flatMap
        (swapStackArgs (argCount - registerParamCount))
  else (argRegisters.take argCount).reverse.map .pop

/-- The call of a function whose arguments have been pushed. -/
def callCode (name : Name) (argCount : ℕ) : Code :=
  loadArgs argCount ++ .call (.func name) ::
    if argCount > registerParamCount then [.aluImm .add .rsp (argCount * 8)] else []

def parseArgs (expr : Parse ZType) : ℕ → ℕ → Parse ℕ
  | 0, _ => fail
  | fuel + 1, argCount => do
    if argCount ≥ maxParams then fail
    let _ ← expr
    emit (.push .rax)
    if (← current) = some .comma then
      nextToken
      parseArgs expr fuel (argCount + 1)
    else pure (argCount + 1)

/-- The current token is the parenthesis after `name`. -/
def parseCallExpression (fuel : ℕ) (expr : Parse ZType) (name : Name) : Parse ZType := do
  if (← findLocal name).isSome then fail
  match ← findFunction name with
  | none => fail
  | some f =>
    expect .lparen
    let argCount ← if (← current) = some .rparen then pure 0 else parseArgs expr fuel 0
    expect .rparen
    if argCount = f.paramCount then
      emitAll (callCode f.name argCount)
      pure .int
    else fail

/-- Numbers, locals of one word, calls and parentheses. Left out is what the source goes on with
behind a local: `++`, `--`, `[`, `.` and `->`. -/
def parsePrimary (fuel : ℕ) (expr : Parse ZType) : Parse ZType := do
  match ← current with
  | some (.number n) =>
    nextToken
    emit (.movImm .rax n)
    pure .int
  | some (.ident name) =>
    nextToken
    if (← current) = some .lparen then parseCallExpression fuel expr name
    else
      match ← findLocal name with
      | none => fail
      | some x =>
        if x.arrayLength = 0 then
          emit (.load 8 .rax .rbp x.stackOffset)
          pure .int
        else fail
  | some .lparen =>
    nextToken
    let type ← expr
    expect .rparen
    pure type
  | _ => fail

/-- One or zero in `rax`, from a comparison just made. -/
def boolCode (c : Cond) (trueLabel endLabel : Label) : Code :=
  [.jcc c trueLabel, .movImm .rax 0, .jmp endLabel, .label trueLabel, .movImm .rax 1,
   .label endLabel]

def negCode : Code := [.movImm .rcx 0, .alu .sub .rcx .rax, .mov .rax .rcx]

def parseUnary (expr : Parse ZType) : ℕ → Parse ZType
  | 0 => fail
  | fuel + 1 => do
    match ← current with
    | some (.op .sub) =>
      nextToken
      let type ← parseUnary expr fuel
      emitAll negCode
      pure type
    | some .tilde =>
      nextToken
      let type ← parseUnary expr fuel
      emit (.not .rax)
      pure type
    | some .bang =>
      let trueLabel ← makeLabel
      let endLabel ← makeLabel
      nextToken
      let _ ← parseUnary expr fuel
      emitAll (.cmpImm .rax 0 :: boolCode .e trueLabel endLabel)
      pure .int
    | _ => parsePrimary fuel expr

/-! ### Binary operators -/

def divCode (rest : Code) : Code := .cqo :: .idiv .rcx :: rest

/-- The operation on `rax` and `rcx`; `left` is the type of the left operand. -/
def opCode (left : ZType) : BinOp → Code
  | .mul => [.alu .imul .rax .rcx]
  | .div => divCode []
  | .mod => divCode [.mov .rax .rdx]
  | .add => [.alu .add .rax .rcx]
  | .sub => [.alu .sub .rax .rcx]
  | .shl => [.shift .shl .rax]
  | .shr => [.shift (if left.isUnsigned then .shr else .sar) .rax]
  | .and => [.alu .and .rax .rcx]
  | .xor => [.alu .xor .rax .rcx]
  | .or => [.alu .or .rax .rcx]

def opType (left right : ZType) : BinOp → ZType
  | .shl | .shr => left
  | _ => left.promoteBinary right

/-- The loop of a level of left associative operators, after its first operand. -/
def parseBinaryRest (next : Parse ZType) (select : BinOp → Bool) : ℕ → ZType → Parse ZType
  | 0, _ => fail
  | fuel + 1, left => do
    match ← current with
    | some (.op o) =>
      if select o then
        nextToken
        emit (.push .rax)
        let right ← next
        emit (.mov .rcx .rax)
        emit (.pop .rax)
        emitAll (opCode left o)
        parseBinaryRest next select fuel (opType left right o)
      else pure left
    | _ => pure left

def parseBinary (next : Parse ZType) (select : BinOp → Bool) (fuel : ℕ) : Parse ZType := do
  let left ← next
  parseBinaryRest next select fuel left

def parseMul (fuel : ℕ) (expr : Parse ZType) : Parse ZType :=
  parseBinary (parseUnary expr fuel) (· ∈ [.mul, .div, .mod]) fuel

def parseAdd (fuel : ℕ) (expr : Parse ZType) : Parse ZType :=
  parseBinary (parseMul fuel expr) (· ∈ [.add, .sub]) fuel

def parseShift (fuel : ℕ) (expr : Parse ZType) : Parse ZType :=
  parseBinary (parseAdd fuel expr) (· ∈ [.shl, .shr]) fuel

def parseBitand (fuel : ℕ) (expr : Parse ZType) : Parse ZType :=
  parseBinary (parseShift fuel expr) (· ∈ [.and]) fuel

def parseBitxor (fuel : ℕ) (expr : Parse ZType) : Parse ZType :=
  parseBinary (parseBitand fuel expr) (· ∈ [.xor]) fuel

def parseBitor (fuel : ℕ) (expr : Parse ZType) : Parse ZType :=
  parseBinary (parseBitxor fuel expr) (· ∈ [.or]) fuel

/-! ### Comparisons and logical operators -/

def CmpOp.jump (isUnsigned : Bool) : CmpOp → Cond
  | .eq => .e
  | .ne => .ne
  | .lt => if isUnsigned then .b else .l
  | .le => if isUnsigned then .be else .le
  | .gt => if isUnsigned then .a else .g
  | .ge => if isUnsigned then .ae else .ge

def parseComparisonExpr (fuel : ℕ) (expr : Parse ZType) : Parse ZType := do
  let left ← parseBitor fuel expr
  match ← current with
  | some (.cmp o) =>
    nextToken
    emit (.push .rax)
    let right ← parseBitor fuel expr
    emit (.mov .rcx .rax)
    emit (.pop .rax)
    emit (.cmp .rax .rcx)
    let trueLabel ← makeLabel
    let endLabel ← makeLabel
    emitAll (boolCode (o.jump (left.promoteBinary right).isUnsigned) trueLabel endLabel)
    pure .u8
  | _ => pure left

/-- The two logical operators: the operator, the jump that decides early and the value it decides
for. -/
inductive LogicOp
  | and | or
  deriving DecidableEq, Repr

def LogicOp.token : LogicOp → Token
  | .and => .ampAmp
  | .or => .pipePipe

def LogicOp.jump : LogicOp → Cond
  | .and => .e
  | .or => .ne

def LogicOp.early : LogicOp → ℕ
  | .and => 0
  | .or => 1

/-- The `do` loop over the operands after the first; the current token is the operator. -/
def parseLogicalRest (o : LogicOp) (next : Parse ZType) (early : Label) : ℕ → Parse Unit
  | 0 => fail
  | fuel + 1 => do
    emitAll [.cmpImm .rax 0, .jcc o.jump early]
    nextToken
    let _ ← next
    if (← current) = some o.token then parseLogicalRest o next early fuel else pure ()

def logicalEnd (o : LogicOp) (early endLabel : Label) : Code :=
  [.cmpImm .rax 0, .jcc o.jump early, .movImm .rax (1 - o.early), .jmp endLabel, .label early,
   .movImm .rax o.early, .label endLabel]

def parseLogical (o : LogicOp) (next : Parse ZType) (fuel : ℕ) : Parse ZType := do
  let type ← next
  if (← current) = some o.token then
    let early ← makeLabel
    let endLabel ← makeLabel
    parseLogicalRest o next early fuel
    emitAll (logicalEnd o early endLabel)
    pure .u8
  else pure type

def parseLogicalAndExpr (fuel : ℕ) (expr : Parse ZType) : Parse ZType :=
  parseLogical .and (parseComparisonExpr fuel expr) fuel

def parseLogicalOrExpr (fuel : ℕ) (expr : Parse ZType) : Parse ZType :=
  parseLogical .or (parseLogicalAndExpr fuel expr) fuel

def parseExpr : ℕ → Parse ZType
  | 0 => fail
  | fuel + 1 => do
    let type ← parseLogicalOrExpr fuel (parseExpr fuel)
    if (← current) = some .question then
      let falseLabel ← makeLabel
      let endLabel ← makeLabel
      emitAll [.cmpImm .rax 0, .jcc .e falseLabel]
      nextToken
      let trueType ← parseExpr fuel
      expect .colon
      emitAll [.jmp endLabel, .label falseLabel]
      let falseType ← parseExpr fuel
      emit (.label endLabel)
      pure (trueType.promoteBinary falseType)
    else pure type

end ZScript
