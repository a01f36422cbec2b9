import LainOS.Asm.Emit

/-!
# The assembler

Instructions, lines and the two passes of `assembler_assemble_source_ex_relocs`, of which the other
entry points are the cases without relocations, symbols or error line.
-/

namespace Asm

open TwoPass ZObject

/-! ### Mnemonics -/

inductive Extending
  | movzx | movsx | movsxd
deriving DecidableEq

inductive Arith
  | add | sub | cmp | and | or | xor | test
deriving DecidableEq

namespace Arith

def opcode : Arith → UInt8
  | add => 0x01
  | or => 0x09
  | and => 0x21
  | sub => 0x29
  | xor => 0x31
  | cmp => 0x39
  | test => 0x85

def memOpcode : Arith → UInt8
  | add => 0x03
  | or => 0x0B
  | and => 0x23
  | sub => 0x2B
  | xor => 0x33
  | cmp => 0x3B
  | test => 0x85

def group : Arith → ℕ
  | add => 0
  | or => 1
  | and => 4
  | sub => 5
  | xor => 6
  | cmp => 7
  | test => 0

end Arith

inductive Shift
  | shl | shr | sar
deriving DecidableEq

def Shift.group : Shift → ℕ
  | shl => 4
  | shr => 5
  | sar => 7

inductive Mnemonic
  /-- Instructions without operands that are looked at. -/
  | fixed (bytes : List UInt8)
  | ret | int | db | dq | bits | default
  /-- `global` and `section`, which put out nothing. -/
  | ignored
  | mov
  | extending (k : Extending)
  | imul
  | arith (k : Arith)
  | inc | dec | idiv | not
  | shift (k : Shift)
  | push | pop | call | jmp
  | jcc (opcode : UInt8)
deriving DecidableEq

def jccOpcodes : List (String × UInt8) :=
  [("jo", 0x80), ("jno", 0x81),
    ("jb", 0x82), ("jc", 0x82), ("jnae", 0x82),
    ("jae", 0x83), ("jnb", 0x83), ("jnc", 0x83),
    ("je", 0x84), ("jz", 0x84),
    ("jne", 0x85), ("jnz", 0x85),
    ("jbe", 0x86), ("jna", 0x86),
    ("ja", 0x87), ("jnbe", 0x87),
    ("js", 0x88), ("jns", 0x89),
    ("jp", 0x8A), ("jpe", 0x8A),
    ("jnp", 0x8B), ("jpo", 0x8B),
    ("jl", 0x8C), ("jnge", 0x8C),
    ("jge", 0x8D), ("jnl", 0x8D),
    ("jle", 0x8E), ("jng", 0x8E),
    ("jg", 0x8F), ("jnle", 0x8F)]

def mnemonics : List (String × Mnemonic) :=
  [("nop", .fixed [0x90]), ("ret", .ret), ("iretq", .fixed [0x48, 0xCF]), ("int", .int),
    ("hlt", .fixed [0xF4]), ("leave", .fixed [0xC9]), ("cqo", .fixed [0x48, 0x99]),
    ("syscall", .fixed [0x0F, 0x05]), ("cli", .fixed [0xFA]), ("sti", .fixed [0xFB]),
    ("db", .db), ("dq", .dq), ("bits", .bits), ("default", .default),
    ("global", .ignored), ("section", .ignored), ("mov", .mov),
    ("movzx", .extending .movzx), ("movsx", .extending .movsx), ("movsxd", .extending .movsxd),
    ("imul", .imul),
    ("add", .arith .add), ("sub", .arith .sub), ("cmp", .arith .cmp), ("and", .arith .and),
    ("or", .arith .or), ("xor", .arith .xor), ("test", .arith .test),
    ("inc", .inc), ("dec", .dec), ("idiv", .idiv), ("not", .not),
    ("shl", .shift .shl), ("shr", .shift .shr), ("sar", .shift .sar),
    ("push", .push), ("pop", .pop), ("call", .call), ("jmp", .jmp)] ++
    jccOpcodes.map fun (name, opcode) => (name, .jcc opcode)

def mnemonic (name : Text) : Option Mnemonic :=
  (mnemonics.find? fun (n, _) => str n == name).map (·.2)

variable (ctx : Context) (emit : Bool)

/-! ### Data -/

def escape (ch : UInt8) : Option UInt8 :=
  if ch = 0x6E then some 0x0A
  else if ch = 0x72 then some 0x0D
  else if ch = 0x74 then some 0x09
  else if ch = 0x30 then some 0x00
  else if ch = quote ∨ ch = backslash then some ch
  else none

/-- The characters of a string literal behind its opening quote, and the text behind its end. -/
def dbString : Text → Option (List UInt8 × Text)
  | [] => none
  | ch :: rest =>
    if ch = quote then some ([], rest)
    else if ch = backslash then
      match rest with
      | [] => none
      | esc :: rest =>
        match escape esc, dbString rest with
        | some b, some (bs, rest) => some (b :: bs, rest)
        | _, _ => none
    else
      match dbString rest with
      | some (bs, rest) => some (ch :: bs, rest)
      | none => none

/-- One item of a `db` list: its bytes and the list behind it. -/
def dbItem (s : Text) : Option (List UInt8 × Text) :=
  if s.head? = some quote then
    match dbString s.tail with
    | none => none
    | some (bs, rest) =>
      let rest := trim rest
      if rest.head? = some comma then some (bs, trim rest.tail)
      else if rest ≠ [] then none
      else some (bs, [])
  else
    let (item, rest) := splitAtFirst (· == comma) (trim s)
    match parseU64 (trim item) with
    | none => none
    | some v => if v > 255 then none else some ([v.toUInt8], trim (rest.getD []))

/-- The loop of `asm_emit_db`. Every item takes at least one character, so that the length of the text
is enough fuel. -/
def emitDbItems : ℕ → Text → Code
  | 0, _ => fail
  | fuel + 1, s =>
    if s = [] then pure ()
    else
      match dbItem s with
      | none => fail
      | some (bs, rest) => do
        emitBytes ctx emit bs
        emitDbItems fuel rest

def emitDb (args : Text) : Code := emitDbItems ctx emit ((trim args).length + 1) (trim args)

variable (labels : List Label)

def emitDqItems : ℕ → Text → Code
  | 0, _ => fail
  | fuel + 1, s =>
    if s = [] then pure ()
    else
      let (item, rest) := splitAtFirst (· == comma) s
      if trim item = [] then fail
      else do
        let v ← lift (emitValue ctx emit labels (trim item))
        emitU64 ctx emit v
        emitDqItems fuel (trim (rest.getD []))

def emitDq (args : Text) : Code := emitDqItems ctx emit labels ((trim args).length + 1) (trim args)

/-! ### Instructions -/

/-- A number that only the emitting pass reads. -/
def emitNumber (s : Text) : Option UInt64 := if emit then parseU64 s else some 0

def assembleRet (args : Text) : Code :=
  if args = [] then emitByte ctx emit 0xC3
  else do
    let v ← lift (emitNumber emit args)
    if v > 0xFFFF then fail
    else do
      emitByte ctx emit 0xC2
      emitU16 ctx emit v.toUInt16

def assembleInt (args : Text) : Code := do
  let v ← lift (emitNumber emit args)
  if v > 0xFF then fail
  else emitBytes ctx emit [0xCD, v.toUInt8]

/-- A store to memory. -/
def assembleMovMem (dst : Mem) (src : Text) : Code :=
  match register src with
  | some src =>
    match dst with
    | .label label _ => emitMovMemLabelReg ctx emit labels label src
    | .base base displacement bits => emitMovMemBaseReg ctx emit base displacement bits src
  | none => do
    let v ← lift (emitValue ctx emit labels src)
    match dst with
    | .label label bits => emitMovMemLabelImm ctx emit labels label bits v
    | .base base displacement bits => emitMovMemBaseImm ctx emit base displacement bits v

/-- The relocation of a 64-bit immediate. -/
def movReloc (src : Text) : Option (RelocType × Option Text) :=
  if (ctx.externalSymbolValue src).isSome then some (.abs64, some src)
  else if (findLabel labels src).isSome then some (.relative64, none)
  else none

/-- A move of an immediate. The value of an external symbol takes the place of the looked up one. -/
def assembleMovImm (dst : Reg) (src : Text) : Code := do
  let v ← lift (emitValue ctx emit labels src)
  if dst.bits = 64 then
    emitMovImm64 ctx emit dst.code ((ctx.externalSymbolValue src).getD v) (movReloc ctx labels src)
  else if emit && v > 0xFFFFFFFF then fail
  else do
    emitRex ctx emit false 0 dst.code
    emitByte ctx emit (0xB8 + (dst.code &&& 7)).toUInt8
    emitU32 ctx emit v.toUInt32

def assembleMovReg (dst : Reg) (src : Text) : Code :=
  match register src, parseMemoryOperand src with
  | some src, _ => emitRegRegOp ctx emit 0x89 (dst.bits == 64) dst src
  | none, some (.label label _) => emitMovRegMemLabel ctx emit labels dst label
  | none, some (.base base displacement bits) => emitMovRegMemBase ctx emit dst base displacement bits
  | none, none => assembleMovImm ctx emit labels dst src

def assembleMov (args : Text) : Code :=
  (splitTwoArgs args).elim fail fun (dst, src) =>
    match parseMemoryOperand dst with
    | some mem => assembleMovMem ctx emit labels mem src
    | none => (register dst).elim fail fun dst => assembleMovReg ctx emit labels dst src

/-- The REX bit and the opcode of a widening load, if it exists for these sizes. -/
def Extending.form (dst : Reg) (bits : ℕ) : Extending → Option (Bool × List UInt8)
  | .movzx =>
    if dst.bits ≠ 32 ∨ (bits ≠ 8 ∧ bits ≠ 16) then none
    else some (false, [0x0F, if bits = 8 then 0xB6 else 0xB7])
  | .movsx =>
    if dst.bits ≠ 64 ∨ (bits ≠ 8 ∧ bits ≠ 16) then none
    else some (true, [0x0F, if bits = 8 then 0xBE else 0xBF])
  | .movsxd => if dst.bits ≠ 64 ∨ bits ≠ 32 then none else some (true, [0x63])

def assembleExtending (k : Extending) (args : Text) : Code :=
  (splitTwoArgs args).elim fail fun (dst, src) =>
    (register dst).elim fail fun dst =>
      (parseMemoryOperand src).elim fail fun mem =>
        (k.form dst mem.bits).elim fail fun (w, opcode) =>
          emitExtendingLoad ctx emit labels w opcode dst mem

/-- The form of `imul` with an immediate. -/
def emitImulImm (dst src : Reg) (imm : Text) : Code := do
  let v ← lift (emitValue ctx emit labels imm)
  if v > 0xFFFFFFFF then fail
  else do
    emitRex ctx emit (dst.bits == 64) dst.code src.code
    emitByte ctx emit 0x69
    emitModrmReg ctx emit dst.code src.code
    emitU32 ctx emit v.toUInt32

def assembleImul (args : Text) : Code :=
  match splitThreeArgs args with
  | (some (dst, src, imm), _) =>
    (register dst).elim fail fun dst =>
      (register src).elim fail fun src =>
        if dst.bits ≠ src.bits then fail else emitImulImm ctx emit labels dst src imm
  | (none, args) =>
    (splitTwoArgs args).elim fail fun (dst, src) =>
      (register dst).elim fail fun dst =>
        match register src with
        | some src => emitRegRegTwoByteOp ctx emit 0xAF (dst.bits == 64) dst src
        | none => emitImulImm ctx emit labels dst dst src

def assembleArithImm (k : Arith) (dst : Reg) (src : Text) : Code := do
  let v ← lift (emitValue ctx emit labels src)
  if k = .test then
    if v > 0xFFFFFFFF then fail
    else do
      emitGroup ctx emit 0xF7 0 (dst.bits == 64) dst
      emitU32 ctx emit v.toUInt32
  else emitGroup1Imm32 ctx emit k.group (dst.bits == 64) dst v

def assembleArith (k : Arith) (args : Text) : Code :=
  (splitTwoArgs args).elim fail fun (dst, src) =>
    (register dst).elim fail fun dst =>
      match register src, parseLabelMemory src with
      | some src, _ => emitRegRegOp ctx emit k.opcode (dst.bits == 64) dst src
      | none, some (label, _) => emitRegMemLabelOp ctx emit labels k.memOpcode dst label
      | none, none => assembleArithImm ctx emit labels k dst src

/-- `inc`, `dec` and `not` -/
def assembleUnary (opcode : UInt8) (group : ℕ) (args : Text) : Code :=
  (register args).elim fail fun reg => emitGroup ctx emit opcode group (reg.bits == 64) reg

def assembleIdiv (args : Text) : Code :=
  (register args).elim fail fun reg =>
    if reg.bits ≠ 64 then fail else emitGroup ctx emit 0xF7 7 true reg

def assembleShift (k : Shift) (args : Text) : Code :=
  (splitTwoArgs args).elim fail fun (dst, src) =>
    (register dst).elim fail fun dst =>
      match register src with
      | some src =>
        if src.bits ≠ 8 ∨ src.code ≠ 1 then fail
        else emitGroup ctx emit 0xD3 k.group (dst.bits == 64) dst
      | none => do
        let v ← lift (emitValue ctx emit labels src)
        if v > 255 then fail
        else do
          emitGroup ctx emit 0xC1 k.group (dst.bits == 64) dst
          emitByte ctx emit v.toUInt8

/-- `push` and `pop` -/
def assemblePushPop (opcode : ℕ) (args : Text) : Code :=
  (register args).elim fail fun reg =>
    if reg.bits ≠ 64 then fail
    else do
      emitRex ctx emit false 0 reg.code
      emitByte ctx emit (opcode + (reg.code &&& 7)).toUInt8

/-- The part up to the first blank, and the trimmed rest. -/
def splitWord (line : Text) : Text × Text :=
  let (word, rest) := splitAtFirst charIsSpace line
  (word, trim (rest.getD []))

def assembleMnemonic (args : Text) : Mnemonic → Code
  | .fixed bytes => emitBytes ctx emit bytes
  | .ret => assembleRet ctx emit args
  | .int => assembleInt ctx emit args
  | .db => emitDb ctx emit args
  | .dq => emitDq ctx emit labels args
  | .bits => if args = str "64" then pure () else fail
  | .default => if args = str "rel" then pure () else fail
  | .ignored => pure ()
  | .mov => assembleMov ctx emit labels args
  | .extending k => assembleExtending ctx emit labels k args
  | .imul => assembleImul ctx emit labels args
  | .arith k => assembleArith ctx emit labels k args
  | .inc => assembleUnary ctx emit 0xFF 0 args
  | .dec => assembleUnary ctx emit 0xFF 1 args
  | .idiv => assembleIdiv ctx emit args
  | .not => assembleUnary ctx emit 0xF7 2 args
  | .shift k => assembleShift ctx emit labels k args
  | .push => assemblePushPop ctx emit 0x50 args
  | .pop => assemblePushPop ctx emit 0x58 args
  | .call => emitCallJmpTarget ctx emit labels args 0xE8 2
  | .jmp => emitCallJmpTarget ctx emit labels args 0xE9 4
  | .jcc opcode => emitRelative ctx emit labels [0x0F, opcode] args

def assembleInstruction (line : Text) : Code :=
  (mnemonic (splitWord line).1).elim fail (assembleMnemonic ctx emit labels (splitWord line).2)

/-! ### Lines -/

/-- The parts of a line: the labels it defines, at most two, and its instruction. -/
structure Line where
  labels : List Text
  instruction : Option Text

def isDirective (word : Text) : Bool := word == str "db" || word == str "dq"

/-- A line behind its label: a name may stand in front of `db` and `dq`. -/
def readStatement (before : List Text) (line : Text) : Line :=
  if line = [] then ⟨before, none⟩
  else
    match splitAtFirst charIsSpace line with
    | (_, none) => ⟨before, some line⟩
    | (name, some rest) =>
      if isDirective (splitWord (trim rest)).1 then ⟨before ++ [name], some (trim rest)⟩
      else ⟨before, some line⟩

/-- The reading part of `asm_assemble_line`. -/
def readLine (line : Text) : Line :=
  let line := trim (stripAsmComment false line)
  let name := line.takeWhile fun ch => !charIsSpace ch && ch != colon
  let rest := line.drop name.length
  if rest.head? = some colon then readStatement [name] (trim rest.tail) else readStatement [] line

def addLabels (offset : UInt32) (labels : List Label) (names : List Text) : Option (List Label) :=
  names.foldlM (fun labels name => addLabel labels name offset) labels

/-- The labels behind a line: only the measuring pass adds them. -/
def emitLabels (labels : List Label) (names : List Text) : Emit Relocation (List Label) :=
  if emit then pure labels
  else do
    let here ← offset
    lift (addLabels here labels names)

/-- `asm_assemble_line` -/
def assembleLine (labels : List Label) (line : Text) : Emit Relocation (List Label) := do
  let labels ← emitLabels emit labels (readLine line).labels
  (readLine line).instruction.elim (pure ()) (assembleInstruction ctx emit labels)
  pure labels

/-- The state of a pass between two lines. -/
structure PassState where
  labels : List Label
  out : Out Relocation

/-- A pass over lines; a failure gives the number of its line. -/
def pass : ℕ → List Text → PassState → Except ℕ PassState
  | _, [], st => .ok st
  | lineNumber, line :: lines, st =>
    match assembleLine ctx emit st.labels line st.out with
    | none => .error (lineNumber + 1)
    | some (labels, out) => pass (lineNumber + 1) lines ⟨labels, out⟩

/-! ### The two passes -/

structure Assembled where
  labels : List Label
  exportValues : List UInt64
  out : Out Relocation

def Assembled.outSize (a : Assembled) : UInt32 := a.out.offset

/-- `assembler_assemble_source_ex_relocs`; an error is the number of the failing line, or 0. -/
def assembleSource (source : List UInt8) (exportNames : List Text) : Except ℕ Assembled :=
  if ctx.outCapacity = 0 then .error 0
  else do
    let measured ← pass ctx false 0 (sourceLines source) ⟨[], .empty⟩
    match exportNames.mapM (ctx.value measured.labels) with
    | none => .error 0
    | some exportValues => do
      let emitted ← pass ctx true 0 (sourceLines source) ⟨measured.labels, .empty⟩
      .ok ⟨measured.labels, exportValues, emitted.out⟩

/-- `assembler_measure_source_ex_symbols` -/
def measureSource (externalSymbols : List ExternalSymbol) (kernelExports : List (Text × UInt64))
    (source : List UInt8) : Except ℕ UInt32 := do
  let measured ← pass ⟨0xFFFFFFFF, 0, externalSymbols, none, kernelExports⟩ false 0
    (sourceLines source) ⟨[], .empty⟩
  .ok measured.out.offset

end Asm
