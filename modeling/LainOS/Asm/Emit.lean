import LainOS.Asm.Text
import LainOS.Lib.TwoPass
import LainOS.ZObject.Format

/-!
# Encodings

The context of an assembler run, the values of names, and the functions that put out the bytes of an
instruction. Every function takes the flag of the emitting pass: only that pass looks up values, writes
bytes and notes relocations.
-/

namespace Asm

open TwoPass ZObject

structure Label where
  name : Text
  offset : UInt32
deriving DecidableEq

structure ExternalSymbol where
  name : Option Text
  value : UInt64

/-- `assembler_context_t`. The table of the kernel's exports is part of it; without a table for them
no relocations are noted. -/
structure Context where
  outCapacity : UInt32
  baseAddress : UInt64
  externalSymbols : List ExternalSymbol
  relocationCapacity : Option UInt32
  kernelExports : List (Text × UInt64)

def maxLabels : ℕ := 16384

abbrev Code := Emit Relocation Unit

/-! ### Names -/

def findLabel (labels : List Label) (name : Text) : Option UInt32 :=
  (labels.find? (·.name == name)).map (·.offset)

def addLabel (labels : List Label) (name : Text) (offset : UInt32) : Option (List Label) :=
  if name = [] then none
  else if (findLabel labels name).isSome then none
  else if labels.length ≥ maxLabels then none
  else if name.length + 1 > labelNameSize then none
  else some (labels ++ [⟨name, offset⟩])

namespace Context

variable (ctx : Context)

def symbolValue (name : Text) : Option UInt64 :=
  (ctx.kernelExports.find? (·.1 == name)).map (·.2)

def externalSymbolValue (name : Text) : Option UInt64 :=
  (ctx.externalSymbols.find? (·.name == some name)).map (·.value)

def externalRelocName (name : Text) : Option Text :=
  if (ctx.externalSymbolValue name).isSome then some name else none

/-- `asm_value` -/
def value (labels : List Label) (s : Text) : Option UInt64 :=
  let s := skipSpaces s
  match parseU64 s with
  | some v => some v
  | none =>
    match findLabel labels s with
    | some offset => some (ctx.baseAddress + offset.toUInt64)
    | none =>
      match ctx.externalSymbolValue s with
      | some v => some v
      | none => ctx.symbolValue s

/-- The difference of two addresses, if it fits into 32 bits. -/
def diff32 (target next : UInt64) : Option UInt32 :=
  let diff := (target - next).toInt64.toInt
  if diff < -2147483648 ∨ diff > 2147483647 then none else some (target - next).toUInt32

def ripRelativeDisp32 (next : UInt32) (labels : List Label) (target : Text) : Option UInt32 :=
  match findLabel labels target with
  | some offset =>
    diff32 (ctx.baseAddress + offset.toUInt64) (ctx.baseAddress + next.toUInt64)
  | none =>
    match ctx.externalSymbolValue target with
    | some _ => some (0 - 4)
    | none =>
      match ctx.symbolValue target with
      | some v => diff32 v (ctx.baseAddress + next.toUInt64)
      | none => none

def rel32 (next : UInt32) (labels : List Label) (target : Text) : Option UInt32 :=
  match ctx.value labels target with
  | some v => diff32 v (ctx.baseAddress + next.toUInt64)
  | none => none

def addRelocation (offset : UInt32) (type : RelocType) (name : Option Text) : Code := fun s =>
  match ctx.relocationCapacity with
  | none => some ((), s)
  | some capacity =>
    if s.records.length ≥ capacity.toNat then none
    else if (name.getD []).length + 1 > labelNameSize then none
    else some ((), { s with records := s.records ++ [⟨type, offset.toNat, name.getD []⟩] })

end Context

variable (ctx : Context) (emit : Bool)

/-! ### Bytes -/

def emitByte (value : UInt8) : Code := fun s =>
  if s.offset ≥ ctx.outCapacity then none
  else some ((), { s with
    offset := s.offset + 1
    bytes := if emit then s.bytes ++ [value] else s.bytes })

def emitBytes : List UInt8 → Code
  | [] => pure ()
  | value :: values => do
    emitByte ctx emit value
    emitBytes values

def emitU64 (value : UInt64) : Code := emitBytes ctx emit (leBytes 8 value.toNat)

def emitU32 (value : UInt32) : Code := emitBytes ctx emit (leBytes 4 value.toNat)

def emitU16 (value : UInt16) : Code := emitBytes ctx emit (leBytes 2 value.toNat)

def rexByte (w : Bool) (r b : ℕ) : ℕ :=
  0x40 ||| (if w then 0x08 else 0) ||| (if r &&& 8 ≠ 0 then 0x04 else 0) |||
    (if b &&& 8 ≠ 0 then 0x01 else 0)

def emitRex (w : Bool) (r b : ℕ) : Code :=
  emitWhen (rexByte w r b != 0x40) (emitByte ctx emit (rexByte w r b).toUInt8)

def rexSize (w : Bool) (r b : ℕ) : UInt32 := if rexByte w r b = 0x40 then 0 else 1

def emitModrmReg (reg rm : ℕ) : Code :=
  emitByte ctx emit (0xC0 ||| (reg &&& 7) <<< 3 ||| rm &&& 7).toUInt8

/-- A relocation that only the emitting pass notes. -/
def emitRelocation (offset : UInt32) (reloc : Option (RelocType × Option Text)) : Code :=
  emitWhen emit (reloc.elim (pure ()) fun (type, name) => ctx.addRelocation offset type name)

def emitModrmRipRelative (reg : ℕ) (displacement : UInt32) (relocName : Option Text) : Code := do
  emitByte ctx emit ((reg &&& 7) <<< 3 ||| 0x05).toUInt8
  let here ← offset
  emitRelocation ctx emit here (some (.rip32, relocName))
  emitU32 ctx emit displacement

def emitModrmBaseDisp32 (reg : ℕ) (base : Reg) (displacement : Int32) : Code := do
  emitByte ctx emit (0x80 ||| (reg &&& 7) <<< 3 ||| base.code &&& 7).toUInt8
  emitWhen (base.code &&& 7 == 4) (emitByte ctx emit (0x20 ||| base.code &&& 7).toUInt8)
  emitU32 ctx emit displacement.toUInt32

/-! ### Register forms -/

def emitRegRegOp (opcode : UInt8) (w : Bool) (dst src : Reg) : Code :=
  if dst.bits ≠ src.bits then fail
  else do
    emitRex ctx emit w src.code dst.code
    emitByte ctx emit opcode
    emitModrmReg ctx emit src.code dst.code

def emitRegRegTwoByteOp (opcode2 : UInt8) (w : Bool) (dst src : Reg) : Code :=
  if dst.bits ≠ src.bits then fail
  else do
    emitRex ctx emit w dst.code src.code
    emitByte ctx emit 0x0F
    emitByte ctx emit opcode2
    emitModrmReg ctx emit dst.code src.code

/-- An opcode with a group number in place of the register. -/
def emitGroup (opcode : UInt8) (group : ℕ) (w : Bool) (reg : Reg) : Code := do
  emitRex ctx emit w 0 reg.code
  emitByte ctx emit opcode
  emitModrmReg ctx emit group reg.code

def emitGroup1Imm32 (group : ℕ) (w : Bool) (dst : Reg) (value : UInt64) : Code :=
  if value > 0xFFFFFFFF then fail
  else do
    emitGroup ctx emit 0x81 group w dst
    emitU32 ctx emit value.toUInt32

/-- A value that only the emitting pass looks up. -/
def emitValue (labels : List Label) (s : Text) : Option UInt64 :=
  if emit then ctx.value labels s else some 0

/-! ### Memory forms -/

variable (labels : List Label)

/-- The displacement of a name from `next`, which only the emitting pass computes. -/
def emitDisp32 (next : UInt32) (label : Text) : Option UInt32 :=
  if emit then ctx.ripRelativeDisp32 next labels label else some 0

/-- The end of an instruction with an operand relative to the instruction pointer: `opcode`, ModRM and
displacement, where `tail` bytes follow. The operand-size byte and REX stand in front. -/
def emitRipForm (opsize : Bool) (w : Bool) (reg : ℕ) (opcode : List UInt8) (label : Text)
    (tail : UInt32) : Code := do
  let next := (← offset) + (if opsize then 1 else 0) + rexSize w reg 0 + opcode.length.toUInt32 + 1 + 4
    + tail
  let displacement ← lift (emitDisp32 ctx emit labels next label)
  emitWhen opsize (emitByte ctx emit 0x66)
  emitRex ctx emit w reg 0
  emitBytes ctx emit opcode
  emitModrmRipRelative ctx emit reg displacement (ctx.externalRelocName label)

/-- The same with a base register and a displacement. -/
def emitBaseForm (opsize : Bool) (w : Bool) (reg : ℕ) (opcode : List UInt8) (base : Reg)
    (displacement : Int32) : Code := do
  emitWhen opsize (emitByte ctx emit 0x66)
  emitRex ctx emit w reg base.code
  emitBytes ctx emit opcode
  emitModrmBaseDisp32 ctx emit reg base displacement

def validBits (bits : ℕ) : Bool := bits == 8 || bits == 16 || bits == 32 || bits == 64

def emitMovRegMemLabel (dst : Reg) (label : Text) : Code :=
  if validBits dst.bits = false then fail
  else emitRipForm ctx emit labels (dst.bits == 16) (dst.bits == 64) dst.code
    [if dst.bits = 8 then 0x8A else 0x8B] label 0

def emitMovRegMemBase (dst base : Reg) (displacement : Int32) (memBits : ℕ) : Code :=
  let bits := if memBits ≠ 0 then memBits else dst.bits
  if base.bits ≠ 64 ∨ bits ≠ dst.bits then fail
  else emitBaseForm ctx emit (bits == 16) (bits == 64) dst.code
    [if bits = 8 then 0x8A else 0x8B] base displacement

def emitMovMemLabelReg (label : Text) (src : Reg) : Code :=
  if validBits src.bits = false then fail
  else emitRipForm ctx emit labels (src.bits == 16) (src.bits == 64) src.code
    [if src.bits = 8 then 0x88 else 0x89] label 0

def emitMovMemBaseReg (base : Reg) (displacement : Int32) (memBits : ℕ) (src : Reg) : Code :=
  let bits := if memBits ≠ 0 then memBits else src.bits
  if base.bits ≠ 64 ∨ bits ≠ src.bits then fail
  else emitBaseForm ctx emit (bits == 16) (bits == 64) src.code
    [if bits = 8 then 0x88 else 0x89] base displacement

/-- The immediate of a store of this size is too large. -/
def immTooLarge (bits : ℕ) (value : UInt64) : Prop :=
  (bits = 8 ∧ value > 0xFF) ∨ (bits = 16 ∧ value > 0xFFFF) ∨
    ((bits = 32 ∨ bits = 64) ∧ value > 0xFFFFFFFF)

instance (bits : ℕ) (value : UInt64) : Decidable (immTooLarge bits value) :=
  inferInstanceAs (Decidable (_ ∨ _))

def emitImm (bits : ℕ) (value : UInt64) : Code :=
  if bits = 8 then emitByte ctx emit value.toUInt8
  else if bits = 16 then emitU16 ctx emit value.toUInt16
  else emitU32 ctx emit value.toUInt32

def emitMovMemLabelImm (label : Text) (memBits : ℕ) (value : UInt64) : Code :=
  let bits := if memBits ≠ 0 then memBits else 64
  if immTooLarge bits value then fail
  else do
    emitRipForm ctx emit labels (bits == 16) (bits == 64) 0 [if bits = 8 then 0xC6 else 0xC7] label
      (if bits = 8 then 1 else if bits = 16 then 2 else 4)
    emitImm ctx emit bits value

def emitMovMemBaseImm (base : Reg) (displacement : Int32) (memBits : ℕ) (value : UInt64) : Code :=
  let bits := if memBits ≠ 0 then memBits else 64
  if base.bits ≠ 64 ∨ immTooLarge bits value then fail
  else do
    emitBaseForm ctx emit (bits == 16) (bits == 64) 0 [if bits = 8 then 0xC6 else 0xC7] base displacement
    emitImm ctx emit bits value

def emitRegMemLabelOp (opcode : UInt8) (dst : Reg) (label : Text) : Code :=
  if dst.bits ≠ 64 then fail
  else emitRipForm ctx emit labels false true dst.code [opcode] label 0

/-- The widening loads: the same with two forms of the operand. -/
def emitExtendingLoad (w : Bool) (opcode : List UInt8) (dst : Reg) : Mem → Code
  | .label label _ => emitRipForm ctx emit labels false w dst.code opcode label 0
  | .base base displacement _ => emitBaseForm ctx emit false w dst.code opcode base displacement

/-! ### Jumps -/

/-- A jump to a name, relative to its end. The measuring pass only counts its bytes, and its sum
wraps. -/
def emitRelative (opcode : List UInt8) (target : Text) : Code :=
  let size := opcode.length.toUInt32 + 4
  if emit then do
    let rel ← lift (ctx.rel32 ((← offset) + size) labels target)
    emitBytes ctx emit opcode
    emitU32 ctx emit rel
  else fun s =>
    if s.offset + size ≤ ctx.outCapacity then some ((), { s with offset := s.offset + size }) else none

/-- The bytes of a 64-bit `mov` of a value that may get a relocation. -/
def emitMovImm64 (reg : ℕ) (value : UInt64) (reloc : Option (RelocType × Option Text)) : Code := do
  let start ← offset
  emitRex ctx emit true 0 reg
  emitByte ctx emit (0xB8 + (reg &&& 7)).toUInt8
  emitRelocation ctx emit (start + 2) reloc
  emitU64 ctx emit value

/-- `asm_emit_call_jmp_target` -/
def emitCallJmpTarget (target : Text) (relOpcode : UInt8) (regGroup : ℕ) : Code :=
  match register target with
  | some reg => if reg.bits ≠ 64 then fail else emitGroup ctx emit 0xFF regGroup true reg
  | none =>
    match ctx.externalSymbolValue target, ctx.symbolValue target with
    | some v, _ => do
      emitMovImm64 ctx emit 0 v (some (.abs64, some target))
      emitGroup ctx emit 0xFF regGroup true ⟨0, 64⟩
    | none, some v => do
      emitMovImm64 ctx emit 0 v none
      emitGroup ctx emit 0xFF regGroup true ⟨0, 64⟩
    | none, none => emitRelative ctx emit labels [relOpcode] target

end Asm
