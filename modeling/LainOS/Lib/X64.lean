import LainOS.Lib.Memory

/-!
# A machine of x86-64 instructions

A program is a list of instructions and labels, and a code address is a position in that list.
Memory is addressed by 64-bit numbers; an access that would run past the last address has no
result, and neither has a division that faults, a jump to a label the program does not define or a
conditional jump whose flags do not come from a comparison.

`Runs prog n s tr s'` says that `n` steps take `s` to `s'`; `tr` lists the words that `mov` stored
into memory on the way, which is what an observer of the program's variables sees. What `push` and
`call` put on the stack is not listed.
-/

namespace X64

inductive Reg
  | rax | rcx | rdx | rbx | rsp | rbp | rsi | rdi
  | r8 | r9 | r10 | r11 | r12 | r13 | r14 | r15
  deriving DecidableEq, Repr

inductive Alu
  | add | sub | imul | and | or | xor
  deriving DecidableEq, Repr

/-- Shifts by the count in `cl`. -/
inductive Shift
  | shl | shr | sar
  deriving DecidableEq, Repr

inductive Cond
  | e | ne | l | le | g | ge | b | be | a | ae
  deriving DecidableEq, Repr

/-- Instructions with labels of type `L`. Memory operands are `[base + off]` of `w` bytes. -/
inductive Instr (L : Type)
  | movImm (d : Reg) (n : ℕ)
  | mov (d s : Reg)
  | load (w : ℕ) (d base : Reg) (off : ℤ)
  | store (w : ℕ) (base : Reg) (off : ℤ) (s : Reg)
  | push (s : Reg)
  | pop (d : Reg)
  | alu (op : Alu) (d s : Reg)
  | aluImm (op : Alu) (d : Reg) (n : ℕ)
  | not (d : Reg)
  | cqo
  | idiv (s : Reg)
  | shift (op : Shift) (d : Reg)
  | cmp (x y : Reg)
  | cmpImm (x : Reg) (n : ℕ)
  | jmp (l : L)
  | jcc (c : Cond) (l : L)
  | label (l : L)
  | call (l : L)
  | leave
  | ret
  deriving DecidableEq, Repr

/-! ### Operations -/

abbrev Word : Type := BitVec 64

def Alu.eval (x y : Word) : Alu → Word
  | .add => x + y
  | .sub => x - y
  | .imul => x * y
  | .and => x &&& y
  | .or => x ||| y
  | .xor => x ^^^ y

/-- A 64-bit shift uses the low six bits of its count. -/
def Shift.eval (x count : Word) : Shift → Word
  | .shl => x <<< (count.toNat % 64)
  | .shr => x >>> (count.toNat % 64)
  | .sar => x.sshiftRight (count.toNat % 64)

def Cond.holds (x y : Word) : Cond → Bool
  | .e => x == y
  | .ne => x != y
  | .l => x.slt y
  | .le => x.sle y
  | .g => y.slt x
  | .ge => y.sle x
  | .b => x.ult y
  | .be => x.ule y
  | .a => y.ult x
  | .ae => y.ule x

/-- Quotient and remainder of `rdx:rax` by `d`; none where `idiv` faults. -/
def idivide (rdx rax d : Word) : Option (Word × Word) :=
  let n := rdx.toInt * 2 ^ 64 + rax.toNat
  if d = 0 then none
  else if n.tdiv d.toInt < -2 ^ 63 ∨ 2 ^ 63 ≤ n.tdiv d.toInt then none
  else some (BitVec.ofInt 64 (n.tdiv d.toInt), BitVec.ofInt 64 (n.tmod d.toInt))

/-- What a register holds after `w` bytes with the value `v` are moved into it: four bytes clear the
upper half, one or two leave the rest as it was. -/
def Word.merge (w : ℕ) (old : Word) (v : ℕ) : Word :=
  if 4 ≤ w then BitVec.ofNat 64 v
  else BitVec.ofNat 64 (old.toNat - old.toNat % 256 ^ w + v)

/-! ### States -/

structure State where
  regs : Reg → Word
  mem : Mem
  /-- The operands of the comparison the flags come from. -/
  flags : Option (Word × Word)
  pc : ℕ

namespace State

def set (s : State) (r : Reg) (v : Word) : State := { s with regs := Function.update s.regs r v }

def next (s : State) : State := { s with pc := s.pc + 1 }

def goto (s : State) (p : ℕ) : State := { s with pc := p }

def setFlags (s : State) (flags : Option (Word × Word)) : State := { s with flags := flags }

def addr (s : State) (base : Reg) (off : ℤ) : ℕ := (s.regs base + BitVec.ofInt 64 off).toNat

def read (s : State) (w a : ℕ) : Option ℕ :=
  if a + w ≤ 2 ^ 64 then some (Mem.load w s.mem a) else none

def write (s : State) (w a : ℕ) (v : Word) : Option State :=
  if a + w ≤ 2 ^ 64 then some { s with mem := Mem.store w s.mem a v.toNat } else none

def push (s : State) (v : Word) : Option State :=
  (s.set .rsp (s.regs .rsp - 8)).write 8 (s.regs .rsp - 8).toNat v

def pop (s : State) : Option (Word × State) :=
  (s.read 8 (s.regs .rsp).toNat).map fun v =>
    (BitVec.ofNat 64 v, s.set .rsp (s.regs .rsp + 8))

end State

/-! ### Execution -/

variable {L : Type} [DecidableEq L]

/-- The position of a label. -/
def target (prog : List (Instr L)) (l : L) : Option ℕ := prog.findIdx? (· == .label l)

def exec (prog : List (Instr L)) (s : State) : Instr L → Option State
  | .movImm d n => some (s.set d (BitVec.ofNat 64 n)).next
  | .mov d r => some (s.set d (s.regs r)).next
  | .load w d base off =>
    (s.read w (s.addr base off)).map fun v => (s.set d (Word.merge w (s.regs d) v)).next
  | .store w base off r => (s.write w (s.addr base off) (s.regs r)).map State.next
  | .push r => (s.push (s.regs r)).map State.next
  | .pop d => s.pop.map fun (v, s) => (s.set d v).next
  | .alu op d r => some ((s.set d (op.eval (s.regs d) (s.regs r))).setFlags none).next
  | .aluImm op d n =>
    some ((s.set d (op.eval (s.regs d) (BitVec.ofNat 64 n))).setFlags none).next
  | .not d => some (s.set d (~~~ s.regs d)).next
  | .cqo => some (s.set .rdx (if (s.regs .rax).msb then -1 else 0)).next
  | .idiv r =>
    (idivide (s.regs .rdx) (s.regs .rax) (s.regs r)).map fun (q, m) =>
      (((s.set .rax q).set .rdx m).setFlags none).next
  | .shift op d => some ((s.set d (op.eval (s.regs d) (s.regs .rcx))).setFlags none).next
  | .cmp x y => some (s.setFlags (some (s.regs x, s.regs y))).next
  | .cmpImm x n => some (s.setFlags (some (s.regs x, BitVec.ofNat 64 n))).next
  | .jmp l => (target prog l).map s.goto
  | .jcc c l =>
    s.flags.bind fun (x, y) => if c.holds x y then (target prog l).map s.goto else some s.next
  | .label _ => some s.next
  | .call l =>
    (target prog l).bind fun p => (s.push (BitVec.ofNat 64 (s.pc + 1))).map (·.goto p)
  | .leave =>
    (s.set .rsp (s.regs .rbp)).pop.map fun (v, s) => (s.set .rbp v).next
  | .ret => s.pop.map fun (v, s) => s.goto v.toNat

/-- The address and the word an instruction stores. -/
def stored (s : State) : Instr L → List (ℕ × Word)
  | .store _ base off r => [(s.addr base off, s.regs r)]
  | _ => []

def step (prog : List (Instr L)) (s : State) : Option (List (ℕ × Word) × State) :=
  match prog[s.pc]? with
  | none => none
  | some i => (exec prog s i).map fun s' => (stored s i, s')

/-- `n` steps, with what they store. -/
inductive Runs (prog : List (Instr L)) : ℕ → State → List (ℕ × Word) → State → Prop
  | refl (s : State) : Runs prog 0 s [] s
  | step {n : ℕ} {s s₁ s' : State} {tr tr' : List (ℕ × Word)} (h : step prog s = some (tr, s₁))
      (rest : Runs prog n s₁ tr' s') : Runs prog (n + 1) s (tr ++ tr') s'

end X64
