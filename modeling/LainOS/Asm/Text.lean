import LainOS.Lib.MapM
import Mathlib.Data.List.DropRight

/-!
# Assembly text

The helpers the assembler reads its text with. A text is the list of characters of a C string, so that
it holds no NUL; the helpers that cut a string in place return its pieces.
-/

namespace Asm

abbrev Text := List UInt8

def str (s : String) : Text := s.toList.map fun c => c.toNat.toUInt8

def quote : UInt8 := 0x22
def backslash : UInt8 := 0x5C
def comma : UInt8 := 0x2C
def colon : UInt8 := 0x3A
def semicolon : UInt8 := 0x3B
def openBracket : UInt8 := 0x5B
def closeBracket : UInt8 := 0x5D
def plus : UInt8 := 0x2B
def minus : UInt8 := 0x2D

def lineSize : ℕ := 256
def labelNameSize : ℕ := 128

def charIsSpace (ch : UInt8) : Bool := ch == 0x20 || ch == 0x09

def skipSpaces (s : Text) : Text := s.dropWhile charIsSpace

/-- `trim_mutable` -/
def trim (s : Text) : Text := (skipSpaces s).rdropWhile charIsSpace

def stripAsmComment (inString : Bool) : Text → Text
  | [] => []
  | ch :: rest =>
    if ch = quote then ch :: stripAsmComment (!inString) rest
    else if ch = semicolon ∧ inString = false then []
    else ch :: stripAsmComment inString rest

/-- The part up to the first character with the property, and what stands behind that character;
`none` if there is no such character. -/
def splitAtFirst (p : UInt8 → Bool) (s : Text) : Text × Option Text :=
  (s.takeWhile (!p ·), match s.dropWhile (!p ·) with
    | [] => none
    | _ :: rest => some rest)

/-! ### Lines -/

/-- The lines of the rest of a source; `line` is the one that has begun. -/
def linesFrom (line : Text) : List UInt8 → List Text
  | [] => [line]
  | ch :: rest =>
    if ch = 0x0A then
      if rest = [] then [line] else line :: linesFrom [] rest
    else linesFrom (line ++ [ch]) rest

/-- The lines of a source without their line ends. -/
def splitLines (source : List UInt8) : List Text :=
  if source = [] then [] else linesFrom [] source

/-- A line in a buffer of `lineSize` characters; it is read as a C string. -/
def bufferLine (line : Text) : Text := (line.take (lineSize - 1)).takeWhile (· != 0)

/-- What `asm_next_line` returns one after the other. -/
def sourceLines (source : List UInt8) : List Text :=
  (splitLines source).map fun line => bufferLine (line.filter (· != 0x0D))

/-! ### Numbers -/

def digitValue (ch : UInt8) : Option UInt64 :=
  if 0x30 ≤ ch ∧ ch ≤ 0x39 then some (ch - 0x30).toUInt64 else none

def hexValue (ch : UInt8) : Option UInt64 :=
  if 0x30 ≤ ch ∧ ch ≤ 0x39 then some (ch - 0x30).toUInt64
  else if 0x61 ≤ ch ∧ ch ≤ 0x66 then some (ch - 0x61 + 10).toUInt64
  else if 0x41 ≤ ch ∧ ch ≤ 0x46 then some (ch - 0x41 + 10).toUInt64
  else none

/-- The digit loop of `parse_u64`; the value wraps. -/
def parseDigits (base : UInt64) (digit : UInt8 → Option UInt64) : UInt64 → Text → Option UInt64
  | value, [] => some value
  | value, ch :: rest =>
    match digit ch with
    | none => none
    | some d => parseDigits base digit (value * base + d) rest

def parseU64 (s : Text) : Option UInt64 :=
  let s := skipSpaces s
  if s.take 2 = str "0x" ∨ s.take 2 = str "0X" then
    if s.drop 2 = [] then none else parseDigits 16 hexValue 0 (s.drop 2)
  else if s = [] then none else parseDigits 10 digitValue 0 s

def parseSignedI32 (s : Text) : Option Int32 :=
  let s := skipSpaces s
  let negative := s.head? = some minus
  let s := if s.head? = some plus ∨ s.head? = some minus then s.tail else s
  match parseU64 (skipSpaces s) with
  | none => none
  | some value =>
    if (¬ negative ∧ value > 2147483647) ∨ (negative ∧ value > 2147483648) then none
    else some (if negative then -value.toUInt32.toInt32 else value.toUInt32.toInt32)

/-! ### What a numeral spells -/

/-- The number that digits spell. -/
def spelled (base : ℕ) (digit : UInt8 → Option UInt64) (s : Text) : Option ℕ :=
  (s.mapM digit).map fun digits => Nat.ofDigits base (digits.map UInt64.toNat).reverse

/-- The number a decimal or hexadecimal numeral spells, however large. -/
def numeral (s : Text) : Option ℕ :=
  let s := skipSpaces s
  if s.take 2 = str "0x" ∨ s.take 2 = str "0X" then
    if s.drop 2 = [] then none else spelled 16 hexValue (s.drop 2)
  else if s = [] then none else spelled 10 digitValue s

def signedNumeral (s : Text) : Option ℤ :=
  let s := skipSpaces s
  let digits := if s.head? = some plus ∨ s.head? = some minus then s.tail else s
  (numeral digits).map fun n : ℕ => if s.head? = some minus then -(n : ℤ) else n

lemma parseDigits_eq (base value : ℕ) (digit : UInt8 → Option UInt64) (s : Text) :
    parseDigits (.ofNat base) digit (.ofNat value) s =
      (spelled base digit s).map fun n => .ofNat (value * base ^ s.length + n) := by
  induction s generalizing value with
  | nil => simp [parseDigits, spelled]
  | cons ch rest ih =>
    rw [parseDigits]
    cases hd : digit ch with
    | none => simp [spelled, hd]
    | some d =>
      have hstep : UInt64.ofNat value * .ofNat base + d = .ofNat (value * base + d.toNat) := by simp
      simp only [hstep, ih, spelled, List.mapM_cons, hd]
      cases hds : rest.mapM digit with
      | none => rfl
      | some ds =>
        have hlen := List.length_mapM hds
        refine congrArg (fun n => some (UInt64.ofNat n)) ?_
        simp [Nat.ofDigits_append, hlen]
        ring

lemma parseU64_eq (s : Text) : parseU64 s = (numeral s).map UInt64.ofNat := by
  simp only [parseU64, numeral]
  split_ifs
  · rfl
  · simpa using parseDigits_eq 16 0 hexValue _
  · rfl
  · simpa using parseDigits_eq 10 0 digitValue _

/-- The largest magnitude `asm_parse_signed_i32` lets through. -/
def signedLimit (z : ℤ) : ℕ := if z < 0 then 2147483648 else 2147483647

/-- `asm_parse_signed_i32` compares and returns the magnitude after it has wrapped. -/
lemma parseSignedI32_eq (s : Text) : (parseSignedI32 s).map Int32.toInt =
    (signedNumeral s).bind fun z =>
      if signedLimit z < z.natAbs % 2 ^ 64 then none else some (z.sign * (z.natAbs % 2 ^ 64 : ℕ)) := by
  have hskip (s) : parseU64 (skipSpaces s) = parseU64 s := by
    rw [parseU64, skipSpaces, skipSpaces, List.dropWhile_idempotent]
    rfl
  simp only [parseSignedI32, signedNumeral, hskip, parseU64_eq]
  cases numeral (if (skipSpaces s).head? = some plus ∨ (skipSpaces s).head? = some minus then
    (skipSpaces s).tail else skipSpaces s) with
  | none => rfl
  | some n =>
    have hwrap : UInt64.ofNat n = .ofNat (n % 2 ^ 64) := UInt64.ofNat_mod_size.symm
    have hlt : n % 2 ^ 64 < 2 ^ 64 := Nat.mod_lt n (by decide)
    have hover (k : ℕ) (hk : k < 2 ^ 64) : UInt64.ofNat (n % 2 ^ 64) > .ofNat k ↔ k < n % 2 ^ 64 := by
      rw [gt_iff_lt, UInt64.lt_iff_toNat_lt, UInt64.toNat_ofNat_of_lt' hlt,
        UInt64.toNat_ofNat_of_lt' hk]
    have hmax : UInt64.ofNat (n % 2 ^ 64) > 2147483647 ↔ _ := hover 2147483647 (by decide)
    have hmin : UInt64.ofNat (n % 2 ^ 64) > 2147483648 ↔ _ := hover 2147483648 (by decide)
    simp only [Option.map_some, Option.bind_some, hwrap, hmax, hmin, signedLimit]
    rcases Nat.eq_zero_or_pos n with rfl | hpos
    · simp
    have hsign : (n : ℤ).sign = 1 := Int.sign_eq_one_of_pos (by omega)
    by_cases hminus : (skipSpaces s).head? = some minus
    · simp only [hminus, if_true, not_true_eq_false, false_and, true_and, false_or,
        Int.natAbs_neg, Int.natAbs_natCast, Int.sign_neg, hsign, Left.neg_neg_iff, Int.natCast_pos,
        hpos]
      generalize n % 2 ^ 64 = m at hlt ⊢
      by_cases hbig : 2147483648 < m
      · simp [hbig]
      · simp [hbig, Int.bmod, Int32.size]
        omega
    · simp only [hminus, if_false, not_false_eq_true, false_and, true_and, or_false,
        Int.natAbs_natCast, hsign, not_lt.mpr (Int.natCast_nonneg n)]
      generalize n % 2 ^ 64 = m at hlt ⊢
      by_cases hbig : 2147483647 < m
      · simp [hbig]
      · simp [hbig, Int.bmod, Int32.size]
        omega

/-- Both parsers are exact except for the numerals whose value has wrapped around to one they let
through. -/
theorem parse_numeral (s : Text) :
    ((parseU64 s).map UInt64.toNat = (numeral s).filter (· < 2 ^ 64) ↔
      ∀ n ∈ numeral s, n < 2 ^ 64) ∧
    ((parseSignedI32 s).map Int32.toInt =
        (signedNumeral s).filter (fun z => -2 ^ 31 ≤ z ∧ z < 2 ^ 31) ↔
      ∀ z ∈ signedNumeral s, z.natAbs < 2 ^ 64 ∨ signedLimit z < z.natAbs % 2 ^ 64) := by
  constructor
  · rw [parseU64_eq]
    cases numeral s with
    | none => simp
    | some n =>
      simp only [Option.map_some, Option.filter_some, Option.mem_def, Option.some.injEq, forall_eq',
        decide_eq_true_eq, UInt64.toNat_ofNat']
      split_ifs with h
      · simp only [Nat.mod_eq_of_lt h, h]
      · simp only [h]
  · rw [parseSignedI32_eq]
    cases signedNumeral s with
    | none => simp
    | some z =>
      simp only [Option.bind_some, Option.filter_some, Option.mem_def, Option.some.injEq,
        forall_eq', decide_eq_true_eq]
      have hrange : -2 ^ 31 ≤ z ∧ z < 2 ^ 31 ↔ z.natAbs ≤ signedLimit z := by
        rw [signedLimit]
        split_ifs <;> omega
      have hmod := Nat.mod_le z.natAbs (2 ^ 64)
      by_cases hover : signedLimit z < z.natAbs % 2 ^ 64
      · rw [if_pos hover, if_neg (mt hrange.mp (by omega))]
        exact iff_of_true rfl (Or.inr hover)
      · rw [if_neg hover]
        by_cases hlt : z.natAbs < 2 ^ 64
        · rw [Nat.mod_eq_of_lt hlt] at hover ⊢
          simp only [if_pos (hrange.mpr (by omega)), Int.sign_mul_natAbs, hlt, true_or]
        · have hlimit : signedLimit z < 2 ^ 64 := by
            rw [signedLimit]
            split_ifs <;> decide
          simp only [if_neg (mt hrange.mp (by omega)), hlt, hover, reduceCtorEq, or_self]

theorem parseU64_wraps : numeral (str "18446744073709551616") = some (2 ^ 64) ∧
    parseU64 (str "18446744073709551616") = some 0 := by decide

/-! ### Registers -/

structure Reg where
  code : ℕ
  bits : ℕ
deriving DecidableEq

def r64 : List String :=
  ["rax", "rcx", "rdx", "rbx", "rsp", "rbp", "rsi", "rdi",
    "r8", "r9", "r10", "r11", "r12", "r13", "r14", "r15"]
def r32 : List String :=
  ["eax", "ecx", "edx", "ebx", "esp", "ebp", "esi", "edi",
    "r8d", "r9d", "r10d", "r11d", "r12d", "r13d", "r14d", "r15d"]
def r16 : List String :=
  ["ax", "cx", "dx", "bx", "sp", "bp", "si", "di",
    "r8w", "r9w", "r10w", "r11w", "r12w", "r13w", "r14w", "r15w"]
def r8 : List String :=
  ["al", "cl", "dl", "bl", "spl", "bpl", "sil", "dil",
    "r8b", "r9b", "r10b", "r11b", "r12b", "r13b", "r14b", "r15b"]

/-- `asm_register`. No name stands in two of the tables, so that they can be searched one after the
other. -/
def register (name : Text) : Option Reg :=
  [(r64, 64), (r32, 32), (r16, 16), (r8, 8)].findSome? fun (names, bits) =>
    (names.findIdx? fun n => str n == name).map fun code => ⟨code, bits⟩

/-! ### Operands -/

def splitTwoArgs (args : Text) : Option (Text × Text) :=
  match splitAtFirst (· == comma) args with
  | (_, none) => none
  | (left, some right) =>
    if trim left = [] ∨ trim right = [] then none else some (trim left, trim right)

/-- The three parts, and what `args` is afterwards: the string is cut at the first comma even if a part
turns out to be empty. -/
def splitThreeArgs (args : Text) : Option (Text × Text × Text) × Text :=
  match splitAtFirst (· == comma) args with
  | (_, none) => (none, args)
  | (first, some rest) =>
    match splitAtFirst (· == comma) rest with
    | (_, none) => (none, args)
    | (second, some third) =>
      (if trim first = [] ∨ trim second = [] ∨ trim third = [] then none
        else some (trim first, trim second, trim third), trim first)

/-- `asm_parse_mem_size_prefix`: the size in bits, or 0, and the text behind the size. -/
def parseMemSize (text : Text) : ℕ × Text :=
  let s := skipSpaces text
  match [("byte", 8), ("word", 16), ("dword", 32), ("qword", 64)].find? fun (name, _) =>
      (str name).isPrefixOf s && ((s.drop name.length).head?.any charIsSpace) with
  | none => (0, s)
  | some (name, bits) => (bits, skipSpaces (s.drop name.length))

/-- `asm_parse_label_memory`: the name and the size. -/
def parseLabelMemory (text : Text) : Option (Text × ℕ) :=
  let (bits, s) := parseMemSize text
  if s.head? ≠ some openBracket then none
  else
    let s := skipSpaces s.tail
    let ends (ch : UInt8) : Bool := ch == closeBracket || charIsSpace ch
    let label := s.takeWhile (!ends ·)
    let s := skipSpaces (s.dropWhile (!ends ·))
    if s.head? ≠ some closeBracket then none
    else if skipSpaces s.tail ≠ [] ∨ label = [] then none
    else if label.length + 1 > labelNameSize then none
    else some (label, bits)

/-- `asm_mem_t` -/
inductive Mem
  | label (name : Text) (bits : ℕ)
  | base (reg : Reg) (displacement : Int32) (bits : ℕ)
deriving DecidableEq

def Mem.bits : Mem → ℕ
  | .label _ bits => bits
  | .base _ _ bits => bits

def isSign (ch : UInt8) : Bool := ch == plus || ch == minus

/-- The text between brackets, which ends the operand. -/
def insideBrackets (s : Text) : Option Text :=
  if s.head? ≠ some openBracket then none
  else
    match splitAtFirst (· == closeBracket) (skipSpaces s.tail) with
    | (_, none) => none
    | (inside, some rest) =>
      if inside.length + 1 > lineSize ∨ skipSpaces rest ≠ [] then none else some inside

/-- The 64-bit base register that the text between the brackets begins with. A name that does not fit
into 16 characters is no register. -/
def baseRegister (inside : Text) : Option Reg :=
  let name := inside.takeWhile fun ch => !isSign ch && !charIsSpace ch
  if name.length + 1 > 16 then none
  else
    match register name with
    | some reg => if reg.bits = 64 then some reg else none
    | none => none

/-- `asm_parse_memory_operand` -/
def parseMemoryOperand (text : Text) : Option Mem :=
  let (bits, s) := parseMemSize text
  match insideBrackets s with
  | none => none
  | some inside =>
    match baseRegister inside with
    | some reg =>
      let op := inside.dropWhile (!isSign ·)
      if op = [] then some (.base reg 0 bits)
      else (parseSignedI32 op).map fun displacement => .base reg displacement bits
    | none => (parseLabelMemory text).map fun (label, bits) => .label label bits

end Asm
