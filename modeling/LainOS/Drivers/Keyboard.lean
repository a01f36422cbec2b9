import Mathlib.Tactic

/-!
# Modifier keys

`keyboard_decode_event` for the bytes of a PS/2 keyboard. Two shift keys share one flag, and so do the
two control keys: the flag follows the last one of them that was pressed or released.
-/

namespace Keyboard

structure State where
  shiftDown : Bool := false
  capsLockOn : Bool := false
  ctrlDown : Bool := false
  altgrDown : Bool := false
  extendedScancode : Bool := false
deriving DecidableEq

inductive KeyType
  | none | char | enter | backspace | tab | esc | left | right | up | down
  | ctrlE | ctrlS | ctrlQ | ctrlW
deriving DecidableEq

structure KeyEvent where
  type : KeyType
  ch : UInt8 := 0
deriving DecidableEq

section

variable (scancodeToAscii : State → UInt8 → UInt8)

/-- The event of a key that was pressed. -/
def pressEvent (st : State) (extended : Bool) (code : UInt8) : Option KeyEvent :=
  if extended then
    match code with
    | 0x4B => some ⟨.left, 0⟩
    | 0x4D => some ⟨.right, 0⟩
    | 0x48 => some ⟨.up, 0⟩
    | 0x50 => some ⟨.down, 0⟩
    | _ => some ⟨.none, 0⟩
  else if st.ctrlDown ∧ code = 0x12 then some ⟨.ctrlE, 0⟩
  else if st.ctrlDown ∧ code = 0x1F then some ⟨.ctrlS, 0⟩
  else if st.ctrlDown ∧ code = 0x10 then some ⟨.ctrlQ, 0⟩
  else if st.ctrlDown ∧ code = 0x11 then some ⟨.ctrlW, 0⟩
  else
    match code with
    | 0x01 => some ⟨.esc, 0⟩
    | 0x1C => some ⟨.enter, 10⟩
    | 0x0E => some ⟨.backspace, 8⟩
    | 0x0F => some ⟨.tab, 9⟩
    | _ => if scancodeToAscii st code ≠ 0 then some ⟨.char, scancodeToAscii st code⟩ else none

/-- `keyboard_decode_event` for a byte that is not from the mouse. -/
def decodeEvent (st : State) (sc : UInt8) : Option KeyEvent × State :=
  if sc = 0xE0 then (none, { st with extendedScancode := true })
  else
    let extended := st.extendedScancode
    let st := { st with extendedScancode := false }
    let released := decide (sc &&& 0x80 ≠ 0)
    let code := sc &&& 0x7F
    if extended ∧ code = 0x38 then (none, { st with altgrDown := !released })
    else if !extended ∧ (code = 0x2A ∨ code = 0x36) then (none, { st with shiftDown := !released })
    else if code = 0x1D then (none, { st with ctrlDown := !released })
    else if !extended ∧ code = 0x3A ∧ !released then
      (none, { st with capsLockOn := !st.capsLockOn })
    else if released then (none, st)
    else (pressEvent scancodeToAscii st extended code, st)

end

/-! ### Keys -/

/-- A key is its code and whether the prefix `E0` stands in front. The code `60` is no key, since it
would be released by the byte of the prefix. -/
structure Key where
  extended : Bool
  code : Fin 0x80
  ne : code ≠ 0x60
deriving DecidableEq

inductive Modifier
  | shift | ctrl | altgr
deriving DecidableEq

def Key.modifier (k : Key) : Option Modifier :=
  if k.extended ∧ k.code = 0x38 then some .altgr
  else if !k.extended ∧ (k.code = 0x2A ∨ k.code = 0x36) then some .shift
  else if k.code = 0x1D then some .ctrl
  else none

/-- A make or a break code. -/
structure Action where
  key : Key
  pressed : Bool
deriving DecidableEq

def Action.bytes (a : Action) : List UInt8 :=
  (if a.key.extended then [0xE0] else []) ++
    [UInt8.ofNat (a.key.code.val + if a.pressed then 0 else 0x80)]

/-- The state after some codes, the last one first. -/
def stateAfter (ascii : State → UInt8 → UInt8) : List Action → State
  | [] => {}
  | a :: past => a.bytes.foldl (fun st sc => (decodeEvent ascii st sc).2) (stateAfter ascii past)

def Held : List Action → Key → Prop
  | [], _ => False
  | a :: past, k => if k = a.key then a.pressed = true else Held past k

def State.flag (st : State) : Modifier → Bool
  | .shift => st.shiftDown
  | .ctrl => st.ctrlDown
  | .altgr => st.altgrDown

lemma scancode_bits : ∀ (c : Fin 0x80) (pressed : Bool),
    let sc := UInt8.ofNat (c.val + if pressed then 0 else 0x80)
    (sc = 0xE0 → c = 0x60) ∧ decide (sc &&& 0x80 ≠ 0) = !pressed ∧
      sc &&& 0x7F = UInt8.ofNat c.val := by
  decide

lemma code_eq : ∀ c : Fin 0x80, (UInt8.ofNat c.val = 0x38 ↔ c = 0x38) ∧
    (UInt8.ofNat c.val = 0x2A ↔ c = 0x2A) ∧ (UInt8.ofNat c.val = 0x36 ↔ c = 0x36) ∧
    (UInt8.ofNat c.val = 0x1D ↔ c = 0x1D) := by
  decide

variable (ascii : State → UInt8 → UInt8)

/-- The byte behind the prefix sets the flag of its key and no other one. -/
lemma decodeEvent_code {st : State} {a : Action} (h : st.extendedScancode = a.key.extended)
    (m : Modifier) :
    let st' := (decodeEvent ascii st
      (UInt8.ofNat (a.key.code.val + if a.pressed then 0 else 0x80))).2
    st'.extendedScancode = false ∧
      st'.flag m = if a.key.modifier = some m then a.pressed else st.flag m := by
  obtain ⟨hnot, hreleased, hcode⟩ := scancode_bits a.key.code a.pressed
  obtain ⟨halt, hleft, hright, hctrl⟩ := code_eq a.key.code
  simp only [decodeEvent, if_neg fun heq => a.key.ne (hnot heq), Key.modifier, hreleased, hcode,
    h, halt, hleft, hright, hctrl, Bool.not_not]
  by_cases hisAlt : a.key.extended = true ∧ a.key.code = 0x38
  · simp only [if_pos hisAlt]
    cases m <;> exact ⟨trivial, rfl⟩
  by_cases hisShift : (!a.key.extended) = true ∧ (a.key.code = 0x2A ∨ a.key.code = 0x36)
  · simp only [if_neg hisAlt, if_pos hisShift]
    cases m <;> exact ⟨trivial, rfl⟩
  by_cases hisCtrl : a.key.code = 0x1D
  · simp only [if_neg hisAlt, if_neg hisShift, if_pos hisCtrl]
    cases m <;> exact ⟨trivial, rfl⟩
  · simp only [if_neg hisAlt, if_neg hisShift, if_neg hisCtrl, reduceCtorEq, if_false]
    split_ifs <;> cases m <;> exact ⟨rfl, rfl⟩

lemma stateAfter_cons (a : Action) (past : List Action) (m : Modifier) :
    (stateAfter ascii (a :: past)).extendedScancode = false ∧
      (stateAfter ascii (a :: past)).flag m =
        if a.key.modifier = some m then a.pressed else (stateAfter ascii past).flag m := by
  have hclear : (stateAfter ascii past).extendedScancode = false := by
    cases past with
    | nil => rfl
    | cons b past => exact (stateAfter_cons b past m).1
  rw [stateAfter, Action.bytes]
  rcases hkey : a.key.extended with _ | _
  · exact decodeEvent_code ascii (hclear.trans hkey.symm) m
  -- the prefix only sets `extendedScancode`
  obtain ⟨hext, hflag⟩ :=
    @decodeEvent_code ascii (decodeEvent ascii (stateAfter ascii past) 0xE0).2 a hkey.symm m
  refine ⟨hext, hflag.trans ?_⟩
  cases m <;> rfl

/-- The flags tell which modifiers are held, after each of the codes, exactly when no key is released
while another one with its flag is held. -/
theorem flag_iff_held (h : List Action) :
    (∀ past, past <:+ h → ∀ m, (stateAfter ascii past).flag m = true ↔
      ∃ k : Key, k.modifier = some m ∧ Held past k) ↔
    ∀ a past, a :: past <:+ h → a.pressed = false → ∀ k m, k ≠ a.key → k.modifier = some m →
      a.key.modifier = some m → ¬Held past k := by
  constructor
  · intro hflags a past hpast hrel k m hne hk ha hheld
    have hset := (hflags _ hpast m).mpr ⟨k, hk, by rwa [Held, if_neg hne]⟩
    rw [(stateAfter_cons ascii a past m).2, if_pos ha, hrel] at hset
    cases hset
  intro hfree past
  induction past with
  | nil =>
    intro _ m
    exact ⟨fun hset => by (cases m <;> cases hset), fun ⟨_, _, hheld⟩ => hheld.elim⟩
  | cons a past ih =>
    intro hpast m
    rw [(stateAfter_cons ascii a past m).2]
    split_ifs with ha
    · constructor
      · exact fun hpress => ⟨a.key, ha, by rwa [Held, if_pos rfl]⟩
      rintro ⟨k, hk, hheld⟩
      by_contra hrel
      rw [Bool.not_eq_true] at hrel
      rw [Held] at hheld
      split_ifs at hheld with hkey
      · exact absurd hheld (by rw [hrel]; decide)
      · exact hfree a past hpast hrel k m hkey hk ha hheld
    · rw [ih ((List.suffix_cons a past).trans hpast) m]
      refine exists_congr fun k => and_congr_right fun hk => ?_
      rw [Held, if_neg fun heq : k = a.key => ha (heq ▸ hk)]

/-- Both shift keys go down and the left one goes up: the right one is held and the flag is clear. -/
theorem shiftDown_clear_while_held :
    let left : Key := ⟨false, 0x2A, by decide⟩
    let right : Key := ⟨false, 0x36, by decide⟩
    let codes : List Action := [⟨left, false⟩, ⟨right, true⟩, ⟨left, true⟩]
    Held codes right ∧ (stateAfter (fun _ _ => 0) codes).shiftDown = false :=
  ⟨by simp [Held], rfl⟩

end Keyboard
