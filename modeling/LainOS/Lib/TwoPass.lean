import Mathlib.Tactic

/-!
# Two passes over one text

An emitter writes bytes at an offset. It is run twice: a measuring pass moves the offset only, an
emitting pass also writes the bytes and notes records about them. `Agree I m e` says that the measuring
run `m` and the emitting run `e` move the offset alike, from equal offsets, where both succeed, and
that the emitting run takes a state to one related by `I`. `Abreast I m e` says it of any offsets, so
that a measuring run can be compared with an emitting one that stands elsewhere.
-/

namespace TwoPass

/-- What has been put out so far. The measuring pass leaves `bytes` and `records` as they are. -/
structure Out (ρ : Type) where
  offset : UInt32
  bytes : List UInt8
  records : List ρ

variable {ρ : Type}

def Out.empty : Out ρ := ⟨0, [], []⟩

abbrev Emit (ρ : Type) := StateT (Out ρ) Option

variable {α β : Type}

def fail : Emit ρ α := fun _ => none

/-- The value of a computation without effect on the output. -/
def lift (x : Option α) : Emit ρ α := fun s => x.map (·, s)

def offset : Emit ρ UInt32 := fun s => some (s.offset, s)

/-- Run the emitter if the condition holds. -/
def emitWhen (c : Bool) (m : Emit ρ Unit) : Emit ρ Unit := if c then m else pure ()

/-! ### What a run that succeeds went through -/

variable {m e : Emit ρ α} {s s' t t' : Out ρ} {a b : α}

lemma bind_eq_some {f : α → Emit ρ β} {c : β} :
    (m >>= f) s = some (c, s') ↔ ∃ a s₁, m s = some (a, s₁) ∧ f a s₁ = some (c, s') := by
  change (m s).bind (fun p => f p.1 p.2) = some (c, s') ↔ _
  simp [Option.bind_eq_some_iff]

lemma pure_eq_some : (pure a : Emit ρ α) s = some (b, s') ↔ a = b ∧ s = s' := by
  change some (a, s) = some (b, s') ↔ _
  simp

lemma lift_eq_some {x : Option α} : (lift x : Emit ρ α) s = some (a, s') ↔ x = some a ∧ s = s' := by
  cases x <;> simp [lift]

lemma offset_eq_some {o : UInt32} :
    (offset : Emit ρ UInt32) s = some (o, s') ↔ s.offset = o ∧ s = s' := by simp [offset]

/-! ### The relation between the passes -/

def Agree (I : Out ρ → Out ρ → Prop) (m e : Emit ρ α) : Prop :=
  ∀ ⦃s t a s' b t'⦄, s.offset = t.offset → m s = some (a, s') → e t = some (b, t') →
    s'.offset = t'.offset ∧ I t t'

/-- The runs `m` and `e` move the offset by the same amount, wherever each of them stands. -/
def Abreast (I : Out ρ → Out ρ → Prop) (m e : Emit ρ α) : Prop :=
  ∀ ⦃s t a s' b t'⦄, m s = some (a, s') → e t = some (b, t') →
    (∃ n, s'.offset = s.offset + n ∧ t'.offset = t.offset + n) ∧ I t t'

namespace Abreast

variable {I : Out ρ → Out ρ → Prop}

lemma agree (h : Abreast I m e) : Agree I m e := by
  intro s t _ s' _ t' ho hm he
  obtain ⟨⟨n, hs, ht⟩, hI⟩ := h hm he
  exact ⟨by rw [hs, ht, ho], hI⟩

lemma fail_left : Abreast I (fail : Emit ρ α) e := fun _ _ _ _ _ _ h => by cases h

lemma fail_right : Abreast I m (fail : Emit ρ α) := fun _ _ _ _ _ _ _ h => by cases h

section

variable [Std.Refl I]

lemma still {s t : Out ρ} : (∃ n, s.offset = s.offset + n ∧ t.offset = t.offset + n) ∧ I t t :=
  ⟨⟨0, (UInt32.add_zero _).symm, (UInt32.add_zero _).symm⟩, Std.Refl.refl _⟩

lemma pure (a b : α) : Abreast I (Pure.pure a : Emit ρ α) (Pure.pure b) := by
  intro s t _ s' _ t' hm he
  obtain ⟨-, rfl⟩ := pure_eq_some.mp hm
  obtain ⟨-, rfl⟩ := pure_eq_some.mp he
  exact still

lemma lift (x y : Option α) : Abreast I (TwoPass.lift x : Emit ρ α) (TwoPass.lift y) := by
  intro s t _ s' _ t' hm he
  obtain ⟨-, rfl⟩ := lift_eq_some.mp hm
  obtain ⟨-, rfl⟩ := lift_eq_some.mp he
  exact still

lemma offset : Abreast I (TwoPass.offset : Emit ρ UInt32) TwoPass.offset := by
  intro s t _ s' _ t' hm he
  obtain ⟨-, rfl⟩ := offset_eq_some.mp hm
  obtain ⟨-, rfl⟩ := offset_eq_some.mp he
  exact still

lemma emitWhen (c : Bool) {m e : Emit ρ Unit} (h : Abreast I m e) :
    Abreast I (TwoPass.emitWhen c m) (TwoPass.emitWhen c e) := by
  cases c
  · exact pure () ()
  · exact h

end

/-- The runs may go on with different values. -/
lemma bind [IsTrans (Out ρ) I] {f g : α → Emit ρ β} (h : Abreast I m e)
    (hf : ∀ a b, Abreast I (f a) (g b)) : Abreast I (m >>= f) (e >>= g) := by
  intro s t _ s' _ t' hm he
  obtain ⟨a, s₁, hm₁, hm₂⟩ := bind_eq_some.mp hm
  obtain ⟨b, t₁, he₁, he₂⟩ := bind_eq_some.mp he
  obtain ⟨⟨n₁, hs₁, ht₁⟩, hI₁⟩ := h hm₁ he₁
  obtain ⟨⟨n₂, hs₂, ht₂⟩, hI₂⟩ := hf a b hm₂ he₂
  refine ⟨⟨n₁ + n₂, ?_, ?_⟩, Trans.trans hI₁ hI₂⟩
  · rw [hs₂, hs₁, UInt32.add_assoc]
  · rw [ht₂, ht₁, UInt32.add_assoc]

lemma ite {c : Prop} [Decidable c] {m' e' : Emit ρ α} (h : Abreast I m e) (h' : Abreast I m' e') :
    Abreast I (if c then m else m') (if c then e else e') := by
  split
  · exact h
  · exact h'

/-- A check that one run makes on a value of its own. -/
lemma guard {c d : Prop} [Decidable c] [Decidable d] (h : Abreast I m e) :
    Abreast I (if c then fail else m) (if d then fail else e) := by
  split
  · exact fail_left
  · split
    · exact fail_right
    · exact h

lemma option {x : Option β} {f g : β → Emit ρ α} (h : ∀ v, Abreast I (f v) (g v)) :
    Abreast I (x.elim fail f) (x.elim fail g) := by
  cases x
  · exact fail_left
  · exact h _

end Abreast

end TwoPass
