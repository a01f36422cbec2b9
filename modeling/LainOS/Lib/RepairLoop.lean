import Mathlib.Tactic

/-!
# Check-and-repair loops

A loop that checks a state, repairs the defect it finds and checks again, until the check
accepts, a defect cannot be repaired or a limit is passed. A measure that every repair lowers by one
counts the repairs (`loop_repairs`). Two rules compare two such loops over one type of states: they end alike when every reachable step agrees, and they end apart when a
step on the way is refused by one loop and leaves a lasting trace in the other.
-/

namespace RepairLoop

variable {σ δ δ₁ δ₂ : Type*}

/-- How a loop ends, with the number of repairs done. -/
inductive End (δ : Type*)
  | clean (repairs : ℕ)
  | stuck (repairs : ℕ) (defect : δ)
  | tooMany (repairs : ℕ) (defect : δ)

def End.repairs : End δ → ℕ
  | clean n => n
  | stuck n _ => n
  | tooMany n _ => n

def End.isClean : End δ → Bool
  | clean _ => true
  | _ => false

def loop (check : σ → Option δ) (repair : δ → σ → Option σ) (limit repairs : ℕ) (s : σ) :
    End δ × σ :=
  match check s with
  | none => (.clean repairs, s)
  | some defect =>
    match repair defect s with
    | none => (.stuck repairs defect, s)
    | some s' =>
      if limit < repairs + 1 then (.tooMany (repairs + 1) defect, s')
      else loop check repair limit (repairs + 1) s'
termination_by limit - repairs

section

variable {check : σ → Option δ} {repair : δ → σ → Option σ} {limit repairs : ℕ} {s : σ}

/-- What every repair of a reported defect preserves, the whole loop preserves. -/
theorem loop_invariant {I : σ → Prop}
    (step : ∀ s defect s', I s → check s = some defect → repair defect s = some s' → I s')
    (h : I s) : I (loop check repair limit repairs s).2 := by
  fun_induction loop check repair limit repairs s with
  | case1 => exact h
  | case2 => exact h
  | case3 repairs s defect hcheck s' hrepair hlimit => exact step s defect s' h hcheck hrepair
  | case4 repairs s defect hcheck s' hrepair hlimit ih =>
    exact ih (step s defect s' h hcheck hrepair)

lemma loop_of_accepts (h : check s = none) :
    loop check repair limit repairs s = (.clean repairs, s) := by
  rw [loop, h]

lemma loop_of_refused {defect : δ} (h : check s = some defect) (hr : repair defect s = none) :
    loop check repair limit repairs s = (.stuck repairs defect, s) := by
  simp only [loop, h, hr]

lemma loop_of_repaired {defect : δ} {s' : σ} (h : check s = some defect)
    (hr : repair defect s = some s') : loop check repair limit repairs s =
      if limit < repairs + 1 then (.tooMany (repairs + 1) defect, s')
      else loop check repair limit (repairs + 1) s' := by
  rw [loop]
  simp only [h, hr]

/-- A loop that ends clean ends in an accepted state. -/
lemma check_of_isClean (h : (loop check repair limit repairs s).1.isClean = true) :
    check (loop check repair limit repairs s).2 = none := by
  fun_induction loop check repair limit repairs s with
  | case1 repairs s hcheck => exact hcheck
  | case2 => cases h
  | case3 => cases h
  | case4 repairs s defect hcheck s' hrepair hlimit ih => exact ih h

/-- A loop that is stuck has met a defect it cannot repair. -/
lemma of_stuck {n : ℕ} {defect : δ} (h : (loop check repair limit repairs s).1 = .stuck n defect) :
    check (loop check repair limit repairs s).2 = some defect ∧
      repair defect (loop check repair limit repairs s).2 = none := by
  fun_induction loop check repair limit repairs s with
  | case1 => cases h
  | case2 repairs s defect' hcheck hrepair =>
    cases h
    exact ⟨hcheck, hrepair⟩
  | case3 => cases h
  | case4 repairs s defect' hcheck s' hrepair hlimit ih => exact ih h

end

section

variable {check : σ → Option δ} {repair : δ → σ → Option σ} {limit repairs : ℕ} {s : σ}

/-- The loop repairs as often as a measure says that goes down by one with every repair and is zero
when there is nothing to repair, or stops behind the limit. -/
theorem loop_repairs {pending : σ → ℕ}
    (step : ∀ s defect s', check s = some defect → repair defect s = some s' →
      pending s = pending s' + 1)
    (accepted : ∀ s, check s = none → pending s = 0)
    (refused : ∀ s defect, check s = some defect → repair defect s = none → pending s = 0)
    (hle : repairs ≤ limit) :
    (loop check repair limit repairs s).1.repairs = min (repairs + pending s) (limit + 1) ∧
      ((∃ n defect, (loop check repair limit repairs s).1 = .tooMany n defect) ↔
        limit < repairs + pending s) := by
  fun_induction loop check repair limit repairs s with
  | case1 repairs s hcheck =>
    rw [accepted s hcheck]
    refine ⟨?_, iff_of_false ?_ (by omega)⟩
    · rw [End.repairs]
      omega
    · rintro ⟨n, defect, h⟩
      cases h
  | case2 repairs s defect hcheck hrepair =>
    rw [refused s defect hcheck hrepair]
    refine ⟨?_, iff_of_false ?_ (by omega)⟩
    · rw [End.repairs]
      omega
    · rintro ⟨n, defect, h⟩
      cases h
  | case3 repairs s defect hcheck s' hrepair hlimit =>
    have hpending := step s defect s' hcheck hrepair
    refine ⟨?_, iff_of_true ⟨_, _, rfl⟩ (by omega)⟩
    rw [End.repairs]
    omega
  | case4 repairs s defect hcheck s' hrepair hlimit ih =>
    have hpending := step s defect s' hcheck hrepair
    rw [show repairs + pending s = repairs + 1 + pending s' by omega]
    exact ih (by omega)

end

variable {check₁ : σ → Option δ₁} {repair₁ : δ₁ → σ → Option σ}
  {check₂ : σ → Option δ₂} {repair₂ : δ₂ → σ → Option σ} {limit repairs : ℕ} {s : σ}

/-- Two loops whose steps agree on an invariant end in the same state with the same verdict. -/
theorem loop_agree {I : σ → Prop} (hcheck : ∀ s, I s → (check₁ s = none ↔ check₂ s = none))
    (hrepair : ∀ s a b, I s → check₁ s = some a → check₂ s = some b → repair₁ a s = repair₂ b s)
    (step : ∀ s a s', I s → check₁ s = some a → repair₁ a s = some s' → I s') (h : I s) :
    (loop check₁ repair₁ limit repairs s).2 = (loop check₂ repair₂ limit repairs s).2 ∧
      (loop check₁ repair₁ limit repairs s).1.isClean
        = (loop check₂ repair₂ limit repairs s).1.isClean := by
  -- what the second check reports when the first reports something
  have hsome : ∀ s a, I s → check₁ s = some a → ∃ b, check₂ s = some b := by
    intro s a hI ha
    cases hb : check₂ s with
    | none => rw [(hcheck s hI).mpr hb] at ha; cases ha
    | some b => exact ⟨b, rfl⟩
  fun_induction loop check₁ repair₁ limit repairs s with
  | case1 repairs s hnone =>
    rw [loop_of_accepts ((hcheck s h).mp hnone)]
    exact ⟨rfl, rfl⟩
  | case2 repairs s a ha hrefuse =>
    obtain ⟨b, hb⟩ := hsome s a h ha
    rw [loop_of_refused hb (by rw [← hrepair s a b h ha hb, hrefuse])]
    exact ⟨rfl, rfl⟩
  | case3 repairs s a ha s' hs' hlimit =>
    obtain ⟨b, hb⟩ := hsome s a h ha
    rw [loop_of_repaired hb (by rw [← hrepair s a b h ha hb, hs']), if_pos hlimit]
    exact ⟨rfl, rfl⟩
  | case4 repairs s a ha s' hs' hlimit ih =>
    obtain ⟨b, hb⟩ := hsome s a h ha
    rw [loop_of_repaired hb (by rw [← hrepair s a b h ha hb, hs']), if_neg hlimit]
    exact ih (step s a s' h ha hs')

/-- Two loops end in different states when, from every state of `J`, either both make the same
repair and stay in `J`, or the first refuses in a state without the trace `Q` while the second
goes on into one with `Q`, which its repairs keep. The first loop must stay below the limit. -/
theorem loop_ne {J Q : σ → Prop} (hJ : ∀ s, J s → ∃ a b, check₁ s = some a ∧ check₂ s = some b ∧
      ((∃ s', repair₁ a s = some s' ∧ repair₂ b s = some s' ∧ J s') ∨
        (∃ s', repair₁ a s = none ∧ repair₂ b s = some s' ∧ ¬ Q s ∧ Q s')))
    (hQ : ∀ s b s', Q s → check₂ s = some b → repair₂ b s = some s' → Q s')
    (hsteps : (loop check₁ repair₁ limit repairs s).1.repairs ≤ limit) (h : J s) :
    (loop check₁ repair₁ limit repairs s).2 ≠ (loop check₂ repair₂ limit repairs s).2 := by
  fun_induction loop check₁ repair₁ limit repairs s with
  | case1 repairs s hnone =>
    obtain ⟨a, b, ha, -⟩ := hJ s h
    rw [hnone] at ha
    cases ha
  | case2 repairs s a ha hrefuse =>
    obtain ⟨a', b, ha', hb, ⟨s', hs', -⟩ | ⟨s', -, hs', hnq, hq⟩⟩ := hJ s h
    · rw [ha] at ha'
      cases ha'
      rw [hrefuse] at hs'
      cases hs'
    · intro heq
      apply hnq
      have hs : s = (loop check₂ repair₂ limit repairs s).2 := heq
      rw [hs, loop_of_repaired hb hs']
      split_ifs
      · exact hq
      · exact loop_invariant hQ hq
  | case3 repairs s a ha s' hs' hlimit =>
    simp only [End.repairs] at hsteps
    omega
  | case4 repairs s a ha s' hs' hlimit ih =>
    obtain ⟨a', b, ha', hb, ⟨t, ht, ht', hJt⟩ | ⟨t, ht, -⟩⟩ := hJ s h
    · rw [ha] at ha'
      cases ha'
      rw [hs'] at ht
      cases ht
      rw [loop_of_repaired hb ht', if_neg hlimit]
      exact ih hsteps hJt
    · rw [ha] at ha'
      cases ha'
      rw [hs'] at ht
      cases ht

end RepairLoop
