import Mathlib.Tactic

/-!
# Checked buffers

A buffer is the list of its elements. Reading is `buf[i]?`; `write?` and `copy?` have no result as
soon as one access lies outside the buffers.
-/

namespace Checked

open List Option

universe u

variable {α β γ : Type u} {dst src : List α} {p q n : ℕ}

def write? (buf : List α) (i : ℕ) (a : α) : Option (List α) :=
  if i < buf.length then some (buf.set i a) else none

/-- Copies `n` elements from position `q` of `src` to position `p`, one after the other. -/
def copy? (src : List α) : ℕ → ℕ → ℕ → List α → Option (List α)
  | _, _, 0, dst => some dst
  | p, q, n + 1, dst => do
    let a ← src[q]?
    copy? src (p + 1) (q + 1) n (← write? dst p a)

/-- Moves the `n` elements from position `q` on to position `p` of the same buffer, one after the
other. -/
def move? : ℕ → ℕ → ℕ → List α → Option (List α)
  | _, _, 0, buf => some buf
  | p, q, n + 1, buf => do
    let a ← buf[q]?
    move? (p + 1) (q + 1) n (← write? buf p a)

lemma write?_eq_some {a : α} (h : p < dst.length) : write? dst p a = some (dst.set p a) := if_pos h

lemma take_succ_set {a : α} (h : p < dst.length) :
    (dst.set p a).take (p + 1) = dst.take p ++ [a] := by
  have hlength : (dst.take p).length = p := length_take_of_le h.le
  rw [set_eq_take_append_cons_drop, if_pos h, take_append, hlength,
    take_of_length_le (by omega), Nat.add_sub_cancel_left]
  rfl

/-- A copy inside both buffers succeeds, and replaces the elements it should. -/
lemma copy?_eq_some (hdst : p + n ≤ dst.length) (hsrc : q + n ≤ src.length) :
    copy? src p q n dst = some (dst.take p ++ (src.drop q).take n ++ dst.drop (p + n)) := by
  induction n generalizing p q dst with
  | zero => simp [copy?]
  | succ n ih =>
    have hq : q < src.length := by omega
    have hp : p < dst.length := by omega
    rw [copy?, getElem?_eq_getElem hq, bind_eq_bind, bind_some,
      write?_eq_some hp, bind_eq_bind, bind_some,
      ih (by rw [length_set]; omega) (by omega), drop_eq_getElem_cons hq,
      take_succ_cons, drop_set_of_lt (by omega), take_succ_set hp,
      show p + 1 + n = p + (n + 1) by omega]
    simp

/-- Moving elements down inside a buffer succeeds, and brings them where they should be. -/
lemma move?_eq_some (buf : List α) (hpq : p ≤ q) (hbuf : q + n ≤ buf.length) :
    ∃ buf', move? p q n buf = some buf' ∧ buf'.length = buf.length ∧
      buf'.take (p + n) = buf.take p ++ (buf.drop q).take n := by
  induction n generalizing p q buf with
  | zero => exact ⟨buf, rfl, rfl, by simp⟩
  | succ n ih =>
    have hq : q < buf.length := by omega
    have hp : p < buf.length := by omega
    obtain ⟨buf', hmove, hlength, htake⟩ := ih (buf.set p buf[q]) (Nat.succ_le_succ hpq)
      (by rw [length_set]; omega)
    refine ⟨buf', ?_, by rw [hlength, length_set], ?_⟩
    · rw [move?, getElem?_eq_getElem hq, bind_eq_bind, bind_some,
        write?_eq_some hp, bind_eq_bind, bind_some, hmove]
    · rw [show p + (n + 1) = p + 1 + n by omega, htake, drop_set_of_lt (by omega),
        drop_eq_getElem_cons hq, take_succ_cons, take_succ_set hp]
      simp

/-! ### Computations that get through -/

/-- The computation has a result, and `post` holds of it. -/
def Gets (post : β → Prop) (o : Option β) : Prop := ∃ b, o = some b ∧ post b

variable {post : β → Prop} {goal : Option γ → Prop} {o : Option β}

lemma Gets.bind {f : β → Option γ} (h : Gets post o) (hf : ∀ b, post b → goal (f b)) :
    goal (o >>= f) := by
  obtain ⟨b, rfl, hb⟩ := h
  exact hf b hb

lemma Gets.map {f : β → γ} (h : Gets post o) (hf : ∀ b, post b → goal (some (f b))) :
    goal (o.map f) := by
  obtain ⟨b, rfl, hb⟩ := h
  exact hf b hb

lemma gets_read (h : p < src.length := by omega) : Gets (src[p]? = some ·) src[p]? :=
  ⟨src[p], getElem?_eq_getElem h, getElem?_eq_getElem h⟩

lemma gets_write {a : α} (h : p < dst.length := by omega) :
    Gets (fun buf => buf.length = dst.length ∧ buf[p]? = some a) (write? dst p a) :=
  ⟨_, write?_eq_some h, length_set, getElem?_set_self h⟩

lemma gets_copy (hdst : p + n ≤ dst.length) (hsrc : q + n ≤ src.length) :
    Gets (·.length = dst.length) (copy? src p q n dst) := by
  refine ⟨_, copy?_eq_some hdst hsrc, ?_⟩
  simp only [length_append, length_take, length_drop]
  omega

end Checked
