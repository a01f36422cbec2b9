import LainOS.Lib.Spans

/-!
# Byte memory

A memory gives every address a byte. Numbers of `n` bytes are stored little endian. `Changed a`
relates two memories that differ inside the span `a` at most; what is loaded from elsewhere is the
same in both (`Changed.load`).
-/

abbrev Mem : Type := ℕ → UInt8

namespace Mem

variable {n p q : ℕ}

/-- The number in the `n` bytes from `a` on. -/
def load : ℕ → Mem → ℕ → ℕ
  | 0, _, _ => 0
  | n + 1, mem, a => (mem a).toNat + 256 * load n mem (a + 1)

/-- The low `n` bytes of `v`, stored from `a` on. -/
def store (n : ℕ) (mem : Mem) (a v : ℕ) : Mem := fun x =>
  if a ≤ x ∧ x < a + n then UInt8.ofNat (v / 256 ^ (x - a)) else mem x

def fill (mem : Mem) (a n : ℕ) (value : UInt8) : Mem := fun x =>
  if a ≤ x ∧ x < a + n then value else mem x

/-- The `n` bytes of `src` from `p` on, copied to `a`. -/
def copy (mem : Mem) (a : ℕ) (src : Mem) (p n : ℕ) : Mem := fun x =>
  if a ≤ x ∧ x < a + n then src (p + (x - a)) else mem x

variable {mem mem' mem'' : Mem} {a b : Span}

lemma load_eq_load (h : ∀ i < n, mem' (p + i) = mem (q + i)) : load n mem' p = load n mem q := by
  induction n generalizing p q with
  | zero => rfl
  | succ n ih =>
    have hhead : mem' p = mem q := h 0 (by omega)
    have htail : load n mem' (p + 1) = load n mem (q + 1) := by
      refine ih fun i hi => ?_
      have := h (i + 1) (by omega)
      rwa [Nat.add_comm i 1, ← Nat.add_assoc, ← Nat.add_assoc] at this
    rw [load, load, hhead, htail]

lemma load_congr (h : ∀ x, p ≤ x → x < p + n → mem' x = mem x) : load n mem' p = load n mem p :=
  load_eq_load fun i hi => h (p + i) (by omega) (by omega)

lemma load_eq_mod {v : ℕ} (h : ∀ i < n, mem (p + i) = UInt8.ofNat (v / 256 ^ i)) :
    load n mem p = v % 256 ^ n := by
  induction n generalizing p v with
  | zero => simp [load, Nat.mod_one]
  | succ n ih =>
    have hhead : mem p = UInt8.ofNat v := by simpa using h 0 (by omega)
    have htail : load n mem (p + 1) = v / 256 % 256 ^ n := by
      refine ih fun i hi => ?_
      have := h (i + 1) (by omega)
      rwa [Nat.pow_succ', ← Nat.div_div_eq_div_mul, show p + (i + 1) = p + 1 + i by omega] at this
    rw [load, hhead, htail, Nat.pow_succ', Nat.mod_mul]
    simp

lemma load_store_same (n : ℕ) (mem : Mem) (p v : ℕ) : load n (store n mem p v) p = v % 256 ^ n := by
  refine load_eq_mod fun i hi => ?_
  rw [store, if_pos (by omega), Nat.add_sub_cancel_left]

lemma load_lt (n : ℕ) (mem : Mem) (p : ℕ) : load n mem p < 256 ^ n := by
  induction n generalizing p with
  | zero => exact Nat.one_pos
  | succ n ih =>
    have hbyte := (mem p).toNat_lt
    have hrest := ih (p + 1)
    rw [load, Nat.pow_succ']
    omega

lemma ofNat_div_eq {v : ℕ} (h : load n mem p = v % 256 ^ n) {i : ℕ} (hi : i < n) :
    UInt8.ofNat (v / 256 ^ i) = mem (p + i) := by
  induction n generalizing p v i with
  | zero => cases hi
  | succ n ih =>
    have hbyte := (mem p).toNat_lt
    rw [load, Nat.pow_succ', Nat.mod_mul] at h
    cases i with
    | zero =>
      apply UInt8.toNat_inj.mp
      simp
      omega
    | succ i =>
      rw [Nat.pow_succ', ← Nat.div_div_eq_div_mul, ih (p := p + 1) (by omega) (by omega)]
      congr 1
      omega

lemma store_eq_copy {v : ℕ} {src : Mem} (h : load n src p = v % 256 ^ n) :
    store n mem q v = copy mem q src p n := by
  funext x
  rw [store, copy]
  split_ifs with hx
  · exact ofNat_div_eq h (by omega)
  · rfl

lemma copy_copy (mem src : Mem) (q p n k : ℕ) :
    copy (copy mem q src p n) (q + n) src (p + n) k = copy mem q src p (n + k) := by
  funext x
  simp only [copy]
  split_ifs <;> first | rfl | omega | exact congrArg src (by omega)

/-! ### Changes -/

/-- Outside the span `a` the memories agree. -/
def Changed (a : Span) (mem mem' : Mem) : Prop := ∀ x, ¬ a.Mem x → mem' x = mem x

lemma Changed.trans (h : Changed a mem mem') (h' : Changed a mem' mem'') : Changed a mem mem'' :=
  fun x hx => (h' x hx).trans (h x hx)

lemma Changed.mono (h : Changed a mem mem') (hstart : b.start ≤ a.start) (hstop : a.stop ≤ b.stop) :
    Changed b mem mem' :=
  fun x hx => h x fun hmem => hx ⟨hstart.trans hmem.1, hmem.2.trans_le hstop⟩

lemma store_changed (n : ℕ) (mem : Mem) (p v : ℕ) : Changed ⟨p, n⟩ mem (store n mem p v) :=
  fun _ hx => if_neg hx

lemma fill_changed (mem : Mem) (p n : ℕ) (value : UInt8) :
    Changed ⟨p, n⟩ mem (fill mem p n value) :=
  fun _ hx => if_neg hx

lemma Changed.load (h : Changed a mem mem') (hapart : Span.Apart ⟨p, n⟩ a) :
    load n mem' p = load n mem p := by
  refine load_congr fun x hx hx' => h x fun hmem => ?_
  obtain ⟨hstart, hstop⟩ := hmem
  simp only [Span.Apart, Span.stop] at hapart hstop
  omega

lemma load_store_apart {k v : ℕ} {mem : Mem} (h : q + k ≤ p ∨ p + n ≤ q) :
    Mem.load k (store n mem p v) q = Mem.load k mem q :=
  (store_changed n mem p v).load h

end Mem
