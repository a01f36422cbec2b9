import LainOS.Lib.Memory

/-!
# Buffers that record what is stored

A buffer is a memory together with the spans that were stored to, the latest first. A program that
fails leaves the buffer it had then as its error, so that the stores of a failed run are known too;
`Ends` says what holds at both ends of a program.
-/

structure Buffer where
  mem : Mem
  stores : List Span

namespace Buffer

def store (n : ℕ) (b : Buffer) (a v : ℕ) : Buffer := ⟨Mem.store n b.mem a v, ⟨a, n⟩ :: b.stores⟩

def fill (b : Buffer) (a n : ℕ) (value : UInt8) : Buffer :=
  ⟨Mem.fill b.mem a n value, ⟨a, n⟩ :: b.stores⟩

def copy (b : Buffer) (a : ℕ) (src : Mem) (p n : ℕ) : Buffer :=
  ⟨Mem.copy b.mem a src p n, ⟨a, n⟩ :: b.stores⟩

/-- Every byte that was stored lies below the limit. -/
def Within (b : Buffer) (limit : ℕ) : Prop := ∀ a ∈ b.stores, ∀ x, a.Mem x → x < limit

variable {b : Buffer} {a n limit v p : ℕ} {value : UInt8} {src : Mem}

lemma forall_mem_span_iff : (∀ x, (⟨a, n⟩ : Span).Mem x → x < limit) ↔ n = 0 ∨ a + n ≤ limit := by
  simp only [Span.Mem, Span.stop]
  constructor
  · intro h
    have hlast := h (a + n - 1)
    omega
  · intro h x hx
    omega

lemma within_cons {stores : List Span} {mem : Mem} :
    Within ⟨mem, ⟨a, n⟩ :: stores⟩ limit ↔ (n = 0 ∨ a + n ≤ limit) ∧ Within ⟨mem, stores⟩ limit := by
  rw [← forall_mem_span_iff]
  exact List.forall_mem_cons

@[simp] lemma within_store : (b.store n a v).Within limit ↔
    (n = 0 ∨ a + n ≤ limit) ∧ b.Within limit := within_cons

@[simp] lemma within_fill : (b.fill a n value).Within limit ↔
    (n = 0 ∨ a + n ≤ limit) ∧ b.Within limit := within_cons

@[simp] lemma within_copy : (b.copy a src p n).Within limit ↔
    (n = 0 ∨ a + n ≤ limit) ∧ b.Within limit := within_cons

lemma Within.stop_le (h : b.Within limit) (hmem : ⟨a, n⟩ ∈ b.stores) : n = 0 ∨ a + n ≤ limit :=
  forall_mem_span_iff.mp (h _ hmem)

lemma Within.mono {limit' : ℕ} (h : b.Within limit) (hle : limit ≤ limit') : b.Within limit' :=
  fun a ha x hx => (h a ha x hx).trans_le hle

@[simp] lemma within_nil {mem : Mem} : Within ⟨mem, []⟩ limit := by simp [Within]

end Buffer

/-- `E` holds of the error of a program, or `Q` of its result. -/
def Ends {ε α : Type*} (E : ε → Prop) (Q : α → Prop) : Except ε α → Prop
  | .error e => E e
  | .ok a => Q a

namespace Ends

universe u v

variable {ε : Type v} {α β : Type u} {E : ε → Prop} {Q : α → Prop} {R : β → Prop}

lemma bind {x : Except ε α} {f : α → Except ε β} (h : Ends E Q x)
    (hf : ∀ a, Q a → Ends E R (f a)) : Ends E R (x >>= f) := by
  cases x with
  | error e => exact h
  | ok a => exact hf a h

lemma imp {E' : ε → Prop} {Q' : α → Prop} {x : Except ε α} (h : Ends E Q x) (hE : ∀ e, E e → E' e)
    (hQ : ∀ a, Q a → Q' a) : Ends E' Q' x := by
  cases x with
  | error e => exact hE e h
  | ok a => exact hQ a h

/-- The result is the one the program has. -/
lemma with_eq {x : Except ε α} (h : Ends E Q x) : Ends E (fun a => x = .ok a ∧ Q a) x := by
  cases x with
  | error e => exact h
  | ok a => exact ⟨rfl, h⟩

lemma elim {E' : ε → Prop} {Q' : α → Prop} {P : Prop} {x : Except ε α} (h : Ends E Q x)
    (h' : Ends E' Q' x) (hE : ∀ e, E e → E' e → P) (hQ : ∀ a, Q a → Q' a → P) : P := by
  cases x with
  | error e => exact hE e h h'
  | ok a => exact hQ a h h'

/-- From a step to a loop. -/
lemma foldlM {ι : Type*} {f : β → ι → Except ε β} {l : List ι}
    (hstep : ∀ a ∈ l, ∀ s, R s → Ends E R (f s a)) {s : β} (hs : R s) :
    Ends E R (l.foldlM f s) := by
  induction l generalizing s with
  | nil => exact hs
  | cons a l ih =>
    rw [List.foldlM_cons]
    exact (hstep a List.mem_cons_self s hs).bind fun s' hs' =>
      ih (fun a' ha' => hstep a' (List.mem_cons_of_mem a ha')) hs'

end Ends

lemma Except.bind_eq_ok {ε : Type*} {α β : Type} {x : Except ε α} {f : α → Except ε β}
    {b : β} (h : x >>= f = .ok b) : ∃ a, x = .ok a ∧ f a = .ok b := by
  cases x with
  | error e => cases h
  | ok a => exact ⟨a, rfl, h⟩

/-- The rounds of a loop that succeeded: what a round stores is stored in the end. -/
lemma mem_stores_of_foldlM {ε α β : Type*} (buffer : β → Buffer) {f : β → α → Except ε β} {l : List α}
    (hkeeps : ∀ s a s', f s a = .ok s' → (buffer s).stores ⊆ (buffer s').stores) {s s' : β}
    (h : l.foldlM f s = .ok s') : (buffer s).stores ⊆ (buffer s').stores ∧
      ∀ a ∈ l, ∃ s₁ s₂, f s₁ a = .ok s₂ ∧ (buffer s₂).stores ⊆ (buffer s').stores := by
  induction l generalizing s with
  | nil =>
    cases h
    exact ⟨fun _ hmem => hmem, by simp⟩
  | cons a l ih =>
    rw [List.foldlM_cons] at h
    rcases hstep : f s a with e | s₁
    · rw [hstep] at h
      cases h
    rw [hstep] at h
    obtain ⟨hsub, hall⟩ := ih h
    exact ⟨fun _ hmem => hsub (hkeeps s a s₁ hstep hmem),
      List.forall_mem_cons.mpr ⟨⟨s, s₁, hstep, hsub⟩, hall⟩⟩
