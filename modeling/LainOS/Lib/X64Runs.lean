import LainOS.Lib.X64

/-!
# Running code in place

`CodeAt prog p code` says that `code` stands in the program from position `p` on. Runs are put
together from the runs of pieces of code; a jump leads to the one place where its label stands.
`Moves` is for code that works on the stack below `rsp` only: it keeps `rsp`, `rbp` and all memory
from `rsp` on, and stores nothing with `mov`.
-/

namespace X64

open List

variable {L : Type} {prog code code' : List (Instr L)} {s s' s'' : State}
  {tr tr' : List (ℕ × Word)} {n n' p : ℕ} {i : Instr L} {l : L}

/-! ### Code in place -/

def CodeAt (prog : List (Instr L)) (p : ℕ) (code : List (Instr L)) : Prop :=
  ∀ k < code.length, prog[p + k]? = code[k]?

lemma CodeAt.cast {q : ℕ} (h : CodeAt prog p code) (hpq : p = q) : CodeAt prog q code := hpq ▸ h

lemma CodeAt.head (h : CodeAt prog p (i :: code)) : prog[p]? = some i := by
  simpa using h 0 (by simp)

lemma CodeAt.tail (h : CodeAt prog p (i :: code)) : CodeAt prog (p + 1) code := by
  intro k hk
  have := h (k + 1) (by simpa using hk)
  rwa [getElem?_cons_succ, ← Nat.add_assoc, Nat.add_right_comm] at this

lemma CodeAt.left (h : CodeAt prog p (code ++ code')) : CodeAt prog p code := by
  intro k hk
  rw [h k (by rw [length_append]; omega), getElem?_append_left hk]

lemma CodeAt.right (h : CodeAt prog p (code ++ code')) : CodeAt prog (p + code.length) code' := by
  intro k hk
  rw [Nat.add_assoc, h (code.length + k) (by rw [length_append]; omega),
    getElem?_append_right (by omega), Nat.add_sub_cancel_left]

lemma codeAt_append (pre code post : List (Instr L)) :
    CodeAt (pre ++ code ++ post) pre.length code := by
  intro k hk
  rw [append_assoc, getElem?_append_right (by omega), Nat.add_sub_cancel_left,
    getElem?_append_left hk]

/-! ### Labels -/

def Instr.label? : Instr L → Option L
  | .label l => some l
  | _ => none

/-- The labels that code defines, in their order. -/
def labels (code : List (Instr L)) : List L := code.filterMap Instr.label?

@[simp] lemma labels_append (code code' : List (Instr L)) :
    labels (code ++ code') = labels code ++ labels code' :=
  filterMap_append

@[simp] lemma labels_cons (i : Instr L) (code : List (Instr L)) :
    labels (i :: code) = i.label?.toList ++ labels code := by
  cases i <;> rfl

@[simp] lemma labels_nil : labels ([] : List (Instr L)) = [] := rfl

lemma labels_eq_nil : labels code = [] ↔ ∀ i ∈ code, i.label? = none := filterMap_eq_nil_iff

lemma mem_labels (h : prog[p]? = some (.label l)) : l ∈ labels prog :=
  mem_filterMap.mpr ⟨.label l, mem_of_getElem? h, rfl⟩

lemma label_unique (hnodup : (labels prog).Nodup) {p q : ℕ} (hp : prog[p]? = some (.label l))
    (hq : prog[q]? = some (.label l)) : p = q := by
  induction prog generalizing p q with
  | nil => simp at hp
  | cons i prog ih =>
    have hrest : (labels prog).Nodup := by
      cases i with
      | label l' => exact (nodup_cons.mp hnodup).2
      | _ => exact hnodup
    rcases p with _ | p <;> rcases q with _ | q
    · rfl
    · obtain rfl : i = .label l := by simpa using hp
      exact absurd (mem_labels (by simpa using hq)) (nodup_cons.mp hnodup).1
    · obtain rfl : i = .label l := by simpa using hq
      exact absurd (mem_labels (by simpa using hp)) (nodup_cons.mp hnodup).1
    · exact congrArg Nat.succ (ih hrest (by simpa using hp) (by simpa using hq))

variable [DecidableEq L]

lemma target_eq (hnodup : (labels prog).Nodup) (hp : prog[p]? = some (.label l)) :
    target prog l = some p := by
  rcases htarget : target prog l with _ | q
  · have := findIdx?_eq_none_iff.mp htarget _ (mem_of_getElem? hp)
    simp at this
  obtain ⟨hq, hlabel, -⟩ := findIdx?_eq_some_iff_getElem.mp htarget
  have hq' : prog[q]? = some (.label l) := by
    rw [getElem?_eq_getElem hq]
    simpa using hlabel
  rw [label_unique hnodup hp hq']

/-! ### Runs -/

lemma Runs.trans (h : Runs prog n s tr s') (h' : Runs prog n' s' tr' s'') :
    Runs prog (n + n') s (tr ++ tr') s'' := by
  induction h with
  | refl => simpa using h'
  | step hstep _ ih =>
    rw [Nat.add_right_comm, append_assoc]
    exact .step hstep (ih h')

lemma step_of_exec (hi : prog[s.pc]? = some i) (hexec : exec prog s i = some s') :
    step prog s = some (stored s i, s') := by
  simp [step, hi, hexec]

lemma exec_jcc {c : Cond} {x y : Word} (hflags : s.flags = some (x, y)) :
    exec prog s (.jcc c l) = if c.holds x y then (target prog l).map s.goto else some s.next := by
  rw [exec, hflags, Option.bind_some]

lemma Runs.single (hi : prog[s.pc]? = some i) (hexec : exec prog s i = some s') :
    Runs prog 1 s (stored s i) s' := by
  simpa using Runs.step (step_of_exec hi hexec) (.refl s')

lemma Word.toNat_merge_mod {w v : ℕ} (old : Word) (hw : w ∈ [1, 2, 4, 8]) (hv : v < 256 ^ w) :
    (Word.merge w old v).toNat % 256 ^ w = v := by
  have hold := old.isLt
  simp only [mem_cons, not_mem_nil, or_false] at hw
  rw [Word.merge]
  rcases hw with rfl | rfl | rfl | rfl <;> simp <;> omega

end X64
