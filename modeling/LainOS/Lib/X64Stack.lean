import LainOS.Lib.X64Runs

/-!
# Code that computes a value

`Yields prog s p v`: from `s` the program gets to position `p` with `v` in `rax`. On the way it uses
the stack below `rsp` only, so that `rsp`, `rbp` and the memory from `rsp` on are as before, and it
stores nothing with `mov`.
-/

namespace X64

variable {p : ℕ} {v x : Word} {L : Type} [DecidableEq L] {prog code : List (Instr L)}
  {s s' s'' : State}

/-- `rsp`, `rbp` and the memory from `rsp` on are the same. -/
structure SameStack (s s' : State) : Prop where
  rsp : s'.regs .rsp = s.regs .rsp
  rbp : s'.regs .rbp = s.regs .rbp
  mem : ∀ a, (s.regs .rsp).toNat ≤ a → s'.mem a = s.mem a

lemma SameStack.trans (h : SameStack s s') (h' : SameStack s' s'') : SameStack s s'' where
  rsp := h'.rsp.trans h.rsp
  rbp := h'.rbp.trans h.rbp
  mem a ha := (h'.mem a (h.rsp ▸ ha)).trans (h.mem a ha)

def Moves (prog : List (Instr L)) (s s' : State) : Prop :=
  (∃ n, Runs prog n s [] s') ∧ SameStack s s'

lemma Moves.trans (h : Moves prog s s') (h' : Moves prog s' s'') : Moves prog s s'' := by
  obtain ⟨⟨n, hruns⟩, hstack⟩ := h
  obtain ⟨⟨n', hruns'⟩, hstack'⟩ := h'
  exact ⟨⟨n + n', by simpa using hruns.trans hruns'⟩, hstack.trans hstack'⟩

/-- An instruction that changes registers other than `rsp` and `rbp`, flags and the position. -/
lemma Moves.single {i : Instr L} (hi : prog[s.pc]? = some i) (hexec : exec prog s i = some s')
    (h : (stored s i, s'.regs .rsp, s'.regs .rbp, s'.mem) = ([], s.regs .rsp, s.regs .rbp, s.mem)) :
    Moves prog s s' := by
  simp only [Prod.mk.injEq] at h
  exact ⟨⟨1, h.1 ▸ Runs.single hi hexec⟩, h.2.1, h.2.2.1, fun _ _ => by rw [h.2.2.2]⟩

/-- A jump, over the label it leads to. -/
lemma Moves.jmp {l : L} (hnodup : (labels prog).Nodup) (hi : prog[s.pc]? = some (.jmp l))
    (hl : prog[p]? = some (.label l)) : Moves prog s (s.goto p).next := by
  have hjmp : Moves prog s (s.goto p) :=
    .single hi (by rw [exec, target_eq hnodup hl, Option.map_some]) rfl
  exact hjmp.trans (.single hl rfl rfl)

def Yields (prog : List (Instr L)) (s : State) (p : ℕ) (v : Word) : Prop :=
  ∃ s', Moves prog s s' ∧ s'.pc = p ∧ s'.regs .rax = v

lemma Moves.yields (h : Moves prog s s') (h' : Yields prog s' p v) : Yields prog s p v := by
  obtain ⟨s'', hmoves, hpc, hrax⟩ := h'
  exact ⟨s'', h.trans hmoves, hpc, hrax⟩

lemma Yields.cast {q : ℕ} (h : Yields prog s p v) (hpq : p = q) : Yields prog s q v := hpq ▸ h

/-! ### The stack -/

lemma toNat_sub_eight (h : 8 ≤ x.toNat) : (x - 8).toNat = x.toNat - 8 := by
  have := x.isLt
  rw [BitVec.toNat_sub, show (8 : Word).toNat = 8 from rfl]
  omega

/-- `s'` is `s` with `v` pushed and the position moved on. -/
structure Pushed (s : State) (v : Word) (s' : State) : Prop where
  pc : s'.pc = s.pc + 1
  rsp : s'.regs .rsp = s.regs .rsp - 8
  regs : ∀ r ≠ .rsp, s'.regs r = s.regs r
  mem : ∀ a, (s.regs .rsp).toNat ≤ a → s'.mem a = s.mem a
  top : Mem.load 8 s'.mem ((s.regs .rsp).toNat - 8) = v.toNat

lemma Runs.push {r : Reg} (hi : prog[s.pc]? = some (.push r)) (hroom : 8 ≤ (s.regs .rsp).toNat) :
    ∃ s', Runs prog 1 s [] s' ∧ Pushed s (s.regs r) s' := by
  have hlt := (s.regs .rsp).isLt
  refine ⟨State.next { s.set .rsp (s.regs .rsp - 8) with
    mem := Mem.store 8 s.mem ((s.regs .rsp).toNat - 8) (s.regs r).toNat }, Runs.single hi ?_, rfl,
    rfl, fun _ hr => Function.update_of_ne hr _ _, fun a ha => if_neg (by omega), ?_⟩
  · rw [exec, State.push, toNat_sub_eight hroom, State.write, if_pos (by omega)]
    rfl
  · have hv := (s.regs r).isLt
    exact (Mem.load_store_same ..).trans (Nat.mod_eq_of_lt (by omega))

/-- Code that works below the pushed word leaves it there. -/
lemma Pushed.load_top (h : Pushed s v s') (hroom : 8 ≤ (s.regs .rsp).toNat)
    (hstack : SameStack s' s'') : Mem.load 8 s''.mem ((s.regs .rsp).toNat - 8) = v.toNat := by
  refine (Mem.load_congr fun a ha _ => hstack.mem a ?_).trans h.top
  rwa [h.rsp, toNat_sub_eight hroom]

/-- The word under the address `a + 8` is popped. -/
lemma Runs.pop {d : Reg} (hi : prog[s.pc]? = some (.pop d)) (hrsp : s.regs .rsp = x - 8)
    (hroom : 8 ≤ x.toNat) (htop : Mem.load 8 s.mem (x.toNat - 8) = v.toNat) :
    Runs prog 1 s [] ((s.set .rsp x).set d v).next := by
  have hx := x.isLt
  have hread : s.read 8 (x.toNat - 8) = some v.toNat := htop ▸ if_pos (by omega)
  refine Runs.single hi ?_
  have hback : x - 8 + 8 = x := BitVec.sub_add_cancel x 8
  rw [exec, State.pop, hrsp, toNat_sub_eight hroom, hread, hback]
  simp

/-- While `code` computes its value, what was in `rax` waits on the stack. -/
theorem Moves.operand (hcode : CodeAt prog s.pc (.push .rax :: code ++ [.mov .rcx .rax, .pop .rax]))
    (hroom : 8 ≤ (s.regs .rsp).toNat)
    (hyields : ∀ s₁, Pushed s (s.regs .rax) s₁ → Yields prog s₁ (s.pc + 1 + code.length) v) :
    ∃ s', Moves prog s s' ∧ s'.pc = s.pc + code.length + 3 ∧ s'.regs .rax = s.regs .rax ∧
      s'.regs .rcx = v := by
  obtain ⟨s₁, hpush, hpushed⟩ := Runs.push hcode.left.head hroom
  obtain ⟨s₂, ⟨⟨n, hruns⟩, hstack⟩, hpc, hrax⟩ := hyields s₁ hpushed
  have hrest := hcode.right
  rw [List.length_cons, ← Nat.add_assoc, Nat.add_right_comm, ← hpc] at hrest
  have hmov : Runs prog 1 s₂ [] (s₂.set .rcx (s₂.regs .rax)).next := Runs.single hrest.head rfl
  have htop := hpushed.load_top hroom hstack
  have hpop := Runs.pop (s := (s₂.set .rcx (s₂.regs .rax)).next) hrest.tail.head
    (hstack.rsp.trans hpushed.rsp) hroom htop
  refine ⟨_, ⟨⟨_, ((hpush.trans hruns).trans hmov).trans hpop⟩, rfl, ?_, ?_⟩, ?_, rfl, hrax⟩
  · exact hstack.rbp.trans (hpushed.regs _ (by decide))
  · intro a ha
    refine (hstack.mem a ?_).trans (hpushed.mem a ha)
    rw [hpushed.rsp, toNat_sub_eight hroom]
    omega
  · change s₂.pc + 1 + 1 = _
    omega

end X64
