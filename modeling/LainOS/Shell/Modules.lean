import Mathlib.Data.List.Nodup

/-!
# Resident modules

A slot counts the calls into its module that have not returned, and frees the module when an unload
was requested and the count is 0. The program of a module, which runs when the module is loaded, is not
counted. All calls into a module start at the same stack top.
-/

namespace Shell

open List

/-- A module with so many unfinished calls; `closing` after an unload request, with or without its
unload hook called. -/
inductive Life where
  | absent
  | resident (calls : ℕ)
  | closing (calls : ℕ) (hooked : Bool)
deriving DecidableEq

/-- What happens to the module of a slot. -/
inductive Happening where
  | load
  | start
  | finish
  | request
  | hook
  | free

/-- No call starts after an unload request. The hook is called once, when no other call is
unfinished, and the module is freed when no call at all is. -/
def Life.step : Life → Happening → Option Life
  | .absent, .load => some (.resident 1)
  | .resident n, .start => some (.resident (n + 1))
  | .resident (n + 1), .finish => some (.resident n)
  | .resident n, .request => some (.closing n false)
  | .closing n hooked, .request => some (.closing n hooked)
  | .closing (n + 1) hooked, .finish => some (.closing n hooked)
  | .closing 0 false, .hook => some (.closing 1 true)
  | .closing 0 _, .free => some .absent
  | _, _ => none

/-- `zmodule_slot_t`, and the life of its module as long as nothing happens out of order. -/
structure ZModuleSlot where
  loaded : Bool := false
  unloading : Bool := false
  activeCalls : ℕ := 0
  unloadCalled : Bool := false
  exports : List String := []
  callStack : ℕ := 0
  callStackSize : ℕ := 0
  life : Option Life := some .absent

/-! ### The calls of a slot -/

namespace ZModuleSlot

variable (s : ZModuleSlot)

def note (h : Happening) : ZModuleSlot := { s with life := s.life.bind (·.step h) }

def beginCall : Option ZModuleSlot :=
  if s.loaded = false ∨ s.unloading = true then none
  else some ({ s with activeCalls := s.activeCalls + 1 }.note .start)

def callStackTop : Option ℕ :=
  if s.callStack = 0 ∨ s.callStackSize < 4096 then none else some (s.callStack + s.callStackSize)

def finishClear : ZModuleSlot :=
  if s.loaded = false ∨ s.activeCalls ≠ 0 then s else { life := (s.note .free).life }

/-- `zmodule_call_unload_hook`, and whether the hook now runs. -/
def callUnloadHook : ZModuleSlot × Bool :=
  if s.loaded = false ∨ s.unloadCalled = true then (s, false)
  else if "zmodule_unload" ∈ s.exports then
    ({ s with unloadCalled := true, activeCalls := s.activeCalls + 1 }.note .hook, true)
  else ({ s with unloadCalled := true }, false)

/-- `zmodule_clear_slot`, up to the unload hook if it runs. -/
def clearSlot : ZModuleSlot × Bool :=
  if s.loaded = false then (s, false)
  else
    let s := { s with unloading := true }.note .request
    if s.activeCalls ≠ 0 then (s, false)
    else
      match s.callUnloadHook with
      | (s, true) => (s, true)
      | (s, false) => (if s.activeCalls = 0 then s.finishClear else s, false)

def endCall : ZModuleSlot × Bool :=
  if s.activeCalls = 0 then (s, false)
  else
    let s := { s with activeCalls := s.activeCalls - 1 }.note .finish
    if s.activeCalls = 0 ∧ s.unloading = true then s.clearSlot else (s, false)

/-- What `zmodule_call_unload_hook` and `zmodule_clear_slot` do when the hook has returned. -/
def endHook : ZModuleSlot × Bool :=
  match s.endCall with
  | (s, hook) => (if s.activeCalls = 0 then s.finishClear else s, hook)

/-- `cmd_zmod` has linked a module with these exports and allocated its stack. -/
def load (exports : List String) (stack : ℕ) : ZModuleSlot :=
  { loaded := true, exports, callStack := stack, callStackSize := 4 * 1024 * 1024,
    life := (s.note .load).life }

end ZModuleSlot

/-! ### The kernel and its modules -/

/-- The program of a module, a call between `zmodule_begin_call` and `zmodule_end_call`, and the
unload hook. -/
inductive CallKind where
  | program
  | call
  | hook
deriving DecidableEq

/-- An unfinished call into a module; without a stack of its own it runs on its caller's. -/
structure ModuleCall where
  slot : Fin 8
  kind : CallKind
  top : Option ℕ

structure Modules where
  slots : Fin 8 → ZModuleSlot
  calls : List ModuleCall

/-- The next step of a run: the kernel calls a module, the innermost call asks the kernel for
something, or it returns. -/
inductive ModuleEvent where
  | load (exports : List String) (stack : ℕ)
  | call (index : ℕ) (name : String)
  /-- One pass of the loop of `shell_modules_tick`. -/
  | tick (i : Fin 8) (moduleIndex : ℕ)
  | unload (i : Fin 8)
  | ret

namespace Modules

variable (m : Modules)

def none : Modules := ⟨fun _ => {}, []⟩

/-- The slot of a module in the numbering that leaves out free slots. -/
def slotOf (index : ℕ) : Option (Fin 8) :=
  ((List.finRange 8).filter fun i => (m.slots i).loaded && !(m.slots i).unloading)[index]?

def shellModuleHasExport (index : ℕ) (name : String) : Bool :=
  (m.slotOf index).any fun i => name ∈ (m.slots i).exports

/-- The slot in its new state, with a call into its module. -/
def enter (i : Fin 8) (kind : CallKind) (s : ZModuleSlot) : Modules :=
  ⟨Function.update m.slots i s, ⟨i, kind, s.callStackTop⟩ :: m.calls⟩

/-- The slot in its new state; the unload hook is called if `r` says so. -/
def settle (i : Fin 8) (r : ZModuleSlot × Bool) : Modules :=
  if r.2 then m.enter i .hook r.1 else ⟨Function.update m.slots i r.1, m.calls⟩

def callExport (i : Fin 8) (name : String) : Modules :=
  if name ∈ (m.slots i).exports then ((m.slots i).beginCall.elim m (m.enter i .call)) else m

def next : ModuleEvent → Modules
  | .load exports stack =>
    if stack = 0 then m else
    match (List.finRange 8).find? fun i => !(m.slots i).loaded with
    | some i => m.enter i .program ((m.slots i).load exports stack)
    | .none => m
  | .call index name => (m.slotOf index).elim m (m.callExport · name)
  | .tick i moduleIndex =>
    if m.shellModuleHasExport moduleIndex "zmodule_redraw" then m
    else m.callExport i "zmodule_tick"
  | .unload i => m.settle i (m.slots i).clearSlot
  | .ret =>
    match m.calls with
    | [] => m
    | c :: rest =>
      let s := m.slots c.slot
      let m := { m with calls := rest }
      match c.kind with
      | .program => m.settle c.slot (s.note .finish, false)
      | .call => m.settle c.slot s.endCall
      | .hook => m.settle c.slot s.endHook

end Modules

/-! ### One slot -/

/-- What a slot holds while calls of these kinds into its module are unfinished. -/
inductive ZModuleSlot.Holds : List CallKind → ZModuleSlot → Prop
  | free : Holds [] {}
  | resident {calls exports stack size kinds} (hcount : kinds.count .call = calls)
      (hhook : .hook ∉ kinds) :
      Holds kinds ⟨true, false, calls, false, exports, stack, size, some (.resident kinds.length)⟩
  | closing {exports stack size kinds} (hne : kinds ≠ []) (hcall : ∀ k ∈ kinds, .call = k) :
      Holds kinds ⟨true, true, kinds.length, false, exports, stack, size,
        some (.closing kinds.length false)⟩
  | hooked {exports stack size} :
      Holds [.hook] ⟨true, true, 1, true, exports, stack, size, some (.closing 1 true)⟩

namespace ZModuleSlot.Holds

variable {s s' : ZModuleSlot} {kinds : List CallKind}

lemma load (h : s.Holds kinds) (hs : s.loaded = false) (exports : List String) (stack : ℕ) :
    kinds = [] ∧ (s.load exports stack).Holds [.program] := by
  cases h with
  | free => exact ⟨rfl, .resident rfl (by simp)⟩
  | _ => cases hs

lemma beginCall (h : s.Holds kinds) (hs : s.beginCall = some s') : s'.Holds (.call :: kinds) := by
  cases h with
  | resident hcount hhook =>
    cases hs
    exact .resident (by simp [hcount]) (by simp [hhook])
  | _ => cases hs

lemma endProgram (h : s.Holds (.program :: kinds)) : (s.note .finish).Holds kinds := by
  cases h with
  | resident hcount hhook => exact .resident (by simpa using hcount) fun hk => hhook (.tail _ hk)
  | closing _ hcall => cases hcall _ (.head _)

/-- The calls after a function of the kernel, which may have called the unload hook. -/
abbrev withHook (hook : Bool) (kinds : List CallKind) : List CallKind :=
  if hook then .hook :: kinds else kinds

/-- The end of the last call after a request, or a request while there is none. -/
lemma clear {exports : List String} {stack size : ℕ} {unloading : Bool} {life : Option Life}
    (h : life.bind (·.step .request) = some (.closing 0 false)) :
    let r := (⟨true, unloading, 0, false, exports, stack, size, life⟩ : ZModuleSlot).clearSlot
    r.1.Holds (withHook r.2 []) := by
  by_cases hook : "zmodule_unload" ∈ exports
  · simp only [ZModuleSlot.clearSlot, callUnloadHook, note, hook, h]
    exact .hooked
  · simp only [ZModuleSlot.clearSlot, callUnloadHook, note, hook, h]
    exact .free

lemma clearSlot (h : s.Holds kinds) (hprogram : .program ∉ kinds) :
    s.clearSlot.1.Holds (withHook s.clearSlot.2 kinds) := by
  cases h with
  | free => exact .free
  | resident hcount hhook =>
    have hcall : ∀ k ∈ kinds, .call = k := by
      rintro (_ | _ | _) hk
      · exact absurd hk hprogram
      · rfl
      · exact absurd hk hhook
    rw [List.count_eq_length.mpr hcall] at hcount
    subst hcount
    cases kinds with
    | nil => exact clear rfl
    | cons k kinds => exact .closing (cons_ne_nil k kinds) hcall
  | closing hne hcall =>
    cases kinds with
    | nil => exact absurd rfl hne
    | cons k kinds => exact .closing hne hcall
  | hooked => exact .hooked

lemma endCall (h : s.Holds (.call :: kinds)) : s.endCall.1.Holds (withHook s.endCall.2 kinds) := by
  cases h with
  | resident hcount hhook =>
    rw [count_cons_self] at hcount
    subst hcount
    simp only [ZModuleSlot.endCall, note, Bool.false_eq_true, and_false, if_false]
    exact .resident rfl fun hk => hhook (.tail _ hk)
  | closing hne hcall =>
    cases kinds with
    | nil => exact clear rfl
    | cons k kinds => exact .closing (cons_ne_nil k kinds) fun k hk => hcall k (.tail _ hk)

/-- The hook is called when no other call is unfinished. -/
lemma endHook (h : s.Holds (.hook :: kinds)) :
    kinds = [] ∧ s.endHook.1.Holds (withHook s.endHook.2 kinds) := by
  cases h with
  | resident _ hhook => simp at hhook
  | closing _ hcall => cases hcall _ (.head _)
  | hooked => exact ⟨rfl, .free⟩

end ZModuleSlot.Holds

/-! ### Runs -/

/-- The kinds of the unfinished calls into the module of a slot. -/
def unfinished (calls : List ModuleCall) (i : Fin 8) : List CallKind :=
  (calls.filter (·.slot == i)).map (·.kind)

namespace Modules

def available (m : Modules) (i : Fin 8) : Bool := (m.slots i).loaded && !(m.slots i).unloading

/-- The slot whose module the kernel calls, if the event really makes it call one. -/
def starts (m : Modules) : ModuleEvent → Option (Fin 8)
  | .call index name => (m.slotOf index).filter fun i => name ∈ (m.slots i).exports
  | .tick i moduleIndex =>
    if m.available i ∧ ¬ m.shellModuleHasExport moduleIndex "zmodule_redraw" ∧
      "zmodule_tick" ∈ (m.slots i).exports then some i else Option.none
  | _ => Option.none

/-- No module asks for its own end while its program runs, and what `ok` says of the unfinished calls
into a module is true when the kernel calls it. -/
def Allowed (ok : List CallKind → Prop) (m : Modules) : ModuleEvent → Prop
  | .unload i => .program ∉ unfinished m.calls i
  | e => ∀ i ∈ m.starts e, ok (.call :: unfinished m.calls i)

/-- The states of the kernel in runs in which only such events happen. -/
inductive Reached (ok : List CallKind → Prop) : Modules → Prop
  | init : Reached ok none
  | next {m : Modules} (h : Reached ok m) (e : ModuleEvent) (he : m.Allowed ok e) :
      Reached ok (m.next e)

variable {m : Modules} {rest : List ModuleCall} {i : Fin 8} {s : ZModuleSlot}
  {ok : List CallKind → Prop}

/-- Every slot holds what belongs to the unfinished calls. -/
def Tracked (ok : List CallKind → Prop) (m : Modules) : Prop :=
  ∀ i, (m.slots i).Holds (unfinished m.calls i) ∧ ok (unfinished m.calls i)

section

variable (h : Tracked ok m) (hrest : ∀ j ≠ i, unfinished rest j = unfinished m.calls j)
include h hrest

lemma Tracked.update (hs : s.Holds (unfinished rest i)) (hok : ok (unfinished rest i)) :
    Tracked ok ⟨Function.update m.slots i s, rest⟩ := by
  intro j
  by_cases hj : j = i
  · subst hj
    simpa using ⟨hs, hok⟩
  · simpa [hj, hrest j hj] using h j

lemma Tracked.enter {kind : CallKind} (hs : s.Holds (kind :: unfinished rest i))
    (hok : ok (kind :: unfinished rest i)) :
    Tracked ok (({ m with calls := rest } : Modules).enter i kind s) := by
  have hself : unfinished (⟨i, kind, s.callStackTop⟩ :: rest) i = kind :: unfinished rest i := by
    simp [unfinished]
  refine h.update (fun j hj => ?_) (hself ▸ hs) (hself ▸ hok)
  simpa [unfinished, hj.symm] using hrest j hj

lemma Tracked.settle (hone : ∀ k, ok [k]) {r : ZModuleSlot × Bool}
    (hr : r.1.Holds (ZModuleSlot.Holds.withHook r.2 (unfinished rest i)))
    (hok : ok (unfinished rest i)) :
    Tracked ok (({ m with calls := rest } : Modules).settle i r) := by
  obtain ⟨s, _ | _⟩ := r
  · exact h.update hrest hr hok
  · exact h.enter hrest hr (hr.endHook.1 ▸ hone _)

end

lemma beginCall_eq_none (hi : m.available i = false) : (m.slots i).beginCall = Option.none := by
  rw [ZModuleSlot.beginCall, if_pos]
  cases hloaded : (m.slots i).loaded <;> simp_all [available]

lemma Tracked.callExport (h : Tracked ok m) (name : String)
    (hok : m.available i = true → name ∈ (m.slots i).exports → ok (.call :: unfinished m.calls i)) :
    Tracked ok (m.callExport i name) := by
  rw [Modules.callExport]
  split_ifs with hname
  · cases hs : (m.slots i).beginCall with
    | none => exact h
    | some s =>
      have hi : m.available i = true := by
        by_contra hi
        rw [beginCall_eq_none (by simpa using hi)] at hs
        cases hs
      exact h.enter (fun _ _ => rfl) ((h i).1.beginCall hs) (hok hi hname)
  · exact h

section

variable (hone : ∀ k, ok [k]) (htail : ∀ k kinds, ok (k :: kinds) → ok kinds)
include hone htail

lemma Tracked.ret (h : Tracked ok m) : Tracked ok (m.next .ret) := by
  obtain ⟨slots, _ | ⟨⟨i, kind, top⟩, rest⟩⟩ := m
  · exact h
  · have hrest : ∀ j ≠ i, unfinished rest j = unfinished (⟨i, kind, top⟩ :: rest) j := by
      intro j hj
      simp [unfinished, hj.symm]
    have hi : (slots i).Holds (kind :: unfinished rest i) ∧ ok (kind :: unfinished rest i) := by
      simpa [unfinished] using h i
    have hok := htail _ _ hi.2
    cases kind with
    | program => exact h.settle hrest hone hi.1.endProgram hok
    | call => exact h.settle hrest hone hi.1.endCall hok
    | hook => exact h.settle hrest hone hi.1.endHook.2 hok

lemma Tracked.next (h : Tracked ok m) {e : ModuleEvent} (he : m.Allowed ok e) :
    Tracked ok (m.next e) := by
  cases e with
  | load exports stack =>
    rw [Modules.next]
    split_ifs
    · exact h
    · cases hfind : (List.finRange 8).find? fun i => !(m.slots i).loaded with
      | none => exact h
      | some i =>
        obtain ⟨hnil, hs⟩ := (h i).1.load (by simpa using List.find?_some hfind) exports stack
        exact h.enter (fun _ _ => rfl) (hnil ▸ hs) (hnil ▸ hone _)
  | call index name =>
    rw [Modules.next]
    cases hi : m.slotOf index with
    | none => exact h
    | some i => exact h.callExport name fun _ hname => he i (by simp [starts, hi, hname])
  | tick i moduleIndex =>
    rw [Modules.next]
    split_ifs with hui
    · exact h
    · exact h.callExport _ fun hi hname => he i (by simp [starts, hi, hui, hname])
  | unload i => exact h.settle (fun _ _ => rfl) hone ((h i).1.clearSlot he) (h i).2
  | ret => exact h.ret hone htail

lemma Reached.tracked (hnil : ok []) (h : Reached ok m) : Tracked ok m := by
  induction h with
  | init => exact fun _ => ⟨.free, hnil⟩
  | next _ _ he ih => exact ih.next hone htail he

end

/-- A module is freed once for each time it is loaded, as soon as no call into it is unfinished after
an unload request. -/
theorem slot_life (h : Reached (fun _ => True) m) (i : Fin 8) :
    ∃ life, (m.slots i).life = some life ∧
      (life = .absent ↔ (m.slots i).loaded = false) ∧ ∀ hooked, life ≠ .closing 0 hooked := by
  have hi := (h.tracked (fun _ => trivial) (fun _ _ => id) trivial i).1
  generalize m.slots i = s, unfinished m.calls i = kinds at hi
  cases hi with
  | free => exact ⟨_, rfl, by simp, by simp⟩
  | resident => exact ⟨_, rfl, by simp, by simp⟩
  | closing hne => exact ⟨_, rfl, by simp, by simp [hne]⟩
  | hooked => exact ⟨_, rfl, by simp, by simp⟩

theorem slot_life_unload : ∃ m, Reached (fun _ => True) m ∧
    ∃ life, (m.slots 0).life = some life ∧
      (life = .absent ↔ (m.slots 0).loaded = false) ∧ ∀ hooked, life ≠ .closing 0 hooked := by
  have h : Reached (fun _ => True) _ := ((Reached.init.next (.load ["zmodule_unload"] 4096)
    nofun).next .ret nofun).next (.unload 0) (by simp [Allowed]; decide)
  exact ⟨_, h, slot_life h 0⟩

/-- A module whose program unloads it is freed while the program runs. -/
theorem program_unloads_itself :
    (((none.next (.load [] 4096)).next (.unload 0)).slots 0).life = Option.none := by
  decide

/-! ### Stacks -/

/-- No call started at a stack top that an unfinished call into the same module started at. -/
def StacksApart (m : Modules) : Prop :=
  m.calls.Pairwise fun c outer => c.slot = outer.slot → c.top = outer.top → c.top = Option.none

instance : Decidable (StacksApart m) := inferInstanceAs (Decidable (List.Pairwise _ _))

/-- Calls into different modules have different stacks. -/
lemma Tracked.stacksApart (h : Tracked (·.length ≤ 1) m) : StacksApart m := by
  have hnodup : (m.calls.map (·.slot)).Nodup := by
    rw [nodup_iff_count_le_one]
    intro i
    simpa [count_eq_length_filter, filter_map, unfinished, Function.comp_def] using (h i).2
  rw [List.Nodup, pairwise_map] at hnodup
  exact hnodup.imp fun hne heq => absurd heq hne

/-- A slot in use has a stack, and all unfinished calls into its module started at its top. -/
def Stacked (m : Modules) : Prop :=
  ∀ i, (m.slots i).loaded = true → (m.slots i).callStackTop ≠ Option.none ∧
    ∀ c ∈ m.calls, c.slot = i → c.top = (m.slots i).callStackTop

/-- The slot is free, or it has the stack it had before. -/
def SameStack (s s' : ZModuleSlot) : Prop :=
  s'.loaded = true → s.loaded = true ∧ s'.callStackTop = s.callStackTop

lemma sameStack_beginCall {s' : ZModuleSlot} (hs : s.beginCall = some s') : SameStack s s' := by
  rw [ZModuleSlot.beginCall] at hs
  split_ifs at hs
  cases hs
  exact fun h => ⟨h, rfl⟩

lemma sameStack_finishClear {s' : ZModuleSlot} (h : SameStack s s') : SameStack s s'.finishClear := by
  rw [ZModuleSlot.finishClear]
  split_ifs
  · exact h
  · exact fun h => absurd h Bool.false_ne_true

lemma sameStack_clearSlot : SameStack s s.clearSlot.1 := by
  have hhook : ∀ t : ZModuleSlot, SameStack t t.callUnloadHook.1 := by
    intro t
    rw [ZModuleSlot.callUnloadHook]
    split_ifs
    · exact fun h => ⟨h, rfl⟩
    · exact fun h => ⟨h, rfl⟩
    · exact fun h => ⟨h, rfl⟩
  rw [ZModuleSlot.clearSlot]
  dsimp only
  split_ifs
  · exact fun h => ⟨h, rfl⟩
  · exact fun h => ⟨h, rfl⟩
  · have hnote : SameStack s ({ s with unloading := true }.note .request).callUnloadHook.1 :=
      fun h => hhook _ h
    generalize ({ s with unloading := true }.note .request).callUnloadHook = r at hnote ⊢
    obtain ⟨t, _ | _⟩ := r
    · dsimp only
      split_ifs
      · exact sameStack_finishClear hnote
      · exact hnote
    · exact hnote

lemma sameStack_endCall : SameStack s s.endCall.1 := by
  rw [ZModuleSlot.endCall]
  split_ifs
  · exact fun h => ⟨h, rfl⟩
  · dsimp only
    split_ifs
    · exact fun h => sameStack_clearSlot h
    · exact fun h => ⟨h, rfl⟩

lemma sameStack_endHook : SameStack s s.endHook.1 := by
  rw [ZModuleSlot.endHook]
  dsimp only
  split_ifs
  · exact sameStack_finishClear sameStack_endCall
  · exact sameStack_endCall

section

variable (h : Stacked m) (hs : SameStack (m.slots i) s) (hrest : ∀ c ∈ rest, c ∈ m.calls)
include h hs hrest

lemma Stacked.update : Stacked ⟨Function.update m.slots i s, rest⟩ := by
  intro j hj
  by_cases hij : j = i
  · subst hij
    simp only [Function.update_self] at hj ⊢
    obtain ⟨hloaded, htop⟩ := hs hj
    rw [htop]
    exact ⟨(h j hloaded).1, fun c hc => (h j hloaded).2 c (hrest c hc)⟩
  · simp only [Function.update_of_ne hij] at hj ⊢
    exact ⟨(h j hj).1, fun c hc => (h j hj).2 c (hrest c hc)⟩

lemma Stacked.enter (kind : CallKind) : Stacked (({ m with calls := rest } : Modules).enter i kind s) := by
  intro j hj
  obtain ⟨htop, hcalls⟩ := h.update hs hrest j hj
  refine ⟨htop, forall_mem_cons.mpr ⟨?_, hcalls⟩⟩
  rintro rfl
  simp [Modules.enter]

lemma Stacked.settle {hook : Bool} :
    Stacked (({ m with calls := rest } : Modules).settle i (s, hook)) := by
  cases hook with
  | false => exact h.update hs hrest
  | true => exact h.enter hs hrest .hook

end

lemma Stacked.callExport (h : Stacked m) (name : String) : Stacked (m.callExport i name) := by
  rw [Modules.callExport]
  split_ifs
  · cases hs : (m.slots i).beginCall with
    | none => exact h
    | some s => exact h.enter (sameStack_beginCall hs) (fun _ => id) .call
  · exact h

lemma Stacked.load (h : Stacked m) (ht : Tracked ok m) (exports : List String) (stack : ℕ) :
    Stacked (m.next (.load exports stack)) := by
  rw [Modules.next]
  split_ifs with hstack
  · exact h
  cases hfind : (List.finRange 8).find? fun i => !(m.slots i).loaded with
  | none => exact h
  | some i =>
    obtain ⟨hnil, -⟩ := (ht i).1.load (by simpa using List.find?_some hfind) exports stack
    intro j hj
    by_cases hij : j = i
    · subst hij
      simp only [Modules.enter, Function.update_self]
      refine ⟨by simp [ZModuleSlot.callStackTop, ZModuleSlot.load, hstack],
        forall_mem_cons.mpr ⟨fun _ => rfl, fun c hc hcj => ?_⟩⟩
      -- nothing was unfinished in a free slot
      have hmem : c.kind ∈ unfinished m.calls j :=
        List.mem_map_of_mem (List.mem_filter.mpr ⟨hc, by simpa using hcj⟩)
      rw [hnil] at hmem
      exact absurd hmem not_mem_nil
    · simp only [Modules.enter, Function.update_of_ne hij] at hj ⊢
      exact ⟨(h j hj).1, forall_mem_cons.mpr ⟨fun heq => absurd heq.symm hij, (h j hj).2⟩⟩

lemma Stacked.next (h : Stacked m) (ht : Tracked ok m) (e : ModuleEvent) : Stacked (m.next e) := by
  cases e with
  | load exports stack => exact h.load ht exports stack
  | call index name =>
    rw [Modules.next]
    cases m.slotOf index with
    | none => exact h
    | some i => exact h.callExport name
  | tick i moduleIndex =>
    rw [Modules.next]
    split_ifs
    · exact h
    · exact h.callExport _
  | unload i => exact h.settle (sameStack_clearSlot (s := m.slots i)) fun _ => id
  | ret =>
    obtain ⟨slots, _ | ⟨⟨i, kind, top⟩, rest⟩⟩ := m
    · exact h
    · have hrest : ∀ c ∈ rest, c ∈ (⟨i, kind, top⟩ : ModuleCall) :: rest :=
        fun c => List.mem_cons_of_mem _
      cases kind with
      | program =>
        have hs : SameStack (slots i) ((slots i).note .finish) := fun h => ⟨h, rfl⟩
        exact h.settle (m := ⟨slots, _⟩) hs hrest
      | call => exact h.settle (m := ⟨slots, _⟩) sameStack_endCall hrest
      | hook => exact h.settle (m := ⟨slots, _⟩) sameStack_endHook hrest

lemma Reached.stacked (h : Reached ok m) (hok : ∀ kinds, ok kinds) : Stacked m := by
  induction h with
  | init => exact fun i hi => absurd hi Bool.false_ne_true
  | next hm e _ ih =>
    exact ih.next (hm.tracked (fun _ => hok _) (fun _ _ _ => hok _) (hok _)) e

/-- An event that starts a call puts it on top of the unfinished ones. -/
lemma next_of_starts {e : ModuleEvent} (hi : m.starts e = some i) :
    (m.next e).calls = ⟨i, .call, (m.slots i).callStackTop⟩ :: m.calls ∧
      (m.slots i).loaded = true := by
  have henter : ∀ name, m.available i = true → name ∈ (m.slots i).exports →
      (m.callExport i name).calls = ⟨i, .call, (m.slots i).callStackTop⟩ :: m.calls ∧
        (m.slots i).loaded = true := by
    intro name hi hname
    simp only [available, Bool.and_eq_true, Bool.not_eq_true'] at hi
    rw [callExport, if_pos hname, ZModuleSlot.beginCall, if_neg (by simp [hi])]
    exact ⟨rfl, hi.1⟩
  cases e with
  | call index name =>
    obtain ⟨hslot, hname⟩ := Option.filter_eq_some_iff.mp hi
    have hmem := List.mem_of_getElem? hslot
    rw [Modules.next, hslot]
    exact henter name (by simpa [available] using hmem) (by simpa using hname)
  | tick j moduleIndex =>
    simp only [starts] at hi
    split_ifs at hi with hcalled
    cases hi
    rw [Modules.next, if_neg hcalled.2.1]
    exact henter _ hcalled.1 hcalled.2.2
  | _ => cases hi

/-- **One event**: the stacks stay apart exactly if it calls no module into which a call is
unfinished. -/
lemma stacksApart_next_iff (ht : Tracked (fun _ => True) m) (hstacked : Stacked m)
    (hm : StacksApart m) {e : ModuleEvent} (he : m.Allowed (fun _ => True) e) :
    StacksApart (m.next e) ↔ ∀ i ∈ m.starts e, unfinished m.calls i = [] := by
  constructor
  · intro h i hi
    obtain ⟨hcalls, hloaded⟩ := next_of_starts hi
    obtain ⟨htop, hsame⟩ := hstacked i hloaded
    rw [StacksApart, hcalls, pairwise_cons] at h
    by_contra hne
    obtain ⟨kind, hkind⟩ := List.exists_mem_of_ne_nil _ hne
    obtain ⟨c, hc, -⟩ := List.mem_map.mp hkind
    obtain ⟨hc, hslot⟩ := List.mem_filter.mp hc
    replace hslot : c.slot = i := by simpa using hslot
    exact htop (h.1 c hc hslot.symm (hsame c hc hslot).symm)
  · intro h
    have hone : Tracked (·.length ≤ 1) m := by
      refine fun i => ⟨(ht i).1, ?_⟩
      -- two unfinished calls into a module would have started at one stack top
      by_contra hlong
      obtain ⟨c, c', rest, hfilter⟩ : ∃ c c' rest, m.calls.filter (·.slot == i) = c :: c' :: rest := by
        match hf : m.calls.filter (·.slot == i) with
        | [] | [_] => simp [unfinished, hf] at hlong
        | c :: c' :: rest => exact ⟨c, c', rest, hf⟩
      have hapart := hm.sublist (List.filter_sublist (p := (·.slot == i)))
      rw [hfilter, pairwise_cons] at hapart
      have hmem : ∀ d ∈ [c, c'], d ∈ m.calls ∧ d.slot = i := by
        intro d hd
        have hd' : d ∈ m.calls.filter (·.slot == i) := by
          rw [hfilter]
          rcases List.mem_pair.mp hd with rfl | rfl <;> simp
        simpa using hd'
      have hc := hmem c (by simp)
      have hc' := hmem c' (by simp)
      have hloaded : (m.slots i).loaded = true := by
        have hholds := (ht i).1
        generalize m.slots i = s, hk : unfinished m.calls i = kinds at hholds
        cases hholds with
        | free => simp [unfinished, hfilter] at hk
        | _ => rfl
      obtain ⟨htop, hsame⟩ := hstacked i hloaded
      have heq := hsame c hc.1 hc.2
      have heq' := hsame c' hc'.1 hc'.2
      exact htop (heq ▸ hapart.1 c' (by simp) (hc.2.trans hc'.2.symm) (heq.trans heq'.symm))
    refine (hone.next (by simp) (by simp) ?_).stacksApart
    cases e with
    | unload i => exact he
    | _ => exact fun i hi => by simp [h i hi]

/-- The state after some events. -/
def run (events : List ModuleEvent) : Modules := events.foldl Modules.next none

lemma run_take_succ {events : List ModuleEvent} {n : ℕ} {e : ModuleEvent}
    (h : events[n]? = some e) : run (events.take (n + 1)) = (run (events.take n)).next e := by
  rw [List.take_add_one, h, run, List.foldl_append]
  rfl

/-- No program of a module unloads the module. -/
def ProgramsStay (events : List ModuleEvent) : Prop :=
  ∀ n i, events[n]? = some (.unload i) → .program ∉ unfinished (run (events.take n)).calls i

lemma reached_run {events : List ModuleEvent} (h : ProgramsStay events) (n : ℕ) :
    Reached (fun _ => True) (run (events.take n)) := by
  induction n with
  | zero => exact .init
  | succ n ih =>
    cases he : events[n]? with
    | none =>
      have hlen := List.getElem?_eq_none_iff.mp he
      rwa [List.take_of_length_le (by omega), ← List.take_of_length_le hlen]
    | some e =>
      rw [run_take_succ he]
      refine ih.next e ?_
      cases e with
      | unload i => exact h n i he
      | _ => exact fun _ _ => trivial

/-- **A whole run**: the stacks are apart in all its states exactly if no event of it makes the kernel
call a module into which a call is unfinished. -/
theorem stacksApart_iff (events : List ModuleEvent) (h : ProgramsStay events) :
    (∀ n, StacksApart (run (events.take n))) ↔ ∀ n e, events[n]? = some e →
      ∀ i ∈ (run (events.take n)).starts e, unfinished (run (events.take n)).calls i = [] := by
  have htracked (n) : Tracked (fun _ => True) (run (events.take n)) :=
    (reached_run h n).tracked (fun _ => trivial) (fun _ _ => id) trivial
  have hstacked (n) : Stacked (run (events.take n)) :=
    (reached_run h n).stacked fun _ => trivial
  have hallowed {n e} (he : events[n]? = some e) :
      (run (events.take n)).Allowed (fun _ => True) e := by
    cases e with
    | unload i => exact h n i he
    | _ => exact fun _ _ => trivial
  constructor
  · intro hapart n e he
    refine (stacksApart_next_iff (htracked n) (hstacked n) (hapart n) (hallowed he)).mp ?_
    rw [← run_take_succ he]
    exact hapart (n + 1)
  · intro hcalls n
    induction n with
    | zero => exact List.Pairwise.nil
    | succ n ih =>
      cases he : events[n]? with
      | none =>
        have hlen := List.getElem?_eq_none_iff.mp he
        rwa [List.take_of_length_le (by omega), ← List.take_of_length_le hlen]
      | some e =>
        rw [run_take_succ he]
        exact (stacksApart_next_iff (htracked n) (hstacked n) ih (hallowed he)).mpr (hcalls n e he)

/-- The tick hook of one module makes the kernel call another one, and waits for a key: the passes
over slots that hold no module call nothing. -/
def nestedCalls : List ModuleEvent :=
  [.load ["zmodule_tick"] 4096, .ret, .load ["draw"] 8192, .ret, .tick 0 0, .call 1 "draw", .tick 2 2]

theorem stacksApart_nestedCalls :
    (run nestedCalls).calls.length = 2 ∧ ∀ n, StacksApart (run (nestedCalls.take n)) := by
  have hstay : ProgramsStay nestedCalls := by
    intro n i he
    exact absurd (List.mem_of_getElem? he) (by simp [nestedCalls])
  have hcalls : ∀ n : Fin 7, ∀ e ∈ nestedCalls[n.val]?, ∀ i ∈ (run (nestedCalls.take n)).starts e,
      unfinished (run (nestedCalls.take n)).calls i = [] := by decide
  exact ⟨by decide, (stacksApart_iff nestedCalls hstay).mpr fun n e he =>
    hcalls ⟨n, (List.getElem?_eq_some_iff.mp he).1⟩ e he⟩

/-- The hook of a module waits for a key, and `keyboard_read_key` calls `shell_modules_tick`. -/
theorem tick_in_call_shares_stack :
    ¬ StacksApart ((((none.next (.load ["zmodule_tick"] 4096)).next .ret).next
      (.call 0 "zmodule_tick")).next (.tick 0 0)) := by
  decide

/-! ### Background ticks -/

/-- A slot that the pass of `shell_modules_tick` reaches. -/
structure Visit where
  slot : Fin 8
  moduleIndex : ℕ
  modules : Modules

/-- Whether the tick hook of the slot is called. -/
def Visit.called (v : Visit) : Bool :=
  v.modules.available v.slot && !v.modules.shellModuleHasExport v.moduleIndex "zmodule_redraw" &&
    decide ("zmodule_tick" ∈ (v.modules.slots v.slot).exports)

/-- The modules after the hook, which has done what `hook` says. -/
def Visit.after (v : Visit) (hook : List ModuleEvent) : Modules :=
  (hook.foldl next (v.modules.next (.tick v.slot v.moduleIndex))).next .ret

/-- The rest of a pass; `hooks` says what the hooks do that it calls. -/
def ticks (hooks : Fin 8 → List ModuleEvent) : List (Fin 8) → ℕ → Modules → List Visit
  | [], _, _ => []
  | i :: rest, moduleIndex, m =>
    let v : Visit := ⟨i, moduleIndex, m⟩
    v :: ticks hooks rest (if m.available i then moduleIndex + 1 else moduleIndex)
      (if v.called then v.after (hooks i) else m)

def shellModulesTick (m : Modules) (hooks : Fin 8 → List ModuleEvent) : List Visit :=
  ticks hooks (List.finRange 8) 0 m

/-- The slot holds a module with a tick hook that is not a UI module. -/
def Visit.Background (v : Visit) : Prop :=
  v.modules.available v.slot ∧ "zmodule_redraw" ∉ (v.modules.slots v.slot).exports ∧
    "zmodule_tick" ∈ (v.modules.slots v.slot).exports

instance (v : Visit) : Decidable v.Background := inferInstanceAs (Decidable (_ ∧ _))

/-- The rest of a pass as it is meant: the hooks of the background modules are called, whatever their
numbers are. -/
def meantTicks (hooks : Fin 8 → List ModuleEvent) : List (Fin 8) → ℕ → Modules → List Visit
  | [], _, _ => []
  | i :: rest, moduleIndex, m =>
    let v : Visit := ⟨i, moduleIndex, m⟩
    v :: meantTicks hooks rest (if m.available i then moduleIndex + 1 else moduleIndex)
      (if v.Background then v.after (hooks i) else m)

/-- A module with a tick hook is taken for what it is: the module that has its number by now, when
the slots before it that were available have been counted, is a UI module if and only if it is one. -/
def Visit.NumberedRight (v : Visit) : Prop :=
  v.modules.available v.slot → "zmodule_tick" ∈ (v.modules.slots v.slot).exports →
    (v.modules.shellModuleHasExport v.moduleIndex "zmodule_redraw" ↔
      "zmodule_redraw" ∈ (v.modules.slots v.slot).exports)

instance (v : Visit) : Decidable v.NumberedRight := inferInstanceAs (Decidable (_ → _ → _))

variable {hooks : Fin 8 → List ModuleEvent} {m : Modules} {done rest : List (Fin 8)} {i : Fin 8}
  {k : ℕ}

lemma map_slot_ticks (k : ℕ) : (ticks hooks rest k m).map (·.slot) = rest := by
  induction rest generalizing k m with
  | nil => rfl
  | cons i rest ih => simp [ticks, ih]

lemma called_iff (v : Visit) : (v.called = true ↔ v.Background) ↔ v.NumberedRight := by
  simp only [Visit.called, Visit.Background, Visit.NumberedRight, Bool.and_eq_true,
    Bool.not_eq_true', decide_eq_true_eq]
  by_cases hi : v.modules.available v.slot = true
  · by_cases htick : "zmodule_tick" ∈ (v.modules.slots v.slot).exports
    · cases hui : v.modules.shellModuleHasExport v.moduleIndex "zmodule_redraw" <;>
        simp [hi, htick]
    · simp [htick]
  · simp [hi]

/-- As long as the modules are taken for what they are, the pass is the one that is meant. -/
lemma ticks_iff (k : ℕ) (m : Modules) :
    (∀ v ∈ ticks hooks rest k m, v.called = true ↔ v.Background) ↔
      ∀ v ∈ meantTicks hooks rest k m, v.NumberedRight := by
  induction rest generalizing k m with
  | nil => simp [ticks, meantTicks]
  | cons i rest ih =>
    simp only [ticks, meantTicks, forall_mem_cons, called_iff, ← ih]
    refine and_congr_right fun h => ?_
    simp only [(called_iff _).mpr h]

/-- A background module and a UI module. -/
def pair : Modules :=
  (((none.next (.load ["zmodule_tick"] 4096)).next .ret).next
    (.load ["zmodule_tick", "zmodule_redraw"] 8192)).next .ret

end Modules

end Shell
