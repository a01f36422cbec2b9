import Mathlib.Tactic

/-!
# Parties that share a memory

Any number of parties take turns. Each has a control point of its own; at an idle one it may begin a
call, at any other one its next step is determined by the shared memory. The steps leave events in a
log. A party stands for one call in progress, so that a core with nested calls is several parties.
-/

namespace Parties

/-- `P` are the parties, `S` the shared memory, `L` the control points and `E` the events. -/
structure Config (P S L E : Type*) where
  shared : S
  pc : P → L
  log : List E

structure System (S L E : Type*) where
  initial : S → Prop
  idle : L
  /-- The step of a party at a control point. -/
  next : S → L → S × L × List E
  /-- The control points at which a call may begin, after the events so far. -/
  begins : List E → L → Prop
  /-- What the surroundings do to the shared memory. -/
  environment : S → S → Prop

variable {P S L E : Type*} [DecidableEq P] (sys : System S L E)

/-- The configuration after a step of the party `p`. -/
def Config.run (c : Config P S L E) (p : P) : Config P S L E where
  shared := (sys.next c.shared (c.pc p)).1
  pc := Function.update c.pc p (sys.next c.shared (c.pc p)).2.1
  log := c.log ++ (sys.next c.shared (c.pc p)).2.2

def Config.enter (c : Config P S L E) (p : P) (l : L) : Config P S L E :=
  { c with pc := Function.update c.pc p l }

/-- Configurations reached by runs in which every step of a party meets the condition `ok`. -/
inductive Reachable (ok : Config P S L E → P → Prop) : Config P S L E → Prop
  | start (s : S) (initial : sys.initial s) : Reachable ok ⟨s, fun _ => sys.idle, []⟩
  | run {c : Config P S L E} (p : P) (reachable : Reachable ok c) (step : ok c p) :
    Reachable ok (c.run sys p)
  | enter {c : Config P S L E} (p : P) (l : L) (reachable : Reachable ok c)
    (idle : c.pc p = sys.idle) (begins : sys.begins c.log l) : Reachable ok (c.enter p l)
  | environment {c : Config P S L E} (s : S) (reachable : Reachable ok c)
    (change : sys.environment c.shared s) : Reachable ok { c with shared := s }

variable {sys} {ok : Config P S L E → P → Prop} {c : Config P S L E}

/-- The configuration after steps of the parties of a list in turn. -/
def Config.runs (sys : System S L E) : Config P S L E → List P → Config P S L E :=
  List.foldl (Config.run sys)

/-- The steps of the parties of a list in turn meet the condition. -/
def Meets (sys : System S L E) (ok : Config P S L E → P → Prop) : Config P S L E → List P → Prop
  | _, [] => True
  | c, p :: ps => ok c p ∧ Meets sys ok (c.run sys p) ps

instance Meets.decidable [∀ c p, Decidable (ok c p)] :
    ∀ (c : Config P S L E) (ps : List P), Decidable (Meets sys ok c ps)
  | _, [] => inferInstanceAs (Decidable True)
  | c, p :: ps =>
    have := Meets.decidable (c.run sys p) ps
    inferInstanceAs (Decidable (ok c p ∧ Meets sys ok (c.run sys p) ps))

lemma Reachable.runs {ps : List P} (h : Reachable sys ok c) (hok : Meets sys ok c ps) :
    Reachable sys ok (c.runs sys ps) := by
  induction ps generalizing c with
  | nil => exact h
  | cons p ps ih => exact ih (h.run p hok.1) hok.2

lemma Meets.of_forall (h : ∀ c p, ok c p) (c : Config P S L E) (ps : List P) :
    Meets sys ok c ps := by
  induction ps generalizing c with
  | nil => trivial
  | cons p ps ih => exact ⟨h c p, ih _⟩

end Parties
