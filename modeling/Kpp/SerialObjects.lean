import Kpp.CriticalSections

/-!
# Sequential objects behind critical sections

An object says what one whole call does to its state and to the caller's, and
knows no threads and no steps. Code whose whole calls do the same, seen
through a view of its states, is this object for every interleaving: the calls
have the object's results in the order in which they took the mutex.
-/

namespace Kpp.SerialObjects

open StepRun CriticalSections

variable {T S L A B C R P : Type*}

/-- An object with state `A`, for callers with state `B`. -/
structure Object (A B C R : Type*) where
  /-- One whole call. -/
  call : C → A → B → R×A×B

section Calls
variable [DecidableEq T]

/-- One call of a thread. -/
def Object.serve (o : Object A B C R) (x : Serial T A B R) (call : T×C) : Serial T A B R :=
  let done := o.call call.2 x.shared (x.locals call.1)
  ⟨done.2.1,Function.update x.locals call.1 done.2.2,
    Function.update x.results call.1 (x.results call.1++[done.1])⟩

/-- Calls one after another. -/
def Object.run (o : Object A B C R) (x : Serial T A B R) (calls : List (T×C)) : Serial T A B R :=
  calls.foldl o.serve x

end Calls

/-- The states as the object has them. -/
structure View (S L A B : Type*) where
  /-- State of the object. -/
  shared : S → A
  /-- State of a caller. -/
  own : L → B

/-- Object, callers and results in a view. -/
def View.serial (view : View S L A B) (x : Serial T S L R) : Serial T A B R :=
  ⟨view.shared x.shared,fun t => view.own (x.locals t),x.results⟩

/-- Whole calls of the code do what the object does. -/
def Implements (code : Code S L C R P) (o : Object A B C R) (view : View S L A B) : Prop :=
  ∀ c s l,o.call c (view.shared s) (view.own l)=
    ((code.whole c s l).1,view.shared (code.whole c s l).2.1,view.own (code.whole c s l).2.2)

section Runs
variable [DecidableEq T] {code : Code S L C R P} {o : Object A B C R} {view : View S L A B}

/-- The object's calls in the order of the log, and results that are still to
come of calls that took the mutex. -/
structure Linearised (code : Code S L C R P) (o : Object A B C R) (view : View S L A B)
    (shared : S) (locals : T → L) (s : State T S L C R P) : Prop where
  /-- The log has the calls of each thread in its order, apart from one that waits. -/
  calls : ∀ t,s.invoked t=callsOf t s.log++(s.phase t).pending
  /-- Returned results are the object's. -/
  results : ∀ t,∃ rest,rest.length=(s.phase t).entered ∧
    (o.run (view.serial (Serial.start shared locals)) s.log).results t=s.results t++rest
  /-- Without calls on the way the states are the object's. -/
  final : (∀ t,s.phase t=.idle) →
    view.serial ⟨s.shared,s.locals,s.results⟩=
      o.run (view.serial (Serial.start shared locals)) s.log

/-- One whole call in the view. -/
theorem Implements.serve (h : Implements code o view) (x : Serial T S L R) (call : T×C) :
    view.serial (x.serve code call)=o.serve (view.serial x) call := by
  have hcall := h call.2 x.shared (x.locals call.1)
  have hlocals : (fun t => view.own (Function.update x.locals call.1
      (code.whole call.2 x.shared (x.locals call.1)).2.2 t))=
      Function.update (fun t => view.own (x.locals t)) call.1
        (view.own (code.whole call.2 x.shared (x.locals call.1)).2.2) := by
    funext t
    by_cases ht : t=call.1
    · subst ht
      rw [Function.update_self,Function.update_self]
    · rw [Function.update_of_ne ht,Function.update_of_ne ht]
  simp only [View.serial,Serial.serve,Object.serve,hcall,hlocals]

/-- Whole calls in the view. -/
theorem Implements.run (h : Implements code o view) (x : Serial T S L R) (calls : List (T×C)) :
    view.serial (x.run code calls)=o.run (view.serial x) calls := by
  induction calls generalizing x with
  | nil => rfl
  | cons call calls ih =>
    have hrest := ih (x.serve code call)
    rw [h.serve] at hrest
    exact hrest

/-- Every interleaving of the code's steps is linearised by the object. -/
theorem Implements.along_linearised (h : Implements code o view) (shared : S) (locals : T → L)
    (actions : List (Action T C)) :
    Along (CriticalSections.step code) (Linearised code o view shared locals)
      (start shared locals) actions := by
  refine along_of_along (I := fun _ => True) ?_ (fun _ _ _ => trivial) trivial
    (along_serialised code shared locals actions)
  intro s _ hs
  have hrun := h.run (Serial.start shared locals) s.log
  refine ⟨hs.calls,?_,?_⟩
  · intro t
    rw [←hrun]
    exact hs.results t
  · intro hidle
    obtain ⟨hshared,hlocals,hresults⟩ := hs.final hidle
    rw [←hrun,hshared,hlocals,hresults]

/-- What holds of the object initially and is kept by its calls holds after
any calls. -/
theorem Object.run_invariant {I : Serial T A B R → Prop} {G : T×C → Prop}
    (hserve : ∀ {x call},I x → G call → I (o.serve x call)) {x : Serial T A B R} (hx : I x)
    {calls : List (T×C)} (hcalls : ∀ call∈calls,G call) : I (o.run x calls) := by
  induction calls generalizing x with
  | nil => exact hx
  | cons call calls ih =>
    have hnow := hserve hx (hcalls call List.mem_cons_self)
    exact ih hnow (fun c hc => hcalls c (List.mem_cons_of_mem call hc))

end Runs

end Kpp.SerialObjects
