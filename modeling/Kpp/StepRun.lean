import Mathlib.Logic.Basic
import Mathlib.Data.Option.Basic

/-!
# Runs of a partial step function

A machine is a partial step function; an action that the current state
does not permit has no step. Runs execute a list of actions in order.
State properties are followed along every prefix of a run, and guards on
actions are read in the state from which the action is taken.
-/

namespace Kpp.StepRun

variable {σ α : Type*}

/-- Execute the actions in order; the run is undefined once one is not permitted. -/
def run (step : σ → α → Option σ) : σ → List α → Option σ
  | s,[] => some s
  | s,a::as => (step s a).bind (fun t => run step t as)

/-- The property holds at the start and after each executed action. -/
def Along (step : σ → α → Option σ) (P : σ → Prop) : σ → List α → Prop
  | s,[] => P s
  | s,a::as => P s ∧ ∀ t,step s a=some t → Along step P t as

/-- Every executed action meets the guard in the state it is taken from. -/
def Guarded (step : σ → α → Option σ) (G : σ → α → Prop) : σ → List α → Prop
  | _,[] => True
  | s,a::as => ∀ t,step s a=some t → G s a ∧ Guarded step G t as

variable {step : σ → α → Option σ} {P I : σ → Prop} {G : σ → α → Prop} {s t : σ}

/-- The empty run stays where it is. -/
@[simp] theorem run_nil (s : σ) : run step s []=some s := rfl

/-- The run of one action is its step. -/
theorem run_one (s : σ) (a : α) : run step s [a]=step s a := by
  simp only [run,Option.bind_fun_some]

/-- A nonempty run takes its first step and continues from there. -/
theorem run_cons_some {a : α} {as : List α} (h : run step s (a::as)=some t) :
    ∃ u,step s a=some u ∧ run step u as=some t := by
  simpa only [run,Option.bind_eq_some_iff] using h

/-- A run of two parts is a run of the first and from there one of the second. -/
theorem run_append (s : σ) (as bs : List α) :
    run step s (as++bs)=(run step s as).bind (fun t => run step t bs) := by
  induction as generalizing s with
  | nil => rfl
  | cons a as ih =>
    simp only [List.cons_append,run]
    cases step s a with
    | none => rfl
    | some u => exact ih u

/-- An invariant of guarded steps holds at the end of every guarded run. -/
theorem run_invariant (hstep : ∀ {s a t},I s → G s a → step s a=some t → I t)
    {as : List α} (hs : I s) (hg : Guarded step G s as) (h : run step s as=some t) : I t := by
  induction as generalizing s with
  | nil =>
    cases h
    exact hs
  | cons a as ih =>
    obtain ⟨u,hu,hrest⟩ := run_cons_some h
    exact ih (hstep hs (hg u hu).1 hu) (hg u hu).2 hrest

/-- With no guard to meet, every step of a run preserves the invariant. -/
theorem run_preserves (hstep : ∀ {s a t},I s → step s a=some t → I t)
    {as : List α} (hs : I s) (h : run step s as=some t) : I t := by
  induction as generalizing s with
  | nil =>
    cases h
    exact hs
  | cons a as ih =>
    obtain ⟨u,hu,hrest⟩ := run_cons_some h
    exact ih (hstep hs hu) hrest

/-- An invariant of every step that implies the property carries it along
every run. -/
theorem along_of_preserved (hI : ∀ {s},I s → P s)
    (hstep : ∀ {s a t},I s → step s a=some t → I t)
    {as : List α} (hs : I s) : Along step P s as := by
  induction as generalizing s with
  | nil => exact hI hs
  | cons a as ih =>
    refine ⟨hI hs,?_⟩
    intro u hu
    exact ih (hstep hs hu)

/-- An invariant of guarded steps that implies the property carries it
along every guarded run. -/
theorem along_of_guarded (hI : ∀ {s},I s → P s)
    (hstep : ∀ {s a t},I s → G s a → step s a=some t → I t)
    {as : List α} (hs : I s) (hg : Guarded step G s as) : Along step P s as := by
  induction as generalizing s with
  | nil => exact hI hs
  | cons a as ih =>
    refine ⟨hI hs,?_⟩
    intro u hu
    exact ih (hstep hs (hg u hu).1 hu) (hg u hu).2

/-- An invariant of the steps from states with one property carries another
one along every run that has the first. -/
theorem along_of_along {Q : σ → Prop} (hI : ∀ {s},I s → Q s → P s)
    (hstep : ∀ {s a t},I s → Q s → step s a=some t → I t)
    {as : List α} (hs : I s) (hq : Along step Q s as) : Along step P s as := by
  induction as generalizing s with
  | nil => exact hI hs hq
  | cons a as ih =>
    refine ⟨hI hs hq.1,?_⟩
    intro u hu
    exact ih (hstep hs hq.1 hu) (hq.2 u hu)

/-- A guard that an invariant implies is met by every run. -/
theorem guarded_of_preserved (hG : ∀ {s a t},I s → step s a=some t → G s a)
    (hstep : ∀ {s a t},I s → step s a=some t → I t) {as : List α} (hs : I s) :
    Guarded step G s as := by
  induction as generalizing s with
  | nil => trivial
  | cons a as ih => exact fun u hu => ⟨hG hs hu,ih (hstep hs hu)⟩

/-- A guard that a property of the state implies is met where the property
holds along the run. -/
theorem guarded_of_along (hG : ∀ {s a t},P s → step s a=some t → G s a) {as : List α}
    (hp : Along step P s as) : Guarded step G s as := by
  induction as generalizing s with
  | nil => trivial
  | cons a as ih => exact fun u hu => ⟨hG hp.1 hu,ih (hp.2 u hu)⟩

/-- A guard that an invariant and another guard imply is met where the other
guard is met and keeps the invariant. -/
theorem guarded_of_guarded {Q : σ → α → Prop} (hQ : ∀ {s a t},I s → G s a → step s a=some t → Q s a)
    (hstep : ∀ {s a t},I s → G s a → step s a=some t → I t)
    {as : List α} (hs : I s) (hg : Guarded step G s as) : Guarded step Q s as := by
  induction as generalizing s with
  | nil => trivial
  | cons a as ih =>
    intro u hu
    obtain ⟨hga,hrest⟩ := hg u hu
    exact ⟨hQ hs hga hu,ih (hstep hs hga hu) hrest⟩

/-- Guards that are equivalent for the steps from states with an invariant are
met by the same runs. -/
theorem guarded_congr {G' : σ → α → Prop} (hstep : ∀ {s a t},I s → step s a=some t → I t)
    (hiff : ∀ {s a t},I s → step s a=some t → (G s a ↔ G' s a)) {as : List α} (hs : I s) :
    Guarded step G s as ↔ Guarded step G' s as := by
  induction as generalizing s with
  | nil => exact Iff.rfl
  | cons a as ih =>
    refine forall_congr' fun u => forall_congr' fun hu => ?_
    exact and_congr (hiff hs hu) (ih (hstep hs hu))

/-- When the property already fails right after a step outside its guard,
the guard is the exact condition for the property along a run. -/
theorem along_iff_guarded (hI : ∀ {s},I s → P s)
    (hstep : ∀ {s a t},I s → G s a → step s a=some t → I t)
    (hexact : ∀ {s a t},I s → step s a=some t → P t → G s a)
    {as : List α} (hs : I s) : Along step P s as ↔ Guarded step G s as := by
  refine ⟨?_,along_of_guarded hI hstep hs⟩
  induction as generalizing s with
  | nil => exact fun _ => trivial
  | cons a as ih =>
    intro hp u hu
    have hnow : P u := by
      have hrest := hp.2 u hu
      cases as with
      | nil => exact hrest
      | cons b bs => exact hrest.1
    have hga := hexact hs hu hnow
    exact ⟨hga,ih (hstep hs hga hu) (hp.2 u hu)⟩

/-- A step outside its guard spoils the state for good, and a spoiled state
never ends well. The guard is then the exact condition for a good ending. -/
theorem end_iff_guarded {B Q F : σ → Prop}
    (hgood : ∀ {s a t},I s → G s a → step s a=some t → I t)
    (hspoil : ∀ {s a t},I s → ¬G s a → step s a=some t → B t)
    (hkeep : ∀ {s a t},B s → step s a=some t → B t)
    (hI : ∀ {s},I s → F s → Q s) (hB : ∀ {s},B s → F s → ¬Q s)
    {as : List α} (hs : I s) (h : run step s as=some t) (hf : F t) :
    Q t ↔ Guarded step G s as := by
  refine ⟨?_,fun hg => hI (run_invariant hgood hs hg h) hf⟩
  induction as generalizing s with
  | nil => exact fun _ => trivial
  | cons a as ih =>
    intro hq u hu
    obtain ⟨v,hv,hrest⟩ := run_cons_some h
    obtain rfl : v=u := Option.some.inj (hv.symm.trans hu)
    by_cases hga : G s a
    · exact ⟨hga,ih (hgood hs hga hv) hrest hq⟩
    · exact absurd hq (hB (run_preserves hkeep (hspoil hs hga hv) hrest) hf)

end Kpp.StepRun
