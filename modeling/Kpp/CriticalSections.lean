import Kpp.StepRun
import Mathlib.Logic.Function.Basic
import Mathlib.Tactic.Common

/-!
# Calls that run in one critical section each

Threads call operations of a shared object. A call takes the mutex, runs in
small steps on the shared and on the caller's own state, releases the mutex
and returns. The steps do not ask who holds the mutex; a step taken without
it is recorded as a race. Every interleaving has the results of running
whole calls one after another in the order in which they took the mutex.
-/

namespace Kpp.CriticalSections

open StepRun

/-- The code of a critical section on shared state `S` and local state `L`,
for calls `C` with results `R` and points `P` between its steps. -/
structure Code (S L C R P : Type*) where
  /-- The call when nothing comes in between. -/
  whole : C → S → L → R×S×L
  /-- Point right after the mutex was taken. -/
  enter : C → P
  /-- One step: another point, or the result with which the section is left. -/
  micro : P → S → L → (P ⊕ R)×S×L
  /-- All that is left to do from a point. -/
  finish : P → S → L → R×S×L
  /-- Right after the mutex was taken the whole call is left to do. -/
  finish_enter : ∀ (c : C) (s : S) (l : L),finish (enter c) s l=whole c s l
  /-- A step that goes on leaves the rest to do. -/
  finish_next : ∀ {p q : P} {s s' : S} {l l' : L},micro p s l=(.inl q,s',l') →
    finish p s l=finish q s' l'
  /-- A step that leaves the section leaves nothing to do. -/
  finish_done : ∀ {p : P} {r : R} {s s' : S} {l l' : L},micro p s l=(.inr r,s',l') →
    finish p s l=(r,s',l')

/-- Where a thread is in its call. -/
inductive Phase (C R P : Type*) where
  /-- Between calls. -/
  | idle
  /-- Called, and about to take the mutex. -/
  | waiting (c : C)
  /-- In the critical section. -/
  | inside (p : P)
  /-- Done, and about to release the mutex. -/
  | leaving (r : R)
  /-- Released, and about to return. -/
  | returning (r : R)

variable {T S L C R P : Type*}

/-- The thread should hold the mutex. -/
def Phase.inLock : Phase C R P → Bool
  | .inside _ => true
  | .leaving _ => true
  | _ => false

/-- Call for which the thread is about to take the mutex. -/
def Phase.pending : Phase C R P → List C
  | .waiting c => [c]
  | _ => []

/-- Calls that released the mutex and have not returned. -/
def Phase.released : Phase C R P → ℕ
  | .returning _ => 1
  | _ => 0

/-- Calls that took the mutex and have not returned. -/
def Phase.entered : Phase C R P → ℕ
  | .inside _ => 1
  | .leaving _ => 1
  | .returning _ => 1
  | _ => 0

/-- Threads over the shared object. -/
structure State (T S L C R P : Type*) where
  /-- The shared object. -/
  shared : S
  /-- Each thread's own state. -/
  locals : T → L
  /-- Thread that holds the mutex. -/
  holder : Option T
  /-- Where each thread is. -/
  phase : T → Phase C R P
  /-- Results that each thread's calls returned, in order. -/
  results : T → List R
  /-- Calls that each thread made, in order. -/
  invoked : T → List C
  /-- Calls in the order in which they took the mutex. -/
  log : List (T×C)
  /-- How often each thread released the mutex. -/
  unlocks : T → ℕ
  /-- A thread was in the critical section, or left it, without the mutex. -/
  race : Bool

/-- A thread makes a call, or takes the next step of its call. -/
inductive Action (T C : Type*) where
  | invoke (t : T) (c : C)
  | advance (t : T)

section Steps
variable [DecidableEq T] (code : Code S L C R P)

/-- Record a step in the section that is taken without the mutex. -/
def State.guard (t : T) (s : State T S L C R P) : Bool := s.race || decide (s.holder≠some t)

/-- The next step of a thread's call. -/
def advance (t : T) (s : State T S L C R P) : Option (State T S L C R P) :=
  match s.phase t with
  | .idle => none
  | .waiting c =>
    if s.holder.isNone=true then
      some {s with
        holder := some t
        phase := Function.update s.phase t (.inside (code.enter c))
        log := s.log++[(t,c)]}
    else none
  | .inside p =>
    let done := code.micro p s.shared (s.locals t)
    some {s with
      shared := done.2.1
      locals := Function.update s.locals t done.2.2
      phase := Function.update s.phase t (done.1.elim Phase.inside Phase.leaving)
      race := s.guard t}
  | .leaving r =>
    some {s with
      holder := none
      phase := Function.update s.phase t (.returning r)
      unlocks := Function.update s.unlocks t (s.unlocks t+1)
      race := s.guard t}
  | .returning r =>
    some {s with
      phase := Function.update s.phase t .idle
      results := Function.update s.results t (s.results t++[r])}

/-- One action. -/
def step (s : State T S L C R P) : Action T C → Option (State T S L C R P)
  | .invoke t c =>
    match s.phase t with
    | .idle =>
      some {s with
        phase := Function.update s.phase t (.waiting c)
        invoked := Function.update s.invoked t (s.invoked t++[c])}
    | _ => none
  | .advance t => advance code t s

/-- The object, the threads' states and the results when whole calls run. -/
structure Serial (T S L R : Type*) where
  /-- The shared object. -/
  shared : S
  /-- Each thread's own state. -/
  locals : T → L
  /-- Results of each thread's calls. -/
  results : T → List R

/-- One whole call. -/
def Serial.serve (x : Serial T S L R) (call : T×C) : Serial T S L R :=
  let done := code.whole call.2 x.shared (x.locals call.1)
  ⟨done.2.1,Function.update x.locals call.1 done.2.2,
    Function.update x.results call.1 (x.results call.1++[done.1])⟩

/-- Whole calls one after another. -/
def Serial.run (x : Serial T S L R) (calls : List (T×C)) : Serial T S L R :=
  calls.foldl (Serial.serve code) x

end Steps

/-- Nothing called yet. -/
def start (shared : S) (locals : T → L) : State T S L C R P :=
  ⟨shared,locals,none,fun _ => .idle,fun _ => [],fun _ => [],[],fun _ => 0,false⟩

/-- Nothing run yet. -/
def Serial.start (shared : S) (locals : T → L) : Serial T S L R := ⟨shared,locals,fun _ => []⟩

/-- A call that took the mutex, of this thread. -/
def callsOf [DecidableEq T] (t : T) (log : List (T×C)) : List C :=
  (log.filter (fun call => decide (call.1=t))).map Prod.snd

/-- Mutual exclusion, one release for each call, and the results and final
state of whole calls in the order in which they took the mutex. -/
structure Serialised [DecidableEq T] (code : Code S L C R P) (shared : S) (locals : T → L)
    (s : State T S L C R P) : Prop where
  /-- The section was entered and left with the mutex only. -/
  exclusive : s.race=false
  /-- Each call that released the mutex did so once, and it is back or returns next. -/
  released : ∀ t,s.unlocks t=(s.results t).length+(s.phase t).released
  /-- The calls in the log are those made, apart from one that still waits. -/
  calls : ∀ t,s.invoked t=callsOf t s.log++(s.phase t).pending
  /-- Returned results are those of the whole calls; only the result of a call
  that took the mutex and is not back is still to come. -/
  results : ∀ t,∃ rest,rest.length=(s.phase t).entered ∧
    ((Serial.start shared locals).run code s.log).results t=s.results t++rest
  /-- Without calls on the way everything is as after the whole calls. -/
  final : (∀ t,s.phase t=.idle) →
    s.shared=((Serial.start shared locals).run code s.log).shared ∧
    s.locals=((Serial.start shared locals).run code s.log).locals ∧
    s.results=((Serial.start shared locals).run code s.log).results

/-- One more call in the log belongs to the thread that made it. -/
theorem callsOf_append [DecidableEq T] (t u : T) (c : C) (log : List (T×C)) :
    callsOf t (log++[(u,c)])=callsOf t log++(if u=t then [c] else []) := by
  unfold callsOf
  rw [List.filter_append,List.map_append]
  by_cases h : u=t
  · simp [h]
  · simp [h]

/-- Nobody else has the mutex that a thread has. -/
theorem holder_ne {s : State T S L C R P} {t u : T} (h : s.holder=some t) (hu : u≠t) :
    ¬s.holder=some u := by
  intro hother
  exact hu (Option.some.inj (hother.symm.trans h))

/-- Where a step of the section leads to is still under the mutex. -/
@[simp] theorem inLock_done (done : P ⊕ R) :
    (done.elim (Phase.inside : P → Phase C R P) Phase.leaving).inLock=true := by
  cases done <;> rfl

/-- The mutex is not released there yet. -/
@[simp] theorem released_done (done : P ⊕ R) :
    (done.elim (Phase.inside : P → Phase C R P) Phase.leaving).released=0 := by
  cases done <;> rfl

/-- No call waits for the mutex there. -/
@[simp] theorem pending_done (done : P ⊕ R) :
    (done.elim (Phase.inside : P → Phase C R P) Phase.leaving).pending=[] := by
  cases done <;> rfl

section Simulation
variable [DecidableEq T] {code : Code S L C R P} {s : State T S L C R P} {x : Serial T S L R}

/-- One more call in the log runs after the others. -/
theorem Serial.run_append (x : Serial T S L R) (calls : List (T×C)) (call : T×C) :
    x.run code (calls++[call])=(x.run code calls).serve code call := by
  unfold Serial.run
  rw [List.foldl_append]
  rfl

/-- A thread against the whole calls: where it is, its own state and its
results are as there, up to what its current call still has to do. -/
def Follows (code : Code S L C R P) (x : Serial T S L R) (s : State T S L C R P) (t : T) : Prop :=
  match s.phase t with
  | .idle => s.locals t=x.locals t ∧ x.results t=s.results t
  | .waiting _ => s.locals t=x.locals t ∧ x.results t=s.results t
  | .inside p => ∃ r,code.finish p s.shared (s.locals t)=(r,x.shared,x.locals t) ∧
      x.results t=s.results t++[r]
  | .leaving r => s.shared=x.shared ∧ s.locals t=x.locals t ∧ x.results t=s.results t++[r]
  | .returning r => s.locals t=x.locals t ∧ x.results t=s.results t++[r]

/-- The threads against the whole calls of the log. -/
structure Simulates (code : Code S L C R P) (x : Serial T S L R) (s : State T S L C R P) :
    Prop where
  /-- The section was entered and left with the mutex only. -/
  exclusive : s.race=false
  /-- The mutex is with the thread in the section. -/
  holder : ∀ t,s.holder=some t ↔ (s.phase t).inLock=true
  /-- Each thread follows the whole calls. -/
  follows : ∀ t,Follows code x s t
  /-- Outside the section the object is as after the whole calls. -/
  free : s.holder=none → s.shared=x.shared
  /-- One release for each call. -/
  released : ∀ t,s.unlocks t=(s.results t).length+(s.phase t).released
  /-- The calls in the log are those made. -/
  calls : ∀ t,s.invoked t=callsOf t s.log++(s.phase t).pending

/-- What a step leaves as it was for another thread, with the whole calls
before and after it. -/
structure Untouched (x x' : Serial T S L R) (s s' : State T S L C R P) (u : T) : Prop where
  /-- The thread is where it was. -/
  phase : s'.phase u=s.phase u
  /-- Its own state is unchanged. -/
  locals : s'.locals u=s.locals u
  /-- Its results are unchanged. -/
  results : s'.results u=s.results u
  /-- Its releases are unchanged. -/
  unlocks : s'.unlocks u=s.unlocks u
  /-- Its calls are unchanged. -/
  invoked : s'.invoked u=s.invoked u
  /-- Its calls in the log are unchanged. -/
  logged : callsOf u s'.log=callsOf u s.log
  /-- It has the mutex if it had it. -/
  holder : s'.holder=some u ↔ s.holder=some u
  /-- In the section it still sees the same object. -/
  shared : s.holder=some u → s'.shared=s.shared ∧ x'.shared=x.shared
  /-- Its state after the whole calls is unchanged. -/
  serialLocals : x'.locals u=x.locals u
  /-- Its results of the whole calls are unchanged. -/
  serialResults : x'.results u=x.results u

/-- A thread that a step leaves alone goes on following the whole calls. -/
theorem Untouched.follows {x' : Serial T S L R} {s' : State T S L C R P} {u : T}
    (hsame : Untouched x x' s s' u) (h : Simulates code x s) : Follows code x' s' u := by
  have hf := h.follows u
  have hlock := h.holder u
  unfold Follows at hf ⊢
  rw [hsame.phase,hsame.locals,hsame.results,hsame.serialLocals,hsame.serialResults]
  cases hp : s.phase u with
  | idle => simpa only [hp] using hf
  | waiting c => simpa only [hp] using hf
  | inside p =>
    rw [hp] at hlock
    obtain ⟨hs,hx⟩ := hsame.shared (hlock.mpr rfl)
    simpa only [hp,hs,hx] using hf
  | leaving r =>
    rw [hp] at hlock
    obtain ⟨hs,hx⟩ := hsame.shared (hlock.mpr rfl)
    simpa only [hp,hs,hx] using hf
  | returning r => simpa only [hp] using hf

/-- A step of one thread keeps the simulation if it does so for this thread. -/
theorem Simulates.of_thread {x' : Serial T S L R} {s' : State T S L C R P} {t : T}
    (h : Simulates code x s) (hsame : ∀ u,u≠t → Untouched x x' s s' u)
    (hexclusive : s'.race=false) (hholder : s'.holder=some t ↔ (s'.phase t).inLock=true)
    (hfollows : Follows code x' s' t) (hfree : s'.holder=none → s'.shared=x'.shared)
    (hreleased : s'.unlocks t=(s'.results t).length+(s'.phase t).released)
    (hcalls : s'.invoked t=callsOf t s'.log++(s'.phase t).pending) : Simulates code x' s' := by
  refine ⟨hexclusive,?_,?_,hfree,?_,?_⟩
  all_goals
    intro u
    by_cases hu : u=t
  · exact hu ▸ hholder
  · rw [(hsame u hu).holder,(hsame u hu).phase]
    exact h.holder u
  · exact hu ▸ hfollows
  · exact (hsame u hu).follows h
  · exact hu ▸ hreleased
  · rw [(hsame u hu).unlocks,(hsame u hu).results,(hsame u hu).phase]
    exact h.released u
  · exact hu ▸ hcalls
  · rw [(hsame u hu).invoked,(hsame u hu).logged,(hsame u hu).phase]
    exact h.calls u

/-- What is known of a thread from where it is. -/
theorem Simulates.known {t : T} {phase : Phase C R P} (h : Simulates code x s)
    (hp : s.phase t=phase) : (s.holder=some t ↔ phase.inLock=true) ∧
      s.unlocks t=(s.results t).length+phase.released ∧
      s.invoked t=callsOf t s.log++phase.pending := by
  subst hp
  exact ⟨h.holder t,h.released t,h.calls t⟩

/-- A new call only waits. -/
theorem Simulates.invoke {t : T} {c : C} (h : Simulates code x s) (hp : s.phase t=.idle) :
    Simulates code x {s with
      phase := Function.update s.phase t (.waiting c)
      invoked := Function.update s.invoked t (s.invoked t++[c])} := by
  obtain ⟨hlock,hreleased,hcalls⟩ := h.known hp
  have hf := h.follows t
  simp only [Follows,hp] at hf
  refine h.of_thread (t := t) ?_ h.exclusive ?_ ?_ h.free ?_ ?_
  · intro u hu
    constructor <;> simp [hu]
  · simpa [Phase.inLock] using hlock
  · simpa [Follows] using hf
  · simpa [Phase.released] using hreleased
  · simpa [Phase.pending] using hcalls

/-- A thread that takes the mutex has its whole call left to do. -/
theorem Simulates.take {t : T} {c : C} (h : Simulates code x s) (hp : s.phase t=.waiting c)
    (hfree : s.holder=none) : Simulates code (x.serve code (t,c)) {s with
      holder := some t
      phase := Function.update s.phase t (.inside (code.enter c))
      log := s.log++[(t,c)]} := by
  obtain ⟨-,hreleased,hcalls⟩ := h.known hp
  have hf := h.follows t
  simp only [Follows,hp] at hf
  refine h.of_thread (t := t) ?_ h.exclusive ?_ ?_ ?_ ?_ ?_
  · intro u hu
    constructor <;> simp [hu,Ne.symm hu,hfree,Serial.serve,callsOf_append]
  · simp [Phase.inLock]
  · simp only [Follows,Function.update_self,Serial.serve,code.finish_enter,hf.1,hf.2,h.free hfree]
    exact ⟨_,rfl,rfl⟩
  · intro hnone
    cases hnone
  · simpa [Phase.released] using hreleased
  · simpa [Phase.pending,callsOf_append] using hcalls

/-- A step in the section does a part of what is left to do. -/
theorem Simulates.work {t : T} {p : P} (h : Simulates code x s) (hp : s.phase t=.inside p) :
    Simulates code x {s with
      shared := (code.micro p s.shared (s.locals t)).2.1
      locals := Function.update s.locals t (code.micro p s.shared (s.locals t)).2.2
      phase := Function.update s.phase t
        ((code.micro p s.shared (s.locals t)).1.elim Phase.inside Phase.leaving)
      race := s.guard t} := by
  obtain ⟨hlock,hreleased,hcalls⟩ := h.known hp
  have hf := h.follows t
  simp only [Follows,hp] at hf
  have hmine : s.holder=some t := hlock.mpr rfl
  obtain ⟨r,hfinish,hresults⟩ := hf
  refine h.of_thread (t := t) ?_ ?_ ?_ ?_ ?_ ?_ ?_
  · intro u hu
    constructor <;> simp [hu,holder_ne hmine hu]
  · simp [State.guard,h.exclusive,hmine]
  · simpa using hmine
  · rcases hm : code.micro p s.shared (s.locals t) with ⟨q | q,shared,locals⟩
    · rw [code.finish_next hm] at hfinish
      simpa [Follows] using ⟨r,hfinish,hresults⟩
    · rw [code.finish_done hm] at hfinish
      obtain ⟨rfl,hshared,hlocals⟩ : q=r ∧ shared=x.shared ∧ locals=x.locals t := by
        simpa using hfinish
      simpa [Follows] using ⟨hshared,hlocals,hresults⟩
  · intro hnone
    rw [hmine] at hnone
    cases hnone
  · change s.unlocks t=(s.results t).length+0 at hreleased
    simpa using hreleased
  · change s.invoked t=callsOf t s.log++[] at hcalls
    simpa using hcalls

/-- Releasing the mutex leaves the object as after the whole call. -/
theorem Simulates.release {t : T} {r : R} (h : Simulates code x s) (hp : s.phase t=.leaving r) :
    Simulates code x {s with
      holder := none
      phase := Function.update s.phase t (.returning r)
      unlocks := Function.update s.unlocks t (s.unlocks t+1)
      race := s.guard t} := by
  obtain ⟨hlock,hreleased,hcalls⟩ := h.known hp
  have hf := h.follows t
  simp only [Follows,hp] at hf
  have hmine : s.holder=some t := hlock.mpr rfl
  refine h.of_thread (t := t) ?_ ?_ ?_ ?_ ?_ ?_ ?_
  · intro u hu
    constructor <;> simp [hu,Ne.symm hu,hmine]
  · simp [State.guard,h.exclusive,hmine]
  · simp [Phase.inLock]
  · simpa [Follows] using hf.2
  · intro _
    exact hf.1
  · simpa [Phase.released] using hreleased
  · simpa [Phase.pending] using hcalls

/-- A returned result is that of the whole call. -/
theorem Simulates.giveBack {t : T} {r : R} (h : Simulates code x s) (hp : s.phase t=.returning r) :
    Simulates code x {s with
      phase := Function.update s.phase t .idle
      results := Function.update s.results t (s.results t++[r])} := by
  obtain ⟨hlock,hreleased,hcalls⟩ := h.known hp
  have hf := h.follows t
  simp only [Follows,hp] at hf
  refine h.of_thread (t := t) ?_ h.exclusive ?_ ?_ h.free ?_ ?_
  · intro u hu
    constructor <;> simp [hu]
  · simpa [Phase.inLock] using hlock
  · simpa [Follows] using hf
  · simpa [Phase.released] using hreleased
  · simpa [Phase.pending] using hcalls

/-- The whole calls of the log simulate every step. -/
theorem Simulates.step {s' : State T S L C R P} {a : Action T C} {y : Serial T S L R}
    (h : Simulates code (y.run code s.log) s) (hs : step code s a=some s') :
    Simulates code (y.run code s'.log) s' := by
  cases a with
  | invoke t c =>
    simp only [CriticalSections.step] at hs
    cases hp : s.phase t with
    | idle =>
      simp only [hp,Option.some.injEq] at hs
      subst hs
      exact h.invoke hp
    | _ => simp [hp] at hs
  | advance t =>
    simp only [CriticalSections.step,advance] at hs
    cases hp : s.phase t with
    | idle => simp [hp] at hs
    | waiting c =>
      by_cases hfree : s.holder=none
      · simp only [hp,hfree,Option.isNone_none,if_true,Option.some.injEq] at hs
        subst hs
        rw [Serial.run_append]
        exact h.take hp hfree
      · simp [hp,hfree] at hs
    | inside p =>
      simp only [hp,Option.some.injEq] at hs
      subst hs
      exact h.work hp
    | leaving r =>
      simp only [hp,Option.some.injEq] at hs
      subst hs
      exact h.release hp
    | returning r =>
      simp only [hp,Option.some.injEq] at hs
      subst hs
      exact h.giveBack hp

/-- Before the first call everything is as at the start. -/
theorem simulates_start (shared : S) (locals : T → L) :
    Simulates code ((Serial.start shared locals).run code [])
      (start shared locals : State T S L C R P) := by
  constructor <;>
    simp [start,Serial.start,Serial.run,Follows,Phase.inLock,Phase.released,Phase.pending,callsOf]

/-- What the simulation says about the results and the final state. -/
theorem Simulates.serialised {shared : S} {locals : T → L}
    (h : Simulates code ((Serial.start shared locals).run code s.log) s) :
    Serialised code shared locals s where
  exclusive := h.exclusive
  released := h.released
  calls := h.calls
  results := by
    intro t
    have hf := h.follows t
    unfold Follows at hf
    cases hp : s.phase t with
    | idle =>
      rw [hp] at hf
      exact ⟨[],rfl,by simpa using hf.2⟩
    | waiting c =>
      rw [hp] at hf
      exact ⟨[],rfl,by simpa using hf.2⟩
    | inside p =>
      rw [hp] at hf
      obtain ⟨r,-,hresults⟩ := hf
      exact ⟨[r],rfl,hresults⟩
    | leaving r =>
      rw [hp] at hf
      exact ⟨[r],rfl,hf.2.2⟩
    | returning r =>
      rw [hp] at hf
      exact ⟨[r],rfl,hf.2⟩
  final := by
    intro hidle
    have hf : ∀ t,s.locals t=((Serial.start shared locals).run code s.log).locals t ∧
        ((Serial.start shared locals).run code s.log).results t=s.results t := by
      intro t
      have ht := h.follows t
      unfold Follows at ht
      simpa only [hidle t] using ht
    refine ⟨h.free ?_,funext fun t => (hf t).1,funext fun t => (hf t).2.symm⟩
    cases hh : s.holder with
    | none => rfl
    | some t =>
      have hlock := (h.holder t).mp hh
      rw [hidle t] at hlock
      cases hlock

/-- Every interleaving has the results and the final state of whole calls in
the order in which they took the mutex. -/
theorem along_serialised (code : Code S L C R P) (shared : S) (locals : T → L)
    (actions : List (Action T C)) :
    Along (CriticalSections.step code) (Serialised code shared locals) (start shared locals)
      actions := by
  refine along_of_preserved (I := fun s =>
    Simulates code ((Serial.start shared locals).run code s.log) s) ?_ ?_ ?_
  · intro s h
    exact h.serialised
  · intro s a s' h hs
    exact h.step hs
  · exact simulates_start shared locals

end Simulation

end Kpp.CriticalSections
