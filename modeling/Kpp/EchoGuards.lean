import Kpp.EchoCalls
import Kpp.ScopedLocks

/-!
# The guards in the echo driver's calls

Every call of the driver is a function whose first statement declares a
`ScopedLock` on the mutex. The steps of a call, those that take and release
the mutex included, are steps of this function by the rules for guards, and
the mutex is with the thread whose guard lives.
-/

namespace Kpp.EchoGuards

open EchoCalls HeldLocks ScopedLocks StepRun
open CriticalSections (Phase)

variable {T : Type*}

/-- The function that a call runs. -/
def callCode : Call → Code Unit
  | .read _ _ => echoRead ()
  | .write _ _ => echoWrite ()

/-- What is left of it at a point. The statements between the copy and the log
line of a write are one here. -/
def pointCode : Point → Code Unit
  | .testing _ _ => .branch .ret .done (.work (.branch .ret .done (.work .ret)))
  | .counting _ _ => .work (.branch .ret .done (.work .ret))
  | .copyingOut _ _ => .branch .ret .done (.work .ret)
  | .advancing _ _ => .work .ret
  | .copyingIn _ _ => .work (.branch .ret .done (.work (.work .ret)))
  | .sizing _ => .work (.work .ret)
  | .terminating _ => .work (.work .ret)
  | .rewinding _ => .work (.work .ret)
  | .logging _ => .work .ret

/-- Blocks and guards of a thread, from where it is in its call. -/
def blocks : Phase Call Result Point → List (Frame Unit)
  | .idle => []
  | .waiting c => [⟨callCode c,[]⟩]
  | .inside p => [⟨pointCode p,[()]⟩]
  | .leaving _ => [⟨.done,[()]⟩]
  | .returning _ => [⟨.done,[]⟩]

/-- A thread between functions calls one, or takes the next step of its own. -/
inductive Move (T : Type*) where
  | call (t : T) (code : Code Unit)
  | step (t : T) (condition : Bool)

/-- No thread is in a function. -/
def idle : ScopedLocks.State T Unit := ⟨fun _ => none,fun _ => [],fun _ => [],false⟩

/-- How often the events release the mutex. -/
def unlocksOf (events : List (Event Unit)) : ℕ :=
  events.countP (fun | .unlock _ => true | .lock _ => false)

/-- The guards of the functions are those of the calls. -/
structure Mirrors (s : CriticalSections.State T EchoDriver (BitVec 64) Call Result Point)
    (x : ScopedLocks.State T Unit) : Prop where
  /-- The same thread has the mutex. -/
  holder : x.holder ()=s.holder
  /-- Each thread is at the same place of the same function. -/
  frames : ∀ t,x.frames t=blocks (s.phase t)
  /-- Each thread released the mutex equally often. -/
  unlocks : ∀ t,unlocksOf (x.events t)=s.unlocks t
  /-- A release of a mutex that the thread did not have is a race. -/
  misuse : x.misuse=true → s.race=true

section Moves
variable [DecidableEq T]

/-- One move of a thread. -/
def move (x : ScopedLocks.State T Unit) : Move T → Option (ScopedLocks.State T Unit)
  | .call t code => if (x.frames t).isEmpty=true then some (x.goOn t [⟨code,[]⟩]) else none
  | .step t condition => ScopedLocks.step (fun _ => .mutex) x (t,condition)

/-- Steps of one thread that do not concern the mutex. -/
def quiet : List Bool → List (Frame Unit) → Option (List (Frame Unit))
  | [],frames => some frames
  | b::conditions,frames =>
    match frames,pending frames with
    | _::_,none => quiet conditions (advance b frames)
    | _,_ => none

variable {s s' : CriticalSections.State T EchoDriver (BitVec 64) Call Result Point}
  {x x' : ScopedLocks.State T Unit}

/-- The blocks that a thread goes on with. -/
theorem goOn_frames (t : T) (frames : List (Frame Unit)) (x : ScopedLocks.State T Unit) :
    (x.goOn t frames).frames t=frames :=
  Function.update_self _ _ _

/-- Quiet steps change the blocks of their thread only. -/
theorem run_quiet {t : T} {conditions : List Bool} {frames : List (Frame Unit)}
    (h : quiet conditions (x.frames t)=some frames) :
    run move x (conditions.map (.step t))=some (x.goOn t frames) := by
  induction conditions generalizing x with
  | nil =>
    obtain rfl := Option.some.inj h
    simp only [List.map_nil,run_nil,State.goOn,Function.update_eq_self]
  | cons b conditions ih =>
    unfold quiet at h
    split at h
    · next frame outer _ hframes hpending =>
      have hstep : move x (.step t b)=some (x.goOn t (advance b (x.frames t))) := by
        have hin : ¬(x.frames t).isEmpty=true := by
          rw [hframes]
          exact Bool.false_ne_true
        simp only [move,ScopedLocks.step,if_neg hin,hpending]
      have hrest := ih (x := x.goOn t (advance b (x.frames t)))
        (by rw [goOn_frames]; exact h)
      simp only [List.map_cons,run,hstep,Option.bind_some,hrest]
      rw [State.goOn,State.goOn,Function.update_idem,State.goOn]
    · cases h

/-- A step inside the section is a number of quiet steps. -/
theorem quiet_micro (p : Point) (d : EchoDriver) (offset : BitVec 64) :
    ∃ conditions,quiet conditions (blocks (.inside p))=
      some (blocks ((p.micro d offset).1.elim .inside .leaving)) := by
  cases p with
  | testing size fault =>
    by_cases h : (d.bufferLen : ℕ)≤offset.toNat
    · refine ⟨[true,true,true],?_⟩
      rw [Point.micro,if_pos h]
      rfl
    · refine ⟨[false,false],?_⟩
      rw [Point.micro,if_neg h]
      rfl
  | counting size fault => exact ⟨[true],rfl⟩
  | copyingOut count fault =>
    cases fault with
    | some moved => exact ⟨[true,true,true],rfl⟩
    | none => exact ⟨[false,false],rfl⟩
  | advancing count bytes => exact ⟨[true,true],rfl⟩
  | copyingIn message fault =>
    cases fault with
    | some garbage => exact ⟨[true,true,true,true],rfl⟩
    | none => exact ⟨[true,false,false],rfl⟩
  | sizing count => exact ⟨[],rfl⟩
  | terminating count => exact ⟨[],rfl⟩
  | rewinding count => exact ⟨[true],rfl⟩
  | logging count => exact ⟨[true,true],rfl⟩

/-- When one thread goes on, all threads are at the same places again. -/
theorem Mirrors.frames_update (hm : Mirrors s x) (t u : T) (phase : Phase Call Result Point) :
    Function.update x.frames t (blocks phase) u=blocks (Function.update s.phase t phase u) := by
  by_cases hu : u=t
  · rw [hu,Function.update_self,Function.update_self]
  · rw [Function.update_of_ne hu,Function.update_of_ne hu,hm.frames u]

/-- The first move of a call takes the mutex if it is free. -/
theorem move_lock {t : T} {c : Call} (hframes : x.frames t=blocks (.waiting c))
    (hfree : x.holder ()=none) :
    move x (.step t true)=some (State.goOn t (blocks (.inside c.enter)) {x with
      holder := Function.update x.holder () (some t)
      events := Function.update x.events t (x.events t++[.lock ()])}) := by
  have hstep : move x (.step t true)=
      (x.construct (fun _ => .mutex) t ()).map (State.goOn t (blocks (.inside c.enter))) := by
    cases c <;> simp only [move,ScopedLocks.step,hframes] <;> rfl
  rw [hstep,State.construct,hfree]
  rfl

/-- The move at the end of a call's guard releases the mutex. -/
theorem move_unlock {t : T} {r : Result} (hframes : x.frames t=blocks (.leaving r)) :
    move x (.step t true)=some (State.goOn t (blocks (.returning r)) {x with
      holder := Function.update x.holder () none
      events := Function.update x.events t (x.events t++[.unlock ()])
      misuse := x.misuse || decide (x.holder ()≠some t)}) := by
  simp only [move,ScopedLocks.step,hframes]
  rfl

/-- A step of a call is a number of moves of its function. -/
theorem Mirrors.step (hm : Mirrors s x) {a : CriticalSections.Action T Call}
    (h : CriticalSections.step echo s a=some s') :
    ∃ moves x',run move x moves=some x' ∧ Mirrors s' x' := by
  cases a with
  | invoke t c =>
    cases hp : s.phase t with
    | idle =>
      simp only [CriticalSections.step,hp,Option.some.injEq] at h
      subst h
      have hempty : (x.frames t).isEmpty=true := by
        rw [hm.frames,hp]
        rfl
      refine ⟨[.call t (callCode c)],x.goOn t (blocks (.waiting c)),?_,hm.holder,
        fun u => hm.frames_update t u _,hm.unlocks,hm.misuse⟩
      rw [run_one,move,if_pos hempty]
      rfl
    | _ => simp only [CriticalSections.step,hp,reduceCtorEq] at h
  | advance t =>
    have hframes := hm.frames t
    cases hp : s.phase t with
    | idle => simp only [CriticalSections.step,CriticalSections.advance,hp,reduceCtorEq] at h
    | waiting c =>
      simp only [CriticalSections.step,CriticalSections.advance,hp,
        Option.ite_none_right_eq_some,Option.some.injEq] at h
      obtain ⟨hfree,rfl⟩ := h
      rw [hp] at hframes
      have hlock := move_lock hframes (hm.holder.trans (Option.isNone_iff_eq_none.mp hfree))
      refine ⟨[.step t true],_,(run_one _ _).trans hlock,?_,fun u => hm.frames_update t u _,?_,
        hm.misuse⟩
      · exact Function.update_self () _ x.holder
      · intro u
        change unlocksOf (Function.update x.events t (x.events t++[.lock ()]) u)=s.unlocks u
        by_cases hu : u=t
        · rw [hu,Function.update_self,unlocksOf,List.countP_append]
          exact hm.unlocks t
        · rw [Function.update_of_ne hu]
          exact hm.unlocks u
    | inside p =>
      simp only [CriticalSections.step,CriticalSections.advance,hp,Option.some.injEq] at h
      subst h
      rw [hp] at hframes
      obtain ⟨conditions,hquiet⟩ := quiet_micro p s.shared (s.locals t)
      rw [←hframes] at hquiet
      refine ⟨_,_,run_quiet hquiet,hm.holder,fun u => hm.frames_update t u _,hm.unlocks,?_⟩
      intro hmisuse
      exact Bool.or_eq_true_iff.mpr (Or.inl (hm.misuse hmisuse))
    | leaving r =>
      simp only [CriticalSections.step,CriticalSections.advance,hp,Option.some.injEq] at h
      subst h
      rw [hp] at hframes
      refine ⟨[.step t true],_,(run_one _ _).trans (move_unlock hframes),?_,
        fun u => hm.frames_update t u _,?_,?_⟩
      · exact Function.update_self () _ x.holder
      · intro u
        change unlocksOf (Function.update x.events t (x.events t++[.unlock ()]) u)=
          Function.update s.unlocks t (s.unlocks t+1) u
        by_cases hu : u=t
        · rw [hu,Function.update_self,Function.update_self,unlocksOf,List.countP_append]
          exact congrArg (·+1) (hm.unlocks t)
        · rw [Function.update_of_ne hu,Function.update_of_ne hu]
          exact hm.unlocks u
      · intro hmisuse
        change (x.misuse || decide (x.holder ()≠some t))=true at hmisuse
        change (s.race || decide (s.holder≠some t))=true
        rw [hm.holder] at hmisuse
        rcases Bool.or_eq_true_iff.mp hmisuse with hold | hnow
        · exact Bool.or_eq_true_iff.mpr (Or.inl (hm.misuse hold))
        · exact Bool.or_eq_true_iff.mpr (Or.inr hnow)
    | returning r =>
      simp only [CriticalSections.step,CriticalSections.advance,hp,Option.some.injEq] at h
      subst h
      rw [hp] at hframes
      have hquiet : quiet [true] (x.frames t)=some (blocks .idle) := by
        rw [hframes]
        rfl
      exact ⟨_,_,run_quiet hquiet,hm.holder,fun u => hm.frames_update t u _,hm.unlocks,hm.misuse⟩

/-- Calling a function keeps the locks with the threads whose guards live. -/
theorem owned_move {m : Move T} (ho : Owned x) (h : move x m=some x') : Owned x' := by
  cases m with
  | call t code =>
    simp only [move,Option.ite_none_right_eq_some,Option.some.injEq] at h
    obtain ⟨hempty,rfl⟩ := h
    refine ho.goOn ?_
    rw [List.isEmpty_iff.mp hempty]
    rfl
  | step t condition => exact ho.step h

/-- A run of calls is a run of their functions. -/
theorem Mirrors.run (hm : Mirrors s x) {actions : List (CriticalSections.Action T Call)}
    (h : StepRun.run (CriticalSections.step echo) s actions=some s') :
    ∃ moves x',StepRun.run move x moves=some x' ∧ Mirrors s' x' := by
  induction actions generalizing s x with
  | nil =>
    obtain rfl := Option.some.inj h
    exact ⟨[],x,rfl,hm⟩
  | cons a actions ih =>
    obtain ⟨u,hu,hrest⟩ := run_cons_some h
    obtain ⟨moves,y,hmoves,hy⟩ := hm.step hu
    obtain ⟨more,x',hmore,hx'⟩ := ih hy hrest
    refine ⟨moves++more,x',?_,hx'⟩
    rw [run_append,hmoves]
    exact hmore

/-- The driver's calls as functions with guards. Every run of calls is one of
functions whose guards take and release the mutex; so the mutex is with a
thread exactly while the guard of its call lives. -/
theorem calls_have_guards (driver : EchoDriver) (offsets : T → BitVec 64)
    {actions : List (CriticalSections.Action T Call)}
    (h : run (CriticalSections.step echo) (CriticalSections.start driver offsets) actions=some s) :
    (∃ moves x,run move idle moves=some x ∧ Mirrors s x) ∧
      ∀ t,s.holder=some t ↔ ()∈guardsOf (blocks (s.phase t)) := by
  have hidle : Mirrors (CriticalSections.start driver offsets) (idle : ScopedLocks.State T Unit) :=
    ⟨rfl,fun _ => rfl,fun _ => rfl,fun hmisuse => absurd hmisuse Bool.false_ne_true⟩
  have hnobody : Owned (idle : ScopedLocks.State T Unit) :=
    ⟨fun _ _ => iff_of_false nofun List.not_mem_nil,fun _ => List.nodup_nil,fun _ => rfl,rfl⟩
  obtain ⟨moves,x,hmoves,hx⟩ := hidle.run h
  refine ⟨⟨moves,x,hmoves,hx⟩,fun t => ?_⟩
  have howned := run_preserves (fun hy hz => owned_move hy hz) hnobody hmoves
  rw [←hx.holder,←hx.frames t]
  exact howned.holder () t

end Moves

end Kpp.EchoGuards
