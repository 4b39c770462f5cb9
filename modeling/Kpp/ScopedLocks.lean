import Kpp.HeldLocks
import Kpp.PointUpdate
import Kpp.StepRun

/-!
# ScopedLock in functions with several locks

A `ScopedLock` takes its lock in the constructor and gives it back in the
destructor, which runs at the end of the enclosing block, or when a `return`
leaves it. Threads run such functions side by side over any number of mutexes
and spin locks.
-/

namespace Kpp.ScopedLocks

open HeldLocks PointUpdate StepRun

variable {T Lock : Type*}

/-- Take a lock; there is no step while somebody has it. -/
def acquire (t : T) (holder : Option T) : Option (Option T) :=
  match holder with
  | none => some (some t)
  | some _ => none

/-- `Mutex::lock`; the thread sleeps until it has the mutex. -/
def Mutex.lock (t : T) (holder : Option T) : Option (Option T) := acquire t holder

/-- `Mutex::unlock`. -/
def Mutex.unlock (_ : Option T) : Option T := none

/-- `SpinLock::lock`; the thread spins until it has the lock. -/
def SpinLock.lock (t : T) (holder : Option T) : Option (Option T) := acquire t holder

/-- `SpinLock::unlock`. -/
def SpinLock.unlock (_ : Option T) : Option T := none

/-- The classes that `ScopedLock` is used with. -/
inductive Lockable where
  | mutex
  | spinLock
  deriving DecidableEq

/-- `lock_.lock()`. -/
def Lockable.lock : Lockable → T → Option T → Option (Option T)
  | .mutex => Mutex.lock
  | .spinLock => SpinLock.lock

/-- `lock_.unlock()`. -/
def Lockable.unlock : Lockable → Option T → Option T
  | .mutex => Mutex.unlock
  | .spinLock => SpinLock.unlock

/-- The rest of a block. A guard lives to the end of the block that it is
declared in; a condition is true or false as the run has it. -/
inductive Code (Lock : Type*) where
  /-- The closing brace. -/
  | done
  /-- A statement that does not concern locks. -/
  | work (rest : Code Lock)
  /-- `ScopedLock guard(lock);`. -/
  | guard (lock : Lock) (rest : Code Lock)
  /-- A block inside this one. -/
  | block (body rest : Code Lock)
  /-- `if`. -/
  | branch (yes no rest : Code Lock)
  /-- `while`. -/
  | loop (body rest : Code Lock)
  /-- `return`. -/
  | ret

/-- A block in execution. -/
structure Frame (Lock : Type*) where
  /-- What is left of it. -/
  code : Code Lock
  /-- Locks of the guards declared in it, the latest first. -/
  guards : List Lock

/-- Locks of all guards of a thread, from the innermost block outwards. -/
def guardsOf (frames : List (Frame Lock)) : List Lock := frames.flatMap Frame.guards

/-- A `return` skips what is left of a block, but not its destructors. -/
def Frame.unwind (frame : Frame Lock) : Frame Lock := ⟨.done,frame.guards⟩

/-- The constructor or destructor of a guard that comes next. -/
def pending : List (Frame Lock) → Option (Event Lock)
  | ⟨.done,lock::_⟩::_ => some (.unlock lock)
  | ⟨.guard lock _,_⟩::_ => some (.lock lock)
  | _ => none

/-- The blocks after the next step, with the value of the condition. -/
def advance (condition : Bool) : List (Frame Lock) → List (Frame Lock)
  | [] => []
  | ⟨.done,[]⟩::outer => outer
  | ⟨.done,_::guards⟩::outer => ⟨.done,guards⟩::outer
  | ⟨.work rest,guards⟩::outer => ⟨rest,guards⟩::outer
  | ⟨.guard lock rest,guards⟩::outer => ⟨rest,lock::guards⟩::outer
  | ⟨.block body rest,guards⟩::outer => ⟨body,[]⟩::⟨rest,guards⟩::outer
  | ⟨.branch yes no rest,guards⟩::outer =>
    ⟨if condition=true then yes else no,[]⟩::⟨rest,guards⟩::outer
  | ⟨.loop body rest,guards⟩::outer =>
    if condition=true then ⟨body,[]⟩::⟨.loop body rest,guards⟩::outer else ⟨rest,guards⟩::outer
  | ⟨.ret,guards⟩::outer => (⟨.ret,guards⟩::outer).map Frame.unwind

/-- Threads over the locks. -/
structure State (T Lock : Type*) where
  /-- Thread that has each lock. -/
  holder : Lock → Option T
  /-- Blocks that each thread is in, the innermost first. -/
  frames : T → List (Frame Lock)
  /-- What each thread did with locks, oldest first. -/
  events : T → List (Event Lock)
  /-- A lock was given back by a thread that did not have it. -/
  misuse : Bool

/-- Threads at the start of their functions; no lock is taken. -/
def start (programs : T → Code Lock) : State T Lock :=
  ⟨fun _ => none,fun t => [⟨programs t,[]⟩],fun _ => [],false⟩

section Steps
variable [DecidableEq T] [DecidableEq Lock] (kind : Lock → Lockable)

/-- The thread goes on with these blocks. -/
def State.goOn (t : T) (frames : List (Frame Lock)) (s : State T Lock) : State T Lock :=
  {s with frames := Function.update s.frames t frames}

/-- `ScopedLock()`. -/
def State.construct (t : T) (lock : Lock) (s : State T Lock) : Option (State T Lock) :=
  ((kind lock).lock t (s.holder lock)).map (fun holder =>
    {s with
      holder := Function.update s.holder lock holder
      events := Function.update s.events t (s.events t++[.lock lock])})

/-- `~ScopedLock()`. -/
def State.destruct (t : T) (lock : Lock) (s : State T Lock) : State T Lock :=
  {s with
    holder := Function.update s.holder lock ((kind lock).unlock (s.holder lock))
    events := Function.update s.events t (s.events t++[.unlock lock])
    misuse := s.misuse || decide (s.holder lock≠some t)}

/-- The next step of a thread, with the value of the condition it may come to. -/
def step (s : State T Lock) (a : T×Bool) : Option (State T Lock) :=
  let frames := s.frames a.1
  if frames.isEmpty=true then none
  else
    match pending frames with
    | none => some (s.goOn a.1 (advance a.2 frames))
    | some (.lock lock) => (s.construct kind a.1 lock).map (State.goOn a.1 (advance a.2 frames))
    | some (.unlock lock) => some ((s.destruct kind a.1 lock).goOn a.1 (advance a.2 frames))

/-- The locks are with the threads whose guards live, and every guard gives
back what it took, in reverse order. -/
structure Owned (s : State T Lock) : Prop where
  /-- A lock is with a thread exactly while a guard of the thread is on it. -/
  holder : ∀ lock t,s.holder lock=some t ↔ lock∈guardsOf (s.frames t)
  /-- No thread has two guards on one lock. -/
  single : ∀ t,(guardsOf (s.frames t)).Nodup
  /-- What a thread took and gave back leaves the locks of its guards. -/
  nested : ∀ t,replay [] (s.events t)=some (guardsOf (s.frames t))
  /-- Every lock was given back by the thread that had it. -/
  clean : s.misuse=false

end Steps

/-- Guards are declared in order: each on a lock behind those of all guards
that live at its declaration. -/
def Code.Ordered (before : Lock → Lock → Prop) : List Lock → Code Lock → Prop
  | _,.done => True
  | held,.work rest => rest.Ordered before held
  | held,.guard lock rest => (∀ h∈held,before h lock) ∧ rest.Ordered before (lock::held)
  | held,.block body rest => body.Ordered before held ∧ rest.Ordered before held
  | held,.branch yes no rest =>
    yes.Ordered before held ∧ no.Ordered before held ∧ rest.Ordered before held
  | held,.loop body rest => body.Ordered before held ∧ rest.Ordered before held
  | _,.ret => True

/-- `EchoDriver::read` as far as its lock is concerned. -/
def echoRead (mutex : Lock) : Code Lock :=
  .guard mutex (.branch .ret .done (.work (.branch .ret .done (.work .ret))))

/-- `EchoDriver::write`. -/
def echoWrite (mutex : Lock) : Code Lock :=
  .guard mutex (.work (.branch .ret .done (.work (.work .ret))))

/-- The threads each wait for a lock that one of them has. -/
def Deadlocked (waits : T → Prop) (s : State T Lock) : Prop :=
  ∀ t,waits t → ∃ lock u,pending (s.frames t)=some (.lock lock) ∧ s.holder lock=some u ∧ waits u

section Kinds

/-- A lock is taken when it is free, whatever its class. -/
theorem lock_eq (l : Lockable) (t : T) (holder : Option T) : l.lock t holder=acquire t holder := by
  cases l <;> rfl

/-- A lock that is given back is free. -/
theorem unlock_eq (l : Lockable) (holder : Option T) : l.unlock holder=none := by
  cases l <;> rfl

/-- A lock is taken only when it is free. -/
theorem acquire_eq_some {t : T} {holder holder' : Option T} (h : acquire t holder=some holder') :
    holder=none ∧ holder'=some t := by
  cases holder with
  | none => exact ⟨rfl,(Option.some.inj h).symm⟩
  | some u => cases h

/-- A `return` leaves all guards to their destructors. -/
theorem guardsOf_unwind (frames : List (Frame Lock)) :
    guardsOf (frames.map Frame.unwind)=guardsOf frames := by
  unfold guardsOf
  rw [List.flatMap_map]
  rfl

/-- The next step changes the guards as its constructor or destructor says. -/
theorem guardsOf_advance (b : Bool) (frames : List (Frame Lock)) :
    match pending frames with
    | none => guardsOf (advance b frames)=guardsOf frames
    | some (.lock lock) => guardsOf (advance b frames)=lock::guardsOf frames
    | some (.unlock lock) => guardsOf frames=lock::guardsOf (advance b frames) := by
  cases frames with
  | nil => rfl
  | cons frame outer =>
    obtain ⟨code,guards⟩ := frame
    cases code with
    | done => cases guards <;> rfl
    | work rest => rfl
    | guard lock rest => rfl
    | block body rest => rfl
    | branch yes no rest => rfl
    | loop body rest =>
      simp only [pending,advance]
      split <;> rfl
    | ret => exact guardsOf_unwind _

end Kinds

section Invariant
variable [DecidableEq T] [DecidableEq Lock] {kind : Lock → Lockable} {s s' : State T Lock}

/-- A step keeps the guards of its thread, or declares one on a free lock, or
ends the latest one. -/
theorem step_cases {t : T} {b : Bool} (h : step kind s (t,b)=some s') :
    (guardsOf (advance b (s.frames t))=guardsOf (s.frames t) ∧
      s'=s.goOn t (advance b (s.frames t))) ∨
    (∃ lock,s.holder lock=none ∧
      guardsOf (advance b (s.frames t))=lock::guardsOf (s.frames t) ∧
      s'=State.goOn t (advance b (s.frames t)) {s with
        holder := Function.update s.holder lock (some t)
        events := Function.update s.events t (s.events t++[.lock lock])}) ∨
    (∃ lock,guardsOf (s.frames t)=lock::guardsOf (advance b (s.frames t)) ∧
      s'=State.goOn t (advance b (s.frames t)) {s with
        holder := Function.update s.holder lock none
        events := Function.update s.events t (s.events t++[.unlock lock])
        misuse := s.misuse || decide (s.holder lock≠some t)}) := by
  have hguards := guardsOf_advance b (s.frames t)
  simp only [step] at h
  split at h
  · cases h
  · cases hp : pending (s.frames t) with
    | none =>
      rw [hp] at h hguards
      exact Or.inl ⟨hguards,(Option.some.inj h).symm⟩
    | some event =>
      rw [hp] at h hguards
      cases event with
      | lock lock =>
        obtain ⟨u,hu,rfl⟩ := Option.map_eq_some_iff.mp h
        obtain ⟨holder,hlock,rfl⟩ := Option.map_eq_some_iff.mp hu
        rw [lock_eq] at hlock
        obtain ⟨hfree,rfl⟩ := acquire_eq_some hlock
        exact Or.inr (Or.inl ⟨lock,hfree,hguards,rfl⟩)
      | unlock lock =>
        refine Or.inr (Or.inr ⟨lock,hguards,?_⟩)
        rw [←Option.some.inj h,State.destruct,unlock_eq]

/-- One thread's blocks and locks change, and the locks that other threads have
stay with them. -/
theorem Owned.change (ho : Owned s) {t : T} {frames : List (Frame Lock)}
    {holder : Lock → Option T} {events : List (Event Lock)}
    (hmine : ∀ lock,holder lock=some t ↔ lock∈guardsOf frames)
    (hother : ∀ lock u,u≠t → (holder lock=some u ↔ s.holder lock=some u))
    (hsingle : (guardsOf frames).Nodup) (hnested : replay [] events=some (guardsOf frames)) :
    Owned ⟨holder,Function.update s.frames t frames,Function.update s.events t events,false⟩ := by
  refine ⟨?_,?_,?_,rfl⟩
  all_goals intro u
  · intro v
    dsimp only
    by_cases hv : v=t
    · rw [hv,Function.update_self]
      exact hmine u
    · rw [Function.update_of_ne hv]
      exact (hother u v hv).trans (ho.holder u v)
  · dsimp only
    by_cases hu : u=t
    · rw [hu,Function.update_self]
      exact hsingle
    · rw [Function.update_of_ne hu]
      exact ho.single u
  · dsimp only
    by_cases hu : u=t
    · rw [hu,Function.update_self,Function.update_self]
      exact hnested
    · rw [Function.update_of_ne hu,Function.update_of_ne hu]
      exact ho.nested u

/-- A step without locks leaves them where they are. -/
theorem Owned.goOn (ho : Owned s) {t : T} {frames : List (Frame Lock)}
    (hsame : guardsOf frames=guardsOf (s.frames t)) : Owned (s.goOn t frames) := by
  have hmine : ∀ lock,s.holder lock=some t ↔ lock∈guardsOf frames := by
    intro lock
    rw [hsame]
    exact ho.holder lock t
  have hsingle : (guardsOf frames).Nodup := hsame ▸ ho.single t
  have hnested : replay [] (s.events t)=some (guardsOf frames) := hsame ▸ ho.nested t
  have hall := ho.change hmine (fun _ _ _ => Iff.rfl) hsingle hnested
  rw [Function.update_eq_self,←ho.clean] at hall
  exact hall

/-- A guard on a free lock takes it for its thread. -/
theorem Owned.construct (ho : Owned s) {t : T} {lock : Lock} {frames : List (Frame Lock)}
    (hfree : s.holder lock=none) (hmore : guardsOf frames=lock::guardsOf (s.frames t)) :
    Owned (State.goOn t frames {s with
      holder := Function.update s.holder lock (some t)
      events := Function.update s.events t (s.events t++[.lock lock])}) := by
  have hnobody : ∀ u,lock∉guardsOf (s.frames u) := by
    intro u hm
    have htaken := (ho.holder lock u).mpr hm
    rw [hfree] at htaken
    cases htaken
  have hmine : ∀ l,Function.update s.holder lock (some t) l=some t ↔ l∈guardsOf frames := by
    intro l
    rw [hmore,List.mem_cons]
    by_cases hl : l=lock
    · rw [hl,Function.update_self]
      exact iff_of_true rfl (Or.inl rfl)
    · rw [Function.update_of_ne hl]
      exact (ho.holder l t).trans (or_iff_right hl).symm
  have hother : ∀ l u,u≠t →
      (Function.update s.holder lock (some t) l=some u ↔ s.holder l=some u) := by
    intro l u hu
    by_cases hl : l=lock
    · rw [hl,Function.update_self,hfree]
      exact iff_of_false (fun h => hu (Option.some.inj h).symm) nofun
    · rw [Function.update_of_ne hl]
  have hsingle : (guardsOf frames).Nodup := by
    rw [hmore]
    exact List.nodup_cons.mpr ⟨hnobody t,ho.single t⟩
  have hnested : replay [] (s.events t++[.lock lock])=some (guardsOf frames) := by
    rw [replay_append,ho.nested t,hmore]
    rfl
  have hall := ho.change hmine hother hsingle hnested
  rw [←ho.clean] at hall
  exact hall

/-- The end of the latest guard gives its lock back. -/
theorem Owned.destruct (ho : Owned s) {t : T} {lock : Lock} {frames : List (Frame Lock)}
    (hless : guardsOf (s.frames t)=lock::guardsOf frames) :
    Owned (State.goOn t frames {s with
      holder := Function.update s.holder lock none
      events := Function.update s.events t (s.events t++[.unlock lock])
      misuse := s.misuse || decide (s.holder lock≠some t)}) := by
  have hheld : s.holder lock=some t := (ho.holder lock t).mpr (hless ▸ List.mem_cons_self)
  have hnodup := ho.single t
  rw [hless] at hnodup
  have hclean : (s.misuse || decide (s.holder lock≠some t))=false := by
    rw [ho.clean,hheld,decide_eq_false (fun h => h rfl)]
    rfl
  have hmine : ∀ l,Function.update s.holder lock none l=some t ↔ l∈guardsOf frames := by
    intro l
    by_cases hl : l=lock
    · rw [hl,Function.update_self]
      exact iff_of_false nofun (List.nodup_cons.mp hnodup).1
    · rw [Function.update_of_ne hl,ho.holder l t,hless,List.mem_cons]
      exact or_iff_right hl
  have hother : ∀ l u,u≠t → (Function.update s.holder lock none l=some u ↔ s.holder l=some u) := by
    intro l u hu
    by_cases hl : l=lock
    · rw [hl,Function.update_self,hheld]
      exact iff_of_false nofun (fun h => hu (Option.some.inj h).symm)
    · rw [Function.update_of_ne hl]
  have hnested : replay [] (s.events t++[.unlock lock])=some (guardsOf frames) := by
    rw [replay_append,ho.nested t,hless]
    simp only [Option.bind_some,replay,if_true]
  rw [hclean]
  exact ho.change hmine hother (List.nodup_cons.mp hnodup).2 hnested

/-- Every step keeps the locks with the threads whose guards live. -/
theorem Owned.step (ho : Owned s) {a : T×Bool} (h : step kind s a=some s') : Owned s' := by
  obtain ⟨t,b⟩ := a
  obtain ⟨hsame,rfl⟩ | ⟨lock,hfree,hmore,rfl⟩ | ⟨lock,hless,rfl⟩ := step_cases h
  · exact ho.goOn hsame
  · exact ho.construct hfree hmore
  · exact ho.destruct hless

omit [DecidableEq T] in
/-- At the start nobody has a lock or a guard. -/
theorem start_owned (programs : T → Code Lock) : Owned (start programs) := by
  refine ⟨?_,?_,?_,rfl⟩
  · exact fun _ _ => iff_of_false nofun (List.not_mem_nil)
  · exact fun _ => List.nodup_nil
  · exact fun _ => rfl

/-- Locks of guards. In every interleaving of functions with any nesting of
blocks, loops and returns, a lock is with a thread exactly while one of its
guards is on it, nobody gives back a lock that is not its own, and each thread
gives its locks back in reverse order. -/
theorem guards_own_locks (kind : Lock → Lockable) (programs : T → Code Lock)
    (actions : List (T×Bool)) : Along (step kind) Owned (start programs) actions :=
  along_of_preserved (fun hs => hs) (fun hs h => hs.step h) (start_owned programs)

/-- A step moves the blocks of its thread only. -/
theorem step_frames {t : T} {b : Bool} (h : step kind s (t,b)=some s') :
    s'.frames=Function.update s.frames t (advance b (s.frames t)) := by
  obtain ⟨_,rfl⟩ | ⟨_,_,_,rfl⟩ | ⟨_,_,rfl⟩ := step_cases h <;> rfl

/-- A thread in a block steps unless its next guard is on a lock that somebody has. -/
theorem step_or_waits (kind : Lock → Lockable) (s : State T Lock) {t : T} (b : Bool)
    (hin : s.frames t≠[]) : (∃ s',step kind s (t,b)=some s') ∨
      ∃ lock u,pending (s.frames t)=some (.lock lock) ∧ s.holder lock=some u := by
  have hblocks : ¬(s.frames t).isEmpty=true := fun h => hin (List.isEmpty_iff.mp h)
  simp only [step,if_neg hblocks]
  cases hp : pending (s.frames t) with
  | none => exact Or.inl ⟨_,rfl⟩
  | some event =>
    cases event with
    | unlock lock => exact Or.inl ⟨_,rfl⟩
    | lock lock =>
      cases hl : s.holder lock with
      | some u => exact Or.inr ⟨lock,u,rfl,hl⟩
      | none =>
        refine Or.inl (Option.isSome_iff_exists.mp ?_)
        simp only [State.construct,lock_eq,hl,acquire,Option.map_some,Option.isSome_some]

/-- A thread whose next guard is on a lock that somebody has does not step. -/
theorem step_eq_none {t u : T} {b : Bool} {lock : Lock}
    (hp : pending (s.frames t)=some (.lock lock)) (hl : s.holder lock=some u) :
    step kind s (t,b)=none := by
  simp only [step]
  split
  · rfl
  · simp only [hp,State.construct,lock_eq,hl,acquire,Option.map_none]

end Invariant

section Order

/-- All blocks of a thread declare their guards in order. -/
def FramesOrdered (before : Lock → Lock → Prop) : List (Frame Lock) → Prop
  | [] => True
  | frame::outer =>
    frame.code.Ordered before (frame.guards++guardsOf outer) ∧ FramesOrdered before outer

variable {before : Lock → Lock → Prop}

/-- Unwound blocks declare nothing any more. -/
theorem framesOrdered_unwind (frames : List (Frame Lock)) :
    FramesOrdered before (frames.map Frame.unwind) := by
  induction frames with
  | nil => trivial
  | cons frame outer ih => exact ⟨trivial,ih⟩

/-- The next step keeps the order. -/
theorem framesOrdered_advance (b : Bool) {frames : List (Frame Lock)}
    (h : FramesOrdered before frames) : FramesOrdered before (advance b frames) := by
  cases frames with
  | nil => trivial
  | cons frame outer =>
    obtain ⟨code,guards⟩ := frame
    obtain ⟨hcode,houter⟩ := h
    cases code with
    | done =>
      cases guards with
      | nil => exact houter
      | cons lock guards => exact ⟨trivial,houter⟩
    | work rest => exact ⟨hcode,houter⟩
    | guard lock rest => exact ⟨hcode.2,houter⟩
    | block body rest => exact ⟨hcode.1,hcode.2,houter⟩
    | branch yes no rest =>
      cases b with
      | true => exact ⟨hcode.1,hcode.2.2,houter⟩
      | false => exact ⟨hcode.2.1,hcode.2.2,houter⟩
    | loop body rest =>
      cases b with
      | true => exact ⟨hcode.1,hcode,houter⟩
      | false => exact ⟨hcode.2,houter⟩
    | ret => exact framesOrdered_unwind _

/-- The next guard is on a lock behind all that the thread has. -/
theorem FramesOrdered.pending {frames : List (Frame Lock)} (h : FramesOrdered before frames)
    {lock : Lock} (hp : pending frames=some (.lock lock)) : ∀ l∈guardsOf frames,before l lock := by
  cases frames with
  | nil => cases hp
  | cons frame outer =>
    obtain ⟨code,guards⟩ := frame
    cases code with
    | guard l rest =>
      cases hp
      exact h.1.1
    | done => cases guards <;> cases hp
    | _ => cases hp

/-- Steps that a block takes at most if it enters no loop. -/
def Code.size : Code Lock → ℕ
  | .done => 0
  | .work rest => rest.size+1
  | .guard _ rest => rest.size+2
  | .block body rest => body.size+rest.size+2
  | .branch yes no rest => yes.size+no.size+rest.size+2
  | .loop _ rest => rest.size+1
  | .ret => 1

/-- Steps that a thread has to take if it enters no loop. -/
def framesSize (frames : List (Frame Lock)) : ℕ :=
  frames.foldr (fun frame rest => frame.code.size+frame.guards.length+1+rest) 0

/-- A block and those around it. -/
theorem framesSize_cons (frame : Frame Lock) (outer : List (Frame Lock)) :
    framesSize (frame::outer)=frame.code.size+frame.guards.length+1+framesSize outer := rfl

/-- Unwinding leaves fewer steps. -/
theorem framesSize_unwind (frames : List (Frame Lock)) :
    framesSize (frames.map Frame.unwind)≤framesSize frames := by
  induction frames with
  | nil => exact Nat.le_refl 0
  | cons frame outer ih =>
    rw [List.map_cons,framesSize_cons,framesSize_cons]
    dsimp only [Frame.unwind,Code.size]
    omega

/-- A step with a false condition leaves fewer. -/
theorem framesSize_advance {frames : List (Frame Lock)} (h : frames≠[]) :
    framesSize (advance false frames)<framesSize frames := by
  cases frames with
  | nil => exact absurd rfl h
  | cons frame outer =>
    obtain ⟨code,guards⟩ := frame
    cases code with
    | done =>
      cases guards <;> simp only [advance,framesSize_cons,List.length_cons] <;> omega
    | ret =>
      have hrest := framesSize_unwind outer
      simp only [advance,List.map_cons,framesSize_cons,Frame.unwind,Code.size]
      omega
    | _ =>
      simp only [advance,framesSize_cons,Code.size,List.length_cons,List.length_nil,
        Bool.false_eq_true,if_false]
      omega

end Order

section Progress
variable [DecidableEq T] [DecidableEq Lock] {kind : Lock → Lockable} {s s' : State T Lock}
  {before : Lock → Lock → Prop}

/-- Owned locks, and guards in order. -/
structure InOrder (before : Lock → Lock → Prop) (s : State T Lock) : Prop where
  /-- Locks are with the threads whose guards live. -/
  owned : Owned s
  /-- The threads' blocks declare guards in order. -/
  ordered : ∀ t,FramesOrdered before (s.frames t)

/-- Steps keep both. -/
theorem InOrder.step (hs : InOrder before s) {a : T×Bool} (h : step kind s a=some s') :
    InOrder before s' := by
  obtain ⟨t,b⟩ := a
  refine ⟨hs.owned.step h,fun u => ?_⟩
  rw [step_frames h]
  by_cases hu : u=t
  · rw [hu,Function.update_self]
    exact framesOrdered_advance b (hs.ordered t)
  · rw [Function.update_of_ne hu]
    exact hs.ordered u

/-- Some thread can step with a false condition as long as one is in a block. -/
theorem InOrder.progress [Finite T] [IsStrictOrder Lock before] (hs : InOrder before s)
    (kind : Lock → Lockable) {t : T} (hin : s.frames t≠[]) :
    ∃ u s',ScopedLocks.step kind s (u,false)=some s' := by
  by_contra hstuck
  have hwaits : ∀ u,s.frames u≠[] →
      ∃ lock v,pending (s.frames u)=some (.lock lock) ∧ s.holder lock=some v := by
    intro u hu
    rcases step_or_waits kind s false hu with ⟨s',h⟩ | h
    · exact absurd ⟨u,s',h⟩ hstuck
    · exact h
  obtain ⟨first,_,_⟩ := hwaits t hin
  -- the lock that a thread in a block waits for
  have hchoice : ∀ u,∃ lock,s.frames u≠[] →
      pending (s.frames u)=some (.lock lock) ∧ ∃ v,s.holder lock=some v := by
    intro u
    by_cases hu : s.frames u=[]
    · exact ⟨first,fun h => absurd hu h⟩
    · obtain ⟨lock,v,hp,hl⟩ := hwaits u hu
      exact ⟨lock,fun _ => ⟨hp,v,hl⟩⟩
  choose wants hwants using hchoice
  have hnext : ∀ u,s.frames u≠[] → ∃ v,s.frames v≠[] ∧ before (wants u) (wants v) := by
    intro u hu
    obtain ⟨_,v,hl⟩ := hwants u hu
    have hguard := (hs.owned.holder (wants u) v).mp hl
    have hv : s.frames v≠[] := by
      intro hempty
      rw [hempty] at hguard
      cases hguard
    exact ⟨v,hv,(hs.ordered v).pending (hwants v hv).1 (wants u) hguard⟩
  exact not_waiting wants hnext t hin

/-- From a state in order all threads can be brought to their ends. -/
theorem InOrder.completes [Fintype T] [IsStrictOrder Lock before] (hs : InOrder before s)
    (kind : Lock → Lockable) : ∃ more s',run (ScopedLocks.step kind) s more=some s' ∧
      ∀ t,s'.frames t=[] := by
  induction hn : ∑ t,framesSize (s.frames t) using Nat.strong_induction_on generalizing s with
  | _ n ih =>
    by_cases hall : ∀ t,s.frames t=[]
    · exact ⟨[],s,rfl,hall⟩
    · obtain ⟨t,ht⟩ := not_forall.mp hall
      obtain ⟨u,s',h⟩ := hs.progress kind ht
      have hu : s.frames u≠[] := by
        intro hempty
        simp [ScopedLocks.step,hempty] at h
      have hless : ∑ v,framesSize (s'.frames v)<n := by
        have hsum := sum_update (fun _ => framesSize) s.frames u (advance false (s.frames u))
        have hdown := framesSize_advance hu
        rw [step_frames h]
        omega
      obtain ⟨more,s'',hrun,hend⟩ := ih _ hless (hs.step h) rfl
      refine ⟨(u,false)::more,s'',?_,hend⟩
      rw [run,h]
      exact hrun

omit [DecidableEq T] in
/-- Programs in order are in order at their start. -/
theorem start_inOrder {programs : T → Code Lock}
    (hordered : ∀ t,(programs t).Ordered before []) : InOrder before (start programs) :=
  ⟨start_owned programs,fun t => ⟨hordered t,trivial⟩⟩

/-- Guards in one order never deadlock. When every function declares its
guards along one strict order of the locks, all threads can be brought to
their ends from every state of every run, and all locks are free then. -/
theorem ordered_guards_complete [Fintype T] [IsStrictOrder Lock before]
    (kind : Lock → Lockable) (programs : T → Code Lock)
    (hordered : ∀ t,(programs t).Ordered before []) (actions : List (T×Bool))
    (h : run (step kind) (start programs) actions=some s) :
    ∃ more s',run (step kind) s more=some s' ∧ (∀ t,s'.frames t=[]) ∧
      ∀ lock,s'.holder lock=none := by
  have hs : InOrder before s :=
    run_preserves (fun hi hstep => hi.step hstep) (start_inOrder hordered) h
  obtain ⟨more,s',hmore,hend⟩ := hs.completes kind
  have hs' : InOrder before s' := run_preserves (fun hi hstep => hi.step hstep) hs hmore
  refine ⟨more,s',hmore,hend,fun lock => ?_⟩
  cases hl : s'.holder lock with
  | none => rfl
  | some t =>
    have hguard := (hs'.owned.holder lock t).mp hl
    rw [hend t] at hguard
    cases hguard

/-- One thread in `read` with the driver's mutex, and one about to `write`. -/
theorem ordered_guards_complete_echo :
    ∃ s,run (step (fun _ : ℕ => .mutex))
        (start (fun reads : Bool => if reads=true then echoRead 0 else echoWrite 0))
        [(true,false),(true,false)]=some s ∧
      ∃ more s',run (step (fun _ => .mutex)) s more=some s' ∧ (∀ t,s'.frames t=[]) ∧
        ∀ lock,s'.holder lock=none := by
  have hordered : ∀ reads : Bool,
      (if reads=true then echoRead 0 else echoWrite 0 : Code ℕ).Ordered (·<·) [] := by
    intro reads
    cases reads <;> simp [echoRead,echoWrite,Code.Ordered]
  exact ⟨_,rfl,ordered_guards_complete (fun _ => .mutex) _ hordered
    [(true,false),(true,false)] rfl⟩

/-- Threads that wait for each other's locks stay where they are. -/
theorem Deadlocked.step {waits : T → Prop} (hd : Deadlocked waits s) (ho : Owned s) {a : T×Bool}
    (h : ScopedLocks.step kind s a=some s') :
    Deadlocked waits s' ∧ ∀ t,waits t → s'.frames t=s.frames t := by
  obtain ⟨t,b⟩ := a
  have hmoved : ¬waits t := by
    intro ht
    obtain ⟨lock,u,hp,hl,_⟩ := hd t ht
    rw [step_eq_none hp hl] at h
    cases h
  have hframes : ∀ u,waits u → s'.frames u=s.frames u := by
    intro u hu
    have hne : u≠t := fun he => hmoved (he ▸ hu)
    rw [step_frames h,Function.update_of_ne hne]
  refine ⟨fun u hu => ?_,hframes⟩
  obtain ⟨lock,v,hp,hl,hv⟩ := hd u hu
  have hguard := (ho.holder lock v).mp hl
  rw [←hframes v hv] at hguard
  exact ⟨lock,v,by rw [hframes u hu]; exact hp,((ho.step h).holder lock v).mpr hguard,hv⟩

/-- Deadlocks of guards. In every state of a run no thread can step exactly when
the threads that are not at their ends wait for each other's locks, and
threads that do so never get past their guards; one thread with two guards on
the same lock is the smallest case. -/
theorem deadlock_final (kind : Lock → Lockable) (programs : T → Code Lock)
    (actions : List (T×Bool)) (h : run (step kind) (start programs) actions=some s) :
    ((∀ a,step kind s a=none) ↔ Deadlocked (fun t => s.frames t≠[]) s) ∧
      ∀ waits : T → Prop,Deadlocked waits s → ∀ more : List (T×Bool),
        Along (step kind) (fun s' => ∀ t,waits t → s'.frames t=s.frames t) s more := by
  have ho : Owned s := run_preserves (fun hs hstep => hs.step hstep) (start_owned programs) h
  refine ⟨⟨?_,?_⟩,?_⟩
  · intro hstuck t ht
    rcases step_or_waits kind s false ht with ⟨s',h⟩ | ⟨lock,u,hp,hl⟩
    · rw [hstuck] at h
      cases h
    · refine ⟨lock,u,hp,hl,fun hempty => ?_⟩
      have hguard := (ho.holder lock u).mp hl
      rw [hempty] at hguard
      cases hguard
  · rintro hd ⟨t,b⟩
    by_cases ht : s.frames t=[]
    · simp [step,ht]
    · obtain ⟨lock,u,hp,hl,_⟩ := hd t ht
      exact step_eq_none hp hl
  · intro waits hd more
    refine along_of_preserved (I := fun s' => Owned s' ∧ Deadlocked waits s' ∧
      ∀ t,waits t → s'.frames t=s.frames t) (fun hs => hs.2.2) ?_ ⟨ho,hd,fun _ _ => rfl⟩
    intro u a v hu hstep
    obtain ⟨hd',hframes⟩ := hu.2.1.step hu.1 hstep
    exact ⟨hu.1.step hstep,hd',fun t ht => (hframes t ht).trans (hu.2.2 t ht)⟩

/-- A second guard on the mutex that the thread has already. -/
theorem deadlock_final_nested :
    ∃ s,run (step (fun _ : ℕ => .mutex)) (start (fun _ : Unit => .guard 0 (.guard 0 .done)))
        [((),true)]=some s ∧
      ((∀ a,step (fun _ => .mutex) s a=none) ↔ Deadlocked (fun t => s.frames t≠[]) s) ∧
      ∀ waits : Unit → Prop,Deadlocked waits s → ∀ more : List (Unit×Bool),
        Along (step (fun _ => .mutex)) (fun s' => ∀ t,waits t → s'.frames t=s.frames t) s more :=
  ⟨_,rfl,deadlock_final (fun _ => .mutex) (fun _ : Unit => .guard 0 (.guard 0 .done)) [((),true)]
    rfl⟩

end Progress

end Kpp.ScopedLocks
