import Mathlib.Data.Int.Notation
import Mathlib.Logic.Function.Basic
import Mathlib.Tactic.Common
import Kpp.StepRun

/-!
# Timers that find their functor by address

`setup` stores no pointer to its functor. The callback it installs computes
one from the address of the `timer_list` and the offset of the member
`timer_` in the functor's type. The constructor leaves the `timer_list`
uninitialised, and neither `schedule` nor `cancel` nor the destructor knows
whether `setup` ever ran. A `setup` on a queued timer leaves it in the
kernel's wheel and marks it as not pending: it can still expire, and nothing
takes it off until it does or a neighbour in its list changes.
-/

namespace Kpp.TimerProtocol

open StepRun

/-- A functor passed to `setup`. -/
structure Func where
  /-- Address of the object. -/
  address : ℤ
  /-- Offset of the member `timer_` in its type. -/
  timerOffset : ℤ
  deriving DecidableEq

/-- `struct timer_list`, as far as the kernel and `Timer` use it. -/
structure TimerList where
  /-- The instance of `timer_callback` installed, given by the member offset
  of its type. -/
  function : Option ℤ
  /-- A list of the kernel's wheel leads to it. -/
  linked : Bool
  /-- Its own link back is set, by which the kernel tells that it is queued. -/
  pending : Bool
  /-- The callback is running. -/
  running : Bool

/-- `container_of`: the object whose member at this offset has this address. -/
def containerOf (ptr offset : ℤ) : ℤ := ptr-offset

/-- `timer_callback<F>`: address of the functor it calls. -/
def timerCallback (offset timer : ℤ) : ℤ := containerOf timer offset

/-- `timer_setup`, which takes the timer off no list. -/
def timerSetup (offset : ℤ) (timer : TimerList) : TimerList :=
  {timer with function := some offset,pending := false}

/-- The wheel leads to a timer that does not look queued. -/
def TimerList.stray (timer : TimerList) : Bool := timer.linked && !timer.pending

/-- `mod_timer`; a stray timer is linked a second time. -/
def modTimer (timer : TimerList) : TimerList := {timer with linked := true,pending := true}

/-- `del_timer_sync` takes a pending timer off its list; it returns once no
callback is running. -/
def delTimerSync (timer : TimerList) : Option TimerList :=
  if timer.running=true then none
  else if timer.pending=true then some {timer with linked := false,pending := false}
  else some timer

/-- Storage of a Timer object, with what happened to the object in it. -/
structure Spot where
  /-- The member `timer_`; the kernel keeps referring to it. -/
  timer : TimerList
  /-- A Timer object lives in the storage. -/
  alive : Bool
  /-- Func of the last `setup` on the object. -/
  functor : Option Func
  /-- Scheduled since the last cancel or destruction. -/
  armed : Bool

/-- One expiry. -/
structure Expiry where
  /-- Address that the callback called. -/
  called : Option ℤ
  /-- Func of the last `setup` at that moment. -/
  functor : Option Func
  /-- The timer had been scheduled since the last cancel or destruction. -/
  armed : Bool

/-- Timers in their storage. -/
structure State (T : Type*) where
  /-- Storage of each timer. -/
  spots : T → Spot
  /-- Expiries so far, the latest first. -/
  expiries : List Expiry
  /-- `mod_timer` or `del_timer_sync` met a `timer_list` not initialised. -/
  misuse : Bool
  /-- `mod_timer` linked a stray timer again, and lists of the wheel ran into
  each other. -/
  corrupt : Bool

/-- Steps of the program and of the kernel. -/
inductive Action (T : Type*) where
  | construct (t : T)
  | setup (t : T) (func : Func)
  | schedule (t : T)
  | cancel (t : T)
  | destroy (t : T)
  | expire (t : T)
  | relink (t : T)
  | finish (t : T)

variable {T : Type*}

/-- The timer_list of the live object was initialised by `setup`. -/
def Spot.initialised (x : Spot) : Bool := x.functor.isSome

section Steps
variable [DecidableEq T]

/-- Replace the storage of one timer. -/
def State.put (s : State T) (t : T) (x : Spot) : State T :=
  {s with spots := Function.update s.spots t x}

/-- A call that relies on the timer_list being initialised. -/
def State.use (s : State T) (t : T) : State T :=
  {s with misuse := s.misuse || !(s.spots t).initialised}

/-- `Timer()`, which leaves the timer_list as it finds it. -/
def construct (t : T) (s : State T) : Option (State T) :=
  let x := s.spots t
  if x.alive=true then none else some (s.put t {x with alive := true,functor := none})

/-- `Timer::setup`. -/
def setup (t : T) (func : Func) (s : State T) : Option (State T) :=
  let x := s.spots t
  if x.alive=true then
    some (s.put t {x with
      timer := timerSetup func.timerOffset x.timer
      functor := some func})
  else none

/-- `Timer::schedule`. -/
def schedule (t : T) (s : State T) : Option (State T) :=
  let x := s.spots t
  if x.alive=true then
    some {(s.use t).put t {x with timer := modTimer x.timer,armed := true} with
      corrupt := s.corrupt || x.timer.stray}
  else none

/-- `Timer::cancel`. -/
def cancel (t : T) (s : State T) : Option (State T) :=
  let x := s.spots t
  if x.alive=true then
    (delTimerSync x.timer).map
      (fun timer => (s.use t).put t {x with timer := timer,armed := false})
  else none

/-- `~Timer()`. -/
def destroy (t : T) (s : State T) : Option (State T) :=
  let x := s.spots t
  if x.alive=true then
    (delTimerSync x.timer).map
      (fun timer => (s.use t).put t {x with timer := timer,alive := false,armed := false})
  else none

/-- The kernel takes a timer off a list of its wheel and starts its callback. -/
def expire (place : T → ℤ) (t : T) (s : State T) : Option (State T) :=
  let x := s.spots t
  if x.timer.linked=true ∧ x.timer.running=false then
    let called := x.timer.function.map (fun offset => timerCallback offset (place t))
    let timer := {x.timer with linked := false,pending := false,running := true}
    some {s.put t {x with timer := timer} with
      expiries := ⟨called,x.functor,x.armed⟩::s.expiries}
  else none

/-- The kernel queues or takes off the timer before this one in its list, and
thereby sets this one's link back. -/
def relink (t : T) (s : State T) : Option (State T) :=
  let x := s.spots t
  if x.timer.linked=true then some (s.put t {x with timer := {x.timer with pending := true}})
  else none

/-- The callback returns. -/
def finish (t : T) (s : State T) : Option (State T) :=
  let x := s.spots t
  if x.timer.running=true then some (s.put t {x with timer := {x.timer with running := false}})
  else none

/-- One step; `place` gives the address of each timer's `timer_` member. -/
def step (place : T → ℤ) (s : State T) : Action T → Option (State T)
  | .construct t => construct t s
  | .setup t func => setup t func s
  | .schedule t => schedule t s
  | .cancel t => cancel t s
  | .destroy t => destroy t s
  | .expire t => expire place t s
  | .relink t => relink t s
  | .finish t => finish t s

end Steps

/-- No Timer object yet. -/
def start : State T := ⟨fun _ => ⟨⟨none,false,false,false⟩,false,none,false⟩,[],false,false⟩

/-- The expiry called the functor of the last `setup`, of a timer scheduled
since the last cancel or destruction. -/
def Expiry.Right (e : Expiry) : Prop :=
  (∃ func,e.functor=some func ∧ e.called=some func.address) ∧ e.armed=true

/-- Every expiry was right, a timer that may expire next was scheduled since
its last cancel or destruction, no call met an uninitialised timer_list, and
the wheel is intact. -/
structure Sound (s : State T) : Prop where
  /-- Expiries call the last functor, and only after a schedule. -/
  right : ∀ e∈s.expiries,e.Right
  /-- A cancelled or destroyed timer can no longer expire. -/
  stopped : ∀ t,(s.spots t).timer.linked=true → (s.spots t).armed=true
  /-- Timer lists were initialised when used. -/
  initialised : s.misuse=false
  /-- No timer is linked twice. -/
  intact : s.corrupt=false

/-- The timer was set up, and is not in the wheel unless it looks queued. -/
def Spot.Settled (x : Spot) : Prop := x.initialised=true ∧ x.timer.stray=false

/-- Timers are set up before they are used, and not while they are queued
unless they expire or are relinked before their next use; and a timer that
expires is the member `timer_` of the functor it was set up with. -/
def SetUp (place : T → ℤ) (s : State T) : Action T → Prop
  | .schedule t => (s.spots t).Settled
  | .cancel t => (s.spots t).Settled
  | .destroy t => (s.spots t).Settled
  | .expire t => ∀ func,(s.spots t).functor=some func → func.address+func.timerOffset=place t
  | _ => True

/-- What a storage holds between steps. -/
structure Spot.Kept (x : Spot) : Prop where
  /-- The callback installed is that of the last functor's type. -/
  installed : ∀ func,x.functor=some func → x.timer.function=some func.timerOffset
  /-- A timer in the wheel is a live object, set up and scheduled. -/
  queued : x.timer.linked=true → x.alive=true ∧ x.initialised=true ∧ x.armed=true
  /-- A timer that looks queued is in the wheel. -/
  pending : x.timer.pending=true → x.timer.linked=true

/-- Reached within the condition: all went right, and every storage is in
order. -/
structure Kept (s : State T) : Prop where
  /-- Expiries call the last functor, and only after a schedule. -/
  right : ∀ e∈s.expiries,e.Right
  /-- Timer lists were initialised when used. -/
  initialised : s.misuse=false
  /-- No timer is linked twice. -/
  intact : s.corrupt=false
  /-- Every storage is in order. -/
  spots : ∀ t,(s.spots t).Kept

/-- States reached within the condition are sound. -/
theorem Kept.sound {s : State T} (hk : Kept s) : Sound s :=
  ⟨hk.right,fun t hlinked => ((hk.spots t).queued hlinked).2.2,hk.initialised,hk.intact⟩

/-- Using an initialised timer_list is no fault. -/
theorem State.use_eq {s : State T} {t : T} (ht : (s.spots t).initialised=true) : s.use t=s := by
  simp only [State.use,ht,Bool.not_true,Bool.or_false]

/-- A use without a fault met an initialised timer_list. -/
theorem State.initialised_of_use {s : State T} {t : T} (h : (s.use t).misuse=false) :
    (s.spots t).initialised=true := by
  simpa only [State.use,Bool.or_eq_false_iff,Bool.not_eq_false'] using (Bool.or_eq_false_iff.mp h).2

/-- `del_timer_sync` on a timer that is not stray leaves it out of the wheel. -/
theorem delTimerSync_settled {timer timer' : TimerList} (hs : timer.stray=false)
    (h : delTimerSync timer=some timer') :
    timer'={timer with linked := false,pending := false} := by
  unfold delTimerSync at h
  split at h
  · cases h
  · split at h
    · exact (Option.some.inj h).symm
    · next hpending =>
      obtain rfl := Option.some.inj h
      have hp : timer.pending=false := Bool.eq_false_iff.mpr hpending
      have hl : timer.linked=false := by
        simpa only [TimerList.stray,hp,Bool.not_false,Bool.and_true] using hs
      cases timer
      cases hp
      cases hl
      rfl

/-- Only stray timers are left in the wheel by `del_timer_sync`. -/
theorem stray_of_delTimerSync {timer timer' : TimerList} (h : delTimerSync timer=some timer')
    (hgone : timer'.linked≠true) : timer.stray=false := by
  unfold delTimerSync at h
  split at h
  · cases h
  · split at h
    · next hp => simp only [TimerList.stray,hp,Bool.not_true,Bool.and_false]
    · obtain rfl := Option.some.inj h
      simp only [TimerList.stray,Bool.eq_false_iff.mpr hgone,Bool.false_and]

/-- A storage stays in order when its timer is taken off the wheel. -/
theorem Spot.Kept.dequeue {x : Spot} (hx : x.Kept) (alive armed running : Bool) :
    Spot.Kept {x with
      timer := {x.timer with linked := false,pending := false,running := running}
      alive := alive,armed := armed} :=
  ⟨hx.installed,nofun,nofun⟩

section Preservation
variable [DecidableEq T] {place : T → ℤ} {s s' : State T}

/-- Replacing one storage by one in order keeps the state. -/
theorem Kept.put (hk : Kept s) (t : T) {x : Spot} (hx : x.Kept) : Kept (s.put t x) := by
  refine ⟨hk.right,hk.initialised,hk.intact,fun u => ?_⟩
  dsimp only [State.put]
  by_cases he : u=t
  · subst he
    rw [Function.update_self]
    exact hx
  · rw [Function.update_of_ne he]
    exact hk.spots u

/-- Steps within the condition keep the state. -/
theorem step_kept {a : Action T} (hk : Kept s) (hg : SetUp place s a)
    (h : step place s a=some s') : Kept s' := by
  cases a with
  | construct t =>
    have hx := hk.spots t
    simp only [step,construct] at h
    split at h
    · cases h
    · next hdead =>
      cases h
      refine hk.put t ⟨nofun,fun hl => ?_,hx.pending⟩
      exact absurd (hx.queued hl).1 hdead
  | setup t func =>
    have hx := hk.spots t
    simp only [step,setup,Option.ite_none_right_eq_some,Option.some.injEq] at h
    obtain ⟨halive,rfl⟩ := h
    refine hk.put t ⟨?_,?_,nofun⟩
    · rintro _ ⟨⟩
      rfl
    · intro hl
      have hq := hx.queued hl
      exact ⟨hq.1,rfl,hq.2.2⟩
  | schedule t =>
    have hx := hk.spots t
    simp only [step,schedule,Option.ite_none_right_eq_some,Option.some.injEq] at h
    obtain ⟨halive,rfl⟩ := h
    obtain ⟨hset,hstray⟩ := hg
    rw [State.use_eq hset]
    have hput := hk.put t (x := {s.spots t with
      timer := modTimer (s.spots t).timer,armed := true})
      ⟨hx.installed,fun _ => ⟨halive,hset,rfl⟩,fun _ => rfl⟩
    refine ⟨hput.right,hput.initialised,?_,hput.spots⟩
    dsimp only
    rw [hk.intact,hstray]
    rfl
  | cancel t =>
    have hx := hk.spots t
    simp only [step,cancel,Option.ite_none_right_eq_some,Option.map_eq_some_iff] at h
    obtain ⟨_,timer,hdel,rfl⟩ := h
    obtain rfl := delTimerSync_settled hg.2 hdel
    rw [State.use_eq hg.1]
    exact hk.put t (hx.dequeue _ false _)
  | destroy t =>
    have hx := hk.spots t
    simp only [step,destroy,Option.ite_none_right_eq_some,Option.map_eq_some_iff] at h
    obtain ⟨_,timer,hdel,rfl⟩ := h
    obtain rfl := delTimerSync_settled hg.2 hdel
    rw [State.use_eq hg.1]
    exact hk.put t (hx.dequeue false false _)
  | expire t =>
    have hx := hk.spots t
    simp only [step,expire,Option.ite_none_right_eq_some,Option.some.injEq] at h
    obtain ⟨⟨hlinked,_⟩,rfl⟩ := h
    have hput := hk.put t (hx.dequeue (s.spots t).alive (s.spots t).armed true)
    refine ⟨?_,hput.initialised,hput.intact,hput.spots⟩
    intro e he
    rcases List.mem_cons.mp he with rfl|hold
    · obtain ⟨_,hset,harmed⟩ := hx.queued hlinked
      obtain ⟨func,hfunc⟩ := Option.isSome_iff_exists.mp hset
      refine ⟨⟨func,hfunc,?_⟩,harmed⟩
      have hplace := hg func hfunc
      have haddress : timerCallback func.timerOffset (place t)=func.address := by
        simp only [timerCallback,containerOf]
        omega
      simp only [hx.installed func hfunc,Option.map_some,haddress]
    · exact hk.right e hold
  | relink t =>
    have hx := hk.spots t
    simp only [step,relink,Option.ite_none_right_eq_some,Option.some.injEq] at h
    obtain ⟨hlinked,rfl⟩ := h
    exact hk.put t ⟨hx.installed,hx.queued,fun _ => hlinked⟩
  | finish t =>
    have hx := hk.spots t
    simp only [step,finish,Option.ite_none_right_eq_some,Option.some.injEq] at h
    obtain ⟨_,rfl⟩ := h
    exact hk.put t ⟨hx.installed,hx.queued,hx.pending⟩

/-- When all is sound after a cancel or a destruction, the timer was settled. -/
theorem Sound.settled {t : T} {x : Spot} {timer : TimerList} (hs : Sound ((s.use t).put t x))
    (hdel : delTimerSync (s.spots t).timer=some timer) (htimer : x.timer=timer)
    (harmed : x.armed=false) : (s.spots t).Settled := by
  refine ⟨State.initialised_of_use hs.initialised,stray_of_delTimerSync hdel fun hlinked => ?_⟩
  have hstopped := hs.stopped t
  simp only [State.put,Function.update_self,htimer,hlinked,harmed] at hstopped
  exact Bool.false_ne_true (hstopped trivial)

/-- If all is sound after a step, it was within the condition. -/
theorem step_exact {a : Action T} (hk : Kept s) (h : step place s a=some s') (hs : Sound s') :
    SetUp place s a := by
  cases a with
  | construct t => trivial
  | setup t func => trivial
  | relink t => trivial
  | finish t => trivial
  | schedule t =>
    simp only [step,schedule,Option.ite_none_right_eq_some,Option.some.injEq] at h
    obtain ⟨_,rfl⟩ := h
    have hintact := hs.intact
    dsimp only at hintact
    exact ⟨State.initialised_of_use hs.initialised,(Bool.or_eq_false_iff.mp hintact).2⟩
  | cancel t =>
    simp only [step,cancel,Option.ite_none_right_eq_some,Option.map_eq_some_iff] at h
    obtain ⟨_,timer,hdel,rfl⟩ := h
    exact hs.settled hdel rfl rfl
  | destroy t =>
    simp only [step,destroy,Option.ite_none_right_eq_some,Option.map_eq_some_iff] at h
    obtain ⟨_,timer,hdel,rfl⟩ := h
    exact hs.settled hdel rfl rfl
  | expire t =>
    simp only [step,expire,Option.ite_none_right_eq_some,Option.some.injEq] at h
    obtain ⟨_,rfl⟩ := h
    intro func hfunc
    have hright := hs.right _ List.mem_cons_self
    obtain ⟨⟨func',hfunc',hcalled⟩,_⟩ := hright
    obtain rfl : func=func' := Option.some.inj (hfunc.symm.trans hfunc')
    have hinstalled := (hk.spots t).installed func hfunc
    simp only [hinstalled,Option.map_some,Option.some.injEq,timerCallback,containerOf] at hcalled
    omega

/-- Timer protocol. In a run every expiry calls the functor of the last setup,
only after a schedule, a cancelled or destroyed timer can no longer expire,
no kernel call meets an uninitialised timer_list and the wheel stays intact,
if and only if every step is within the condition. -/
theorem timer_protocol_iff (place : T → ℤ) (actions : List (Action T)) :
    Along (step place) Sound start actions ↔
      Guarded (step place) (SetUp place) start actions := by
  have hstart : Kept (start : State T) := ⟨nofun,rfl,rfl,fun _ => ⟨nofun,nofun,nofun⟩⟩
  exact along_iff_guarded (I := Kept) Kept.sound
    (fun hk hg h => step_kept hk hg h) (fun hk h hs => step_exact hk h hs) hstart

end Preservation

/-- A functor at 100 with its member `timer_` at offset 8, and a Timer at 40
that is not this member: the callback calls address 32. A second Timer is
destroyed without ever having been set up. A third is the member of its
functor at 32; it is set up again while queued, and expires after its cancel. -/
theorem callback_misses_functor :
    (∃ s,run (step fun _ : Fin 1 => 40) start
        [.construct 0,.setup 0 ⟨100,8⟩,.schedule 0,.expire 0]=some s ∧
      s.expiries.head?.bind Expiry.called=some 32 ∧ ¬Sound s) ∧
    (∃ s,run (step fun _ : Fin 1 => 40) start [.construct 0,.destroy 0]=some s ∧
      s.misuse=true ∧ ¬Sound s) ∧
    ∃ s,run (step fun _ : Fin 1 => 40) start
        [.construct 0,.setup 0 ⟨32,8⟩,.schedule 0,.setup 0 ⟨32,8⟩,.cancel 0,.expire 0]=some s ∧
      s.expiries.head?.map Expiry.armed=some false ∧ ¬Sound s := by
  refine ⟨⟨_,rfl,rfl,fun hs => ?_⟩,⟨_,rfl,rfl,fun hs => ?_⟩,_,rfl,rfl,fun hs => ?_⟩
  · obtain ⟨⟨func,hfunc,hcalled⟩,_⟩ := hs.right _ List.mem_cons_self
    cases hfunc
    cases hcalled
  · exact absurd hs.initialised (by decide)
  · obtain ⟨_,harmed⟩ := hs.right _ List.mem_cons_self
    cases harmed

end Kpp.TimerProtocol
