import Kpp.StepRun
import Kpp.UniqueHandle

/-!
# Deferred work items

`schedule_work` stores a functor in a slab-allocated `Work` item and hands
the item to the kernel's workqueue; the queue runs `work_callback`, which
calls the functor and passes the item to `kfree`. Items run in any order,
and other calls come between the functor's return and the free.
-/

namespace Kpp.DeferredWork

open MoveOnlyHandle StepRun UniqueHandle

/-- What `F func` holds: a functor object of its own for an rvalue argument,
and a reference to the caller's object for an lvalue, where `F` is a
reference type. -/
inductive Func (F : Type*) where
  | value (functor : F)
  | reference (object : ℕ)

/-- A `Work<F>` item. -/
structure Work (F : Type*) where
  /-- `func`. -/
  func : Func F
  /-- `INIT_WORK` installed `work_callback` in the embedded `work_struct`. -/
  initialized : Bool
  /-- How often the functor was called. -/
  invocations : ℕ
  /-- How often the destructor of the item, and with it of the functor, ran. -/
  destructions : ℕ

/-- Where the kernel has an item. -/
inductive Place where
  | idle
  | queued
  | running
  deriving DecidableEq

/-- The slab and the workqueue. -/
structure World (F : Type*) where
  /-- Work items. -/
  slab : Slab (Work F)
  /-- Place of each item. -/
  place : ℕ → Place
  /-- A freed or uninitialised item was used. -/
  fault : Bool

variable {F : Type*}

/-- The item is in use: freed items and raw storage spoil the state. -/
def touch (item : ℕ) (w : World F) : World F :=
  {w with fault := w.fault || decide (0<w.slab.frees item) || (w.slab.object item).isNone}

/-- Change the fields of an item. -/
def modify (item : ℕ) (f : Work F → Work F) (w : World F) : World F :=
  {touch item w with slab :=
    {w.slab with object := Function.update w.slab.object item ((w.slab.object item).map f)}}

/-- `INIT_WORK(&item->work, Work<F>::work_callback)`. -/
def initWork (item : ℕ) (w : World F) : World F :=
  modify item (fun work => {work with initialized := true}) w

/-- The kernel's `schedule_work(&item->work)`. -/
def queueWork (item : ℕ) (w : World F) : World F :=
  {touch item w with place := Function.update w.place item .queued}

/-- A `UniquePtr` going out of scope. -/
def dropHandle (this : UniquePtr) (w : World F) : World F :=
  {w with slab := this.destruct w.slab}

/-- `kpp::schedule_work`: the functor as the item's constructor stores it, and
the outcome of the allocation. -/
def scheduleWork (func : Func F) (allocated : Bool) (w : World F) : World F :=
  let made := makeUnique (⟨func,false,0,0⟩ : Work F) allocated w.slab
  let w := {w with slab := made.2}
  match made.1.held with
  | some item =>
    let w := initWork item w
    let released := made.1.release
    match released.1 with
    | some raw => dropHandle released.2 (queueWork raw w)
    | none => dropHandle released.2 w
  | none => dropHandle made.1 w

/-- The first half of `work_callback`: `self->func()`. -/
def invoke (self : ℕ) (w : World F) : World F :=
  modify self (fun work => {work with invocations := work.invocations+1}) w

/-- The second half of `work_callback`: `kpp::kfree(self)`. -/
def freeSelf (self : ℕ) (w : World F) : World F :=
  {touch self w with slab := kfree self w.slab}

/-- Calls of `schedule_work`, and the two halves of an item's run. -/
inductive Action (F : Type*) where
  | schedule (func : Func F) (allocated : Bool)
  | call (item : ℕ)
  | finish (item : ℕ)

/-- One action; the queue starts any queued item. -/
def step (w : World F) : Action F → Option (World F)
  | .schedule func allocated => some (scheduleWork func allocated w)
  | .call item =>
    if w.place item=.queued then
      match w.slab.object item with
      | some work =>
        if work.initialized=true then
          some {invoke item w with place := Function.update w.place item .running}
        else some {w with fault := true}
      | none => some {w with fault := true}
    else none
  | .finish item =>
    if w.place item=.running then
      some {freeSelf item w with place := Function.update w.place item .idle}
    else none

/-- No item and an empty queue. -/
def start : World F := ⟨Slab.empty,fun _ => .idle,false⟩

section Trivial
variable (trivial : F → Bool)

/-- Destroying the item has no effect: it holds a reference, or a functor with
a trivial destructor. -/
def Func.TriviallyDestructible : Func F → Prop
  | .value functor => trivial functor=true
  | .reference _ => True

/-- The item was destroyed once, or destroying it has no effect. -/
def Work.Destroyed (work : Work F) : Prop :=
  work.func.TriviallyDestructible trivial ∨ work.destructions=1

/-- The life of the items: called once, destroyed once after that, freed once
after that, and never used afterwards. -/
structure Lifetimes (w : World F) : Prop where
  /-- No freed or uninitialised item was used. -/
  sound : w.fault=false
  /-- Items are called at most once. -/
  called : ∀ item work,w.slab.object item=some work → work.invocations≤1
  /-- The destructor runs at most once, after the call. -/
  destroyed : ∀ item work,w.slab.object item=some work → 0<work.destructions →
    work.destructions=1 ∧ work.invocations=1
  /-- Storage is freed once, after the call and the destructor. -/
  freed : ∀ item work,w.slab.object item=some work → 0<w.slab.frees item →
    w.slab.frees item=1 ∧ work.invocations=1 ∧ work.Destroyed trivial
  /-- Every item the queue is done with went through all of this. -/
  drained : ∀ item work,w.slab.object item=some work → w.place item=.idle →
    w.slab.frees item=1 ∧ work.invocations=1 ∧ work.Destroyed trivial

/-- Only items whose destructor has no effect finish their run. -/
def TrivialFinishes (w : World F) : Action F → Prop
  | .finish item => ∀ work,w.slab.object item=some work →
    work.func.TriviallyDestructible trivial
  | _ => True

/-- Counters of an item by its place. -/
def Stage (work : Work F) (frees : ℕ) : Place → Prop
  | .queued => work.invocations=0 ∧ frees=0
  | .running => work.invocations=1 ∧ frees=0
  | .idle => work.invocations=1 ∧ frees=1 ∧ work.func.TriviallyDestructible trivial

/-- Every item is in its stage. -/
structure Ledger (w : World F) : Prop where
  /-- No freed or uninitialised item was used. -/
  sound : w.fault=false
  /-- Items are where the allocator put them. -/
  sane : w.slab.Sane
  /-- Raw storage is not in the queue. -/
  absent : ∀ item,w.slab.object item=none → w.place item=.idle
  /-- Items are ready to be called, and no destructor ever runs. -/
  ready : ∀ item work,w.slab.object item=some work →
    work.initialized=true ∧ work.destructions=0
  /-- Counters are those of the item's place. -/
  stage : ∀ item work,w.slab.object item=some work →
    Stage trivial work (w.slab.frees item) (w.place item)

variable {trivial} {w w' : World F}

/-- The ledger gives every item its life. -/
theorem Ledger.lifetimes (hl : Ledger trivial w) : Lifetimes trivial w := by
  have hstage : ∀ item work,w.slab.object item=some work →
      work.invocations≤1 ∧ ((0<w.slab.frees item ∨ w.place item=.idle) →
        w.slab.frees item=1 ∧ work.invocations=1 ∧ work.Destroyed trivial) := by
    intro item work hobj
    have hs := hl.stage item work hobj
    cases hp : w.place item with
    | idle =>
      rw [hp] at hs
      exact ⟨le_of_eq hs.1,fun _ => ⟨hs.2.1,hs.1,Or.inl hs.2.2⟩⟩
    | queued =>
      rw [hp] at hs
      refine ⟨by have := hs.1; omega,fun h => ?_⟩
      rcases h with hpos | hidle
      · have hzero := hs.2
        omega
      · cases hidle
    | running =>
      rw [hp] at hs
      refine ⟨le_of_eq hs.1,fun h => ?_⟩
      rcases h with hpos | hidle
      · have hzero := hs.2
        omega
      · cases hidle
  refine ⟨hl.sound,?_,?_,?_,?_⟩
  · intro item work hobj
    exact (hstage item work hobj).1
  · intro item work hobj hpos
    have hnever := (hl.ready item work hobj).2
    omega
  · intro item work hobj hpos
    exact (hstage item work hobj).2 (Or.inl hpos)
  · intro item work hobj hidle
    exact (hstage item work hobj).2 (Or.inr hidle)

/-- A scheduled item is new, initialised and queued. -/
theorem scheduleWork_allocated (func : Func F) (w : World F) :
    scheduleWork func true w=⟨(w.slab.construct ⟨func,true,0,0⟩),
      Function.update w.place w.slab.next .queued,
      w.fault || decide (0<w.slab.frees w.slab.next)⟩ := by
  have hobject : (w.slab.construct (⟨func,false,0,0⟩ : Work F)).object w.slab.next=
      some ⟨func,false,0,0⟩ := Function.update_self _ _ _
  simp only [scheduleWork,makeUnique,if_true,UniquePtr.release,initWork,modify,touch,queueWork,
    dropHandle,UniquePtr.destruct,destruct,hobject,Option.map_some,Function.update_self,
    Option.isNone_some,Bool.or_false]
  simp only [Slab.construct,Function.update_idem,Bool.or_self,Bool.or_assoc]
  rfl

/-- An item in the queue or in its callback is there. -/
theorem Ledger.item (hl : Ledger trivial w) {item : ℕ} (hp : w.place item≠.idle) :
    ∃ work,w.slab.object item=some work := by
  cases hobj : w.slab.object item with
  | none => exact absurd (hl.absent item hobj) hp
  | some work => exact ⟨work,rfl⟩

/-- A change of one item, of its place and of its count of frees, keeps the
ledger if the item is in its new stage. -/
theorem Ledger.advance (hl : Ledger trivial w) {item : ℕ} {old : Work F}
    (hold : w.slab.object item=some old) {work : Work F} {place : Place} {frees : ℕ → ℕ}
    (hready : work.initialized=true ∧ work.destructions=0)
    (hstage : Stage trivial work (frees item) place)
    (hfrees : ∀ q,q≠item → frees q=w.slab.frees q) :
    Ledger trivial ⟨⟨w.slab.next,Function.update w.slab.object item (some work),frees⟩,
      Function.update w.place item place,false⟩ := by
  have hlt := hl.sane.lt hold
  refine ⟨rfl,⟨?_,?_⟩,?_,?_,?_⟩
  · intro q hq
    by_cases he : q=item
    · exact ⟨work,by rw [he]; exact Function.update_self _ _ _⟩
    · obtain ⟨obj,hobj⟩ := hl.sane.made q hq
      exact ⟨obj,(Function.update_of_ne he _ _).trans hobj⟩
  · intro q hq
    change w.slab.next≤q at hq
    have he : q≠item := by omega
    have hunmade := hl.sane.unmade q hq
    exact ⟨(Function.update_of_ne he _ _).trans hunmade.1,(hfrees q he).trans hunmade.2⟩
  · intro q hnone
    dsimp only at hnone ⊢
    by_cases he : q=item
    · rw [he,Function.update_self] at hnone
      cases hnone
    · rw [Function.update_of_ne he] at hnone ⊢
      exact hl.absent q hnone
  · intro q obj hobj
    dsimp only at hobj
    by_cases he : q=item
    · rw [he,Function.update_self] at hobj
      cases hobj
      exact hready
    · rw [Function.update_of_ne he] at hobj
      exact hl.ready q obj hobj
  · intro q obj hobj
    dsimp only at hobj ⊢
    by_cases he : q=item
    · rw [he,Function.update_self] at hobj
      cases hobj
      rw [he,Function.update_self]
      exact hstage
    · rw [Function.update_of_ne he] at hobj ⊢
      rw [hfrees q he]
      exact hl.stage q obj hobj

/-- Scheduling an item keeps the ledger. -/
theorem Ledger.schedule (hl : Ledger trivial w) (func : Func F) (allocated : Bool) :
    Ledger trivial (scheduleWork func allocated w) := by
  cases allocated with
  | false => exact hl
  | true =>
    have hunmade := hl.sane.unmade w.slab.next (le_refl _)
    have hobject := Slab.construct_object (⟨func,true,0,0⟩ : Work F) w.slab
    rw [scheduleWork_allocated]
    refine ⟨?_,hl.sane.construct _,?_,?_,?_⟩
    · dsimp only
      rw [hl.sound,hunmade.2]
      rfl
    · intro q hnone
      dsimp only at hnone ⊢
      rw [hobject q] at hnone
      by_cases he : q=w.slab.next
      · rw [if_pos he] at hnone
        cases hnone
      · rw [if_neg he] at hnone
        rw [Function.update_of_ne he]
        exact hl.absent q hnone
    · intro q work hobj
      dsimp only at hobj
      rw [hobject q] at hobj
      split at hobj
      · cases hobj
        exact ⟨rfl,rfl⟩
      · exact hl.ready q work hobj
    · intro q work hobj
      dsimp only at hobj ⊢
      rw [hobject q] at hobj
      by_cases he : q=w.slab.next
      · rw [if_pos he] at hobj
        cases hobj
        rw [he,Function.update_self]
        exact ⟨rfl,hunmade.2⟩
      · rw [if_neg he] at hobj
        rw [Function.update_of_ne he]
        exact hl.stage q work hobj

/-- What a call of a queued item does. -/
theorem Ledger.call_eq (hl : Ledger trivial w) {item : ℕ} {work : Work F}
    (hp : w.place item=.queued) (hobj : w.slab.object item=some work) :
    step w (.call item)=some ⟨⟨w.slab.next,Function.update w.slab.object item
      (some {work with invocations := work.invocations+1}),w.slab.frees⟩,
      Function.update w.place item .running,false⟩ := by
  have hready := (hl.ready item work hobj).1
  have hstage := hl.stage item work hobj
  rw [hp] at hstage
  have hzero := hstage.2
  simp only [step,if_pos hp,hobj,if_pos hready,invoke,modify,touch,hl.sound,hzero,Option.map_some,
    Option.isNone_some,lt_self_iff_false,decide_false,Bool.or_self]

/-- What the end of a run of an item does. -/
theorem Ledger.finish_eq (hl : Ledger trivial w) {item : ℕ} {work : Work F}
    (hp : w.place item=.running) (hobj : w.slab.object item=some work) :
    step w (.finish item)=some ⟨⟨w.slab.next,Function.update w.slab.object item (some work),
      Function.update w.slab.frees item 1⟩,Function.update w.place item .idle,false⟩ := by
  have hstage := hl.stage item work hobj
  rw [hp] at hstage
  have hzero := hstage.2
  have hsame : Function.update w.slab.object item (some work)=w.slab.object := by
    rw [←hobj]
    exact Function.update_eq_self _ _
  simp only [step,if_pos hp,freeSelf,touch,kfree,hobj,hl.sound,hzero,hsame,Option.isNone_some,
    lt_self_iff_false,decide_false,Bool.or_self]

/-- An item that is queued or running is there, in the stage of its place. -/
theorem Ledger.busy (hl : Ledger trivial w) {item : ℕ} {place : Place}
    (hp : w.place item=place) (hbusy : place≠.idle) :
    ∃ work,w.slab.object item=some work ∧
      Stage trivial work (w.slab.frees item) place := by
  subst hp
  obtain ⟨work,hobj⟩ := hl.item hbusy
  exact ⟨work,hobj,hl.stage item work hobj⟩

/-- Only queued items are called. -/
theorem place_of_call {item : ℕ} (h : step w (.call item)=some w') : w.place item=.queued := by
  simp only [step,Option.ite_none_right_eq_some] at h
  exact h.1

/-- Only running items finish. -/
theorem place_of_finish {item : ℕ} (h : step w (.finish item)=some w') :
    w.place item=.running := by
  simp only [step,Option.ite_none_right_eq_some] at h
  exact h.1

/-- Actions that finish only items without a destructor to run keep the ledger. -/
theorem step_ledger {a : Action F} (hl : Ledger trivial w) (hg : TrivialFinishes trivial w a)
    (h : step w a=some w') : Ledger trivial w' := by
  cases a with
  | schedule func allocated =>
    cases h
    exact hl.schedule func allocated
  | call item =>
    have hp := place_of_call h
    obtain ⟨work,hobj,hstage⟩ := hl.busy hp nofun
    rw [hl.call_eq hp hobj] at h
    cases h
    exact hl.advance hobj (hl.ready item work hobj) ⟨by rw [hstage.1],hstage.2⟩ (fun _ _ => rfl)
  | finish item =>
    have hp := place_of_finish h
    obtain ⟨work,hobj,hstage⟩ := hl.busy hp nofun
    rw [hl.finish_eq hp hobj] at h
    cases h
    have htrivial := hg work hobj
    refine hl.advance hobj (hl.ready item work hobj)
      ⟨hstage.1,Function.update_self _ _ _,htrivial⟩ ?_
    exact fun q hne => Function.update_of_ne hne _ _

/-- An item that finishes with a destructor still to run shows at once. -/
theorem step_exact {a : Action F} (hl : Ledger trivial w) (h : step w a=some w')
    (hp : Lifetimes trivial w') : TrivialFinishes trivial w a := by
  cases a with
  | schedule func allocated => exact True.intro
  | call item => exact True.intro
  | finish item =>
    intro work hobj
    have hplace := place_of_finish h
    have hnever := (hl.ready item work hobj).2
    rw [hl.finish_eq hplace hobj] at h
    cases h
    have hfreed := hp.drained item work (Function.update_self _ _ _) (Function.update_self _ _ _)
    rcases hfreed.2.2 with htrivial | honce
    · exact htrivial
    · omega

/-- Deferred work lifetime. In a run of `schedule_work` calls and of the
workqueue every item is called, destroyed and freed once each in this order,
exactly when each item that finishes has a destructor without effect. -/
theorem work_lifetimes_iff (trivial : F → Bool) (actions : List (Action F)) :
    Along step (Lifetimes trivial) start actions ↔
      Guarded step (TrivialFinishes trivial) start actions := by
  have hstart : Ledger trivial (start : World F) :=
    ⟨rfl,Slab.empty_sane,fun _ _ => rfl,nofun,nofun⟩
  exact along_iff_guarded (I := Ledger trivial) (fun hl => hl.lifetimes)
    (fun hl hg h => step_ledger hl hg h) (fun hl h hp => step_exact hl h hp) hstart

end Trivial

/-- A functor with a captured `SharedPtr`, passed as an rvalue: it is called,
and its item is freed with the capture still alive. -/
theorem captured_handle_leaks :
    ∃ w,run step (start : World ℕ) [.schedule (.value 7) true,.call 0,.finish 0]=some w ∧
      w.slab.object 0=some ⟨.value 7,true,1,0⟩ ∧ w.slab.frees 0=1 ∧
      ¬Lifetimes (fun _ => false) w := by
  refine ⟨_,rfl,rfl,rfl,fun hp => ?_⟩
  have hdone := (hp.drained 0 ⟨.value 7,true,1,0⟩ rfl rfl).2.2
  rcases hdone with htrivial | honce
  · exact absurd htrivial Bool.false_ne_true
  · exact absurd honce (by decide)

end Kpp.DeferredWork
