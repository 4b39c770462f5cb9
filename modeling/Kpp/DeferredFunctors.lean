import Kpp.DeferredWork

/-!
# Functors of deferred work and the objects they come from

`schedule_work` takes its functor by forwarding reference and names the item
`Work<F>` after the deduced type. An lvalue makes `F` a reference type, and
then the member `F func` of the item refers to the caller's object. Callers
create, change and end their objects at any time.
-/

namespace Kpp.DeferredFunctors

open DeferredWork StepRun

/-- Value category of the argument of `schedule_work`. -/
inductive Category where
  | lvalue
  | rvalue
  deriving DecidableEq

/-- What `F` is for an argument of type `T`: `T&` or `T`. -/
inductive Deduced where
  | reference
  | object
  deriving DecidableEq

/-- Deduction of `F` in `schedule_work(F&& f)`. -/
def deduce : Category → Deduced
  | .lvalue => .reference
  | .rvalue => .object

variable {F : Type*}

/-- The member `F func`, initialised from the argument: bound to the object,
or constructed with its state. -/
def Deduced.member (object : ℕ) (state : F) : Deduced → Func F
  | .reference => .reference object
  | .object => .value state

/-- An argument of `schedule_work` at the time of the call. -/
structure Passed (F : Type*) where
  /-- Its value category. -/
  category : Category
  /-- The caller's object. -/
  object : ℕ
  /-- The object's state. -/
  state : F

/-- Items and queue, with the callers' functor objects. -/
structure State (F : Type*) where
  /-- Slab and workqueue. -/
  world : World F
  /-- Functor objects of the callers; there is nothing in place of an ended one. -/
  objects : ℕ → Option F
  /-- The argument that each item was made from. -/
  passed : ℕ → Option (Passed F)

/-- What callers and the queue do. A caller may give its object any state, or
end it. -/
inductive Action (F : Type*) where
  | schedule (category : Category) (object : ℕ) (allocated : Bool)
  | caller (object : ℕ) (state : Option F)
  | call (item : ℕ)
  | finish (item : ℕ)

/-- What an invocation of an item's functor does. -/
structure Invocation (F : Type*) where
  /-- State of the functor that is called; an ended object has none. -/
  functor : Option F
  /-- The caller's object that is read. -/
  reads : Option ℕ

/-- `self->func()` in `work_callback`. -/
def invocation (s : State F) (item : ℕ) : Option (Invocation F) :=
  (s.world.slab.object item).map (fun work =>
    match work.func with
    | .value functor => ⟨some functor,none⟩
    | .reference object => ⟨s.objects object,some object⟩)

/-- An item that is made records its argument. An object whose functor was
moved into the item keeps what the move constructor leaves. -/
def record (moved : F → F) (category : Category) (object : ℕ) (state : F) (allocated : Bool)
    (s : State F) : State F :=
  if allocated=true then
    {s with
      objects :=
        if category=.rvalue then Function.update s.objects object (some (moved state))
        else s.objects
      passed := Function.update s.passed s.world.slab.next (some ⟨category,object,state⟩)}
  else s

/-- One action. Only objects that exist are passed to `schedule_work`. -/
def step (moved : F → F) (s : State F) : Action F → Option (State F)
  | .schedule category object allocated =>
    (s.objects object).bind (fun state =>
      (DeferredWork.step s.world (.schedule ((deduce category).member object state) allocated)).map
        (fun w => {record moved category object state allocated s with world := w}))
  | .caller object state => some {s with objects := Function.update s.objects object state}
  | .call item => (DeferredWork.step s.world (.call item)).map (fun w => {s with world := w})
  | .finish item => (DeferredWork.step s.world (.finish item)).map (fun w => {s with world := w})

/-- No items, and the objects that callers have. -/
def start (objects : ℕ → Option F) : State F := ⟨DeferredWork.start,objects,fun _ => none⟩

/-- The functor that is called is the item's own, in the state that was passed,
and no object of a caller is read. -/
def CallsOwnFunctor (s : State F) : Action F → Prop
  | .call item => ∃ p,s.passed item=some p ∧ invocation s item=some ⟨some p.state,none⟩
  | _ => True

/-- Items that are called were made from an rvalue. -/
def CalledFromRvalue (s : State F) : Action F → Prop
  | .call item => ∀ p,s.passed item=some p → p.category=.rvalue
  | _ => True

/-- Every item stores what its argument makes of it. -/
structure Stored (s : State F) : Prop where
  /-- Items and queue are in order; destructors do not matter here. -/
  ledger : Ledger (fun _ : F => true) s.world
  /-- The item's member is the one deduced from its argument. -/
  member : ∀ item work,s.world.slab.object item=some work →
    ∃ p,s.passed item=some p ∧ work.func=(deduce p.category).member p.object p.state

variable {moved : F → F} {s t : State F}

/-- Each step of the queue keeps the ledger. -/
theorem Stored.world (hs : Stored s) {a : DeferredWork.Action F} {w : World F}
    (h : DeferredWork.step s.world a=some w) : Ledger (fun _ : F => true) w := by
  refine step_ledger hs.ledger ?_ h
  cases a with
  | finish item =>
    intro work hobj
    cases work.func with
    | value functor => rfl
    | reference object => exact True.intro
  | _ => exact True.intro

/-- A change of one item that keeps its member keeps all members. -/
theorem func_of_update {objects : ℕ → Option (Work F)} {item q : ℕ} {old new work : Work F}
    (hold : objects item=some old) (hfunc : new.func=old.func)
    (h : Function.update objects item (some new) q=some work) :
    ∃ before,objects q=some before ∧ work.func=before.func := by
  by_cases hq : q=item
  · subst hq
    rw [Function.update_self] at h
    obtain rfl := Option.some.inj h
    exact ⟨old,hold,hfunc⟩
  · rw [Function.update_of_ne hq] at h
    exact ⟨work,h,rfl⟩

/-- A called item is in the slab. -/
theorem Stored.called (hs : Stored s) {item : ℕ} {w : World F}
    (h : DeferredWork.step s.world (.call item)=some w) :
    s.world.place item=.queued ∧ ∃ work,s.world.slab.object item=some work := by
  have hp := place_of_call h
  obtain ⟨work,hobj,_⟩ := hs.ledger.busy hp (by decide)
  exact ⟨hp,work,hobj⟩

/-- Calls keep the members of all items. -/
theorem Stored.call_keeps (hs : Stored s) {item : ℕ} {w : World F}
    (h : DeferredWork.step s.world (.call item)=some w) {q : ℕ} {work : Work F}
    (hobj : w.slab.object q=some work) :
    ∃ before,s.world.slab.object q=some before ∧ work.func=before.func := by
  obtain ⟨hp,old,hold⟩ := hs.called h
  rw [hs.ledger.call_eq hp hold] at h
  obtain rfl := Option.some.inj h
  have hfunc : ({old with invocations := old.invocations+1} : Work F).func=old.func := rfl
  exact func_of_update hold hfunc hobj

/-- Ends of runs keep the members of all items. -/
theorem Stored.finish_keeps (hs : Stored s) {item : ℕ} {w : World F}
    (h : DeferredWork.step s.world (.finish item)=some w) {q : ℕ} {work : Work F}
    (hobj : w.slab.object q=some work) :
    ∃ before,s.world.slab.object q=some before ∧ work.func=before.func := by
  have hp := place_of_finish h
  obtain ⟨old,hold,_⟩ := hs.ledger.busy hp (by decide)
  rw [hs.ledger.finish_eq hp hold] at h
  obtain rfl := Option.some.inj h
  exact func_of_update hold rfl hobj

/-- A scheduled item stores what its argument makes of it. -/
theorem Stored.schedule_member (hs : Stored s) (category : Category) (object : ℕ) (state : F)
    (allocated : Bool) {q : ℕ} {work : Work F}
    (hobj : (scheduleWork ((deduce category).member object state) allocated s.world).slab.object q=
      some work) :
    ∃ p,(record moved category object state allocated s).passed q=some p ∧
      work.func=(deduce p.category).member p.object p.state := by
  cases allocated with
  | false => exact hs.member q work hobj
  | true =>
    rw [scheduleWork_allocated] at hobj
    dsimp only at hobj
    rw [UniqueHandle.Slab.construct_object] at hobj
    unfold record
    rw [if_pos rfl]
    by_cases hq : q=s.world.slab.next
    · rw [if_pos hq] at hobj
      obtain rfl := Option.some.inj hobj
      rw [hq]
      exact ⟨_,Function.update_self _ _ _,rfl⟩
    · rw [if_neg hq] at hobj
      obtain ⟨p,hp,hfunc⟩ := hs.member q work hobj
      exact ⟨p,(Function.update_of_ne hq _ _).trans hp,hfunc⟩

/-- Every action keeps items as their arguments made them. -/
theorem Stored.preserved (hs : Stored s) {a : Action F} (h : step moved s a=some t) : Stored t := by
  cases a with
  | caller object state =>
    obtain rfl := Option.some.inj h
    exact ⟨hs.ledger,hs.member⟩
  | call item =>
    obtain ⟨w,hw,rfl⟩ := Option.map_eq_some_iff.mp h
    refine ⟨hs.world hw,fun q work hobj => ?_⟩
    obtain ⟨before,hbefore,hfunc⟩ := hs.call_keeps hw hobj
    rw [hfunc]
    exact hs.member q before hbefore
  | finish item =>
    obtain ⟨w,hw,rfl⟩ := Option.map_eq_some_iff.mp h
    refine ⟨hs.world hw,fun q work hobj => ?_⟩
    obtain ⟨before,hbefore,hfunc⟩ := hs.finish_keeps hw hobj
    rw [hfunc]
    exact hs.member q before hbefore
  | schedule category object allocated =>
    obtain ⟨state,_,hmap⟩ := Option.bind_eq_some_iff.mp h
    obtain ⟨w,hw,rfl⟩ := Option.map_eq_some_iff.mp hmap
    refine ⟨hs.world hw,fun q work hobj => ?_⟩
    obtain rfl := Option.some.inj hw
    exact hs.schedule_member category object state allocated hobj

/-- A call runs the item's own functor exactly when the item was made from an
rvalue. -/
theorem Stored.calls_iff (hs : Stored s) {a : Action F} (h : step moved s a=some t) :
    CallsOwnFunctor s a ↔ CalledFromRvalue s a := by
  cases a with
  | schedule category object allocated => exact Iff.rfl
  | caller object state => exact Iff.rfl
  | finish item => exact Iff.rfl
  | call item =>
    obtain ⟨w,hw,_⟩ := Option.map_eq_some_iff.mp h
    obtain ⟨_,work,hobj⟩ := hs.called hw
    obtain ⟨p,hp,hfunc⟩ := hs.member item work hobj
    unfold CallsOwnFunctor CalledFromRvalue invocation
    simp only [hobj,Option.map_some,hp,Option.some.injEq,exists_eq_left',forall_eq',hfunc]
    cases hc : p.category with
    | rvalue => exact ⟨fun _ => rfl,fun _ => rfl⟩
    | lvalue =>
      refine ⟨fun hsame => ?_,nofun⟩
      cases congrArg Invocation.reads hsame

/-- Ownership of functors. In every interleaving of callers and queue each
invocation calls a functor of the item's own in the state that was passed, and
reads no object of a caller, exactly when every item that is called was made
from an rvalue. -/
theorem own_functor_iff_rvalue (moved : F → F) (objects : ℕ → Option F)
    (actions : List (Action F)) :
    Guarded (step moved) CallsOwnFunctor (start objects) actions ↔
      Guarded (step moved) CalledFromRvalue (start objects) actions := by
  have hstart : Stored (start objects) :=
    ⟨⟨rfl,UniqueHandle.Slab.empty_sane,fun _ _ => rfl,nofun,nofun⟩,nofun⟩
  exact guarded_congr (fun hs h => hs.preserved h) (fun hs h => hs.calls_iff h) hstart

/-- An lvalue in state 7 is scheduled and the caller changes it to 8, or ends
it, before the queue runs the item. -/
theorem lvalue_read_at_invocation :
    ∃ s,run (step id) (start (fun _ => some 7)) [.schedule .lvalue 0 true,.caller 0 (some 8)]=
        some s ∧ invocation s 0=some ⟨some 8,some 0⟩ ∧
      ¬Guarded (step id) CallsOwnFunctor (start (fun _ => some 7))
        [.schedule .lvalue 0 true,.caller 0 none,.call 0] := by
  refine ⟨_,rfl,rfl,fun h => ?_⟩
  obtain ⟨p,_,hcalled⟩ := (((h _ rfl).2 _ rfl).2 _ rfl).1
  cases congrArg (Option.map Invocation.functor) hcalled

end Kpp.DeferredFunctors
