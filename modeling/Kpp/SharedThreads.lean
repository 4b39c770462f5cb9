import Kpp.CountAccounts
import Kpp.KernelAtomic
import Kpp.SharedHandle
import Kpp.StepRun

/-!
# SharedPtr operations of many threads

Each operation runs in atomic steps: the decrement with its test, the
destructor, the free, the loads of the two fields of the source, the
increment, and the writes that clear a moved source. Threads interleave
freely as long as no handle object is modified by one while another uses it.
Pointees hold no handles.
-/

namespace Kpp.SharedThreads

open CountAccounts KernelAtomic SharedHandle StepRun

/-- What follows the release of a handle: the end of its destructor, or the
rest of an assignment. -/
inductive Then (H : Type*) where
  | finish
  | assign (how : Transfer) (src : H)

/-- Where a thread is; the next step it takes. -/
inductive Pc (H : Type*) where
  | idle
  | setCount (h : H) (b : ℕ)
  | constructObject (h : H) (b : ℕ)
  | returnHandle (h : H) (b : ℕ)
  | decrement (h : H) (k : Then H)
  | destroyObject (h : H) (k : Then H)
  | freeBlock (h : H) (k : Then H)
  | loadPtr (how : Transfer) (dst src : H)
  | loadCb (how : Transfer) (dst src : H)
  | increment (dst src : H)
  | clearPtr (dst src : H)
  | clearCb (dst src : H)

/-- An operation on handles; `make_shared` comes with the outcome of its allocation. -/
inductive Op (H : Type*) where
  | makeShared (h : H) (allocated : Bool)
  | construct (h : H)
  | copyConstruct (dst src : H)
  | moveConstruct (dst src : H)
  | copyAssign (dst src : H)
  | moveAssign (dst src : H)
  | destroy (h : H)
  | useCount (h : H)

variable {T H : Type*}

/-- Sources that are modified. -/
def transferWrites : Transfer → H → List H
  | .copy,_ => []
  | .move,src => [src]

/-- Sources that are only read. -/
def transferReads : Transfer → H → List H
  | .copy,src => [src]
  | .move,_ => []

/-- Handles that the rest of the operation modifies. -/
def Then.writes : Then H → List H
  | .finish => []
  | .assign how src => transferWrites how src

/-- Handles that the rest of the operation only reads. -/
def Then.reads : Then H → List H
  | .finish => []
  | .assign how src => transferReads how src

/-- Handles that the operation in flight modifies. -/
def Pc.writes : Pc H → List H
  | .idle => []
  | .setCount h _ => [h]
  | .constructObject h _ => [h]
  | .returnHandle h _ => [h]
  | .decrement h k => h::k.writes
  | .destroyObject h k => h::k.writes
  | .freeBlock h k => h::k.writes
  | .loadPtr how dst src => dst::transferWrites how src
  | .loadCb how dst src => dst::transferWrites how src
  | .increment dst _ => [dst]
  | .clearPtr dst src => [dst,src]
  | .clearCb dst src => [dst,src]

/-- Handles that the operation in flight only reads. -/
def Pc.reads : Pc H → List H
  | .decrement _ k => k.reads
  | .destroyObject _ k => k.reads
  | .freeBlock _ k => k.reads
  | .loadPtr how _ src => transferReads how src
  | .loadCb how _ src => transferReads how src
  | .increment _ src => [src]
  | _ => []

/-- Handles the operation uses. -/
def Pc.uses (p : Pc H) : List H := p.writes++p.reads

/-- No operation is in flight. -/
def Pc.isIdle : Pc H → Bool
  | .idle => true
  | _ => false

/-- Handles the operation modifies. -/
def Op.writes : Op H → List H
  | .makeShared h _ => [h]
  | .construct h => [h]
  | .copyConstruct dst _ => [dst]
  | .moveConstruct dst src => [dst,src]
  | .copyAssign dst _ => [dst]
  | .moveAssign dst src => [dst,src]
  | .destroy h => [h]
  | .useCount _ => []

/-- Handles the operation only reads. -/
def Op.reads : Op H → List H
  | .copyConstruct _ src => [src]
  | .copyAssign _ src => [src]
  | .useCount h => [h]
  | _ => []

/-- Handles, threads and control blocks. -/
structure State (T H : Type*) where
  /-- Handle in each cell; `none` is raw storage. -/
  slots : H → Option (SharedPtr ℕ)
  /-- Position of each thread. -/
  pc : T → Pc H
  /-- Number of blocks allocated; the next one gets this address. -/
  next : ℕ
  /-- `shared_count` of each block. -/
  count : ℕ → Atomic
  /-- How often the object of each block was destroyed. -/
  destroyed : ℕ → ℕ
  /-- How often each block was freed. -/
  freed : ℕ → ℕ
  /-- A freed block, a null pointer or raw storage was used. -/
  fault : Bool

/-- No handle, no block, no operation in flight. -/
def start : State T H := ⟨fun _ => none,fun _ => .idle,0,fun _ => 0,fun _ => 0,fun _ => 0,false⟩

/-- An access to a block; a freed one spoils the state. -/
def touch (b : ℕ) (s : State T H) : State T H :=
  {s with fault := s.fault || decide (0<s.freed b)}

/-- A null pointer or raw storage was used. -/
def broken (s : State T H) : State T H := {s with fault := true}

/-- `use_count()`. -/
def useCount (this : SharedPtr ℕ) (s : State T H) : ℤ :=
  match this.cb with
  | some b => atomicRead (s.count b)
  | none => 0

section Steps
variable [DecidableEq T] [DecidableEq H]

/-- Store a handle in a cell. -/
def put (h : H) (x : Option (SharedPtr ℕ)) (s : State T H) : State T H :=
  {s with slots := Function.update s.slots h x}

/-- Move a thread to its next position. -/
def goto (t : T) (p : Pc H) (s : State T H) : State T H :=
  {s with pc := Function.update s.pc t p}

/-- The release is over: the destructor's storage becomes raw, an assignment
goes on to its source. -/
def complete (t : T) (h : H) (k : Then H) (s : State T H) : State T H :=
  match k with
  | .finish => goto t .idle (put h none s)
  | .assign how src => goto t (.loadPtr how h src) s

/-- The first part of `release()`: `cb_ && atomic_dec_and_test(...)`. -/
def decrement (t : T) (h : H) (k : Then H) (s : State T H) : State T H :=
  match s.slots h with
  | none => broken s
  | some this =>
    match this.cb with
    | none => complete t h k s
    | some b =>
      let result := atomicDecAndTest (s.count b)
      let s := {touch b s with count := Function.update s.count b result.1}
      if result.2=true then goto t (.destroyObject h k) s else complete t h k s

/-- `ptr_->~T()`. -/
def destroyObject (t : T) (h : H) (k : Then H) (s : State T H) : State T H :=
  match (s.slots h).bind SharedPtr.ptr with
  | none => broken s
  | some p =>
    goto t (.freeBlock h k)
      {touch p s with destroyed := Function.update s.destroyed p (s.destroyed p+1)}

/-- `kfree(cb_)`. -/
def freeBlock (t : T) (h : H) (k : Then H) (s : State T H) : State T H :=
  match (s.slots h).bind SharedPtr.cb with
  | none => broken s
  | some b => complete t h k {s with freed := Function.update s.freed b (s.freed b+1)}

/-- `ptr_ = other.ptr_`. -/
def loadPtr (t : T) (how : Transfer) (dst src : H) (s : State T H) : State T H :=
  match s.slots src with
  | none => broken s
  | some other =>
    goto t (.loadCb how dst src) (put dst (some ⟨other.ptr,(s.slots dst).bind SharedPtr.cb⟩) s)

/-- `cb_ = other.cb_`. -/
def loadCb (t : T) (how : Transfer) (dst src : H) (s : State T H) : State T H :=
  match s.slots src with
  | none => broken s
  | some other =>
    let s := put dst (some ⟨(s.slots dst).bind SharedPtr.ptr,other.cb⟩) s
    match how,other.cb with
    | .copy,some _ => goto t (.increment dst src) s
    | .copy,none => goto t .idle s
    | .move,_ => goto t (.clearPtr dst src) s

/-- `atomic_inc(&cb_->shared_count)`. -/
def increment (t : T) (dst : H) (s : State T H) : State T H :=
  match (s.slots dst).bind SharedPtr.cb with
  | none => broken s
  | some b =>
    goto t .idle {touch b s with count := Function.update s.count b (atomicInc (s.count b))}

/-- `other.ptr_ = nullptr`. -/
def clearPtr (t : T) (dst src : H) (s : State T H) : State T H :=
  goto t (.clearCb dst src) (put src (some ⟨none,(s.slots src).bind SharedPtr.cb⟩) s)

/-- `other.cb_ = nullptr`. -/
def clearCb (t : T) (src : H) (s : State T H) : State T H :=
  goto t .idle (put src (some ⟨(s.slots src).bind SharedPtr.ptr,none⟩) s)

/-- The next step of a thread with an operation in flight. -/
def resume (t : T) (s : State T H) : Option (State T H) :=
  match s.pc t with
  | .idle => none
  | .setCount h b =>
    some (goto t (.constructObject h b)
      {touch b s with count := Function.update s.count b (atomicSet 1)})
  | .constructObject h b => some (goto t (.returnHandle h b) s)
  | .returnHandle h b => some (goto t .idle (put h (some (.ofBlock b)) s))
  | .decrement h k => some (decrement t h k s)
  | .destroyObject h k => some (destroyObject t h k s)
  | .freeBlock h k => some (freeBlock t h k s)
  | .loadPtr how dst src => some (loadPtr t how dst src s)
  | .loadCb how dst src => some (loadCb t how dst src s)
  | .increment dst _ => some (increment t dst s)
  | .clearPtr dst src => some (clearPtr t dst src s)
  | .clearCb _ src => some (clearCb t src s)

/-- The storage an operation constructs in is raw, and the handles it uses are live. -/
def ready (s : State T H) : Op H → Bool
  | .makeShared h _ => (s.slots h).isNone
  | .construct h => (s.slots h).isNone
  | .copyConstruct dst src => (s.slots dst).isNone && (s.slots src).isSome
  | .moveConstruct dst src => (s.slots dst).isNone && (s.slots src).isSome
  | .copyAssign dst src => (s.slots dst).isSome && (s.slots src).isSome
  | .moveAssign dst src => (s.slots dst).isSome && (s.slots src).isSome
  | .destroy h => (s.slots h).isSome
  | .useCount h => (s.slots h).isSome

/-- The first step of an operation: the address test of an assignment, the
allocation of `make_shared`, or all of an operation that has only one step. -/
def begin (t : T) (s : State T H) : Op H → State T H
  | .makeShared h true => goto t (.setCount h s.next) {s with next := s.next+1}
  | .makeShared h false => put h (some .null) s
  | .construct h => put h (some .null) s
  | .copyConstruct dst src => goto t (.loadPtr .copy dst src) s
  | .moveConstruct dst src => goto t (.loadPtr .move dst src) s
  | .copyAssign dst src => if dst=src then s else goto t (.decrement dst (.assign .copy src)) s
  | .moveAssign dst src => if dst=src then s else goto t (.decrement dst (.assign .move src)) s
  | .destroy h => goto t (.decrement h .finish) s
  | .useCount h =>
    match s.slots h with
    | none => broken s
    | some this =>
      match this.cb with
      | some b => touch b s
      | none => s

/-- A thread starts an operation or takes the next step of its own. -/
inductive Action (T H : Type*) where
  | start (t : T) (op : Op H)
  | resume (t : T)

/-- No other thread uses what the operation modifies or modifies what it reads. -/
def Undisturbed (t : T) (op : Op H) (s : State T H) : Prop :=
  ∀ u,u≠t → (∀ h∈op.writes,h∉(s.pc u).uses) ∧ ∀ h∈op.reads,h∉(s.pc u).writes

/-- Undisturbed operations are checked thread by thread. -/
instance [Fintype T] (t : T) (op : Op H) (s : State T H) : Decidable (Undisturbed t op s) :=
  inferInstanceAs (Decidable (∀ u,u≠t → (∀ h∈op.writes,h∉(s.pc u).uses) ∧
    ∀ h∈op.reads,h∉(s.pc u).writes))

/-- One atomic step of one thread. -/
def step [Fintype T] (s : State T H) : Action T H → Option (State T H)
  | .start t op =>
    if (s.pc t).isIdle=true ∧ ready s op=true ∧ Undisturbed t op s then some (begin t s op)
    else none
  | .resume t => resume t s

end Steps

/-- Live handles that refer to a block. -/
def handlesOn [Fintype H] (slots : H → Option (SharedPtr ℕ)) (b : ℕ) : ℕ :=
  ∑ h,refers (cellOf slots h) b

/-- Fewer than 2^31 handles refer to one block. -/
def Bounded [Fintype H] (s : State T H) : Prop := ∀ b,handlesOn s.slots b<2^31

/-- The handle that an operation in flight has released. -/
def Pc.released : Pc H → Option H
  | .destroyObject h _ => some h
  | .freeBlock h _ => some h
  | .loadPtr _ dst _ => some dst
  | .loadCb _ dst _ => some dst
  | _ => none

end Kpp.SharedThreads
