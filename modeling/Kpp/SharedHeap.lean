import Kpp.CountAccounts
import Kpp.CountedGraph
import Kpp.KernelAtomic
import Kpp.SharedHandle

/-!
# Heaps of objects with SharedPtr fields

Objects made by `make_shared` have handles among their fields, so a release
that destroys an object releases its fields in turn. The model runs this
cascade as the destructors do, with the decrement, the destruction of the
fields in reverse order and the free at each level, and watches every access
to a handle or a count.
-/

namespace Kpp.SharedHeap

open CountAccounts KernelAtomic SharedHandle

/-- Where the handles are: outside of all objects, or fields of the object of a block. -/
structure Layout (L B : Type*) where
  /-- Handle fields of each object in order of declaration. -/
  fields : B → List L
  /-- Block whose object has the handle as a field. -/
  home : L → Option B
  /-- Fields are at home in their object. -/
  mem_fields : ∀ l b,l∈fields b ↔ home l=some b
  /-- Fields are listed once. -/
  nodup : ∀ b,(fields b).Nodup

/-- Handles and control blocks. -/
structure Heap (L B : Type*) where
  /-- Handle in each cell; `none` is raw storage. -/
  slots : L → Option (SharedPtr B)
  /-- `shared_count` of each block. -/
  count : B → Atomic
  /-- How often the destructor of each object ran. -/
  destroyed : B → ℕ
  /-- How often each block was freed. -/
  freed : B → ℕ
  /-- Freed memory, a null pointer or raw storage was used. -/
  fault : Bool

variable {L B : Type*}

/-- The storage of the handle was freed. -/
def homeFreed (lay : Layout L B) (l : L) (s : Heap L B) : Bool :=
  match lay.home l with
  | some h => decide (0<s.freed h)
  | none => false

/-- A field of the handle is read or written. -/
def access (lay : Layout L B) (l : L) (s : Heap L B) : Heap L B :=
  {s with fault := s.fault || homeFreed lay l s || (s.slots l).isNone}

/-- The block is read or written. -/
def touch (b : B) (s : Heap L B) : Heap L B :=
  {s with fault := s.fault || decide (0<s.freed b)}

section Cascade
variable [DecidableEq L] [DecidableEq B]

/-- Store a handle in a cell. -/
def put (l : L) (x : Option (SharedPtr B)) (s : Heap L B) : Heap L B :=
  {s with slots := Function.update s.slots l x}

/-- Change the count of a block. -/
def setCount (b : B) (v : Atomic) (s : Heap L B) : Heap L B :=
  {touch b s with count := Function.update s.count b v}

/-- The destructor of the object of the block begins. -/
def beginDestroy (p : B) (s : Heap L B) : Heap L B :=
  {touch p s with destroyed := Function.update s.destroyed p (s.destroyed p+1)}

/-- `kfree(cb_)`, with `cb_` read from the handle. -/
def freeBlock (lay : Layout L B) (l : L) (s : Heap L B) : Heap L B :=
  let s := access lay l s
  match cellOf s.slots l with
  | none => {s with fault := true}
  | some b => {s with freed := Function.update s.freed b (s.freed b+1)}

/-- `release()` on the handle in a cell, to a given depth of nested destructors. -/
def release (lay : Layout L B) : ℕ → L → Heap L B → Option (Heap L B)
  | 0,_,_ => none
  | n+1,l,s =>
    let s := access lay l s
    match cellOf s.slots l with
    | none => some s
    | some b =>
      let result := atomicDecAndTest (s.count b)
      let s := setCount b result.1 s
      if result.2=true then
        match (s.slots l).bind SharedPtr.ptr with
        | none => some {s with fault := true}
        | some p =>
          ((lay.fields p).reverse.foldlM (fun s f => (release lay n f s).map (put f none))
            (beginDestroy p s)).map (freeBlock lay l)
      else some s

/-- The destructor of the handle in a cell; its storage is raw afterwards. -/
def destroyHandle (lay : Layout L B) (n : ℕ) (l : L) (s : Heap L B) : Option (Heap L B) :=
  (release lay n l s).map (put l none)

/-- The destructors of the fields of an object. -/
def destroyFields (lay : Layout L B) (n : ℕ) (fs : List L) (s : Heap L B) : Option (Heap L B) :=
  fs.foldlM (fun s f => destroyHandle lay n f s) s

/-- `ptr_ = other.ptr_; cb_ = other.cb_;` and what follows it in the copy or
the move assignment. -/
def takeOver (lay : Layout L B) (how : Transfer) (dst src : L) (s : Heap L B) : Heap L B :=
  let s := access lay dst (access lay src s)
  match s.slots src with
  | none => {s with fault := true}
  | some other =>
    let s := put dst (some ⟨other.ptr,other.cb⟩) s
    match how with
    | .copy =>
      match other.cb with
      | some b => setCount b (atomicInc (s.count b)) s
      | none => s
    | .move => put src (some .null) s

variable [Fintype B]

/-- Deep enough for every cascade: each level destroys one more object. -/
def depth (B : Type*) [Fintype B] : ℕ := Fintype.card B+1

/-- `operator=` on the handles in two cells. -/
def assign (lay : Layout L B) (how : Transfer) (dst src : L) (s : Heap L B) : Option (Heap L B) :=
  if dst=src then some s
  else (release lay (depth B) dst s).map (takeOver lay how dst src)

/-- `operator=(const SharedPtr&)`. -/
def copyAssign (lay : Layout L B) (dst src : L) (s : Heap L B) : Option (Heap L B) :=
  assign lay .copy dst src s

/-- `operator=(SharedPtr&&)`. -/
def moveAssign (lay : Layout L B) (dst src : L) (s : Heap L B) : Option (Heap L B) :=
  assign lay .move dst src s

end Cascade

section Counting
variable [Fintype L] [DecidableEq B]

/-- Live handles on a block. -/
def handlesOn (slots : L → Option (SharedPtr B)) (b : B) : ℕ := ∑ l,refers (cellOf slots l) b

/-- A heap of live objects whose counts show the handles on them. -/
structure WellCounted (lay : Layout L B) (s : Heap L B) : Prop where
  /-- Nothing was broken so far. -/
  sound : s.fault=false
  /-- All blocks are live. -/
  live : ∀ b,s.destroyed b=0 ∧ s.freed b=0
  /-- The handle fields of all objects are constructed. -/
  built : ∀ l b,lay.home l=some b → s.slots l≠none
  /-- Every handle comes from `make_shared`. -/
  coherent : ∀ l x,s.slots l=some x → x.Coherent
  /-- Counts are the numbers of handles. -/
  counted : ∀ b,atomicRead (s.count b)=handlesOn s.slots b

end Counting

end Kpp.SharedHeap
