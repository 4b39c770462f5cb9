import Kpp.KernelAtomic
import Kpp.StepRun
import Mathlib.Logic.Function.Basic

/-!
# Atomic against a counter of integers

Every member function of `Atomic` hands the address of an `atomic_t` to the
kernel. `set` takes the address of its parameter, which has nearly the name of
the member, and writes there.
-/

namespace Kpp.AtomicCounter

open KernelAtomic StepRun

/-- `int`. -/
abbrev CInt := BitVec 32

/-- The `int` cells in the reach of a member function with one parameter. -/
inductive Cell where
  | member
  | parameter
  deriving DecidableEq

/-- Contents of the cells during a call. -/
def frame (value_ value : CInt) : Cell → CInt
  | .member => value_
  | .parameter => value

/-- The kernel's `atomic_set` at the address of a cell. -/
def atomicSet (v : Cell) (i : CInt) (cells : Cell → CInt) : Cell → CInt :=
  Function.update cells v i

/-- `atomic_add`. -/
def atomicAdd (i : CInt) (v : Atomic) : Atomic := v+i

/-- `atomic_sub`. -/
def atomicSub (i : CInt) (v : Atomic) : Atomic := v-i

/-- `atomic_dec`. -/
def atomicDec (v : Atomic) : Atomic := v-1#32

/-- `atomic_inc_and_test`: the incremented counter, and whether it became zero. -/
def atomicIncAndTest (v : Atomic) : Atomic×Bool := (v+1#32,v+1#32==0#32)

/-- The constructor, `atomic_set(&value_, value)`, in uninitialised storage. -/
def create (storage : Atomic) (value : CInt) : Atomic :=
  atomicSet .member value (frame storage value) .member

/-- `set`, `atomic_set(&value, value)`. -/
def set (this : Atomic) (value : CInt) : Atomic :=
  atomicSet .parameter value (frame this value) .member

/-- The other member functions, and the operators that call them. -/
def read (this : Atomic) : ℤ := atomicRead this
def add (this : Atomic) (i : CInt) : Atomic := atomicAdd i this
def sub (this : Atomic) (i : CInt) : Atomic := atomicSub i this
def inc (this : Atomic) : Atomic := atomicInc this
def dec (this : Atomic) : Atomic := atomicDec this
def incAndTest (this : Atomic) : Atomic×Bool := atomicIncAndTest this
def decAndTest (this : Atomic) : Atomic×Bool := atomicDecAndTest this
def plusPlus (this : Atomic) : Atomic := inc this
def minusMinus (this : Atomic) : Atomic := dec this
def plusAssign (this : Atomic) (i : CInt) : Atomic := add this i
def minusAssign (this : Atomic) (i : CInt) : Atomic := sub this i

/-- Calls that may change the counter. -/
inductive Call where
  | set (value : CInt)
  | add (i : CInt)
  | sub (i : CInt)
  | inc
  | dec
  | incAndTest
  | decAndTest
  | plusPlus
  | minusMinus
  | plusAssign (i : CInt)
  | minusAssign (i : CInt)

/-- The member after a call, and the answer of a test. -/
def call (this : Atomic) : Call → Atomic×Option Bool
  | .set value => (set this value,none)
  | .add i => (add this i,none)
  | .sub i => (sub this i,none)
  | .inc => (inc this,none)
  | .dec => (dec this,none)
  | .incAndTest => ((incAndTest this).1,some (incAndTest this).2)
  | .decAndTest => ((decAndTest this).1,some (decAndTest this).2)
  | .plusPlus => (plusPlus this,none)
  | .minusMinus => (minusMinus this,none)
  | .plusAssign i => (plusAssign this i,none)
  | .minusAssign i => (minusAssign this i,none)

/-- Two's complement of 32 bits. -/
def wrap (x : ℤ) : ℤ := x.bmod (2^32)

/-- The reference counter after a call, and what a test should answer. -/
def reference (counter : ℤ) : Call → ℤ×Option Bool
  | .set value => (value.toInt,none)
  | .add i => (wrap (counter+i.toInt),none)
  | .sub i => (wrap (counter-i.toInt),none)
  | .inc => (wrap (counter+1),none)
  | .dec => (wrap (counter-1),none)
  | .incAndTest => (wrap (counter+1),some (decide (wrap (counter+1)=0)))
  | .decAndTest => (wrap (counter-1),some (decide (wrap (counter-1)=0)))
  | .plusPlus => (wrap (counter+1),none)
  | .minusMinus => (wrap (counter-1),none)
  | .plusAssign i => (wrap (counter+i.toInt),none)
  | .minusAssign i => (wrap (counter-i.toInt),none)

/-- The object and its reference. -/
structure State where
  /-- `value_`. -/
  value : Atomic
  /-- The reference counter. -/
  counter : ℤ

/-- A new object. -/
def start (storage : Atomic) (value : CInt) : State := ⟨create storage value,value.toInt⟩

/-- One call on both. -/
def step (s : State) (c : Call) : Option State :=
  some ⟨(call s.value c).1,(reference s.counter c).1⟩

/-- `read` returns the value of the reference. -/
def Reads (s : State) : Prop := read s.value=s.counter

/-- A test answers whether the reference becomes zero. -/
def Tests (s : State) (c : Call) : Prop := (call s.value c).2=(reference s.counter c).2

/-- A set stores what the object already holds. -/
def SetsSame (s : State) : Call → Prop
  | .set value => value=s.value
  | _ => True

/-- A set leaves the member alone. -/
theorem set_eq (this : Atomic) (value : CInt) : set this value=this := by
  have hother : Cell.member≠Cell.parameter := by decide
  unfold set atomicSet
  exact Function.update_of_ne hother _ _

/-- Addition of machine words is addition with wrap-around. -/
theorem read_add {v : Atomic} {counter : ℤ} (h : atomicRead v=counter) (i : CInt) :
    atomicRead (v+i)=wrap (counter+i.toInt) := by
  unfold atomicRead wrap at *
  rw [BitVec.toInt_add,h]

/-- Subtraction of machine words is subtraction with wrap-around. -/
theorem read_sub {v : Atomic} {counter : ℤ} (h : atomicRead v=counter) (i : CInt) :
    atomicRead (v-i)=wrap (counter-i.toInt) := by
  unfold atomicRead wrap at *
  rw [BitVec.toInt_sub,h]

/-- A counter is zero exactly when it reads as zero. -/
theorem test_eq {v : Atomic} {counter : ℤ} (h : atomicRead v=counter) :
    (v==0#32)=decide (counter=0) := by
  have hzero : v=0#32 ↔ counter=0 := by
    rw [←h,←BitVec.toInt_inj,BitVec.toInt_zero]
    exact Iff.rfl
  rw [beq_eq_decide,decide_eq_decide]
  exact hzero

/-- Apart from a set of another value, calls keep object and reference the
same, and tests answer alike. -/
theorem Reads.call {s : State} (hs : Reads s) (c : Call) :
    Tests s c ∧ (SetsSame s c → read (call s.value c).1=(reference s.counter c).1) := by
  have hinc : atomicRead (s.value+1#32)=wrap (s.counter+1) := read_add hs 1#32
  have hdec : atomicRead (s.value-1#32)=wrap (s.counter-1) := read_sub hs 1#32
  cases c with
  | set value =>
    refine ⟨rfl,fun hsame => ?_⟩
    rw [AtomicCounter.call,set_eq,reference,hsame]
    rfl
  | add i => exact ⟨rfl,fun _ => read_add hs i⟩
  | sub i => exact ⟨rfl,fun _ => read_sub hs i⟩
  | inc => exact ⟨rfl,fun _ => hinc⟩
  | dec => exact ⟨rfl,fun _ => hdec⟩
  | incAndTest => exact ⟨congrArg some (test_eq hinc),fun _ => hinc⟩
  | decAndTest => exact ⟨congrArg some (test_eq hdec),fun _ => hdec⟩
  | plusPlus => exact ⟨rfl,fun _ => hinc⟩
  | minusMinus => exact ⟨rfl,fun _ => hdec⟩
  | plusAssign i => exact ⟨rfl,fun _ => read_add hs i⟩
  | minusAssign i => exact ⟨rfl,fun _ => read_sub hs i⟩

/-- A set after which object and reference agree stored what was there. -/
theorem setsSame_of_reads {s t : State} {c : Call} (h : step s c=some t) (ht : Reads t) :
    SetsSame s c := by
  cases c with
  | set value =>
    obtain rfl := Option.some.inj h
    change atomicRead (set s.value value)=value.toInt at ht
    rw [set_eq] at ht
    exact (BitVec.toInt_inj.mp ht).symm
  | _ => trivial

/-- Refinement of a 32-bit counter. In every run of calls `read` and the tests
answer like the reference counter exactly when each `set` of the run stores
the value that the object already has. -/
theorem counter_refined_iff (storage : Atomic) (value : CInt) (calls : List Call) :
    (Along step Reads (start storage value) calls ∧
      Guarded step Tests (start storage value) calls) ↔
      Guarded step SetsSame (start storage value) calls := by
  have hstart : Reads (start storage value) := rfl
  have hreads : Along step Reads (start storage value) calls ↔
      Guarded step SetsSame (start storage value) calls := by
    refine along_iff_guarded (I := Reads) (fun hs => hs) ?_ (fun _ h ht => setsSame_of_reads h ht)
      hstart
    intro s c t hs hg h
    obtain rfl := Option.some.inj h
    exact (hs.call c).2 hg
  refine ⟨fun h => hreads.mp h.1,fun hg => ⟨hreads.mpr hg,?_⟩⟩
  exact guarded_of_along (fun hs _ => (hs.call _).1) (hreads.mpr hg)

/-- A counter of 1 set to 5 still reads 1. -/
theorem set_stores_nothing :
    ∃ s,run step (start 0#32 1#32) [.set 5#32]=some s ∧ read s.value=1 ∧ s.counter=5 ∧
      ¬Along step Reads (start 0#32 1#32) [.set 5#32] := by
  refine ⟨_,rfl,rfl,rfl,fun h => ?_⟩
  exact absurd (h.2 _ rfl) (by decide : ¬(1 : ℤ)=5)

end Kpp.AtomicCounter
