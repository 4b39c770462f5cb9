import Kpp.WordMemory
import Mathlib.Data.Int.Notation
import Mathlib.Data.List.Pairwise

/-!
# FileOperations: the table of a polymorphic object

The base-class constructor fills the embedded `file_operations` by virtual
calls, and the trampolines take the address of that embedded table for the
address of the object. Objects are words in memory: the vtable pointer, the
table, the owner pointer, and what derived classes add.
-/

namespace Kpp.FileDispatch

open WordMemory

/-- The slots of the table that `FileOperations` sets; the field of `ioctlSlot`
is `unlocked_ioctl`. -/
inductive Slot where
  | openSlot
  | releaseSlot
  | readSlot
  | writeSlot
  | ioctlSlot
  | pollSlot
  deriving DecidableEq

/-- The slots in the order in which the constructor sets them. -/
def Slot.all : List Slot :=
  [.openSlot,.releaseSlot,.readSlot,.writeSlot,.ioctlSlot,.pollSlot]

/-- What a trampoline returns when it calls no member function. -/
def Slot.fallback : Slot → ℤ
  | .openSlot => 0
  | .releaseSlot => 0
  | .readSlot => -5
  | .writeSlot => -5
  | .ioctlSlot => -25
  | .pollSlot => 0x145

/-- Placement of the fields of the kernel's `struct file_operations`, in words. -/
structure Layout where
  /-- Size of the structure. -/
  size : ℕ
  /-- Offset of each slot. -/
  offset : Slot → ℕ
  /-- Slots are inside the structure. -/
  inside : ∀ slot,offset slot<size
  /-- `owner` is the first field. -/
  ownerFirst : ∀ slot,0<offset slot
  /-- Different slots are different fields. -/
  apart : Function.Injective offset

/-- A vtable: the member function that each getter returns, null or not. -/
abbrev Vtable (F : Type*) := Slot → Option F

/-- Words of memory, for member functions `F` and owners `O`. -/
inductive Word (F O : Type*) where
  | null
  | vtable (functions : Vtable F)
  | trampoline (slot : Slot)
  | owner (object : O)
  | thisModule
  | junk

/-- A class derived from `FileOperations`: the getters it overrides, each with
the member function it returns. -/
structure Class (F : Type*) where
  /-- Result of the overriding getter, where there is one. -/
  overrides : Slot → Option (Option F)
  /-- Words that derived classes add to the object. -/
  extra : ℕ

variable {F O A : Type*}

/-- The getters of `FileOperations` itself return null. -/
def baseVtable : Vtable F := fun _ => none

/-- The getters of the derived class: its own, or the inherited ones. -/
def Class.vtable (T : Class F) : Vtable F := fun slot => (T.overrides slot).getD (baseVtable slot)

/-- A virtual call of a getter on the object at `this`; there is no result if
the word there is no vtable. -/
def virtualGet (this : ℕ) (slot : Slot) (m : Memory (Word F O)) : Option (Option F) :=
  match m this with
  | .vtable functions => some (functions slot)
  | _ => none

/-- `fops_.slot = get_slot() ? slot_trampoline : nullptr`. -/
def setSlot (L : Layout) (this : ℕ) (m : Memory (Word F O)) (slot : Slot) : Memory (Word F O) :=
  match virtualGet this slot m with
  | some (some _) => write (this+1+L.offset slot) (.trampoline slot) m
  | some none => write (this+1+L.offset slot) .null m
  | none => write (this+1+L.offset slot) .junk m

/-- A pointer to the owner. -/
def ownerWord : Option O → Word F O
  | some o => .owner o
  | none => .null

/-- Constructor of `FileOperations`; the object's vtable is the base's while it runs. -/
def constructBase (L : Layout) (this : ℕ) (owner : Option O) (m : Memory (Word F O)) :
    Memory (Word F O) :=
  let m := write this (.vtable baseVtable) m
  let m := write (this+1+L.size) (ownerWord owner) m
  let m := fill (this+1) L.size .null m
  let m := write (this+1) .thisModule m
  Slot.all.foldl (setSlot L this) m

/-- An object of a derived class at its address. -/
structure Object (F O : Type*) where
  /-- Its class. -/
  type : Class F
  /-- Address of its `FileOperations` part. -/
  addr : ℕ
  /-- The pointer passed to the constructor. -/
  owner : Option O

/-- Words the object occupies. -/
def Object.words (L : Layout) (x : Object F O) : ℕ := L.size+2+x.type.extra

/-- Full construction: the base, then the derived class installs its vtable. -/
def Object.construct (L : Layout) (m : Memory (Word F O)) (x : Object F O) : Memory (Word F O) :=
  write x.addr (.vtable x.type.vtable) (constructBase L x.addr x.owner m)

/-- `native_handle()`: the address of the embedded table. -/
def Object.nativeHandle (x : Object F O) : ℕ := x.addr+1

/-- What a trampoline does: it returns the result of a member function called
on an owner, or its fallback, or it reads memory that is not an object. -/
inductive Outcome (F O A : Type*) where
  | calls (function : F) (owner : O) (args : A)
  | returns (value : ℤ)
  | undefined

/-- A trampoline on a file with this `f_op`; `static_cast` leaves the address
as it is, so the table's address stands for the object's. -/
def trampoline (L : Layout) (slot : Slot) (fOp : ℕ) (args : A) (m : Memory (Word F O)) :
    Outcome F O A :=
  let kppFops := fOp
  if kppFops=0 then .returns slot.fallback
  else
    match m (kppFops+1+L.size) with
    | .null => .returns slot.fallback
    | ownerPtr =>
      match virtualGet kppFops slot m with
      | none => .undefined
      | some none => .returns slot.fallback
      | some (some func) =>
        match ownerPtr with
        | .owner o => .calls func o args
        | _ => .undefined

/-- `open_trampoline`. -/
def openTrampoline (L : Layout) (fOp : ℕ) (args : A) (m : Memory (Word F O)) : Outcome F O A :=
  trampoline L .openSlot fOp args m

/-- `release_trampoline`. -/
def releaseTrampoline (L : Layout) (fOp : ℕ) (args : A) (m : Memory (Word F O)) : Outcome F O A :=
  trampoline L .releaseSlot fOp args m

/-- `read_trampoline`. -/
def readTrampoline (L : Layout) (fOp : ℕ) (args : A) (m : Memory (Word F O)) : Outcome F O A :=
  trampoline L .readSlot fOp args m

/-- `write_trampoline`. -/
def writeTrampoline (L : Layout) (fOp : ℕ) (args : A) (m : Memory (Word F O)) : Outcome F O A :=
  trampoline L .writeSlot fOp args m

/-- `ioctl_trampoline`. -/
def ioctlTrampoline (L : Layout) (fOp : ℕ) (args : A) (m : Memory (Word F O)) : Outcome F O A :=
  trampoline L .ioctlSlot fOp args m

/-- `poll_trampoline`. -/
def pollTrampoline (L : Layout) (fOp : ℕ) (args : A) (m : Memory (Word F O)) : Outcome F O A :=
  trampoline L .pollSlot fOp args m

/-- The function a slot of the table was set to. -/
def Slot.function (L : Layout) : Slot → ℕ → A → Memory (Word F O) → Outcome F O A
  | .openSlot => openTrampoline L
  | .releaseSlot => releaseTrampoline L
  | .readSlot => readTrampoline L
  | .writeSlot => writeTrampoline L
  | .ioctlSlot => ioctlTrampoline L
  | .pollSlot => pollTrampoline L

/-- The kernel calls a non-null slot of the table of a file. -/
def callSlot (L : Layout) (fOp : ℕ) (slot : Slot) (args : A) (m : Memory (Word F O)) :
    Outcome F O A :=
  match m (fOp+L.offset slot) with
  | .trampoline target => target.function L fOp args m
  | _ => .undefined

/-- The table of the object has the slots its getters ask for, and each of
them calls that member function on the object's owner. -/
structure Dispatches (L : Layout) (A : Type*) (x : Object F O) (m : Memory (Word F O)) : Prop where
  /-- A slot is set exactly when the object's own getter returns a function. -/
  slots : ∀ slot,m (x.nativeHandle+L.offset slot)≠.null ↔ (x.type.vtable slot).isSome
  /-- A call of a slot runs that function on that owner with these arguments. -/
  calls : ∀ slot,m (x.nativeHandle+L.offset slot)≠.null → ∀ args : A,∃ func o,
    x.type.vtable slot=some func ∧ x.owner=some o ∧
      callSlot L x.nativeHandle slot args m=.calls func o args

/-- Objects that exist at once occupy disjoint words. -/
structure Scene (F O : Type*) (L : Layout) where
  /-- The objects in order of construction. -/
  objects : List (Object F O)
  /-- No two of them overlap. -/
  disjoint : objects.Pairwise (fun x y => x.addr+x.words L≤y.addr ∨ y.addr+y.words L≤x.addr)

/-- Memory after all objects are constructed. -/
def Scene.memory {L : Layout} (s : Scene F O L) (m : Memory (Word F O)) : Memory (Word F O) :=
  s.objects.foldl (Object.construct L) m

/-- A constructed base part before any slot is set. -/
structure Blank (L : Layout) (this : ℕ) (m : Memory (Word F O)) : Prop where
  /-- The vtable in place is the base's. -/
  vptr : m this=.vtable baseVtable
  /-- All slots are null. -/
  slots : ∀ slot,m (this+1+L.offset slot)=.null

variable {L : Layout} {this : ℕ} {m : Memory (Word F O)}

/-- Under construction every getter dispatches to the base and returns null,
so setting a slot writes the null that is there. -/
theorem Blank.setSlot (h : Blank L this m) (slot : Slot) : setSlot L this m slot=m := by
  have hget : virtualGet this slot m=some none := by
    unfold virtualGet
    rw [h.vptr]
    rfl
  unfold FileDispatch.setSlot
  rw [hget]
  exact write_idle (h.slots slot)

/-- Setting any slots of a blank table changes nothing. -/
theorem Blank.setSlots (h : Blank L this m) (slots : List Slot) :
    slots.foldl (FileDispatch.setSlot L this) m=m := by
  induction slots with
  | nil => rfl
  | cons slot slots ih =>
    rw [List.foldl_cons,h.setSlot slot]
    exact ih

/-- The constructor leaves the vtable, a cleared table with its module, and
the owner, and touches nothing else. -/
theorem constructBase_eq (L : Layout) (this : ℕ) (owner : Option O) (m : Memory (Word F O)) :
    constructBase L this owner m=write (this+1) .thisModule (fill (this+1) L.size .null
      (write (this+1+L.size) (ownerWord owner) (write this (.vtable baseVtable) m))) := by
  have hsize := L.inside .openSlot
  unfold constructBase
  refine Blank.setSlots ⟨?_,?_⟩ _
  · rw [write_other (by omega),fill_outside (by omega),write_other (by omega),write_same]
  · intro slot
    have hinside := L.inside slot
    have hfirst := L.ownerFirst slot
    rw [write_other (by omega),fill_inside (by omega)]

/-- The table of an object whose construction is over: no slot is set. -/
structure Unset (L : Layout) (x : Object F O) (m : Memory (Word F O)) : Prop where
  /-- All slots are null. -/
  slots : ∀ slot,m (x.nativeHandle+L.offset slot)=.null
  /-- The first field names the module. -/
  owner : m x.nativeHandle=.thisModule

/-- A full construction leaves every slot unset. -/
theorem Object.construct_unset (L : Layout) (m : Memory (Word F O)) (x : Object F O) :
    Unset L x (x.construct L m) := by
  unfold construct
  rw [constructBase_eq]
  constructor
  · intro slot
    have hinside := L.inside slot
    have hfirst := L.ownerFirst slot
    dsimp only [nativeHandle]
    rw [write_other (by omega),write_other (by omega),fill_inside (by omega)]
  · dsimp only [nativeHandle]
    rw [write_other (by omega),write_same]

/-- Construction changes words of its own object only. -/
theorem Object.construct_frame (L : Layout) (m : Memory (Word F O)) (x : Object F O) :
    SameOutside x.addr (x.words L) m (x.construct L m) := by
  have hsize := L.inside .openSlot
  unfold construct words
  rw [constructBase_eq]
  have hvptr := (SameOutside.refl x.addr (L.size+2+x.type.extra) m).write x.addr
    ⟨by omega,by omega⟩ (.vtable baseVtable)
  have howner := hvptr.write (x.addr+1+L.size) ⟨by omega,by omega⟩ (ownerWord x.owner)
  have htable := howner.fill (x.addr+1) L.size ⟨by omega,by omega⟩ .null
  have hmodule := htable.write (x.addr+1) ⟨by omega,by omega⟩ .thisModule
  exact hmodule.write x.addr ⟨by omega,by omega⟩ _

/-- An unset table stays unset while other objects are constructed. -/
theorem Unset.constructAll {x : Object F O} (h : Unset L x m) {objects : List (Object F O)}
    (hdisjoint : ∀ y∈objects,x.addr+x.words L≤y.addr ∨ y.addr+y.words L≤x.addr) :
    Unset L x (objects.foldl (Object.construct L) m) := by
  induction objects generalizing m with
  | nil => exact h
  | cons y objects ih =>
    have hy := hdisjoint y List.mem_cons_self
    have hframe := y.construct_frame L m
    refine ih ⟨?_,?_⟩ (fun z hz => hdisjoint z (List.mem_cons_of_mem y hz))
    · intro slot
      have hinside := L.inside slot
      have haway : ¬(y.addr≤x.nativeHandle+L.offset slot ∧
          x.nativeHandle+L.offset slot<y.addr+y.words L) := by
        dsimp only [Object.nativeHandle,Object.words] at hy ⊢
        omega
      rw [hframe _ haway]
      exact h.slots slot
    · have haway : ¬(y.addr≤x.nativeHandle ∧ x.nativeHandle<y.addr+y.words L) := by
        dsimp only [Object.nativeHandle,Object.words] at hy ⊢
        omega
      rw [hframe _ haway]
      exact h.owner

/-- In memory with all objects constructed no table has a slot. -/
theorem Scene.unset (s : Scene F O L) (m : Memory (Word F O)) {x : Object F O}
    (hx : x∈s.objects) : Unset L x (s.memory m) := by
  obtain ⟨objects,hdisjoint⟩ := s
  dsimp only [memory] at hx ⊢
  induction objects generalizing m with
  | nil => cases hx
  | cons y objects ih =>
    rw [List.pairwise_cons] at hdisjoint
    rcases List.mem_cons.mp hx with rfl | hx
    · exact (x.construct_unset L m).constructAll hdisjoint.1
    · exact ih _ hdisjoint.2 hx

/-- Even if a slot were set, its trampoline would take the module pointer for
the vtable: it never calls a member function. -/
theorem Unset.trampoline_never_calls {x : Object F O} (h : Unset L x m) (slot : Slot) (args : A)
    (func : F) (o : O) : trampoline L slot x.nativeHandle args m≠.calls func o args := by
  have hget : virtualGet x.nativeHandle slot m=none := by
    unfold virtualGet
    rw [h.owner]
  unfold trampoline
  dsimp only
  rw [hget]
  split
  · exact nofun
  · split <;> exact nofun

/-- FileOperations dispatch. In any scene of constructed objects the table of
an object dispatches to the functions of its getters exactly when no getter
of its class returns one. -/
theorem dispatches_iff_no_getter (L : Layout) (A : Type*) (s : Scene F O L)
    (m : Memory (Word F O)) :
    ∀ x∈s.objects,Dispatches L A x (s.memory m) ↔ ∀ slot,x.type.vtable slot=none := by
  intro x hx
  have hunset := s.unset m hx
  constructor
  · intro hd slot
    have hslot := hd.slots slot
    rw [hunset.slots slot] at hslot
    cases hv : x.type.vtable slot with
    | none => rfl
    | some func =>
      rw [hv] at hslot
      exact absurd rfl (hslot.mpr rfl)
  · intro hnone
    constructor
    · intro slot
      rw [hunset.slots slot,hnone slot]
      exact ⟨fun h => absurd rfl h,nofun⟩
    · intro slot hset
      exact absurd (hunset.slots slot) hset

/-- A layout of `struct file_operations`. -/
def sampleLayout : Layout where
  size := 32
  offset
    | .openSlot => 12
    | .releaseSlot => 14
    | .readSlot => 2
    | .writeSlot => 3
    | .ioctlSlot => 9
    | .pollSlot => 8
  inside := by
    intro slot
    cases slot <;> decide
  ownerFirst := by
    intro slot
    cases slot <;> decide
  apart := by
    intro a b h
    cases a <;> cases b <;> first | rfl | exact absurd h (by decide)

/-- A driver that overrides four getters; functions are named by numbers. -/
def echoDriver : Class ℕ where
  overrides
    | .openSlot => some (some 1)
    | .releaseSlot => some (some 2)
    | .readSlot => some (some 3)
    | .writeSlot => some (some 4)
    | _ => none
  extra := 40

/-- One driver object, its own owner. -/
def echoObject : Object ℕ ℕ := ⟨echoDriver,1000,some 1000⟩

/-- The driver alone in memory. -/
def echoScene : Scene ℕ ℕ sampleLayout := ⟨[echoObject],List.pairwise_singleton _ _⟩

/-- The condition for the driver's table. -/
theorem echo_dispatches_iff :
    echoObject∈echoScene.objects ∧
      (Dispatches sampleLayout ℕ echoObject (echoScene.memory (fun _ => .junk)) ↔
        ∀ slot,echoObject.type.vtable slot=none) :=
  ⟨List.mem_singleton.mpr rfl,
    dispatches_iff_no_getter sampleLayout ℕ echoScene _ echoObject (List.mem_singleton.mpr rfl)⟩

/-- The driver's `open` is set in its class and null in its table. -/
theorem echo_open_slot_null :
    echoObject.type.vtable .openSlot=some 1 ∧
      echoScene.memory (fun _ => .junk)
        (echoObject.nativeHandle+sampleLayout.offset .openSlot)=.null ∧
      ¬Dispatches sampleLayout ℕ echoObject (echoScene.memory (fun _ => .junk)) := by
  have hx : echoObject∈echoScene.objects := List.mem_singleton.mpr rfl
  have hnull := (echoScene.unset (fun _ => .junk) hx).slots .openSlot
  refine ⟨rfl,hnull,fun hd => ?_⟩
  exact (hd.slots .openSlot).mpr rfl hnull

end Kpp.FileDispatch
