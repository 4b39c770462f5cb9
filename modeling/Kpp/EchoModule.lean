import Kpp.DeviceClasses
import Kpp.UniqueHandle

/-!
# Load and unload of the echo module

`echo_driver_init` makes five acquisitions that depend on one another and
leaves with an error code as soon as one fails; it undoes nothing.
`echo_driver_exit` calls `release()` on its handles, which gives the
pointers up without deleting anything. Only the region is unregistered.
-/

namespace Kpp.EchoModule

open DeviceClasses MoveOnlyHandle StepRun UniqueHandle

/-- Kernel objects of one kind. -/
structure Pool where
  /-- Objects that exist. -/
  live : List ℕ
  /-- Name of the next object. -/
  next : ℕ

/-- A new object. -/
def Pool.acquire (p : Pool) : ℕ×Pool := (p.next,⟨p.next::p.live,p.next+1⟩)

/-- An object goes away. -/
def Pool.release (n : ℕ) (p : Pool) : Pool := {p with live := p.live.filter (fun m => m != n)}

/-- Objects that the module allocates. -/
inductive Object where
  | echoDriver
  | deviceClass (cls : DeviceClass)
  | charDevice (devNum : ℕ) (isAdded : Bool)
  | device (device : KernelPtr)

/-- Kernel resources the module works with. -/
structure Kernel where
  /-- Heap blocks. -/
  heap : Slab Object
  /-- The allocator's own bookkeeping is in order. -/
  sane : heap.Sane
  /-- chrdev regions. -/
  regions : Pool
  /-- Classes. -/
  classes : Pool
  /-- Character devices added. -/
  cdevs : Pool
  /-- Devices. -/
  devices : Pool

/-- What each step of a load comes back with. -/
structure Outcomes where
  /-- `make_unique<EchoDriver>` gets its block. -/
  driverAllocated : Bool
  /-- `alloc_chrdev_region` succeeds. -/
  regionAllocated : Bool
  /-- `make_unique<DeviceClass>` gets its block. -/
  classAllocated : Bool
  /-- Error of `class_create`, if any. -/
  classFailure : Option ℕ
  /-- `make_unique<CharDevice>` gets its block. -/
  charDevAllocated : Bool
  /-- `cdev_add` succeeds. -/
  cdevAdded : Bool
  /-- `make_unique<Device>` gets its block. -/
  deviceAllocated : Bool
  /-- Error of `device_create`, if any. -/
  deviceFailure : Option ℕ

/-- The module's globals. -/
structure Globals where
  /-- `g_driver`. -/
  driver : UniquePtr
  /-- `g_dev_class`. -/
  devClass : UniquePtr
  /-- `g_char_dev`. -/
  charDev : UniquePtr
  /-- `g_device`. -/
  device : UniquePtr
  /-- `g_dev_num`, by its region. -/
  devNum : ℕ

/-- Globals of a module just loaded. -/
def Globals.fresh : Globals := ⟨⟨none⟩,⟨none⟩,⟨none⟩,⟨none⟩,0⟩

/-- How `echo_driver_init` ends. -/
inductive Exit where
  | returned (code : ℤ)
  | nullDereferenced
  deriving DecidableEq

/-- Error codes. -/
abbrev eNoMem : ℤ := 12
abbrev eFault : ℤ := 14

/-- `make_unique` on the module's heap. -/
def Kernel.makeUnique (obj : Object) (allocated : Bool) (k : Kernel) : UniquePtr×Kernel :=
  ((UniqueHandle.makeUnique obj allocated k.heap).1,
    {k with
      heap := (UniqueHandle.makeUnique obj allocated k.heap).2
      sane := k.sane.makeUnique obj allocated})

/-- A kernel call that returns a new object or an error pointer. -/
def create (failure : Option ℕ) (p : Pool) : KernelPtr×Pool :=
  match failure with
  | none => (.object p.acquire.1,p.acquire.2)
  | some errno => (.error errno,p)

/-- From the allocation of the Device on. -/
def initDevice (o : Outcomes) (g : Globals) (k : Kernel) : Exit×Globals×Kernel :=
  if o.deviceAllocated=true then
    let (ptr,devices) := create o.deviceFailure k.devices
    let (device,k) := {k with devices := devices}.makeUnique (.device ptr) true
    let g := {g with device := device}
    if ptr.isErr=true then (.returned (-eNoMem),g,k) else (.returned 0,g,k)
  else (.returned (-eNoMem),g,k)

/-- From the allocation of the CharDevice on; its pointer is not tested. -/
def initCharDevice (o : Outcomes) (g : Globals) (k : Kernel) : Exit×Globals×Kernel :=
  if o.charDevAllocated=true then
    let (charDev,k) := k.makeUnique (.charDevice g.devNum o.cdevAdded) true
    let g := {g with charDev := charDev}
    if o.cdevAdded=true then initDevice o g {k with cdevs := k.cdevs.acquire.2}
    else (.returned (-eFault),g,k)
  else (.nullDereferenced,g,k)

/-- From the allocation of the DeviceClass on. -/
def initDevClass (o : Outcomes) (g : Globals) (k : Kernel) : Exit×Globals×Kernel :=
  if o.classAllocated=true then
    let (ptr,classes) := create o.classFailure k.classes
    let cls : DeviceClass := ⟨some ptr⟩
    let (devClass,k) := {k with classes := classes}.makeUnique (.deviceClass cls) true
    let g := {g with devClass := devClass}
    if cls.operatorBool=true then initCharDevice o g k else (.returned (-eNoMem),g,k)
  else (.returned (-eNoMem),g,k)

/-- `echo_driver_init` on fresh globals. These are null, so each assignment
of a `make_unique` only takes the new pointer over. -/
def echoDriverInit (o : Outcomes) (k : Kernel) : Exit×Globals×Kernel :=
  let (driver,k) := k.makeUnique .echoDriver o.driverAllocated
  let g := {Globals.fresh with driver := driver}
  if driver.operatorBool=true then
    if o.regionAllocated=true then
      let (devNum,regions) := k.regions.acquire
      initDevClass o {g with devNum := devNum} {k with regions := regions}
    else (.returned (-eFault),g,k)
  else (.returned (-eNoMem),g,k)

/-- `echo_driver_exit`; the pointers that `release()` returns are dropped. -/
def echoDriverExit (g : Globals) (k : Kernel) : Globals×Kernel :=
  let g := {g with device := g.device.release.2}
  let g := {g with charDev := g.charDev.release.2}
  let g := {g with devClass := g.devClass.release.2}
  let k := {k with regions := k.regions.release g.devNum}
  ({g with driver := g.driver.release.2},k)

/-- Every step of the load succeeds. -/
def Outcomes.AllSucceed (o : Outcomes) : Prop :=
  o.driverAllocated=true ∧ o.regionAllocated=true ∧ o.classAllocated=true ∧
    o.classFailure=none ∧ o.charDevAllocated=true ∧ o.cdevAdded=true ∧
    o.deviceAllocated=true ∧ o.deviceFailure=none

/-- Loads and unloads. -/
inductive Action where
  | load (o : Outcomes)
  | unload

/-- The module between its loads. -/
structure State where
  /-- The kernel's resources. -/
  kernel : Kernel
  /-- The globals of a module whose init returned 0. -/
  loaded : Option Globals
  /-- The kernel's resources before the latest load. -/
  before : Kernel
  /-- A null pointer was dereferenced. -/
  fault : Bool

/-- One load attempt or unload; after a fault the kernel admits neither. -/
def step (t : State) : Action → Option State
  | .load o =>
    match t.loaded,t.fault with
    | none,false =>
      let (exit,g,k) := echoDriverInit o t.kernel
      match exit with
      | .nullDereferenced => some ⟨k,none,t.kernel,true⟩
      | .returned code => some ⟨k,if code=0 then some g else none,t.kernel,false⟩
    | _,_ => none
  | .unload =>
    match t.loaded with
    | some g => some {t with kernel := (echoDriverExit g t.kernel).2,loaded := none}
    | none => none

/-- The same objects of every kind exist in both. -/
structure SameResources (k k' : Kernel) : Prop where
  /-- Heap blocks. -/
  heap : ∀ p,k.heap.Live p ↔ k'.heap.Live p
  /-- chrdev regions. -/
  regions : ∀ n,n∈k.regions.live ↔ n∈k'.regions.live
  /-- Classes. -/
  classes : ∀ n,n∈k.classes.live ↔ n∈k'.classes.live
  /-- Character devices. -/
  cdevs : ∀ n,n∈k.cdevs.live ↔ n∈k'.cdevs.live
  /-- Devices. -/
  devices : ∀ n,n∈k.devices.live ↔ n∈k'.devices.live

/-- No bad pointer was used, and a module that is not loaded left nothing. -/
structure Sound (t : State) : Prop where
  /-- No null or error pointer was dereferenced. -/
  clean : t.fault=false
  /-- Without the module the kernel has what it had before. -/
  restored : t.loaded=none → SameResources t.before t.kernel

/-- Loads fail at their first step or not at all, and there is no unload. -/
def NothingToUndo : Action → Prop
  | .load o => o.driverAllocated=false ∨ o.AllSucceed
  | .unload => False

/-- A kernel with these resources, and the module not loaded. -/
def start (k : Kernel) : State := ⟨k,none,k,false⟩

/-- Nothing changed, nothing is different. -/
theorem SameResources.refl (k : Kernel) : SameResources k k :=
  ⟨fun _ => Iff.rfl,fun _ => Iff.rfl,fun _ => Iff.rfl,fun _ => Iff.rfl,fun _ => Iff.rfl⟩

/-- What the rest of a load guarantees: blocks stay, and 0 is returned exactly
if nothing fails from there on. -/
structure Rest (succeeds : Prop) (k : Kernel) (r : Exit×Globals×Kernel) : Prop where
  /-- No block is freed. -/
  blocks : ∀ p,k.heap.Live p → r.2.2.heap.Live p
  /-- Return code 0 means success. -/
  zero : r.1=.returned 0 ↔ succeeds

/-- The error codes are not 0. -/
theorem eNoMem_ne : -eNoMem≠0 := by decide
theorem eFault_ne : -eFault≠0 := by decide

/-- A step that fails ends the load with an error code. -/
theorem Rest.failed {succeeds : Prop} {k k' : Kernel} {g : Globals} {code : ℤ} (hcode : code≠0)
    (hfails : ¬succeeds) (hblocks : ∀ p,k.heap.Live p → k'.heap.Live p) :
    Rest succeeds k (.returned code,g,k') := by
  refine ⟨hblocks,iff_of_false (fun h => ?_) hfails⟩
  cases h
  exact hcode rfl

/-- A part of a load that succeeded, followed by the rest. -/
theorem Rest.after {all rest : Prop} {k k' : Kernel} {r : Exit×Globals×Kernel}
    (hr : Rest rest k' r) (hall : rest ↔ all) (hblocks : ∀ p,k.heap.Live p → k'.heap.Live p) :
    Rest all k r :=
  ⟨fun p hp => hr.blocks p (hblocks p hp),hr.zero.trans hall⟩

/-- The blocks of a kernel stay through an allocation. -/
theorem blocks_makeUnique (k : Kernel) (obj : Object) (allocated : Bool) (p : ℕ)
    (hp : k.heap.Live p) : (k.makeUnique obj allocated).2.heap.Live p :=
  hp.makeUnique obj allocated

/-- The Device's part of a load. -/
theorem initDevice_rest (o : Outcomes) (g : Globals) (k : Kernel) :
    Rest (o.deviceAllocated=true ∧ o.deviceFailure=none) k (initDevice o g k) := by
  by_cases halloc : o.deviceAllocated=true
  · cases hfailure : o.deviceFailure with
    | none =>
      simp only [initDevice,halloc,if_true,hfailure,create,KernelPtr.isErr]
      exact ⟨blocks_makeUnique _ _ true,iff_of_true rfl ⟨trivial,trivial⟩⟩
    | some errno =>
      simp only [initDevice,halloc,if_true,hfailure,create,KernelPtr.isErr]
      exact Rest.failed eNoMem_ne (fun hs => nomatch hs.2) (blocks_makeUnique k _ true)
  · simp only [initDevice,if_neg halloc]
    exact Rest.failed eNoMem_ne (fun hs => halloc hs.1) (fun _ hp => hp)

/-- The CharDevice's part of a load, and what follows. -/
theorem initCharDevice_rest (o : Outcomes) (g : Globals) (k : Kernel) :
    Rest (o.charDevAllocated=true ∧ o.cdevAdded=true ∧ o.deviceAllocated=true ∧
      o.deviceFailure=none) k (initCharDevice o g k) := by
  by_cases halloc : o.charDevAllocated=true
  · by_cases hadded : o.cdevAdded=true
    · simp only [initCharDevice,halloc,hadded,if_true,true_and]
      exact (initDevice_rest o _ _).after Iff.rfl (blocks_makeUnique k _ true)
    · simp only [initCharDevice,halloc,if_true,if_neg hadded]
      exact Rest.failed eFault_ne (fun hs => hadded hs.2.1) (blocks_makeUnique k _ true)
  · simp only [initCharDevice,if_neg halloc]
    exact ⟨fun _ hp => hp,iff_of_false nofun (fun hs => halloc hs.1)⟩

/-- The DeviceClass's part of a load, and what follows. -/
theorem initDevClass_rest (o : Outcomes) (g : Globals) (k : Kernel) :
    Rest (o.classAllocated=true ∧ o.classFailure=none ∧ o.charDevAllocated=true ∧
      o.cdevAdded=true ∧ o.deviceAllocated=true ∧ o.deviceFailure=none) k
      (initDevClass o g k) := by
  by_cases halloc : o.classAllocated=true
  · cases hfailure : o.classFailure with
    | none =>
      simp only [initDevClass,halloc,if_true,hfailure,create,DeviceClass.operatorBool,
        KernelPtr.isErr,true_and]
      exact (initCharDevice_rest o _ _).after Iff.rfl (blocks_makeUnique _ _ true)
    | some errno =>
      simp only [initDevClass,halloc,if_true,hfailure,create,DeviceClass.operatorBool,
        KernelPtr.isErr]
      exact Rest.failed eNoMem_ne (fun hs => nomatch hs.2.1) (blocks_makeUnique k _ true)
  · simp only [initDevClass,if_neg halloc]
    exact Rest.failed eNoMem_ne (fun hs => halloc hs.1) (fun _ hp => hp)

/-- A load whose first allocation fails reports that and changes nothing. -/
theorem echoDriverInit_unallocated {o : Outcomes} (ho : o.driverAllocated=false) (k : Kernel) :
    ∃ g,echoDriverInit o k=(.returned (-eNoMem),g,k) := by
  simp only [echoDriverInit,Kernel.makeUnique,UniqueHandle.makeUnique,ho,Bool.false_eq_true,
    if_false,UniquePtr.operatorBool,Option.isSome_none]
  exact ⟨_,rfl⟩

/-- A load whose first allocation succeeds keeps that block, and returns 0
exactly if every step succeeds. -/
theorem echoDriverInit_allocated {o : Outcomes} (ho : o.driverAllocated=true) (k : Kernel) :
    Rest o.AllSucceed (k.makeUnique .echoDriver true).2 (echoDriverInit o k) := by
  have htest : (k.makeUnique .echoDriver true).1.operatorBool=true := rfl
  by_cases hregion : o.regionAllocated=true
  · have hall : (o.classAllocated=true ∧ o.classFailure=none ∧ o.charDevAllocated=true ∧
        o.cdevAdded=true ∧ o.deviceAllocated=true ∧ o.deviceFailure=none) ↔ o.AllSucceed :=
      ⟨fun hrest => ⟨ho,hregion,hrest⟩,fun hs => hs.2.2⟩
    simp only [echoDriverInit,ho,hregion,htest,if_true]
    exact (initDevClass_rest o _ _).after hall (fun _ hp => hp)
  · simp only [echoDriverInit,ho,htest,if_true,if_neg hregion]
    exact Rest.failed eFault_ne (fun hs => hregion hs.2.1) (fun _ hp => hp)

/-- `echo_driver_init` returns 0 exactly if every step of the load succeeds. -/
theorem echoDriverInit_zero (o : Outcomes) (k : Kernel) :
    (echoDriverInit o k).1=.returned 0 ↔ o.AllSucceed := by
  cases ho : o.driverAllocated with
  | true => exact (echoDriverInit_allocated ho k).zero
  | false =>
    obtain ⟨g,hinit⟩ := echoDriverInit_unallocated ho k
    rw [hinit]
    refine iff_of_false (fun h => ?_) (fun hs => ?_)
    · cases h
    · rw [hs.1] at ho
      cases ho

/-- The block of the driver is there after a load and was not before. -/
theorem driver_block {o : Outcomes} (ho : o.driverAllocated=true) (k : Kernel) :
    (echoDriverInit o k).2.2.heap.Live k.heap.next ∧ ¬k.heap.Live k.heap.next := by
  have hnew := k.sane.live_new .echoDriver
  exact ⟨(echoDriverInit_allocated ho k).blocks _ hnew.1,hnew.2⟩

/-- Sound states in which a loaded module has a block it allocated. -/
structure Kept (t : State) : Prop extends Sound t where
  /-- A block of a loaded module. -/
  block : t.loaded≠none → ∃ p,t.kernel.heap.Live p ∧ ¬t.before.heap.Live p

/-- A load ends with a return code, or in the kernel's fault handler. -/
theorem load_cases {o : Outcomes} {t t' : State} (h : step t (.load o)=some t') :
    (∃ code g k,echoDriverInit o t.kernel=(.returned code,g,k) ∧
      t'=⟨k,if code=0 then some g else none,t.kernel,false⟩) ∨
    ((echoDriverInit o t.kernel).1=.nullDereferenced ∧ t'.fault=true) := by
  simp only [step] at h
  split at h
  · generalize hinit : echoDriverInit o t.kernel=r at h
    obtain ⟨exit,g,k⟩ := r
    cases exit with
    | nullDereferenced =>
      cases h
      exact Or.inr ⟨rfl,rfl⟩
    | returned code =>
      cases h
      exact Or.inl ⟨code,g,k,rfl,rfl⟩
  · cases h

/-- A load that fails at its first step or succeeds keeps the state. -/
theorem step_kept {a : Action} {t t' : State} (hg : NothingToUndo a) (h : step t a=some t') :
    Kept t' := by
  cases a with
  | unload => exact hg.elim
  | load o =>
    rcases hg with hfirst|hall
    · obtain ⟨g,hinit⟩ := echoDriverInit_unallocated hfirst t.kernel
      rcases load_cases h with ⟨code,_,_,hcode,rfl⟩|⟨hnull,_⟩
      · rw [hinit] at hcode
        cases hcode
        exact ⟨⟨rfl,fun _ => SameResources.refl t.kernel⟩,fun hloaded => absurd rfl hloaded⟩
      · rw [hinit] at hnull
        cases hnull
    · have hzero := (echoDriverInit_zero o t.kernel).mpr hall
      have hblock := driver_block hall.1 t.kernel
      rcases load_cases h with ⟨code,g,k,hcode,rfl⟩|⟨hnull,_⟩
      · rw [hcode] at hzero hblock
        cases hzero
        exact ⟨⟨rfl,fun hnone => nomatch hnone⟩,fun _ => ⟨_,hblock⟩⟩
      · rw [hzero] at hnull
        cases hnull

/-- If all is sound after a load or an unload, there was nothing to undo. -/
theorem step_exact {a : Action} {t t' : State} (hk : Kept t) (h : step t a=some t')
    (hs : Sound t') : NothingToUndo a := by
  cases a with
  | unload =>
    simp only [step] at h
    split at h
    · next g hloaded =>
      cases h
      obtain ⟨p,hlive,hnot⟩ := hk.block (by rw [hloaded]; exact nofun)
      exact hnot (((hs.restored rfl).heap p).mpr hlive)
    · cases h
  | load o =>
    cases ho : o.driverAllocated with
    | false => exact Or.inl ho
    | true =>
      refine Or.inr ?_
      obtain ⟨hlive,hnot⟩ := driver_block ho t.kernel
      rcases load_cases h with ⟨code,g,k,hinit,rfl⟩|hfault
      · rw [hinit] at hlive
        by_cases hcode : code=0
        · subst hcode
          exact (echoDriverInit_zero o t.kernel).mp (by rw [hinit])
        · have hsame := hs.restored (if_neg hcode)
          exact absurd ((hsame.heap _).mpr hlive) hnot
      · rw [hs.clean] at hfault
        cases hfault.2

/-- Echo module load and unload. `echo_driver_init` returns 0 only if every
step succeeded; and along a run the kernel is left as it was, without a
fault, if and only if there never was anything to undo. -/
theorem module_restores_iff (k : Kernel) (actions : List Action) :
    (∀ o k,(echoDriverInit o k).1=.returned 0 → o.AllSucceed) ∧
    (Along step Sound (start k) actions ↔
      Guarded step (fun _ => NothingToUndo) (start k) actions) := by
  refine ⟨fun o k h => (echoDriverInit_zero o k).mp h,?_⟩
  have hstart : Kept (start k) := ⟨⟨rfl,fun _ => SameResources.refl k⟩,fun h => absurd rfl h⟩
  exact along_iff_guarded (I := Kept) (fun hk => hk.toSound)
    (fun _ hg h => step_kept hg h) (fun hk h hs => step_exact hk h hs) hstart

/-- A kernel with nothing in it. -/
def Kernel.empty : Kernel := ⟨Slab.empty,Slab.empty_sane,⟨[],0⟩,⟨[],0⟩,⟨[],0⟩,⟨[],0⟩⟩

/-- A load without a chrdev region returns -EFAULT and leaves the driver's
block behind. Without a block for the CharDevice it dereferences null. After
a load and an unload the class, the character device and the device remain. -/
theorem failed_load_leaks :
    (∃ t,run step (start Kernel.empty) [.load ⟨true,false,true,none,true,true,true,none⟩]=some t ∧
      t.loaded=none ∧ t.kernel.heap.next=1 ∧ t.kernel.heap.frees 0=0 ∧ ¬Sound t) ∧
    (∃ t,run step (start Kernel.empty) [.load ⟨true,true,true,none,false,true,true,none⟩]=some t ∧
      t.fault=true ∧ ¬Sound t) ∧
    ∃ t,run step (start Kernel.empty)
        [.load ⟨true,true,true,none,true,true,true,none⟩,.unload]=some t ∧
      t.kernel.regions.live=[] ∧ t.kernel.classes.live=[0] ∧ t.kernel.cdevs.live=[0] ∧
      t.kernel.devices.live=[0] ∧ ¬Sound t := by
  refine ⟨⟨_,rfl,rfl,rfl,rfl,fun hs => ?_⟩,⟨_,rfl,rfl,fun hs => ?_⟩,
    ⟨_,rfl,rfl,rfl,rfl,rfl,fun hs => ?_⟩⟩
  · have hblock := ((hs.restored rfl).heap 0).mpr ⟨Nat.one_pos,rfl⟩
    exact absurd hblock.1 (by decide)
  · cases hs.clean
  · have hclass := ((hs.restored rfl).classes 0).mpr List.mem_cons_self
    cases hclass

end Kpp.EchoModule
