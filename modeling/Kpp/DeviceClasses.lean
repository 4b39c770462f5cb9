import Kpp.MoveOnlyHandle
import Kpp.StepRun

/-!
# Devices and the class handles they refer to

`DeviceClass` owns a class of the driver core. `Device` keeps the pointer
that `device_create` returned and a reference to the handle it was given,
and asks that handle for the class again when it is destroyed. The core
answers creations with an object or an error pointer, and its
`device_destroy` looks the device up by class and number.
-/

namespace Kpp.DeviceClasses

open MoveOnlyHandle StepRun

/-- A pointer returned by the driver core: an object or an encoded error. -/
inductive KernelPtr where
  | object (n : ℕ)
  | error (errno : ℕ)
  deriving DecidableEq

/-- `IS_ERR`. -/
def KernelPtr.isErr : KernelPtr → Bool
  | .object _ => false
  | .error _ => true

/-- How a device was registered. -/
structure Registration where
  /-- Class it was created in. -/
  cls : ℕ
  /-- Its device number. -/
  devt : UInt32
  deriving DecidableEq

/-- State of the driver core. -/
structure Core where
  /-- Number of classes created so far; the next one gets this index. -/
  classes : ℕ
  /-- How often each class was destroyed. -/
  classDestroys : ℕ → ℕ
  /-- Number of devices created so far. -/
  devices : ℕ
  /-- Class and number of each device created. -/
  registration : ℕ → Option Registration
  /-- Classes given in the calls that destroyed each device. -/
  destroyedWith : ℕ → List ℕ
  /-- A destructor dereferenced a null or error pointer or a destroyed handle,
  or passed a null class. -/
  fault : Bool

/-- `class_create`, with the error it fails with if it does. -/
def classCreate (failure : Option ℕ) (w : Core) : KernelPtr×Core :=
  match failure with
  | none => (.object w.classes,{w with classes := w.classes+1})
  | some errno => (.error errno,w)

/-- `class_destroy` ignores error pointers. -/
def classDestroy (cls : KernelPtr) (w : Core) : Core :=
  match cls with
  | .object c =>
    {w with classDestroys := Function.update w.classDestroys c (w.classDestroys c+1)}
  | .error _ => w

/-- `device_create` in a class, with the error it fails with if it does. -/
def deviceCreate (cls : ℕ) (devt : UInt32) (failure : Option ℕ) (w : Core) : KernelPtr×Core :=
  match failure with
  | none => (.object w.devices,
      {w with
        devices := w.devices+1
        registration := Function.update w.registration w.devices (some ⟨cls,devt⟩)})
  | some errno => (.error errno,w)

/-- First device of the class with this number that is still registered. -/
def classFindDevice (cls : ℕ) (devt : UInt32) (w : Core) : Option ℕ :=
  (List.range w.devices).find?
    (fun n => decide (w.registration n=some ⟨cls,devt⟩) && (w.destroyedWith n).isEmpty)

/-- `device_destroy`: nothing happens when the class has no such device. -/
def deviceDestroy (cls : Option KernelPtr) (devt : UInt32) (w : Core) : Core :=
  match cls with
  | none => {w with fault := true}
  | some (.error _) => w
  | some (.object c) =>
    match classFindDevice c devt w with
    | none => w
    | some n =>
      {w with destroyedWith := Function.update w.destroyedWith n (c::w.destroyedWith n)}

/-- `DeviceClass` with its pointer `class_`. -/
abbrev DeviceClass := Owner KernelPtr

/-- `DeviceClass::operator bool`. -/
def DeviceClass.operatorBool (this : DeviceClass) : Bool :=
  match this.held with
  | some cls => !cls.isErr
  | none => false

/-- `Device`; `C` names the storage of class handles. -/
structure Device (C : Type*) where
  /-- `device_`. -/
  device : Option KernelPtr
  /-- The handle that the reference `device_class_` is bound to. -/
  deviceClass : C

/-- Live objects over the driver core. -/
structure State (C X : Type*) where
  /-- Class handles and the core. -/
  classes : Table C KernelPtr Core
  /-- `Device` objects in their storage cells. -/
  devices : X → Option (Device C)

/-- Operations; no order between devices and classes is imposed. -/
inductive Action (C X : Type*) where
  | createClass (h : C) (failure : Option ℕ)
  | moveConstructClass (dst src : C)
  | moveAssignClass (dst src : C)
  | destroyClass (h : C)
  | createDevice (x : X) (h : C) (devt : UInt32) (failure : Option ℕ)
  | destroyDevice (x : X)

variable {C X : Type*}

/-- `~Device()`, which reads the number of its device and the class of the
handle it refers to. -/
def Device.destruct (this : Device C) (handles : C → Option DeviceClass) (w : Core) : Core :=
  match this.device with
  | none => w
  | some (.error _) => {w with fault := true}
  | some (.object n) =>
    match handles this.deviceClass,w.registration n with
    | some cls,some r => deviceDestroy cls.held r.devt w
    | _,_ => {w with fault := true}

section Steps
variable [DecidableEq C] [DecidableEq X]

/-- Construct a `Device` from a class handle that tests true. -/
def createDeviceAt (x : X) (h : C) (devt : UInt32) (failure : Option ℕ) (t : State C X) :
    Option (State C X) :=
  match t.classes.slots h,t.devices x with
  | some ⟨some (.object c)⟩,none =>
    let (device,w) := deviceCreate c devt failure t.classes.world
    some ⟨⟨t.classes.slots,w⟩,Function.update t.devices x (some ⟨some device,h⟩)⟩
  | _,_ => none

/-- Destroy a `Device`. -/
def destroyDeviceAt (x : X) (t : State C X) : Option (State C X) :=
  match t.devices x with
  | some this =>
    some ⟨⟨t.classes.slots,this.destruct t.classes.slots t.classes.world⟩,
      Function.update t.devices x none⟩
  | none => none

/-- One operation. -/
def step (t : State C X) : Action C X → Option (State C X)
  | .createClass h failure =>
    let (cls,w) := classCreate failure t.classes.world
    (construct h ⟨some cls⟩ ⟨t.classes.slots,w⟩).map (fun classes => {t with classes := classes})
  | .moveConstructClass dst src =>
    (moveConstruct dst src t.classes).map (fun classes => {t with classes := classes})
  | .moveAssignClass dst src =>
    (moveAssign classDestroy dst src t.classes).map (fun classes => {t with classes := classes})
  | .destroyClass h =>
    (destroy classDestroy h t.classes).map (fun classes => {t with classes := classes})
  | .createDevice x h devt failure => createDeviceAt x h devt failure t
  | .destroyDevice x => destroyDeviceAt x t

end Steps

/-- No object yet. -/
def start : State C X :=
  ⟨⟨fun _ => none,⟨0,fun _ => 0,0,fun _ => none,fun _ => [],false⟩⟩,fun _ => none⟩

/-- The object in the cell is on this device. -/
def On (t : State C X) (x : X) (n : ℕ) : Prop :=
  ∃ this,t.devices x=some this ∧ this.device=some (.object n)

/-- Each device is registered while its object lives, and was destroyed
exactly once, with its own class, when the object is gone. -/
structure Sound (t : State C X) : Prop where
  /-- No destructor used a bad pointer or passed a null class. -/
  clean : t.classes.world.fault=false
  /-- The device of a live object is registered. -/
  kept : ∀ x n,On t x n → t.classes.world.destroyedWith n=[]
  /-- A device without an object was destroyed once, with its class. -/
  finished : ∀ n r,t.classes.world.registration n=some r → (∀ x,¬On t x n) →
    t.classes.world.destroyedWith n=[r.cls]

/-- Creation gave a device, the handle referred to still has its class, and
no earlier device of that class has its number. -/
def FindsOwn (t : State C X) (this : Device C) : Prop :=
  ∀ ptr,this.device=some ptr → ∃ n r,ptr=.object n ∧
    t.classes.world.registration n=some r ∧
    t.classes.slots this.deviceClass=some ⟨some (.object r.cls)⟩ ∧
    classFindDevice r.cls r.devt t.classes.world=some n

/-- Objects are destroyed only when they find their own device. -/
def DestroysOwn (t : State C X) : Action C X → Prop
  | .destroyDevice x => ∀ this,t.devices x=some this → FindsOwn t this
  | _ => True

/-- Sound states with one object for each device and nothing beyond the last. -/
structure Tracked (t : State C X) : Prop extends Sound t where
  /-- Objects are on devices that were created. -/
  made : ∀ x n,On t x n → ∃ r,t.classes.world.registration n=some r
  /-- A device has one object. -/
  unique : ∀ x y n,On t x n → On t y n → x=y
  /-- Nothing is known of devices not yet created. -/
  unmade : ∀ n,t.classes.world.devices≤n →
    t.classes.world.registration n=none ∧ t.classes.world.destroyedWith n=[]

/-- The device that a lookup finds is of this class and number, and there. -/
theorem classFindDevice_some {cls n : ℕ} {devt : UInt32} {w : Core}
    (h : classFindDevice cls devt w=some n) :
    w.registration n=some ⟨cls,devt⟩ ∧ w.destroyedWith n=[] := by
  have hfound := List.find?_some h
  simpa only [Bool.and_eq_true,decide_eq_true_eq,List.isEmpty_iff] using hfound

/-- The core has the same devices, in the same condition. -/
def SameDevices (w w' : Core) : Prop :=
  w'.devices=w.devices ∧ w'.registration=w.registration ∧ w'.destroyedWith=w.destroyedWith ∧
    w'.fault=w.fault

/-- Creating a class leaves the devices alone. -/
theorem classCreate_same (failure : Option ℕ) (w : Core) :
    SameDevices w (classCreate failure w).2 := by
  cases failure <;> exact ⟨rfl,rfl,rfl,rfl⟩

/-- So does dropping a class handle. -/
theorem destruct_same (this : DeviceClass) (w : Core) :
    SameDevices w (destruct classDestroy this w) := by
  obtain ⟨held⟩ := this
  cases held with
  | none => exact ⟨rfl,rfl,rfl,rfl⟩
  | some cls => cases cls <;> exact ⟨rfl,rfl,rfl,rfl⟩

variable {t t' : State C X}

/-- Operations on class handles keep what is known of devices. -/
theorem Tracked.sameDevices (ht : Tracked t) {w : Core} (hw : SameDevices t.classes.world w)
    (slots : C → Option DeviceClass) : Tracked ⟨⟨slots,w⟩,t.devices⟩ := by
  obtain ⟨hdevices,hregistration,hdestroyed,hfault⟩ := hw
  refine ⟨⟨hfault.trans ht.clean,?_,?_⟩,?_,ht.unique,?_⟩
  · intro x n hon
    exact (congrFun hdestroyed n).trans (ht.kept x n hon)
  · intro n r hr hgone
    rw [hregistration] at hr
    exact (congrFun hdestroyed n).trans (ht.finished n r hr hgone)
  · intro x n hon
    obtain ⟨r,hr⟩ := ht.made x n hon
    exact ⟨r,(congrFun hregistration n).trans hr⟩
  · intro n hn
    dsimp only at hn ⊢
    rw [hdevices] at hn
    rw [hregistration,hdestroyed]
    exact ht.unmade n hn

/-- Objects that are on the same devices keep what is known of them. -/
theorem Tracked.sameOn (ht : Tracked t) {devices : X → Option (Device C)}
    (hon : ∀ x n,On (⟨t.classes,devices⟩ : State C X) x n ↔ On t x n) :
    Tracked ⟨t.classes,devices⟩ := by
  refine ⟨⟨ht.clean,?_,?_⟩,?_,?_,ht.unmade⟩
  · intro x n hx
    exact ht.kept x n ((hon x n).mp hx)
  · intro n r hr hgone
    exact ht.finished n r hr (fun x hx => hgone x ((hon x n).mpr hx))
  · intro x n hx
    exact ht.made x n ((hon x n).mp hx)
  · intro x y n hx hy
    exact ht.unique x y n ((hon x n).mp hx) ((hon y n).mp hy)

/-- The device that the object in a cell is on. -/
theorem On.device {x : X} {n : ℕ} {this : Device C} (hon : On t x n) (hx : t.devices x=some this) :
    this.device=some (.object n) := by
  obtain ⟨that,hthat,hdevice⟩ := hon
  obtain rfl : this=that := Option.some.inj (hx.symm.trans hthat)
  exact hdevice

/-- A raw cell has no object on a device. -/
theorem not_on_raw {x : X} (hraw : t.devices x=none) (n : ℕ) : ¬On t x n := by
  rintro ⟨this,hs,_⟩
  rw [hraw] at hs
  cases hs

/-- No destructor changes how devices were registered. -/
theorem destruct_registration (this : Device C) (handles : C → Option DeviceClass) (w : Core) :
    (this.destruct handles w).registration=w.registration := by
  unfold Device.destruct deviceDestroy
  split
  · rfl
  · rfl
  · split
    · split
      · rfl
      · rfl
      · split <;> rfl
    · rfl

/-- What a destructor within the condition does: its own device is destroyed
with its own class. -/
theorem destruct_own {this : Device C} {n : ℕ} (hown : FindsOwn t this)
    (hdevice : this.device=some (.object n)) :
    ∃ r,t.classes.world.registration n=some r ∧
      this.destruct t.classes.slots t.classes.world={t.classes.world with
        destroyedWith := Function.update t.classes.world.destroyedWith n
          (r.cls::t.classes.world.destroyedWith n)} := by
  obtain ⟨m,r,hptr,hr,hslot,hfind⟩ := hown _ hdevice
  cases hptr
  refine ⟨r,hr,?_⟩
  simp only [Device.destruct,hdevice,hslot,hr,deviceDestroy,hfind]

/-- A destructor that reports no fault and settles its own device finds it. -/
theorem findsOwn_of_destruct {this : Device C}
    (hmade : ∀ n,this.device=some (.object n) →
      ∃ r,t.classes.world.registration n=some r ∧ t.classes.world.destroyedWith n=[])
    (hclean : (this.destruct t.classes.slots t.classes.world).fault=false)
    (hsettled : ∀ n,this.device=some (.object n) →
      (this.destruct t.classes.slots t.classes.world).destroyedWith n≠[]) :
    FindsOwn t this := by
  intro ptr hptr
  cases ptr with
  | error errno => simp only [Device.destruct,hptr,reduceCtorEq] at hclean
  | object n =>
    obtain ⟨r,hr,hthere⟩ := hmade n hptr
    have hn := hsettled n hptr
    refine ⟨n,r,rfl,hr,?_⟩
    cases hslot : t.classes.slots this.deviceClass with
    | none => simp only [Device.destruct,hptr,hslot,reduceCtorEq] at hclean
    | some cls =>
      obtain ⟨held⟩ := cls
      simp only [Device.destruct,hptr,hslot,hr] at hclean hn
      rcases held with _|(c|errno)
      · simp only [deviceDestroy,reduceCtorEq] at hclean
      · cases hfind : classFindDevice c r.devt t.classes.world with
        | none =>
          simp only [deviceDestroy,hfind] at hn
          exact absurd hthere hn
        | some m =>
          simp only [deviceDestroy,hfind] at hn
          have he : n=m := by
            by_contra hne
            rw [Function.update_of_ne hne] at hn
            exact hn hthere
          subst he
          have hfound := (classFindDevice_some hfind).1
          have hcls : r.cls=c :=
            congrArg Registration.cls (Option.some.inj (hr.symm.trans hfound))
          rw [hcls]
          exact ⟨rfl,hfind⟩
      · exact absurd hthere hn

section Preservation
variable [DecidableEq X]

/-- Objects on devices after a cell is overwritten. -/
theorem on_update (classes : Table C KernelPtr Core) (x y : X) (c : Option (Device C)) (n : ℕ) :
    On ⟨classes,Function.update t.devices x c⟩ y n ↔
      (y=x ∧ ∃ this,c=some this ∧ this.device=some (.object n)) ∨ (y≠x ∧ On t y n) := by
  unfold On
  by_cases he : y=x
  · subst he
    simp only [Function.update_self,true_and,ne_eq,not_true_eq_false,false_and,or_false]
  · simp only [Function.update_of_ne he,he,false_and,ne_eq,not_false_eq_true,true_and,false_or]

/-- An object whose creation failed is on no device. -/
theorem Tracked.createFailed (ht : Tracked t) {x : X} (hraw : t.devices x=none) (h : C)
    (errno : ℕ) :
    Tracked ⟨t.classes,Function.update t.devices x (some ⟨some (.error errno),h⟩)⟩ := by
  refine ht.sameOn (fun y n => ?_)
  rw [on_update]
  constructor
  · rintro (⟨_,this,hthis,hdevice⟩|⟨_,hold⟩)
    · cases hthis
      cases hdevice
    · exact hold
  · intro hold
    refine Or.inr ⟨?_,hold⟩
    rintro rfl
    exact not_on_raw hraw n hold

/-- A created device has its one object. -/
theorem Tracked.createDevice (ht : Tracked t) {x : X} (hraw : t.devices x=none) (h : C)
    (cls : ℕ) (devt : UInt32) :
    Tracked ⟨⟨t.classes.slots,(deviceCreate cls devt none t.classes.world).2⟩,
      Function.update t.devices x (some ⟨some (.object t.classes.world.devices),h⟩)⟩ := by
  have hnew := ht.unmade t.classes.world.devices (le_refl _)
  have hon := fun y n => on_update (t := t)
    ⟨t.classes.slots,(deviceCreate cls devt none t.classes.world).2⟩ x y
    (some ⟨some (.object t.classes.world.devices),h⟩) n
  have hcell : ∀ n,(∃ this : Device C,
      some (⟨some (.object t.classes.world.devices),h⟩ : Device C)=some this ∧
        this.device=some (.object n)) ↔ n=t.classes.world.devices := by
    intro n
    constructor
    · rintro ⟨this,hthis,hdevice⟩
      cases hthis
      cases hdevice
      rfl
    · rintro rfl
      exact ⟨_,rfl,rfl⟩
  simp only [hcell] at hon
  have hold : ∀ y n,On t y n → n≠t.classes.world.devices := by
    rintro y n hy rfl
    obtain ⟨r,hr⟩ := ht.made y _ hy
    rw [hnew.1] at hr
    cases hr
  refine ⟨⟨ht.clean,?_,?_⟩,?_,?_,?_⟩
  · intro y n hy
    rcases (hon y n).mp hy with ⟨_,rfl⟩|⟨_,hy⟩
    · exact hnew.2
    · exact ht.kept y n hy
  · intro n r hr hgone
    dsimp only [deviceCreate] at hr ⊢
    by_cases he : n=t.classes.world.devices
    · exact absurd ((hon x n).mpr (Or.inl ⟨rfl,he⟩)) (hgone x)
    · rw [Function.update_of_ne he] at hr
      refine ht.finished n r hr (fun y hy => hgone y ((hon y n).mpr (Or.inr ⟨?_,hy⟩)))
      rintro rfl
      exact not_on_raw hraw n hy
  · intro y n hy
    dsimp only [deviceCreate]
    rcases (hon y n).mp hy with ⟨_,rfl⟩|⟨_,hy⟩
    · exact ⟨_,Function.update_self _ _ _⟩
    · rw [Function.update_of_ne (hold y n hy)]
      exact ht.made y n hy
  · intro y z n hy hz
    rcases (hon y n).mp hy with ⟨ey,rfl⟩|⟨_,hy⟩
    · rcases (hon z _).mp hz with ⟨ez,_⟩|⟨_,hz⟩
      · exact ey.trans ez.symm
      · exact absurd rfl (hold z _ hz)
    · rcases (hon z n).mp hz with ⟨_,he⟩|⟨_,hz⟩
      · exact absurd he (hold y n hy)
      · exact ht.unique y z n hy hz
  · intro n hn
    dsimp only [deviceCreate] at hn ⊢
    have he : n≠t.classes.world.devices := by omega
    rw [Function.update_of_ne he]
    exact ht.unmade n (by omega)

/-- Destroying an object that finds its own device settles that device. -/
theorem Tracked.destroyDevice (ht : Tracked t) {x : X} {this : Device C}
    (hx : t.devices x=some this) (hown : FindsOwn t this) :
    Tracked ⟨⟨t.classes.slots,this.destruct t.classes.slots t.classes.world⟩,
      Function.update t.devices x none⟩ := by
  have hon := fun w y n => on_update (t := t) ⟨t.classes.slots,w⟩ x y none n
  simp only [reduceCtorEq,false_and,exists_false,and_false,false_or] at hon
  cases hptr : this.device with
  | none =>
    have hsame : this.destruct t.classes.slots t.classes.world=t.classes.world := by
      simp only [Device.destruct,hptr]
    rw [hsame]
    refine ht.sameOn (fun y n => (hon _ y n).trans ⟨And.right,fun hy => ⟨?_,hy⟩⟩)
    rintro rfl
    have hdevice := hy.device hx
    rw [hptr] at hdevice
    cases hdevice
  | some ptr =>
    obtain ⟨n,_,rfl,_⟩ := hown ptr hptr
    obtain ⟨r,hr,hdestruct⟩ := destruct_own hown hptr
    rw [hdestruct]
    have hxn : On t x n := ⟨this,hx,hptr⟩
    refine ⟨⟨ht.clean,?_,?_⟩,?_,?_,?_⟩
    · intro y m hy
      have hold := (hon _ y m).mp hy
      have he : m≠n := by
        rintro rfl
        exact hold.1 (ht.unique y x m hold.2 hxn)
      dsimp only
      rw [Function.update_of_ne he]
      exact ht.kept y m hold.2
    · intro m r' hr' hgone
      dsimp only at hr' ⊢
      by_cases he : m=n
      · subst he
        obtain rfl : r=r' := Option.some.inj (hr.symm.trans hr')
        rw [Function.update_self,ht.kept x m hxn]
      · rw [Function.update_of_ne he]
        refine ht.finished m r' hr' (fun y hy => hgone y ((hon _ y m).mpr ⟨?_,hy⟩))
        rintro rfl
        have hdevice := hy.device hx
        rw [hptr] at hdevice
        cases hdevice
        exact he rfl
    · intro y m hy
      exact ht.made y m ((hon _ y m).mp hy).2
    · intro y z m hy hz
      exact ht.unique y z m ((hon _ y m).mp hy).2 ((hon _ z m).mp hz).2
    · intro m hm
      have hnone := ht.unmade m hm
      have he : m≠n := by
        rintro rfl
        rw [hnone.1] at hr
        cases hr
      dsimp only
      rw [Function.update_of_ne he]
      exact hnone

variable [DecidableEq C]

/-- Operations within the condition keep every device tracked. -/
theorem step_tracked {a : Action C X} (ht : Tracked t) (hg : DestroysOwn t a)
    (h : step t a=some t') : Tracked t' := by
  cases a with
  | createClass cell failure =>
    obtain ⟨classes,hmade,rfl⟩ := Option.map_eq_some_iff.mp h
    obtain ⟨_,rfl⟩ := construct_cases hmade
    exact ht.sameDevices (classCreate_same failure t.classes.world) _
  | moveConstructClass dst src =>
    obtain ⟨classes,hmoved,rfl⟩ := Option.map_eq_some_iff.mp h
    obtain ⟨other,_,_,_,rfl⟩ := moveConstruct_cases hmoved
    exact ht.sameDevices ⟨rfl,rfl,rfl,rfl⟩ _
  | moveAssignClass dst src =>
    obtain ⟨classes,hmoved,rfl⟩ := Option.map_eq_some_iff.mp h
    obtain ⟨this,other,_,_,⟨_,rfl⟩|⟨_,rfl⟩⟩ := moveAssign_cases hmoved
    · exact ht
    · exact ht.sameDevices (destruct_same this t.classes.world) _
  | destroyClass cell =>
    obtain ⟨classes,hmoved,rfl⟩ := Option.map_eq_some_iff.mp h
    obtain ⟨this,_,rfl⟩ := destroy_cases hmoved
    exact ht.sameDevices (destruct_same this t.classes.world) _
  | createDevice x cell devt failure =>
    simp only [step,createDeviceAt] at h
    split at h
    · next c hslot hraw =>
      cases h
      cases failure with
      | none => exact ht.createDevice hraw cell c devt
      | some errno => exact ht.createFailed hraw cell errno
    · cases h
  | destroyDevice x =>
    simp only [step,destroyDeviceAt] at h
    split at h
    · next this hx =>
      cases h
      exact ht.destroyDevice hx (hg this hx)
    · cases h

/-- If all is sound after an operation, it was within the condition. -/
theorem step_exact {a : Action C X} (ht : Tracked t) (h : step t a=some t') (hsound : Sound t') :
    DestroysOwn t a := by
  cases a with
  | createClass cell failure => trivial
  | moveConstructClass dst src => trivial
  | moveAssignClass dst src => trivial
  | destroyClass cell => trivial
  | createDevice x cell devt failure => trivial
  | destroyDevice x =>
    simp only [step,destroyDeviceAt] at h
    split at h
    · next this hx =>
      cases h
      intro that hthat
      obtain rfl : this=that := Option.some.inj (hx.symm.trans hthat)
      refine findsOwn_of_destruct ?_ hsound.clean ?_
      · intro n hptr
        obtain ⟨r,hr⟩ := ht.made x n ⟨this,hx,hptr⟩
        exact ⟨r,hr,ht.kept x n ⟨this,hx,hptr⟩⟩
      · intro n hptr
        obtain ⟨r,hr⟩ := ht.made x n ⟨this,hx,hptr⟩
        -- no other object is on this device, so the next state must have settled it
        have hgone : ∀ y,¬On (⟨⟨t.classes.slots,this.destruct t.classes.slots t.classes.world⟩,
            Function.update t.devices x none⟩ : State C X) y n := by
          intro y hy
          rcases (on_update _ x y none n).mp hy with ⟨_,that,hnone,_⟩|⟨hne,hy⟩
          · cases hnone
          · exact hne (ht.unique y x n hy ⟨this,hx,hptr⟩)
        have hr' : (this.destruct t.classes.slots t.classes.world).registration n=some r := by
          rw [destruct_registration]
          exact hr
        rw [hsound.finished n r hr' hgone]
        exact List.cons_ne_nil _ _
    · cases h

/-- Device and DeviceClass histories. In a run every device is destroyed once
with its own class and no destructor goes wrong, if and only if each object
that is destroyed finds its own device. -/
theorem devices_sound_iff (actions : List (Action C X)) :
    Along step Sound start actions ↔ Guarded step DestroysOwn start actions := by
  have hon : ∀ x n,¬On (start : State C X) x n := fun x n => not_on_raw rfl n
  have hstart : Tracked (start : State C X) := by
    refine ⟨⟨rfl,fun _ _ _ => rfl,nofun⟩,?_,?_,fun _ _ => ⟨rfl,rfl⟩⟩
    · intro x n hx
      exact absurd hx (hon x n)
    · intro x y n hx
      exact absurd hx (hon x n)
  exact along_iff_guarded (I := Tracked) (fun ht => ht.toSound)
    (fun ht hg h => step_tracked ht hg h) (fun ht h hsound => step_exact ht h hsound) hstart

end Preservation

/-- A device whose creation failed with -ENOMEM: the destructor takes the error
pointer for a device and reads its number. -/
theorem failed_device_dereferenced :
    ∃ t,run step (start : State (Fin 1) (Fin 1))
        [.createClass 0 none,.createDevice 0 0 5 (some 12),.destroyDevice 0,.destroyClass 0]=
        some t ∧
      t.classes.world.fault=true ∧ ¬Sound t := by
  refine ⟨_,rfl,rfl,fun hsound => ?_⟩
  exact absurd hsound.clean (by decide)

end Kpp.DeviceClasses
