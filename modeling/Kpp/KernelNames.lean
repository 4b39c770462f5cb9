import Kpp.PrintfFormats

/-!
# Names of kernel objects given as StringView

A `StringView` has a length of its own, but every caller that names a
kernel object hands over `data()` alone. The kernel reads the name up to a
NUL byte, and `device_create` expands what it read as a printf format, with
no arguments for it.
-/

namespace Kpp.KernelNames

open CStrings PrintfFormats

/-- `StringView`; pointers are positions in memory, null is `none`. -/
structure StringView where
  /-- `data_`. -/
  data : Option ℕ
  /-- `size_`. -/
  size : ℕ

/-- The kernel's view of a name: the bytes from the pointer up to a NUL. -/
def cString (memory : List UInt8) (ptr : Option ℕ) : Option (List UInt8) :=
  ptr.bind (fun p => terminated (memory.drop p))

/-- `StringView(const char*)`. -/
def StringView.ofCString (memory : List UInt8) (s : Option ℕ) : StringView :=
  ⟨s,((cString memory s).map List.length).getD 0⟩

/-- Bytes of the view. -/
def StringView.bytes (memory : List UInt8) (this : StringView) : List UInt8 :=
  match this.data with
  | some p => (memory.drop p).take this.size
  | none => []

/-- Bytes from the end of the view on. -/
def StringView.following (memory : List UInt8) (this : StringView) : List UInt8 :=
  match this.data with
  | some p => memory.drop (p+this.size)
  | none => []

/-- Kernel functions that take a name, with the name they go by; `none` when
the pointer is null, no NUL follows, or the format takes an argument. -/
def classCreate (memory : List UInt8) (name : Option ℕ) : Option (List UInt8) :=
  cString memory name
def deviceCreate (memory : List UInt8) (fmt : Option ℕ) : Option (List UInt8) :=
  (cString memory fmt).bind (fun s => format .text s [])
def debugfsCreateDir (memory : List UInt8) (name : Option ℕ) : Option (List UInt8) :=
  cString memory name
def debugfsCreateFile (memory : List UInt8) (name : Option ℕ) : Option (List UInt8) :=
  cString memory name
def devGetByName (memory : List UInt8) (name : Option ℕ) : Option (List UInt8) :=
  cString memory name

/-- Functions that name a kernel object by a `StringView`. -/
inductive Caller where
  | deviceClass
  | device
  | createDir
  | createFile
  | findDevice
  deriving DecidableEq

/-- The name that the kernel goes by in each of them. -/
def Caller.kernelName (memory : List UInt8) (name : StringView) : Caller → Option (List UInt8)
  | .deviceClass => classCreate memory name.data
  | .device => deviceCreate memory name.data
  | .createDir => debugfsCreateDir memory name.data
  | .createFile => debugfsCreateFile memory name.data
  | .findDevice => devGetByName memory name.data

/-- A view without NUL bytes somewhere in a memory. -/
structure Name where
  /-- All bytes there are, those around the view included. -/
  memory : List UInt8
  /-- The view. -/
  view : StringView
  /-- A view of bytes lies in memory, and the null view is empty. -/
  inside : ∀ p,view.data=some p → p+view.size≤ memory.length
  /-- The null view has no bytes. -/
  null : view.data=none → view.size=0
  /-- None of its bytes is NUL. -/
  noNul : (0 : UInt8)∉view.bytes memory

/-- Bytes of the view. -/
def Name.bytes (n : Name) : List UInt8 := n.view.bytes n.memory

/-- Bytes behind the view. -/
def Name.following (n : Name) : List UInt8 := n.view.following n.memory

/-- The caller's kernel object has exactly the bytes of the view for a name. -/
def Name.Exact (n : Name) (caller : Caller) : Prop :=
  caller.kernelName n.memory n.view=some n.bytes

/-- The name is the same whatever the bytes around the view are. -/
def Name.Independent (n : Name) (caller : Caller) : Prop :=
  ∀ m : Name,m.view=n.view → m.bytes=n.bytes →
    caller.kernelName m.memory m.view=caller.kernelName n.memory n.view

/-- What stands in memory from the start of a non-null view on. -/
theorem Name.drop_eq (n : Name) {p : ℕ} (hp : n.view.data=some p) :
    n.memory.drop p=n.bytes++n.following := by
  unfold bytes following StringView.bytes StringView.following
  rw [hp]
  dsimp only
  rw [←List.drop_drop,List.take_append_drop]

/-- The C string at the view's pointer: the bytes of the view, then those up
to the NUL. -/
theorem Name.cString_eq_some (n : Name) (s : List UInt8) :
    cString n.memory n.view.data=some s ↔
      ∃ w,(0 : UInt8)∉w ∧ w++[0]<+:n.following ∧ s=n.bytes++w := by
  cases hp : n.view.data with
  | none =>
    have hfollowing : n.following=[] := by
      unfold following StringView.following
      rw [hp]
    simp only [cString,Option.bind_none,reduceCtorEq,hfollowing,List.prefix_nil,
      List.append_eq_nil_iff,List.cons_ne_nil,and_false,false_and,exists_false]
  | some p =>
    have hzero : (0 : UInt8)∉n.bytes := n.noNul
    simp only [cString,Option.bind_some]
    rw [n.drop_eq hp,terminated_append hzero,Option.map_eq_some_iff]
    constructor
    · rintro ⟨w,hw,rfl⟩
      have hread := terminated_eq_some.mp hw
      exact ⟨w,hread.1,hread.2,rfl⟩
    · rintro ⟨w,hzero,hfront,rfl⟩
      exact ⟨w,terminated_eq_some.mpr ⟨hzero,hfront⟩,rfl⟩

/-- A name read as it is has the view's bytes exactly when NUL follows. -/
theorem Name.cString_exact (n : Name) :
    cString n.memory n.view.data=some n.bytes ↔ [0]<+:n.following := by
  rw [n.cString_eq_some]
  constructor
  · rintro ⟨w,_,hfront,hbytes⟩
    obtain rfl : w=[] := List.append_right_eq_self.mp hbytes.symm
    exact hfront
  · intro hfront
    exact ⟨[],List.not_mem_nil,hfront,(List.append_nil _).symm⟩

/-- All callers but `Device` pass the name on as it is. -/
theorem Caller.kernelName_eq {caller : Caller} (h : caller≠.device) (memory : List UInt8)
    (name : StringView) : caller.kernelName memory name=cString memory name.data := by
  cases caller with
  | device => exact absurd rfl h
  | _ => rfl

/-- Such a caller's name is exactly the view when NUL follows, and only then. -/
theorem Name.exact_iff (n : Name) {caller : Caller} (hcaller : caller≠.device) :
    n.Exact caller ↔ [0]<+:n.following := by
  unfold Exact
  rw [Caller.kernelName_eq hcaller]
  exact n.cString_exact

/-- The bytes of a non-null view are as many as its size. -/
theorem Name.length_bytes (n : Name) {p : ℕ} (hp : n.view.data=some p) :
    n.bytes.length=n.view.size := by
  have hin := n.inside p hp
  unfold bytes StringView.bytes
  rw [hp]
  dsimp only
  rw [List.length_take,List.length_drop]
  omega

/-- A memory that goes on with other bytes behind the view. -/
theorem Name.followed_drop (n : Name) {p : ℕ} (hp : n.view.data=some p) (tail : List UInt8) :
    (n.memory.take (p+n.view.size)++tail).drop p=n.bytes++tail := by
  have hin := n.inside p hp
  have hlen : p≤(n.memory.take (p+n.view.size)).length := by
    rw [List.length_take]
    omega
  have hbytes : n.bytes=(n.memory.drop p).take n.view.size := by
    unfold bytes StringView.bytes
    rw [hp]
  rw [List.drop_append_of_le_length hlen,List.drop_take,Nat.add_sub_cancel_left,hbytes]

/-- Any bytes can stand behind a non-null view. -/
theorem Name.exists_followed (n : Name) {p : ℕ} (hp : n.view.data=some p) (tail : List UInt8) :
    ∃ m : Name,m.view=n.view ∧ m.bytes=n.bytes ∧ m.following=tail := by
  have hin := n.inside p hp
  have hlen := n.length_bytes hp
  have hdrop := n.followed_drop hp tail
  generalize hmemory : n.memory.take (p+n.view.size)++tail=memory at hdrop
  have hbytes : n.view.bytes memory=n.bytes := by
    unfold StringView.bytes
    rw [hp]
    dsimp only
    rw [hdrop,←hlen,List.take_left]
  have hfollowing : n.view.following memory=tail := by
    unfold StringView.following
    rw [hp]
    dsimp only
    rw [←List.drop_drop,hdrop,←hlen,List.drop_left]
  have hinside : ∀ q,n.view.data=some q → q+n.view.size≤ memory.length := by
    intro q hq
    obtain rfl : p=q := Option.some.inj (hp.symm.trans hq)
    rw [←hmemory,List.length_append,List.length_take]
    omega
  have hnoNul : (0 : UInt8)∉n.view.bytes memory := hbytes ▸ n.noNul
  exact ⟨⟨memory,n.view,hinside,n.null,hnoNul⟩,rfl,hbytes,hfollowing⟩

/-- The kernel reads the bytes of a view and those up to the NUL behind it. -/
theorem Name.exists_read (n : Name) {p : ℕ} (hp : n.view.data=some p) {w : List UInt8}
    (hw : (0 : UInt8)∉w) :
    ∃ m : Name,m.view=n.view ∧ m.bytes=n.bytes ∧
      cString m.memory m.view.data=some (n.bytes++w) := by
  obtain ⟨m,hview,hbytes,hfollowing⟩ := n.exists_followed hp (w++[0])
  refine ⟨m,hview,hbytes,(m.cString_eq_some _).mpr ⟨w,hw,?_,?_⟩⟩
  · rw [hfollowing]
  · rw [hbytes]

/-- Every non-null view stands in some memory where its name is another. -/
theorem Name.exists_inexact (n : Name) {p : ℕ} (hp : n.view.data=some p) (caller : Caller) :
    ∃ m : Name,m.view=n.view ∧ m.bytes=n.bytes ∧ ¬m.Exact caller := by
  -- The kernel reads the view's bytes and an `A`, or these bytes alone.
  obtain ⟨long,hlview,hlbytes,hlong⟩ := n.exists_read hp (w := [65]) (by decide)
  obtain ⟨short,hsview,hsbytes,hshort⟩ := n.exists_read hp (w := []) List.not_mem_nil
  have hmore : n.bytes++[65]≠n.bytes := by
    intro h
    exact absurd (List.append_right_eq_self.mp h) (List.cons_ne_nil 65 [])
  by_cases hdevice : caller=.device
  · subst hdevice
    by_cases hexact : short.Exact .device
    · -- The view has no percent sign then, and the `A` is printed.
      refine ⟨long,hlview,hlbytes,fun h => ?_⟩
      simp only [Exact,Caller.kernelName,deviceCreate,hshort,hsbytes,Option.bind_some,
        List.append_nil] at hexact
      have hfree : percent∉n.bytes := by
        intro hpercent
        have hless := (format_length hexact).2 rfl hpercent
        omega
      have hfree' : percent∉n.bytes++[65] := by
        rw [List.mem_append,not_or]
        exact ⟨hfree,by decide⟩
      simp only [Exact,Caller.kernelName,deviceCreate,hlong,hlbytes,Option.bind_some,
        format_text hfree'] at h
      exact hmore (Option.some.inj h)
    · exact ⟨short,hsview,hsbytes,hexact⟩
  · refine ⟨long,hlview,hlbytes,fun h => ?_⟩
    rw [Exact,Caller.kernelName_eq hdevice,hlong,hlbytes] at h
    exact hmore (Option.some.inj h)

/-- A null view names nothing. -/
theorem Name.Exact.data {n : Name} {caller : Caller} (h : n.Exact caller) :
    ∃ p,n.view.data=some p := by
  cases hp : n.view.data with
  | some p => exact ⟨p,rfl⟩
  | none =>
    have hnone : cString n.memory n.view.data=none := by
      rw [hp]
      rfl
    unfold Name.Exact at h
    by_cases hdevice : caller=.device
    · simp only [hdevice,Caller.kernelName,deviceCreate,hnone,Option.bind_none,reduceCtorEq] at h
    · simp only [Caller.kernelName_eq hdevice,hnone,reduceCtorEq] at h

/-- Views of whole C strings are named exactly where they stand, by `Device`
if they have no percent signs. -/
theorem Name.exact_ofCString {n : Name} {s : List UInt8}
    (hview : n.view=StringView.ofCString n.memory n.view.data)
    (hs : cString n.memory n.view.data=some s) {caller : Caller}
    (hpercent : caller=.device → percent∉s) : n.Exact caller := by
  have hsize : n.view.size=s.length := by
    rw [hview]
    simp only [StringView.ofCString,hs,Option.map_some,Option.getD_some]
  obtain ⟨w,_,_,hw⟩ := (n.cString_eq_some s).mp hs
  have hbytes : n.bytes=s := by
    obtain ⟨p,hp⟩ : ∃ p,n.view.data=some p := by
      cases hp : n.view.data with
      | some p => exact ⟨p,rfl⟩
      | none =>
        rw [hp] at hs
        cases hs
    have hlen := congrArg List.length hw
    rw [List.length_append,n.length_bytes hp] at hlen
    obtain rfl : w=[] := List.length_eq_zero_iff.mp (by omega)
    rw [hw,List.append_nil]
  unfold Name.Exact
  rw [hbytes]
  by_cases hdevice : caller=.device
  · simp only [hdevice,Caller.kernelName,deviceCreate,hs,Option.bind_some,
      format_text (hpercent hdevice)]
  · rw [Caller.kernelName_eq hdevice]
    exact hs

/-- Names of kernel objects. No view is named exactly by its bytes and
independently of those around it: the next byte decides where the name ends,
whatever the caller. -/
theorem never_named_by_view (n : Name) (caller : Caller) :
    ¬(n.Exact caller ∧ n.Independent caller) := by
  rintro ⟨hexact,hindependent⟩
  obtain ⟨p,hp⟩ := hexact.data
  obtain ⟨m,hview,hbytes,hother⟩ := n.exists_inexact hp caller
  refine hother ?_
  unfold Name.Exact
  rw [hindependent m hview hbytes,hbytes]
  exact hexact

/-- The first three bytes of the string `echo`. -/
def echoPrefix : Name :=
  ⟨[101,99,104,111,0],⟨some 0,3⟩,fun p hp => by cases hp; decide,nofun,by decide⟩

/-- All of the string `a%%`. -/
def doubledPercent : Name :=
  ⟨[97,37,37,0],⟨some 0,3⟩,fun p hp => by cases hp; decide,nofun,by decide⟩

/-- A class named by the first three bytes of `echo` is named by all four, and
a device named `a%%` loses a percent sign. -/
theorem subview_name_runs_on :
    echoPrefix.bytes=[101,99,104] ∧
      Caller.deviceClass.kernelName echoPrefix.memory echoPrefix.view=some [101,99,104,111] ∧
      doubledPercent.bytes=[97,37,37] ∧
      Caller.device.kernelName doubledPercent.memory doubledPercent.view=some [97,37] ∧
      ¬echoPrefix.Exact .deviceClass ∧ ¬doubledPercent.Exact .device := by
  refine ⟨rfl,by decide,rfl,by decide,?_,?_⟩
  · unfold Name.Exact
    decide
  · unfold Name.Exact
    decide

end Kpp.KernelNames
