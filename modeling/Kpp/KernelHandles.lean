import Kpp.MoveOnlyHandle
import Kpp.MovableObject
import Kpp.StepRun

/-!
# Sockets, programs, routes and ksets behind one pointer

`KernelSocket`, `BPFProgram`, `DstEntry` and `KSet` each own one reference of
a kernel object through their pointer. They differ in where the pointer comes
from, in the function that gives the reference back and in what a call on an
empty one answers. The rest of the kernel holds references of its own, and
takes and drops them at any time.
-/

namespace Kpp.KernelHandles

open MovableObject MoveOnlyHandle StepRun

/-- Class of a wrapper, and of the kernel objects it may own. -/
inductive Kind where
  | socket
  | program
  | dst
  | kset
  deriving DecidableEq

/-- Kernel objects with the references on them. -/
structure Kernel (R : Type*) where
  /-- The object was created. -/
  created : R → Bool
  /-- References on each object; the last one frees it. -/
  refs : R → ℕ
  /-- References that the wrappers do not own, those of descriptors included. -/
  outside : R → ℕ
  /-- How often each object was freed. -/
  frees : R → ℕ
  /-- How often each release function was called on each object. -/
  releases : Kind → R → ℕ
  /-- An object was used, or its reference dropped, when no reference was left. -/
  stale : Bool

/-- Kernel's error for a call on an empty socket. -/
abbrev EINVAL : ℤ := 22

variable {R H : Type*}

/-- A call that works on the object. -/
def Kernel.use (r : R) (k : Kernel R) : Kernel R := {k with stale := k.stale || k.refs r==0}

/-- A use of an object that has a reference is no fault. -/
theorem use_eq {k : Kernel R} {r : R} (h : 0<k.refs r) : k.use r=k := by
  have hzero : (k.refs r==0)=false := beq_eq_false_iff_ne.mpr (Nat.ne_of_gt h)
  simp only [Kernel.use,hzero,Bool.or_false]

variable [DecidableEq R]

/-- A new object with one reference. -/
def Kernel.make (r : R) (k : Kernel R) : Kernel R :=
  {k with created := Function.update k.created r true,refs := Function.update k.refs r 1}

/-- One reference more. -/
def Kernel.get (r : R) (k : Kernel R) : Kernel R :=
  {k.use r with refs := Function.update k.refs r (k.refs r+1)}

/-- One reference less. -/
def Kernel.put (r : R) (k : Kernel R) : Kernel R :=
  {k.use r with
    refs := Function.update k.refs r (k.refs r-1)
    frees := Function.update k.frees r (k.frees r+if k.refs r=1 then 1 else 0)}

/-- A release function of the kernel. -/
def releaseWith (kind : Kind) (r : R) (k : Kernel R) : Kernel R :=
  {k.put r with
    releases := Function.update k.releases kind
      (Function.update (k.releases kind) r (k.releases kind r+1))}

/-- `sock_release`. -/
def sockRelease : R → Kernel R → Kernel R := releaseWith .socket

/-- `bpf_prog_put`. -/
def bpfProgPut : R → Kernel R → Kernel R := releaseWith .program

/-- `dst_release`. -/
def dstRelease : R → Kernel R → Kernel R := releaseWith .dst

/-- `kset_unregister`. -/
def ksetUnregister : R → Kernel R → Kernel R := releaseWith .kset

/-- Destructor and moves of a wrapper with its release function. -/
def wrapper (release : R → Kernel R → Kernel R) : MoveOnly (Owner R) (Kernel R) where
  moveFrom := MoveOnlyHandle.moveFrom
  assignFrom := MoveOnlyHandle.assignFrom release
  destruct := MoveOnlyHandle.destruct release
  assign_eq _ _ _ := rfl

/-- `KernelSocket`, with `sock_`. -/
def kernelSocket : MoveOnly (Owner R) (Kernel R) := wrapper sockRelease

/-- `BPFProgram`, with `prog_`. -/
def bpfProgram : MoveOnly (Owner R) (Kernel R) := wrapper bpfProgPut

/-- `DstEntry`, with `dst_`. -/
def dstEntry : MoveOnly (Owner R) (Kernel R) := wrapper dstRelease

/-- `KSet`, with `kset_`. -/
def kSet : MoveOnly (Owner R) (Kernel R) := wrapper ksetUnregister

/-- The class of each kind. -/
def classOf : Kind → MoveOnly (Owner R) (Kernel R)
  | .socket => kernelSocket
  | .program => bpfProgram
  | .dst => dstEntry
  | .kset => kSet

/-- A constructor that asks the kernel for a new object, null on failure. -/
def createObject (made : Option R) (k : Kernel R) : Owner R×Kernel R :=
  match made with
  | some r => (⟨some r⟩,k.make r)
  | none => (⟨none⟩,k)

/-- `KernelSocket(family, type, protocol)`, with what `sock_create_kern` makes. -/
def KernelSocket.create : Option R → Kernel R → Owner R×Kernel R := createObject

/-- `KSet(name, parent_kobj)`, with what `kset_create_and_add` makes. -/
def KSet.create : Option R → Kernel R → Owner R×Kernel R := createObject

/-- The constructor of a class that makes a new object, if it has one. -/
def createOn : Kind → Option (Option R → Kernel R → Owner R×Kernel R)
  | .socket => some KernelSocket.create
  | .kset => some KSet.create
  | _ => none

/-- A constructor that takes over a pointer, and with it a reference. -/
def adopt (pointer : Option R) (k : Kernel R) : Owner R×Kernel R :=
  match pointer with
  | some r => (⟨some r⟩,{k with outside := Function.update k.outside r (k.outside r-1)})
  | none => (⟨none⟩,k)

/-- `KernelSocket(existing_sock)`, `BPFProgram(prog)` and `DstEntry(dst)`. -/
def KernelSocket.adopt : Option R → Kernel R → Owner R×Kernel R := KernelHandles.adopt
def BPFProgram.adopt : Option R → Kernel R → Owner R×Kernel R := KernelHandles.adopt
def DstEntry.adopt : Option R → Kernel R → Owner R×Kernel R := KernelHandles.adopt

/-- The constructor of a class that takes over a pointer, if it has one. -/
def adoptOn : Kind → Option (Option R → Kernel R → Owner R×Kernel R)
  | .socket => some KernelSocket.adopt
  | .program => some BPFProgram.adopt
  | .dst => some DstEntry.adopt
  | .kset => none

/-- `bpf::program_from_fd`, with the program of the descriptor; its error
pointers become null. -/
def programFromFd (found : Option R) (k : Kernel R) : Owner R×Kernel R :=
  match found with
  | some r => (⟨some r⟩,k.get r)
  | none => (⟨none⟩,k)

/-- A call that a wrapper passes on to its object with the kernel's answer,
or answers itself when it is empty. -/
def passOn (whenEmpty : ℤ) (this : Owner R) (answer : ℤ) (k : Kernel R) : ℤ×Kernel R :=
  match this.held with
  | some r => (answer,k.use r)
  | none => (whenEmpty,k)

/-- `KernelSocket::connect`, `bind`, `listen`, `send` and `receive`. -/
def KernelSocket.request : Owner R → ℤ → Kernel R → ℤ×Kernel R := passOn (-EINVAL)

/-- `KernelSocket::shutdown`. -/
def KernelSocket.shutdown (this : Owner R) (k : Kernel R) : Kernel R := (passOn 0 this 0 k).2

/-- `KernelSocket::accept`, with the answer of the socket's own accept. The
local pointer goes there by value and stays null. An accept that uses the
null socket would fault; here it is assumed to answer without doing so. -/
def KernelSocket.accept (this : Owner R) (answer : ℤ) (k : Kernel R) : Owner R×Kernel R :=
  let newSock : Option R := none
  let (ret,k) := KernelSocket.request this answer k
  if ret<0 then (⟨none⟩,k) else (⟨newSock⟩,k)

/-- `BPFProgram::run`. -/
def BPFProgram.run : Owner R → ℤ → Kernel R → ℤ×Kernel R := passOn 0

/-- A call on a wrapper. Routes and ksets are used through their pointer, where
it is not null. -/
def callOn : Kind → Owner R → ℤ → Kernel R → ℤ×Kernel R
  | .socket => KernelSocket.request
  | .program => BPFProgram.run
  | .dst => passOn 0
  | .kset => passOn 0

/-- Wrappers in their storage, over the kernel. -/
structure State (R H : Type*) where
  /-- Wrapper in each cell; `none` is raw storage. -/
  cells : H → Option (Owner R)
  /-- The kernel's objects. -/
  kernel : Kernel R

/-- Operations of wrappers, and what the rest of the kernel does. -/
inductive Action (R H : Type*) where
  | create (h : H) (made : Option R)
  | adopt (h : H) (pointer : Option R)
  | programFromFd (h : H) (found : Option R)
  | accept (dst src : H) (answer : ℤ)
  | use (h : H) (answer : ℤ)
  | shutdown (h : H)
  | moveConstruct (dst src : H)
  | moveAssign (dst src : H)
  | destroy (h : H)
  | outsideMake (r : R)
  | outsideGet (r : R)
  | outsidePut (r : R)

/-- The kernel hands out an object for a wrapper of its kind. -/
def Allows (kind : R → Kind) (h : Kind) (ready : R → Prop) (pointer : Option R) : Prop :=
  ∀ r,pointer=some r → kind r=h ∧ ready r

instance (kind : R → Kind) (h : Kind) (ready : R → Prop) [DecidablePred ready]
    (pointer : Option R) : Decidable (Allows kind h ready pointer) :=
  match pointer with
  | none => isTrue nofun
  | some r => decidable_of_iff (kind r=h ∧ ready r)
      ⟨fun hr _ he => Option.some.inj he ▸ hr,fun hr => hr r rfl⟩

section Steps
variable [DecidableEq H] (type : H → Kind) (kind : R → Kind)

/-- One operation. Cells have the class of their type, adopted pointers come
with a reference, and descriptors hold one. Sockets are not counted: nobody
takes a second reference of one. -/
def step (s : State R H) : Action R H → Option (State R H)
  | .create h made =>
    (createOn (type h)).bind fun create =>
      if Allows kind (type h) (fun r => s.kernel.created r=false) made then
        let (this,k) := create made s.kernel
        (construct h this s.cells).map (fun cells => ⟨cells,k⟩)
      else none
  | .adopt h pointer =>
    (adoptOn (type h)).bind fun adopt =>
      if Allows kind (type h) (fun r => 0<s.kernel.outside r) pointer then
        let (this,k) := adopt pointer s.kernel
        (construct h this s.cells).map (fun cells => ⟨cells,k⟩)
      else none
  | .programFromFd h found =>
    if type h=.program ∧ Allows kind .program (fun r => 0<s.kernel.outside r) found then
      let (this,k) := KernelHandles.programFromFd found s.kernel
      (construct h this s.cells).map (fun cells => ⟨cells,k⟩)
    else none
  | .accept dst src answer =>
    match s.cells src with
    | none => none
    | some this =>
      if type dst=.socket ∧ type src=.socket then
        let (made,k) := KernelSocket.accept this answer s.kernel
        (construct dst made s.cells).map (fun cells => ⟨cells,k⟩)
      else none
  | .use h answer =>
    (s.cells h).map (fun this => ⟨s.cells,(callOn (type h) this answer s.kernel).2⟩)
  | .shutdown h =>
    if type h=.socket then
      (s.cells h).map (fun this => ⟨s.cells,KernelSocket.shutdown this s.kernel⟩)
    else none
  | .moveConstruct dst src =>
    if type dst=type src then
      (moveConstruct (classOf (type dst)) dst src s.cells).map (fun cells => ⟨cells,s.kernel⟩)
    else none
  | .moveAssign dst src =>
    if type dst=type src then
      (moveAssign (classOf (type dst)) dst src s.cells s.kernel).map (fun (cells,k) => ⟨cells,k⟩)
    else none
  | .destroy h =>
    (destroy (classOf (type h)) h s.cells s.kernel).map (fun (cells,k) => ⟨cells,k⟩)
  | .outsideMake r =>
    if s.kernel.created r=false then
      some ⟨s.cells,{s.kernel.make r with outside := Function.update s.kernel.outside r 1}⟩
    else none
  | .outsideGet r =>
    if kind r≠.socket ∧ 0<s.kernel.refs r then
      some ⟨s.cells,{s.kernel.get r with
        outside := Function.update s.kernel.outside r (s.kernel.outside r+1)}⟩
    else none
  | .outsidePut r =>
    if 0<s.kernel.outside r then
      some ⟨s.cells,{s.kernel.put r with
        outside := Function.update s.kernel.outside r (s.kernel.outside r-1)}⟩
    else none

end Steps

/-- No object and no wrapper yet. -/
def start : State R H :=
  ⟨fun _ => none,⟨fun _ => false,fun _ => 0,fun _ => 0,fun _ => 0,fun _ _ => 0,false⟩⟩

/-- References of the object that a wrapper owns. -/
def owns (r : R) (this : Owner R) : ℕ := if this.held=some r then 1 else 0

/-- What is known of one object. -/
structure Account (created : Bool) (refs outside owned frees : ℕ) : Prop where
  /-- Each reference is of a wrapper or of the rest of the kernel. -/
  matched : refs=outside+owned
  /-- An object is freed once, when its last reference is gone. -/
  freed : frees+(if 0<refs then 1 else 0)=if created=true then 1 else 0

variable [Fintype H]

/-- Every object is accounted for, and nothing was used that had no reference. -/
structure Balanced (type : H → Kind) (kind : R → Kind) (s : State R H) : Prop where
  /-- The account of each object. -/
  account : ∀ r,Account (s.kernel.created r) (s.kernel.refs r) (s.kernel.outside r)
    (total (owns r) s.cells) (s.kernel.frees r)
  /-- No use without a reference. -/
  fresh : s.kernel.stale=false
  /-- A wrapper owns an object of its class. -/
  typed : ∀ h v r,s.cells h=some v → v.held=some r → kind r=type h
  /-- Objects are released by the function of their class only. -/
  proper : ∀ K r,kind r≠K → s.kernel.releases K r=0
  /-- A socket has one owner at most. -/
  sole : ∀ r,kind r=.socket → s.kernel.refs r≤1

section Kernel
variable {type : H → Kind} {kind : R → Kind} {s s' : State R H} {r : R}

/-- A wrapper in a cell owns no more than there is. -/
theorem Balanced.owned_pos (hb : Balanced type kind s) {h : H} {v : Owner R}
    (hs : s.cells h=some v) (hr : v.held=some r) : 0<s.kernel.refs r := by
  have hle := le_total (owns r) hs
  have hmatched := (hb.account r).matched
  simp only [owns,hr,if_true] at hle
  omega

/-- So does the rest of the kernel. -/
theorem Balanced.outside_pos (hb : Balanced type kind s) (hr : 0<s.kernel.outside r) :
    0<s.kernel.refs r := by
  have hmatched := (hb.account r).matched
  omega

/-- A call on a wrapper finds its object alive. -/
theorem Balanced.passOn_eq (hb : Balanced type kind s) {h : H} {v : Owner R}
    (hs : s.cells h=some v) (e answer : ℤ) : (passOn e v answer s.kernel).2=s.kernel := by
  obtain ⟨held⟩ := v
  cases held with
  | none => rfl
  | some r => exact use_eq (hb.owned_pos hs rfl)

/-- The class of a kind releases with its function. -/
theorem classOf_destruct (K : Kind) (this : Owner R) (k : Kernel R) :
    (classOf K).destruct this k=MoveOnlyHandle.destruct (releaseWith K) this k := by
  cases K <;> rfl

/-- Moves of a class carry the reference. -/
theorem owns_carried (K : Kind) (r : R) : Carried (classOf K) (owns r) := by
  intro v
  have hmove : (classOf K).moveFrom v=(⟨v.held⟩,⟨none⟩) := by cases K <;> rfl
  rw [hmove]
  exact ⟨rfl,if_neg nofun⟩

/-- A reference less in an account. -/
theorem Account.put {created : Bool} {refs outside owned frees : ℕ}
    (ha : Account created refs outside owned frees) (hpos : 0<refs) {outside' owned' : ℕ}
    (hone : outside'+owned'+1=outside+owned) :
    Account created (refs-1) outside' owned' (frees+if refs=1 then 1 else 0) := by
  have hmatched := ha.matched
  have hfreed := ha.freed
  refine ⟨by omega,?_⟩
  rw [if_pos hpos] at hfreed
  by_cases hlast : refs=1
  · rw [if_pos hlast,hlast]
    simpa using hfreed
  · rw [if_neg hlast,if_pos (by omega)]
    exact hfreed

/-- A reference more in an account. -/
theorem Account.get {created : Bool} {refs outside owned frees : ℕ}
    (ha : Account created refs outside owned frees) (hpos : 0<refs) {outside' owned' : ℕ}
    (hone : outside'+owned'=outside+owned+1) :
    Account created (refs+1) outside' owned' frees := by
  have hmatched := ha.matched
  have hfreed := ha.freed
  rw [if_pos hpos] at hfreed
  exact ⟨by omega,by rw [if_pos (Nat.succ_pos refs)]; exact hfreed⟩

/-- An object that was not created has no reference and no owner. -/
theorem Account.unmade {refs outside owned frees : ℕ}
    (ha : Account false refs outside owned frees) :
    refs=0 ∧ outside=0 ∧ owned=0 ∧ frees=0 := by
  have hmatched := ha.matched
  have hfreed := ha.freed
  simp only [Bool.false_eq_true,if_false] at hfreed
  split at hfreed <;> omega

/-- A wrapper that gives up its object, in the counts and among the cells. -/
theorem Balanced.drop (hb : Balanced type kind s) {cells : H → Option (Owner R)} {this : Owner R}
    {K : Kind} (hK : ∀ r,this.held=some r → kind r=K ∧ 0<s.kernel.refs r)
    (htotal : ∀ r,total (owns r) cells+owns r this=total (owns r) s.cells)
    (htyped : ∀ h v r,cells h=some v → v.held=some r → kind r=type h) :
    Balanced type kind ⟨cells,(classOf K).destruct this s.kernel⟩ := by
  rw [classOf_destruct]
  obtain ⟨held⟩ := this
  cases held with
  | none =>
    refine ⟨fun r => ?_,hb.fresh,htyped,hb.proper,hb.sole⟩
    have hsame : total (owns r) cells=total (owns r) s.cells := htotal r
    exact hsame ▸ hb.account r
  | some r =>
    obtain ⟨hkind,hpos⟩ := hK r rfl
    have huse := use_eq hpos
    refine ⟨fun e => ?_,?_,htyped,?_,?_⟩
    · have hone := htotal e
      by_cases he : e=r
      · subst he
        simp only [owns,if_true] at hone
        simp only [MoveOnlyHandle.destruct,releaseWith,Kernel.put,huse,Function.update_self]
        exact (hb.account e).put hpos (by omega)
      · simp only [owns,Option.some_inj,if_neg (Ne.symm he),Nat.add_zero] at hone
        simp only [MoveOnlyHandle.destruct,releaseWith,Kernel.put,huse,Function.update_of_ne he]
        rw [hone]
        exact hb.account e
    · simp only [MoveOnlyHandle.destruct,releaseWith,Kernel.put,huse]
      exact hb.fresh
    · intro K' e hne
      simp only [MoveOnlyHandle.destruct,releaseWith,Kernel.put,huse]
      by_cases hK' : K'=K
      · subst hK'
        have he : e≠r := fun he => hne (he ▸ hkind)
        rw [Function.update_self,Function.update_of_ne he]
        exact hb.proper K' e hne
      · rw [Function.update_of_ne hK']
        exact hb.proper K' e hne
    · intro e he
      have hsole := hb.sole e he
      by_cases her : e=r
      · subst her
        simp only [MoveOnlyHandle.destruct,releaseWith,Kernel.put,huse,Function.update_self]
        omega
      · simp only [MoveOnlyHandle.destruct,releaseWith,Kernel.put,huse,Function.update_of_ne her]
        exact hsole

/-- What the rest of the kernel does with its references. -/
theorem Balanced.outside (hb : Balanced type kind s) {k : Kernel R} (r : R)
    (haccount : Account (k.created r) (k.refs r) (k.outside r) (total (owns r) s.cells) (k.frees r))
    (hother : ∀ e,e≠r → k.created e=s.kernel.created e ∧ k.refs e=s.kernel.refs e ∧
      k.outside e=s.kernel.outside e ∧ k.frees e=s.kernel.frees e)
    (hstale : k.stale=s.kernel.stale) (hreleases : k.releases=s.kernel.releases)
    (hsole : kind r=.socket → k.refs r≤1) : Balanced type kind ⟨s.cells,k⟩ := by
  refine ⟨fun e => ?_,hstale.trans hb.fresh,hb.typed,?_,?_⟩
  · by_cases he : e=r
    · exact he ▸ haccount
    · obtain ⟨hcreated,hrefs,hout,hfrees⟩ := hother e he
      dsimp only
      rw [hcreated,hrefs,hout,hfrees]
      exact hb.account e
  · dsimp only
    rw [hreleases]
    exact hb.proper
  · intro e he
    by_cases her : e=r
    · exact her ▸ hsole (her ▸ he)
    · rw [(hother e her).2.1]
      exact hb.sole e he

variable [DecidableEq H]

/-- A new wrapper with what it took. -/
theorem Balanced.construct (hb : Balanced type kind s) {h : H} (hraw : s.cells h=none)
    {v : Owner R} {k : Kernel R}
    (haccount : ∀ r,Account (k.created r) (k.refs r) (k.outside r)
      (total (owns r) s.cells+owns r v) (k.frees r))
    (hstale : k.stale=s.kernel.stale) (hreleases : k.releases=s.kernel.releases)
    (htyped : ∀ r,v.held=some r → kind r=type h) (hsole : ∀ r,kind r=.socket → k.refs r≤1) :
    Balanced type kind ⟨Function.update s.cells h (some v),k⟩ := by
  refine ⟨fun r => ?_,hstale.trans hb.fresh,?_,?_,hsole⟩
  · rw [total_construct (owns r) hraw v]
    exact haccount r
  · intro h' v' r hv hr
    dsimp only at hv
    by_cases hh : h'=h
    · subst hh
      rw [Function.update_self] at hv
      exact htyped r (Option.some.inj hv ▸ hr)
    · rw [Function.update_of_ne hh] at hv
      exact hb.typed h' v' r hv hr
  · rw [hreleases]
    exact hb.proper

/-- An empty wrapper changes nothing. -/
theorem Balanced.constructEmpty (hb : Balanced type kind s) {h : H} (hraw : s.cells h=none) :
    Balanced type kind ⟨Function.update s.cells h (some ⟨none⟩),s.kernel⟩ :=
  hb.construct hraw hb.account rfl rfl nofun hb.sole

/-- Constructors that make an object do the same. -/
theorem createOn_eq {K : Kind} {create : Option R → Kernel R → Owner R×Kernel R}
    (h : createOn K=some create) : create=createObject := by
  cases K with
  | socket => exact (Option.some.inj h).symm
  | kset => exact (Option.some.inj h).symm
  | program => cases h
  | dst => cases h

/-- A wrapper around a new object. -/
theorem Balanced.create (hb : Balanced type kind s) {h : H} (hraw : s.cells h=none)
    (made : Option R) (hmade : Allows kind (type h) (fun r => s.kernel.created r=false) made) :
    Balanced type kind ⟨Function.update s.cells h (some (createObject made s.kernel).1),
      (createObject made s.kernel).2⟩ := by
  cases made with
  | none => exact hb.constructEmpty hraw
  | some r =>
    obtain ⟨hkind,hnew⟩ := hmade r rfl
    refine hb.construct hraw (fun e => ?_) rfl rfl ?_ ?_
    · have ha := hb.account e
      by_cases he : e=r
      · subst he
        rw [hnew] at ha
        have hzero := ha.unmade
        simp only [createObject,Kernel.make,Function.update_self,owns,if_true]
        refine ⟨by omega,?_⟩
        simp only [hzero,Nat.zero_lt_one,if_true]
      · simp only [createObject,Kernel.make,Function.update_of_ne he,owns,Option.some_inj,
          if_neg (Ne.symm he)]
        exact ha
    · intro e he
      exact Option.some.inj he ▸ hkind
    · intro e he
      have hsole := hb.sole e he
      simp only [createObject,Kernel.make,Function.update_apply]
      split <;> omega

/-- So do those that take over a pointer. -/
theorem adoptOn_eq {K : Kind} {adopt : Option R → Kernel R → Owner R×Kernel R}
    (h : adoptOn K=some adopt) : adopt=KernelHandles.adopt := by
  cases K with
  | socket => exact (Option.some.inj h).symm
  | program => exact (Option.some.inj h).symm
  | dst => exact (Option.some.inj h).symm
  | kset => cases h

/-- A wrapper around a pointer that came with a reference. -/
theorem Balanced.adopt (hb : Balanced type kind s) {h : H} (hraw : s.cells h=none)
    (pointer : Option R)
    (hpointer : Allows kind (type h) (fun r => 0<s.kernel.outside r) pointer) :
    Balanced type kind ⟨Function.update s.cells h (some (KernelHandles.adopt pointer s.kernel).1),
      (KernelHandles.adopt pointer s.kernel).2⟩ := by
  cases pointer with
  | none => exact hb.constructEmpty hraw
  | some r =>
    obtain ⟨hkind,hout⟩ := hpointer r rfl
    refine hb.construct hraw (fun e => ?_) rfl rfl ?_ hb.sole
    · have ha := hb.account e
      by_cases he : e=r
      · subst he
        have hmatched := ha.matched
        simp only [KernelHandles.adopt,Function.update_self,owns,if_true]
        exact ⟨by omega,ha.freed⟩
      · simp only [KernelHandles.adopt,Function.update_of_ne he,owns,Option.some_inj,
          if_neg (Ne.symm he)]
        exact ha
    · intro e he
      exact Option.some.inj he ▸ hkind

/-- A wrapper around the program of a descriptor, with a reference of its own. -/
theorem Balanced.programFromFd (hb : Balanced type kind s) {h : H} (hraw : s.cells h=none)
    (htype : type h=.program) (found : Option R)
    (hfound : Allows kind .program (fun r => 0<s.kernel.outside r) found) :
    Balanced type kind
      ⟨Function.update s.cells h (some (KernelHandles.programFromFd found s.kernel).1),
        (KernelHandles.programFromFd found s.kernel).2⟩ := by
  cases found with
  | none => exact hb.constructEmpty hraw
  | some r =>
    obtain ⟨hkind,hout⟩ := hfound r rfl
    have hpos := hb.outside_pos hout
    have huse := use_eq hpos
    refine hb.construct hraw (fun e => ?_) ?_ rfl ?_ ?_
    · have ha := hb.account e
      by_cases he : e=r
      · subst he
        simp only [KernelHandles.programFromFd,Kernel.get,huse,Function.update_self,owns,if_true]
        exact ha.get hpos (by omega)
      · simp only [KernelHandles.programFromFd,Kernel.get,huse,Function.update_of_ne he,owns,
          Option.some_inj,if_neg (Ne.symm he)]
        exact ha
    · simp only [KernelHandles.programFromFd,Kernel.get,huse]
    · intro e he
      rw [htype]
      exact Option.some.inj he ▸ hkind
    · intro e he
      have hne : e≠r := by
        intro heq
        rw [heq,hkind] at he
        cases he
      simp only [KernelHandles.programFromFd,Kernel.get,huse,Function.update_of_ne hne]
      exact hb.sole e he

/-- Moves between cells of one class. -/
theorem Balanced.typed_moved (hb : Balanced type kind s) {K : Kind} {dst src : H} {other : Owner R}
    (htype : type dst=type src) (hne : dst≠src) (hs : s.cells src=some other) :
    ∀ h v r,moved (classOf K) dst src other s.cells h=some v → v.held=some r → kind r=type h := by
  have hmove : (classOf K).moveFrom other=(other,⟨none⟩) := by cases K <;> rfl
  intro h v r hv hr
  rcases (moved_eq_some hne h v).mp hv with ⟨rfl,hother⟩ | ⟨rfl,hnone⟩ | ⟨_,_,hold⟩
  · rw [hmove] at hother
    subst hother
    rw [htype]
    exact hb.typed src other r hs hr
  · rw [hmove] at hnone
    rw [←hnone] at hr
    cases hr
  · exact hb.typed h v r hold hr

/-- Every operation keeps the balance. -/
theorem Balanced.step (hb : Balanced type kind s) {a : Action R H}
    (h : KernelHandles.step type kind s a=some s') : Balanced type kind s' := by
  cases a with
  | create cell made =>
    obtain ⟨create,hcreate,h⟩ := Option.bind_eq_some_iff.mp h
    obtain rfl := createOn_eq hcreate
    obtain ⟨hmade,h⟩ := Option.ite_none_right_eq_some.mp h
    obtain ⟨cells,hcells,rfl⟩ := Option.map_eq_some_iff.mp h
    obtain ⟨hraw,rfl⟩ := construct_cases hcells
    exact hb.create hraw made hmade
  | adopt cell pointer =>
    obtain ⟨adopt,hadopt,h⟩ := Option.bind_eq_some_iff.mp h
    obtain rfl := adoptOn_eq hadopt
    obtain ⟨hpointer,h⟩ := Option.ite_none_right_eq_some.mp h
    obtain ⟨cells,hcells,rfl⟩ := Option.map_eq_some_iff.mp h
    obtain ⟨hraw,rfl⟩ := construct_cases hcells
    exact hb.adopt hraw pointer hpointer
  | programFromFd cell found =>
    obtain ⟨⟨htype,hfound⟩,h⟩ := Option.ite_none_right_eq_some.mp h
    obtain ⟨cells,hcells,rfl⟩ := Option.map_eq_some_iff.mp h
    obtain ⟨hraw,rfl⟩ := construct_cases hcells
    exact hb.programFromFd hraw htype found hfound
  | accept dst src answer =>
    cases hs : s.cells src with
    | none => simp only [KernelHandles.step,hs,reduceCtorEq] at h
    | some this =>
      simp only [KernelHandles.step,hs] at h
      obtain ⟨_,h⟩ := Option.ite_none_right_eq_some.mp h
      obtain ⟨cells,hcells,rfl⟩ := Option.map_eq_some_iff.mp h
      obtain ⟨hraw,rfl⟩ := construct_cases hcells
      have haccept : KernelSocket.accept this answer s.kernel=(⟨none⟩,s.kernel) := by
        have hkernel := hb.passOn_eq hs (-EINVAL) answer
        unfold KernelSocket.accept KernelSocket.request
        dsimp only
        rw [hkernel]
        split <;> rfl
      rw [haccept]
      exact hb.constructEmpty hraw
  | use cell answer =>
    obtain ⟨this,hs,rfl⟩ := Option.map_eq_some_iff.mp h
    have hsame : (callOn (type cell) this answer s.kernel).2=s.kernel := by
      cases type cell <;> exact hb.passOn_eq hs _ answer
    rw [hsame]
    exact hb
  | shutdown cell =>
    obtain ⟨_,h⟩ := Option.ite_none_right_eq_some.mp h
    obtain ⟨this,hs,rfl⟩ := Option.map_eq_some_iff.mp h
    have hsame : KernelSocket.shutdown this s.kernel=s.kernel := hb.passOn_eq hs 0 0
    rw [hsame]
    exact hb
  | moveConstruct dst src =>
    obtain ⟨htype,h⟩ := Option.ite_none_right_eq_some.mp h
    obtain ⟨cells,hcells,rfl⟩ := Option.map_eq_some_iff.mp h
    obtain ⟨other,hraw,hs,hne,rfl⟩ := moveConstruct_cases hcells
    have hempty : (classOf (type dst)).destruct ⟨none⟩ s.kernel=s.kernel := classOf_destruct _ _ _
    rw [←hempty]
    refine hb.drop nofun (fun r => ?_) (hb.typed_moved htype hne hs)
    have htotal := total_moved (owns_carried (type dst) r) hne hs
    rw [hraw] at htotal
    exact htotal
  | moveAssign dst src =>
    obtain ⟨htype,h⟩ := Option.ite_none_right_eq_some.mp h
    obtain ⟨⟨cells,k⟩,hcells,rfl⟩ := Option.map_eq_some_iff.mp h
    obtain ⟨this,other,hd,hs,⟨_,rfl,rfl⟩ | ⟨hne,rfl,rfl⟩⟩ := moveAssign_cases hcells
    · exact hb
    · refine hb.drop ?_ (fun r => ?_) (hb.typed_moved htype hne hs)
      · intro r hr
        exact ⟨hb.typed dst this r hd hr,hb.owned_pos hd hr⟩
      · have htotal := total_moved (owns_carried (type dst) r) hne hs
        rw [hd] at htotal
        exact htotal
  | destroy cell =>
    obtain ⟨⟨cells,k⟩,hcells,rfl⟩ := Option.map_eq_some_iff.mp h
    obtain ⟨this,hs,rfl,rfl⟩ := destroy_cases hcells
    refine hb.drop ?_ (fun r => total_destroy (owns r) hs) ?_
    · intro r hr
      exact ⟨hb.typed cell this r hs hr,hb.owned_pos hs hr⟩
    · intro h v r hv hr
      by_cases hh : h=cell
      · subst hh
        rw [Function.update_self] at hv
        cases hv
      · rw [Function.update_of_ne hh] at hv
        exact hb.typed h v r hv hr
  | outsideMake r =>
    obtain ⟨hnew,h⟩ := Option.ite_none_right_eq_some.mp h
    obtain rfl := Option.some.inj h
    have ha := hb.account r
    rw [hnew] at ha
    have hzero := ha.unmade
    refine hb.outside r ?_ ?_ rfl rfl ?_
    · simp only [Kernel.make,Function.update_self]
      refine ⟨by omega,?_⟩
      simp only [hzero,Nat.zero_lt_one,if_true]
    · intro e he
      simp only [Kernel.make,Function.update_of_ne he,and_self]
    · intro _
      simp only [Kernel.make,Function.update_self,Nat.le_refl]
  | outsideGet r =>
    obtain ⟨⟨hkind,hpos⟩,h⟩ := Option.ite_none_right_eq_some.mp h
    obtain rfl := Option.some.inj h
    have huse := use_eq hpos
    refine hb.outside r ?_ ?_ ?_ rfl (fun hsocket => absurd hsocket hkind)
    · simp only [Kernel.get,huse,Function.update_self]
      exact (hb.account r).get hpos (by omega)
    · intro e he
      simp only [Kernel.get,huse,Function.update_of_ne he,and_self]
    · simp only [Kernel.get,huse]
  | outsidePut r =>
    obtain ⟨hout,h⟩ := Option.ite_none_right_eq_some.mp h
    obtain rfl := Option.some.inj h
    have hpos := hb.outside_pos hout
    have huse := use_eq hpos
    refine hb.outside r ?_ ?_ ?_ rfl ?_
    · simp only [Kernel.put,huse,Function.update_self]
      exact (hb.account r).put hpos (by omega)
    · intro e he
      simp only [Kernel.put,huse,Function.update_of_ne he,and_self]
    · simp only [Kernel.put,huse]
    · intro hsocket
      have hsole := hb.sole r hsocket
      simp only [Kernel.put,Function.update_self]
      omega

/-- Wrappers of all four classes in any order of operations, while the rest of
the kernel takes and drops references of its own: each object is freed once,
when the last reference is gone, by its own class's function, and no wrapper
uses or releases an object that has no reference. -/
theorem wrappers_balanced (type : H → Kind) (kind : R → Kind) (actions : List (Action R H)) :
    Along (KernelHandles.step type kind) (Balanced type kind) start actions := by
  have hstart : Balanced type kind (start : State R H) := by
    refine ⟨fun r => ⟨?_,rfl⟩,rfl,nofun,fun _ _ _ => rfl,fun _ _ => Nat.zero_le 1⟩
    have hraw : total (owns r) (start : State R H).cells=0 := total_raw (owns r) (fun _ => rfl)
    rw [hraw]
    rfl
  exact along_of_preserved (I := Balanced type kind) (fun hb => hb) (fun hb h => hb.step h) hstart

end Kernel

end Kpp.KernelHandles
