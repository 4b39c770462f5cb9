import Kpp.MoveOnlyHandle
import Kpp.MovableObject

/-!
# net_device references and XDP slots under NetDevice and XDPAttachment

`NetDevice` owns one reference of the device it points to.
`XDPAttachment` copies the pointer out of a `NetDevice`, installs a program
in one of the device's XDP slots and owns a reference of its own while
`is_attached_` is set. Teardown clears a slot through the same kernel call.
-/

namespace Kpp.NetDevices

open MovableObject

/-- XDP slots of a device. -/
inductive Mode where
  | skb
  | drv
  | hw
  deriving DecidableEq

/-- Mode bits of the flags. -/
abbrev xdpFlagsSkbMode : UInt32 := 2
abbrev xdpFlagsDrvMode : UInt32 := 4
abbrev xdpFlagsHwMode : UInt32 := 8

/-- Slot selected by the mode bits; without any the device's default one. -/
def slotMode (default : Mode) (flags : UInt32) : Mode :=
  if flags &&& xdpFlagsHwMode≠0 then .hw
  else if flags &&& xdpFlagsDrvMode≠0 then .drv
  else if flags &&& xdpFlagsSkbMode≠0 then .skb
  else default

/-- An installed program. -/
structure Program where
  /-- Descriptor it was installed from. -/
  fd : ℤ
  /-- Serial number of the installation. -/
  serial : ℕ
  deriving DecidableEq

/-- Kernel state of the network devices. -/
structure Net (D : Type*) where
  /-- Program in each slot of each device. -/
  slots : D×Mode → Option Program
  /-- Serial number of the next installation. -/
  serial : ℕ
  /-- References taken on each device and not dropped yet. -/
  refs : D → ℕ
  /-- A device was used, or its reference dropped, when no reference was left. -/
  stale : Bool

variable {D : Type*} [DecidableEq D]

/-- A call that works on the device. -/
def Net.use (d : D) (w : Net D) : Net D := {w with stale := w.stale || w.refs d==0}

/-- `dev_get`. -/
def devGet (d : D) (w : Net D) : Net D := {w with refs := Function.update w.refs d (w.refs d+1)}

/-- `dev_put`. -/
def devPut (d : D) (w : Net D) : Net D :=
  {w.use d with refs := Function.update w.refs d (w.refs d-1)}

/-- `bpf_set_link_xdp_fd`: with result 0 the selected slot was set, or
cleared for the descriptor -1; with another result nothing changed. -/
def bpfSetLinkXdpFd (default : D → Mode) (d : D) (fd : ℤ) (flags : UInt32) (ret : ℤ)
    (w : Net D) : Net D :=
  if ret=0 then
    {w.use d with
      slots := Function.update w.slots (d,slotMode (default d) flags)
        (if fd=-1 then none else some ⟨fd,w.serial⟩)
      serial := w.serial+1}
  else w.use d

/-- `NetDevice` with its pointer `dev_`. -/
abbrev NetDevice (D : Type*) := MoveOnlyHandle.Owner D

/-- `~NetDevice()`. -/
def NetDevice.destruct (this : NetDevice D) (w : Net D) : Net D :=
  MoveOnlyHandle.destruct devPut this w

/-- The special member functions of `NetDevice`. -/
def netDevice : MoveOnly (NetDevice D) (Net D) where
  moveFrom := MoveOnlyHandle.moveFrom
  assignFrom := MoveOnlyHandle.assignFrom devPut
  destruct := NetDevice.destruct
  assign_eq _ _ _ := rfl

/-- `net::find_device`, with the device that `dev_get_by_name` finds; a found
device comes with a reference. -/
def findDevice (found : Option D) (w : Net D) : NetDevice D×Net D :=
  match found with
  | some d => (⟨some d⟩,devGet d w)
  | none => (⟨none⟩,w)

/-- `XDPAttachment`. -/
structure XDPAttachment (D : Type*) where
  /-- `dev_`. -/
  dev : Option D
  /-- `is_attached_`. -/
  isAttached : Bool
  deriving DecidableEq

/-- Constructor, with the result of the attaching call; the device pointer is
dereferenced first. -/
def XDPAttachment.create (default : D → Mode) (dev : NetDevice D) (progFd : ℤ) (flags : UInt32)
    (ret : ℤ) (w : Net D) : Option (XDPAttachment D×Net D) :=
  match dev.held with
  | none => none
  | some d =>
    let set := bpfSetLinkXdpFd default d progFd flags ret w
    if ret=0 then some (⟨some d,true⟩,devGet d set) else some (⟨some d,false⟩,set)

/-- `~XDPAttachment()`; the clearing call is one that succeeds. -/
def XDPAttachment.destruct (default : D → Mode) (this : XDPAttachment D) (w : Net D) : Net D :=
  match this.isAttached,this.dev with
  | true,some d => devPut d (bpfSetLinkXdpFd default d (-1) 0 0 w)
  | _,_ => w

/-- Move constructor. -/
def XDPAttachment.moveFrom (other : XDPAttachment D) : XDPAttachment D×XDPAttachment D :=
  (⟨other.dev,other.isAttached⟩,⟨none,false⟩)

/-- Move assignment between different objects. -/
def XDPAttachment.assignFrom (default : D → Mode) (this other : XDPAttachment D) (w : Net D) :
    XDPAttachment D×XDPAttachment D×Net D :=
  let w := this.destruct default w
  (⟨other.dev,other.isAttached⟩,⟨none,false⟩,w)

/-- The special member functions of `XDPAttachment`. -/
def xdpAttachment (default : D → Mode) : MoveOnly (XDPAttachment D) (Net D) where
  moveFrom := XDPAttachment.moveFrom
  assignFrom := XDPAttachment.assignFrom default
  destruct := XDPAttachment.destruct default
  assign_eq _ _ _ := rfl

/-- Without mode bits the default slot is selected. -/
theorem slotMode_zero (default : Mode) : slotMode default 0=default := by
  have hhw : ¬(0 : UInt32) &&& xdpFlagsHwMode≠0 := by decide
  have hdrv : ¬(0 : UInt32) &&& xdpFlagsDrvMode≠0 := by decide
  have hskb : ¬(0 : UInt32) &&& xdpFlagsSkbMode≠0 := by decide
  rw [slotMode,if_neg hhw,if_neg hdrv,if_neg hskb]

/-- Teardown of an attached object clears the default slot of its device, and
teardown of any other object leaves all slots alone. -/
theorem XDPAttachment.destruct_slots (default : D → Mode) (this : XDPAttachment D) (w : Net D) :
    (∃ d,this.isAttached=true ∧ this.dev=some d ∧
      (this.destruct default w).slots=Function.update w.slots (d,default d) none) ∨
    ((this.isAttached=false ∨ this.dev=none) ∧ (this.destruct default w).slots=w.slots) := by
  obtain ⟨dev,isAttached⟩ := this
  cases isAttached with
  | false => exact Or.inr ⟨Or.inl rfl,rfl⟩
  | true =>
    cases dev with
    | none => exact Or.inr ⟨Or.inr rfl,rfl⟩
    | some d =>
      refine Or.inl ⟨d,rfl,rfl,?_⟩
      simp only [XDPAttachment.destruct,devPut,Net.use,bpfSetLinkXdpFd,if_true,slotMode_zero]

end Kpp.NetDevices
