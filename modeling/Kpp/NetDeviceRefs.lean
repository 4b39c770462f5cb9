import Kpp.NetDevices
import Kpp.StepRun

/-!
# Reference balance of net devices

`NetDevice` handles and `XDPAttachment` objects share one count per device
under different ownership rules. The references taken and not yet dropped
are matched with the objects that own one, in every order of operations.
-/

namespace Kpp.NetDeviceRefs

open MovableObject NetDevices StepRun

variable {D H A : Type*}

/-- Live objects of both classes over the kernel's devices. -/
structure State (D H A : Type*) where
  /-- `NetDevice` handles in their storage cells. -/
  devices : H → Option (NetDevice D)
  /-- `XDPAttachment` objects in theirs. -/
  attachments : A → Option (XDPAttachment D)
  /-- Kernel state. -/
  net : Net D

/-- Operations on handles and attachments. -/
inductive Action (D H A : Type*) where
  | findDevice (h : H) (found : Option D)
  | moveConstructDevice (dst src : H)
  | moveAssignDevice (dst src : H)
  | destroyDevice (h : H)
  | attach (a : A) (h : H) (progFd : ℤ) (flags : UInt32) (ret : ℤ)
  | moveConstructAttachment (dst src : A)
  | moveAssignAttachment (dst src : A)
  | destroyAttachment (a : A)

section Steps
variable [DecidableEq D] [DecidableEq H] [DecidableEq A] (default : D → Mode)

/-- Construct an attachment from a live handle that is not null. -/
def attachAt (a : A) (h : H) (progFd : ℤ) (flags : UInt32) (ret : ℤ) (t : State D H A) :
    Option (State D H A) :=
  match t.devices h with
  | none => none
  | some dev =>
    match XDPAttachment.create default dev progFd flags ret t.net with
    | none => none
    | some (this,net) =>
      (construct a this t.attachments).map (fun cells => ⟨t.devices,cells,net⟩)

/-- One operation. -/
def step (t : State D H A) : Action D H A → Option (State D H A)
  | .findDevice h found =>
    let (handle,net) := findDevice found t.net
    (construct h handle t.devices).map (fun cells => ⟨cells,t.attachments,net⟩)
  | .moveConstructDevice dst src =>
    (moveConstruct netDevice dst src t.devices).map (fun cells => {t with devices := cells})
  | .moveAssignDevice dst src =>
    (moveAssign netDevice dst src t.devices t.net).map
      (fun (cells,net) => ⟨cells,t.attachments,net⟩)
  | .destroyDevice h =>
    (destroy netDevice h t.devices t.net).map (fun (cells,net) => ⟨cells,t.attachments,net⟩)
  | .attach a h progFd flags ret => attachAt default a h progFd flags ret t
  | .moveConstructAttachment dst src =>
    (moveConstruct (xdpAttachment default) dst src t.attachments).map
      (fun cells => {t with attachments := cells})
  | .moveAssignAttachment dst src =>
    (moveAssign (xdpAttachment default) dst src t.attachments t.net).map
      (fun (cells,net) => ⟨t.devices,cells,net⟩)
  | .destroyAttachment a =>
    (destroy (xdpAttachment default) a t.attachments t.net).map
      (fun (cells,net) => ⟨t.devices,cells,net⟩)

end Steps

/-- No object and no reference yet. -/
def start : State D H A := ⟨fun _ => none,fun _ => none,⟨fun _ => none,0,fun _ => 0,false⟩⟩

section Owners
variable [DecidableEq D]

/-- References of the device that a `NetDevice` owns. -/
def handleRefs (d : D) (this : NetDevice D) : ℕ := if this.held=some d then 1 else 0

/-- References of the device that an `XDPAttachment` owns. -/
def attachmentRefs (d : D) (this : XDPAttachment D) : ℕ :=
  if this.isAttached=true ∧ this.dev=some d then 1 else 0

/-- Moves of handles carry their reference. -/
theorem handleRefs_carried (d : D) : Carried netDevice (handleRefs d) := by
  intro v
  exact ⟨rfl,if_neg nofun⟩

/-- Moves of attachments carry their reference. -/
theorem attachmentRefs_carried (default : D → Mode) (d : D) :
    Carried (xdpAttachment default) (attachmentRefs d) := by
  intro v
  refine ⟨rfl,if_neg ?_⟩
  rintro ⟨hattached,_⟩
  cases hattached

/-- What `dev_put` does to the counts while a reference is left. -/
theorem devPut_refs {d : D} {w : Net D} (hpos : 0<w.refs d) :
    (∀ e,(devPut d w).refs e+(if d=e then 1 else 0)=w.refs e) ∧
      (devPut d w).stale=w.stale := by
  have hstale : (w.refs d==0)=false := beq_eq_false_iff_ne.mpr (Nat.ne_of_gt hpos)
  refine ⟨fun e => ?_,?_⟩
  · dsimp only [devPut]
    by_cases he : d=e
    · subst he
      rw [Function.update_self,if_pos rfl]
      omega
    · rw [Function.update_of_ne (Ne.symm he),if_neg he]
      rfl
  · simp only [devPut,Net.use,hstale,Bool.or_false]

/-- What `dev_get` does to the counts. -/
theorem devGet_refs (d : D) (w : Net D) (e : D) :
    (devGet d w).refs e=w.refs e+if d=e then 1 else 0 := by
  dsimp only [devGet]
  by_cases he : d=e
  · subst he
    rw [Function.update_self,if_pos rfl]
  · rw [Function.update_of_ne (Ne.symm he),if_neg he]
    rfl

/-- Using a device leaves the counts, and is no fault while a reference is left. -/
theorem bpfSet_refs (default : D → Mode) {d : D} (fd : ℤ) (flags : UInt32) (ret : ℤ) {w : Net D}
    (hpos : 0<w.refs d) :
    (bpfSetLinkXdpFd default d fd flags ret w).refs=w.refs ∧
      (bpfSetLinkXdpFd default d fd flags ret w).stale=w.stale := by
  have hstale : (w.refs d==0)=false := beq_eq_false_iff_ne.mpr (Nat.ne_of_gt hpos)
  unfold bpfSetLinkXdpFd
  split <;> simp only [Net.use,hstale,Bool.or_false,and_self]

/-- A destroyed handle drops what it owned. -/
theorem handle_destruct_refs {this : NetDevice D} {w : Net D}
    (hle : ∀ d,handleRefs d this≤w.refs d) :
    (∀ e,(NetDevice.destruct this w).refs e+handleRefs e this=w.refs e) ∧
      (NetDevice.destruct this w).stale=w.stale := by
  obtain ⟨held⟩ := this
  cases held with
  | none => exact ⟨fun _ => rfl,rfl⟩
  | some d =>
    have hd := hle d
    simp only [handleRefs,if_true] at hd
    simp only [handleRefs,Option.some.injEq]
    exact devPut_refs hd

/-- A destroyed attachment drops what it owned. -/
theorem attachment_destruct_refs (default : D → Mode) {this : XDPAttachment D} {w : Net D}
    (hle : ∀ d,attachmentRefs d this≤w.refs d) :
    (∀ e,(this.destruct default w).refs e+attachmentRefs e this=w.refs e) ∧
      (this.destruct default w).stale=w.stale := by
  obtain ⟨dev,isAttached⟩ := this
  cases isAttached with
  | false => exact ⟨fun _ => rfl,rfl⟩
  | true =>
    cases dev with
    | none => exact ⟨fun _ => rfl,rfl⟩
    | some d =>
      have hd := hle d
      simp only [attachmentRefs,and_self,if_true] at hd
      have hset := bpfSet_refs default (-1) 0 0 hd
      have hput := devPut_refs (w := bpfSetLinkXdpFd default d (-1) 0 0 w)
        (by rw [hset.1]; exact hd)
      rw [hset.1,hset.2] at hput
      simp only [attachmentRefs,Option.some.injEq,true_and]
      exact hput

/-- An attachment with its flag set has a device. -/
def Flagged (this : XDPAttachment D) : Prop := this.isAttached=true → this.dev≠none

/-- A constructed attachment has taken what it owns; its device was alive. -/
theorem create_refs {default : D → Mode} {dev : NetDevice D} {progFd ret : ℤ} {flags : UInt32}
    {w net : Net D} {this : XDPAttachment D} (hle : ∀ d,handleRefs d dev≤w.refs d)
    (h : XDPAttachment.create default dev progFd flags ret w=some (this,net)) :
    (∀ e,net.refs e=w.refs e+attachmentRefs e this) ∧ net.stale=w.stale ∧ Flagged this := by
  obtain ⟨held⟩ := dev
  cases held with
  | none => cases h
  | some d =>
    have hd := hle d
    simp only [handleRefs,if_true] at hd
    have hset := bpfSet_refs default progFd flags ret hd
    dsimp only [XDPAttachment.create] at h
    split at h
    · cases h
      refine ⟨fun e => ?_,hset.2,nofun⟩
      have hget := devGet_refs d (bpfSetLinkXdpFd default d progFd flags ret w) e
      rw [hset.1] at hget
      simpa only [attachmentRefs,Option.some.injEq,true_and] using hget
    · cases h
      refine ⟨fun e => ?_,hset.2,nofun⟩
      rw [hset.1]
      simp only [attachmentRefs,Bool.false_eq_true,false_and,if_false,Nat.add_zero]

end Owners

section Balance
variable [DecidableEq D] [Fintype H] [Fintype A]

/-- The references taken and not dropped are those of live handles and of
live attached attachments, none is dropped or relied on when none is left. -/
structure Balanced (t : State D H A) : Prop where
  /-- One reference per owning object. -/
  refs : ∀ d,t.net.refs d=
    total (handleRefs d) t.devices+total (attachmentRefs d) t.attachments
  /-- No drop and no use of a device when no reference was left. -/
  fresh : t.net.stale=false
  /-- An attached attachment has its device, kept alive by a reference. -/
  alive : ∀ a this,t.attachments a=some this → this.isAttached=true →
    ∃ d,this.dev=some d ∧ 0<t.net.refs d

/-- Counts with the flag and the pointer of attachments in step. -/
structure Ledger (t : State D H A) : Prop where
  /-- One reference per owning object. -/
  refs : ∀ d,t.net.refs d=
    total (handleRefs d) t.devices+total (attachmentRefs d) t.attachments
  /-- No fault yet. -/
  fresh : t.net.stale=false
  /-- The flag is only set next to a device pointer. -/
  flagged : Every Flagged t.attachments

variable {t t' : State D H A}

/-- The ledger gives the balance. -/
theorem Ledger.balanced (hl : Ledger t) : Balanced t := by
  refine ⟨hl.refs,hl.fresh,?_⟩
  intro a this ha hattached
  obtain ⟨d,hd⟩ := Option.ne_none_iff_exists'.mp (hl.flagged a this ha hattached)
  have hle := le_total (attachmentRefs d) ha
  have hrefs := hl.refs d
  simp only [attachmentRefs,hattached,hd,and_self,if_true] at hle
  exact ⟨d,hd,by omega⟩

/-- An object that gives up what it owns, in the counts and among the owners
alike, keeps the ledger. -/
theorem Ledger.drop (hl : Ledger t) (owned : D → ℕ) {devices : H → Option (NetDevice D)}
    {attachments : A → Option (XDPAttachment D)} {net : Net D}
    (hnet : ∀ d,net.refs d+owned d=t.net.refs d) (hfresh : net.stale=t.net.stale)
    (htotals : ∀ d,total (handleRefs d) devices+total (attachmentRefs d) attachments+owned d=
      total (handleRefs d) t.devices+total (attachmentRefs d) t.attachments)
    (hflagged : Every Flagged attachments) : Ledger ⟨devices,attachments,net⟩ := by
  refine ⟨fun d => ?_,hfresh.trans hl.fresh,hflagged⟩
  have hrefs := hl.refs d
  have hd := hnet d
  have ht := htotals d
  dsimp only
  omega

/-- A handle in a cell owns no more than there is. -/
theorem Ledger.handle_le (hl : Ledger t) {h : H} {this : NetDevice D}
    (hs : t.devices h=some this) (d : D) : handleRefs d this≤t.net.refs d := by
  have hle := le_total (handleRefs d) hs
  have hrefs := hl.refs d
  omega

/-- An attachment in a cell owns no more than there is. -/
theorem Ledger.attachment_le (hl : Ledger t) {a : A} {this : XDPAttachment D}
    (ha : t.attachments a=some this) (d : D) : attachmentRefs d this≤t.net.refs d := by
  have hle := le_total (attachmentRefs d) ha
  have hrefs := hl.refs d
  omega

/-- Moves keep the flag and the pointer in step. -/
theorem flagged_moves (default : D → Mode) (v : XDPAttachment D) (hv : Flagged v) :
    Flagged ((xdpAttachment default).moveFrom v).1 ∧
      Flagged ((xdpAttachment default).moveFrom v).2 := by
  refine ⟨hv,?_⟩
  intro hattached
  cases hattached

/-- A looked-up device enters with the reference of its handle. -/
theorem Ledger.findDevice [DecidableEq H] (hl : Ledger t) {h : H} {found : Option D}
    (hraw : t.devices h=none) :
    Ledger ⟨Function.update t.devices h (some (NetDevices.findDevice found t.net).1),
      t.attachments,(NetDevices.findDevice found t.net).2⟩ := by
  refine ⟨fun d => ?_,?_,hl.flagged⟩
  · have htotal := total_construct (handleRefs d) hraw (NetDevices.findDevice found t.net).1
    have hrefs := hl.refs d
    dsimp only
    cases found with
    | none =>
      simp only [NetDevices.findDevice,handleRefs,reduceCtorEq,if_false] at htotal ⊢
      omega
    | some e =>
      simp only [NetDevices.findDevice,handleRefs,Option.some.injEq] at htotal ⊢
      have hget := devGet_refs e t.net d
      omega
  · cases found with
    | none => exact hl.fresh
    | some e => exact hl.fresh

/-- A new attachment takes its own reference when the attach succeeded, and
none when it failed. -/
theorem Ledger.attach [DecidableEq A] {default : D → Mode} (hl : Ledger t) {a : A} {h : H}
    {progFd : ℤ} {flags : UInt32} {ret : ℤ}
    (hstep : attachAt default a h progFd flags ret t=some t') : Ledger t' := by
  unfold attachAt at hstep
  split at hstep
  · cases hstep
  · next dev hdev =>
    split at hstep
    · cases hstep
    · next this net hcreate =>
      obtain ⟨cells,hmade,rfl⟩ := Option.map_eq_some_iff.mp hstep
      obtain ⟨hraw,rfl⟩ := construct_cases hmade
      have hnew := create_refs (hl.handle_le hdev) hcreate
      refine ⟨fun d => ?_,hnew.2.1.trans hl.fresh,hl.flagged.construct hnew.2.2 a⟩
      have htotal := total_construct (attachmentRefs d) hraw this
      have hrefs := hl.refs d
      have hd := hnew.1 d
      dsimp only
      omega

variable [DecidableEq H] [DecidableEq A] {default : D → Mode}

/-- Every operation keeps the ledger. -/
theorem step_ledger {a : Action D H A} (hl : Ledger t) (h : step default t a=some t') :
    Ledger t' := by
  cases a with
  | findDevice cell found =>
    obtain ⟨cells,hmade,rfl⟩ := Option.map_eq_some_iff.mp h
    obtain ⟨hraw,rfl⟩ := construct_cases hmade
    exact hl.findDevice hraw
  | moveConstructDevice dst src =>
    obtain ⟨cells,hmoved,rfl⟩ := Option.map_eq_some_iff.mp h
    obtain ⟨other,hraw,hs,hne,rfl⟩ := moveConstruct_cases hmoved
    refine hl.drop (fun _ => 0) (fun d => rfl) rfl (fun d => ?_) hl.flagged
    have htotal := total_moved (handleRefs_carried d) hne hs
    simp only [hraw,Option.elim_none] at htotal
    omega
  | moveAssignDevice dst src =>
    obtain ⟨⟨cells,net⟩,hmoved,rfl⟩ := Option.map_eq_some_iff.mp h
    obtain ⟨this,other,hd,hs,⟨_,rfl,rfl⟩|⟨hne,rfl,rfl⟩⟩ := moveAssign_cases hmoved
    · exact hl
    · have hdrop := handle_destruct_refs (hl.handle_le hd)
      refine hl.drop (handleRefs · this) hdrop.1 hdrop.2 (fun d => ?_) hl.flagged
      have htotal := total_moved (handleRefs_carried d) hne hs
      simp only [hd,Option.elim_some] at htotal
      omega
  | destroyDevice cell =>
    obtain ⟨⟨cells,net⟩,hmoved,rfl⟩ := Option.map_eq_some_iff.mp h
    obtain ⟨this,hs,rfl,rfl⟩ := destroy_cases hmoved
    have hdrop := handle_destruct_refs (hl.handle_le hs)
    refine hl.drop (handleRefs · this) hdrop.1 hdrop.2 (fun d => ?_) hl.flagged
    have htotal := total_destroy (handleRefs d) hs
    omega
  | attach a h progFd flags ret => exact hl.attach h
  | moveConstructAttachment dst src =>
    obtain ⟨cells,hmoved,rfl⟩ := Option.map_eq_some_iff.mp h
    obtain ⟨other,hraw,hs,hne,rfl⟩ := moveConstruct_cases hmoved
    refine hl.drop (fun _ => 0) (fun d => rfl) rfl (fun d => ?_)
      (hl.flagged.moved (flagged_moves default) hs)
    have htotal := total_moved (attachmentRefs_carried default d) hne hs
    simp only [hraw,Option.elim_none] at htotal
    omega
  | moveAssignAttachment dst src =>
    obtain ⟨⟨cells,net⟩,hmoved,rfl⟩ := Option.map_eq_some_iff.mp h
    obtain ⟨this,other,hd,hs,⟨_,rfl,rfl⟩|⟨hne,rfl,rfl⟩⟩ := moveAssign_cases hmoved
    · exact hl
    · have hdrop := attachment_destruct_refs default (hl.attachment_le hd)
      refine hl.drop (attachmentRefs · this) hdrop.1 hdrop.2 (fun d => ?_)
        (hl.flagged.moved (flagged_moves default) hs)
      have htotal := total_moved (attachmentRefs_carried default d) hne hs
      simp only [hd,Option.elim_some] at htotal
      omega
  | destroyAttachment a =>
    obtain ⟨⟨cells,net⟩,hmoved,rfl⟩ := Option.map_eq_some_iff.mp h
    obtain ⟨this,hs,rfl,rfl⟩ := destroy_cases hmoved
    have hdrop := attachment_destruct_refs default (hl.attachment_le hs)
    refine hl.drop (attachmentRefs · this) hdrop.1 hdrop.2 (fun d => ?_) (hl.flagged.destroy a)
    have htotal := total_destroy (attachmentRefs d) hs
    omega

/-- net_device reference balance. In every state of every run the references
on each device are those owned by its handles and attached attachments. -/
theorem refs_balanced (default : D → Mode) (actions : List (Action D H A)) :
    Along (step default) Balanced start actions := by
  have hstart : Ledger (start : State D H A) := by
    refine ⟨fun d => ?_,rfl,nofun⟩
    have hdevices : total (handleRefs d) (start : State D H A).devices=0 :=
      total_raw (handleRefs d) (fun _ => rfl)
    have hattachments : total (attachmentRefs d) (start : State D H A).attachments=0 :=
      total_raw (attachmentRefs d) (fun _ => rfl)
    rw [hdevices,hattachments]
    rfl
  exact along_of_preserved (I := Ledger) (fun hl => hl.balanced)
    (fun hl h => step_ledger hl h) hstart

end Balance

end Kpp.NetDeviceRefs
