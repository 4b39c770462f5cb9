import Kpp.NetDevices
import Kpp.StepRun

/-!
# XDP slots under XDPAttachment objects

Each attachment installs at most one program, and its teardown is meant to
withdraw that program. The slots the kernel ends up with are compared with
intended ones, from which every teardown withdraws the object's own program
and nothing else. The objects remember neither the flags nor the program.
-/

namespace Kpp.XdpSlots

open MovableObject NetDevices StepRun

variable {D A : Type*}

/-- An attachment next to the program it installed. -/
structure Tracked (D : Type*) where
  /-- The object itself. -/
  object : XDPAttachment D
  /-- Program it installed; it moves along with the object's role. -/
  program : Option Program

/-- Kernel state next to the intended slots. -/
structure World (D : Type*) where
  /-- What the kernel has. -/
  net : Net D
  /-- What the attachments should have made of the slots. -/
  intended : D×Mode → Option Program

/-- Take one program out of whatever slot it is in. -/
def withdraw (program : Option Program) (slots : D×Mode → Option Program) :
    D×Mode → Option Program :=
  fun k => if slots k=program then none else slots k

/-- Attachments in their storage cells. -/
structure State (D A : Type*) where
  /-- Object in each cell. -/
  cells : A → Option (Tracked D)
  /-- Kernel and intended slots. -/
  world : World D

/-- Operations on attachments; devices are given by non-null handles. -/
inductive Action (D A : Type*) where
  | attach (a : A) (d : D) (progFd : ℤ) (flags : UInt32) (ret : ℤ)
  | moveConstruct (dst src : A)
  | moveAssign (dst src : A)
  | destroy (a : A)

section Steps
variable [DecidableEq D] [DecidableEq A] (default : D → Mode)

/-- The special member functions, with what each does to the intended slots. -/
def tracked : MoveOnly (Tracked D) (World D) where
  moveFrom other :=
    let moved := XDPAttachment.moveFrom other.object
    (⟨moved.1,other.program⟩,⟨moved.2,none⟩)
  assignFrom this other w :=
    let assigned := XDPAttachment.assignFrom default this.object other.object w.net
    (⟨assigned.1,other.program⟩,⟨assigned.2.1,none⟩,
      ⟨assigned.2.2,withdraw this.program w.intended⟩)
  destruct this w := ⟨this.object.destruct default w.net,withdraw this.program w.intended⟩
  assign_eq _ _ _ := rfl

/-- What a successful attaching call leaves in the slot it selects. -/
def installed (progFd ret : ℤ) (w : Net D) : Option Program :=
  if ret=0 ∧ progFd≠-1 then some ⟨progFd,w.serial⟩ else none

/-- Construct an attachment. A successful call is meant to set the selected
slot, whatever was in it before. -/
def attachAt (a : A) (d : D) (progFd : ℤ) (flags : UInt32) (ret : ℤ) (t : State D A) :
    Option (State D A) :=
  match XDPAttachment.create default ⟨some d⟩ progFd flags ret t.world.net with
  | none => none
  | some (object,net) =>
    let program := installed progFd ret t.world.net
    let intended :=
      if ret=0 then
        Function.update t.world.intended (d,slotMode (default d) flags) program
      else t.world.intended
    (construct a ⟨object,program⟩ t.cells).map (fun cells => ⟨cells,net,intended⟩)

/-- One operation. -/
def step (t : State D A) : Action D A → Option (State D A)
  | .attach a d progFd flags ret => attachAt default a d progFd flags ret t
  | .moveConstruct dst src =>
    (moveConstruct (tracked default) dst src t.cells).map (fun cells => {t with cells := cells})
  | .moveAssign dst src =>
    (moveAssign (tracked default) dst src t.cells t.world).map (fun (cells,w) => ⟨cells,w⟩)
  | .destroy a =>
    (destroy (tracked default) a t.cells t.world).map (fun (cells,w) => ⟨cells,w⟩)

end Steps

/-- No attachment, and all slots empty. -/
def start : State D A :=
  ⟨fun _ => none,⟨fun _ => none,0,fun _ => 0,false⟩,fun _ => none⟩

/-- Every teardown so far withdrew exactly the program of its object, and no
program is left without attachments. -/
structure Sound (t : State D A) : Prop where
  /-- The kernel's slots are the intended ones. -/
  exact_slots : t.world.net.slots=t.world.intended
  /-- After the last attachment all slots are empty. -/
  finished : (∀ a,t.cells a=none) → ∀ k,t.world.net.slots k=none

/-- The default slot of an attached object's device holds the object's own
program or none, and its program is in no other slot. -/
def OwnSlotOnly (default : D → Mode) (slots : D×Mode → Option Program) (this : Tracked D) : Prop :=
  ∀ d,this.object.isAttached=true → this.object.dev=some d →
    (slots (d,default d)=none ∨ slots (d,default d)=this.program) ∧
    ∀ p,this.program=some p → ∀ k,k≠(d,default d) → slots k≠some p

/-- Objects are torn down only when their own program is all that the default
slot can lose, and all that there is to lose elsewhere. -/
def TearsOwn (default : D → Mode) (t : State D A) : Action D A → Prop
  | .moveAssign dst src =>
    dst=src ∨ ∀ this,t.cells dst=some this → OwnSlotOnly default t.world.net.slots this
  | .destroy a => ∀ this,t.cells a=some this → OwnSlotOnly default t.world.net.slots this
  | _ => True

/-- An object that tears nothing down installed nothing. -/
def Idle (this : Tracked D) : Prop :=
  (this.object.isAttached=false ∨ this.object.dev=none) → this.program=none

/-- Slots as intended, each program with a live attachment. -/
structure Kept (t : State D A) : Prop where
  /-- The kernel's slots are the intended ones. -/
  exact_slots : t.world.net.slots=t.world.intended
  /-- Objects without a teardown have no program. -/
  idle : Every Idle t.cells
  /-- A program in a slot is that of a live attachment. -/
  owned : ∀ k p,t.world.net.slots k=some p → ∃ a this,t.cells a=some this ∧ this.program=some p

/-- Withdrawing nothing changes nothing. -/
theorem withdraw_none (slots : D×Mode → Option Program) : withdraw none slots=slots := by
  funext k
  unfold withdraw
  split
  · next he => exact he.symm
  · rfl

/-- What is left after a withdrawal was there before and is another program. -/
theorem withdraw_eq_some {program : Option Program} {slots : D×Mode → Option Program}
    {k : D×Mode} {p : Program} (h : withdraw program slots k=some p) :
    slots k=some p ∧ program≠some p := by
  unfold withdraw at h
  split at h
  · cases h
  · next hne => exact ⟨h,fun hp => hne (h.trans hp.symm)⟩

/-- Kept slots are sound. -/
theorem Kept.sound {t : State D A} (hk : Kept t) : Sound t := by
  refine ⟨hk.exact_slots,?_⟩
  intro hraw k
  cases hs : t.world.net.slots k with
  | none => rfl
  | some p =>
    obtain ⟨a,this,ha,_⟩ := hk.owned k p hs
    rw [hraw a] at ha
    cases ha

section Teardown
variable [DecidableEq D] {default : D → Mode}

/-- Teardown withdraws exactly the object's program if and only if the
condition on the slots holds before it. -/
theorem destruct_slots_iff {this : Tracked D} (hidle : Idle this) (w : Net D) :
    (this.object.destruct default w).slots=withdraw this.program w.slots ↔
      OwnSlotOnly default w.slots this := by
  rcases XDPAttachment.destruct_slots default this.object w with
    ⟨d,hattached,hdev,hslots⟩|⟨hnone,hslots⟩
  · rw [hslots]
    constructor
    · intro heq e _ he
      obtain rfl : d=e := Option.some.inj (hdev.symm.trans he)
      refine ⟨?_,?_⟩
      · have hk := congrFun heq (d,default d)
        rw [Function.update_self,withdraw] at hk
        split at hk
        · next hown => exact Or.inr hown
        · exact Or.inl hk.symm
      · intro p hp k hne hk
        have hother := congrFun heq k
        rw [Function.update_of_ne hne,hk,withdraw,hp,if_pos hk] at hother
        cases hother
    · intro hown
      obtain ⟨hdefault,helse⟩ := hown d hattached hdev
      funext k
      by_cases he : k=(d,default d)
      · subst he
        rw [Function.update_self,withdraw]
        rcases hdefault with hempty|hmine
        · rw [hempty,ite_self]
        · rw [if_pos hmine]
      · rw [Function.update_of_ne he,withdraw]
        split
        · next hk =>
          cases hp : this.program with
          | none => rw [hk,hp]
          | some p => exact absurd (hk.trans hp) (helse p hp k he)
        · rfl
  · rw [hslots,hidle hnone,withdraw_none]
    refine iff_of_true rfl ?_
    intro d hattached hdev
    rcases hnone with hfalse|hnull
    · rw [hattached] at hfalse
      cases hfalse
    · rw [hdev] at hnull
      cases hnull

/-- A construction sets the selected slot to the program it installed, or
leaves the slots when the call failed. -/
theorem create_slots {d : D} {progFd ret : ℤ} {flags : UInt32} {w net : Net D}
    {object : XDPAttachment D}
    (h : XDPAttachment.create default ⟨some d⟩ progFd flags ret w=some (object,net)) :
    net.slots=(if ret=0 then
        Function.update w.slots (d,slotMode (default d) flags) (installed progFd ret w)
      else w.slots) ∧ Idle ⟨object,installed progFd ret w⟩ := by
  by_cases hret : ret=0
  · subst hret
    cases h
    refine ⟨?_,?_⟩
    · simp only [devGet,bpfSetLinkXdpFd,if_true,installed,true_and,ite_not]
    · rintro (hfalse|hnull)
      · cases hfalse
      · cases hnull
  · simp only [XDPAttachment.create,bpfSetLinkXdpFd,hret,if_false,Option.some.injEq,
      Prod.mk.injEq] at h
    obtain ⟨rfl,rfl⟩ := h
    refine ⟨?_,fun _ => ?_⟩
    · rw [if_neg hret]
      rfl
    · simp only [installed,hret,false_and,if_false]

end Teardown

section Preservation
variable [DecidableEq D] {default : D → Mode} {t t' : State D A}

/-- Moves keep idle objects idle. -/
theorem idle_moves (default : D → Mode) (v : Tracked D) (hv : Idle v) :
    Idle ((tracked default).moveFrom v).1 ∧ Idle ((tracked default).moveFrom v).2 :=
  ⟨hv,fun _ => rfl⟩

/-- A teardown within its condition keeps the slots, provided every other
program keeps its attachment. -/
theorem Kept.drop (hk : Kept t) {this : Tracked D} (hidle : Idle this)
    (hown : OwnSlotOnly default t.world.net.slots this) {cells : A → Option (Tracked D)}
    (hcells : Every Idle cells)
    (hothers : ∀ p,this.program≠some p → (∃ a v,t.cells a=some v ∧ v.program=some p) →
      ∃ a v,cells a=some v ∧ v.program=some p) :
    Kept ⟨cells,(tracked default).destruct this t.world⟩ := by
  have hslots := (destruct_slots_iff hidle t.world.net).mpr hown
  refine ⟨?_,hcells,?_⟩
  · dsimp only [tracked]
    rw [hslots,hk.exact_slots]
  · intro k p hp
    dsimp only [tracked] at hp
    rw [hslots] at hp
    have hleft := withdraw_eq_some hp
    exact hothers p hleft.2 (hk.owned k p hleft.1)

variable [DecidableEq A]

/-- A program keeps its attachment through a move, unless it was the one the
target had installed. -/
theorem program_moved {dst src : A} {other : Tracked D} {cells : A → Option (Tracked D)}
    (hne : dst≠src) (hs : cells src=some other) {p : Program}
    (hd : ∀ v,cells dst=some v → v.program≠some p)
    (h : ∃ a v,cells a=some v ∧ v.program=some p) :
    ∃ a v,moved (tracked default) dst src other cells a=some v ∧ v.program=some p := by
  obtain ⟨a,v,ha,hv⟩ := h
  by_cases hsrc : a=src
  · subst hsrc
    obtain rfl : other=v := Option.some.inj (hs.symm.trans ha)
    exact ⟨dst,_,(moved_eq_some hne dst _).mpr (Or.inl ⟨rfl,rfl⟩),hv⟩
  · have hdst : a≠dst := by
      rintro rfl
      exact hd v ha hv
    exact ⟨a,v,(moved_eq_some hne a v).mpr (Or.inr (Or.inr ⟨hdst,hsrc,ha⟩)),hv⟩

/-- A construction sets its slot as intended and brings its attachment along. -/
theorem Kept.attach (hk : Kept t) {a : A} {d : D} {progFd ret : ℤ} {flags : UInt32}
    (h : attachAt default a d progFd flags ret t=some t') : Kept t' := by
  have hadd : ∀ {v : Tracked D},t.cells a=none → ∀ p,
      (∃ b u,t.cells b=some u ∧ u.program=some p) →
      ∃ b u,Function.update t.cells a (some v) b=some u ∧ u.program=some p := by
    rintro v hraw p ⟨b,u,hb,hu⟩
    have hne : b≠a := by
      rintro rfl
      rw [hraw] at hb
      cases hb
    exact ⟨b,u,by rw [Function.update_of_ne hne]; exact hb,hu⟩
  unfold attachAt at h
  split at h
  · cases h
  · next object net hcreate =>
    obtain ⟨cells,hmade,rfl⟩ := Option.map_eq_some_iff.mp h
    obtain ⟨hraw,rfl⟩ := construct_cases hmade
    obtain ⟨hslots,hidle⟩ := create_slots hcreate
    refine ⟨?_,hk.idle.construct hidle a,fun k p hp => ?_⟩
    · rw [hslots,hk.exact_slots]
    · dsimp only at hp
      rw [hslots] at hp
      split at hp
      · by_cases he : k=(d,slotMode (default d) flags)
        · subst he
          rw [Function.update_self] at hp
          exact ⟨a,_,Function.update_self _ _ _,hp⟩
        · rw [Function.update_of_ne he] at hp
          exact hadd hraw p (hk.owned k p hp)
      · exact hadd hraw p (hk.owned k p hp)

/-- Operations within the condition keep the slots. -/
theorem step_kept {a : Action D A} (hk : Kept t) (hg : TearsOwn default t a)
    (h : step default t a=some t') : Kept t' := by
  cases a with
  | attach a d progFd flags ret => exact hk.attach h
  | moveConstruct dst src =>
    obtain ⟨cells,hmoved,rfl⟩ := Option.map_eq_some_iff.mp h
    obtain ⟨other,hraw,hs,hne,rfl⟩ := moveConstruct_cases hmoved
    refine ⟨hk.exact_slots,hk.idle.moved (idle_moves default) hs,fun k p hp => ?_⟩
    refine program_moved hne hs (fun v hv => ?_) (hk.owned k p hp)
    rw [hraw] at hv
    cases hv
  | moveAssign dst src =>
    obtain ⟨⟨cells,w⟩,hmoved,rfl⟩ := Option.map_eq_some_iff.mp h
    obtain ⟨this,other,hd,hs,⟨_,rfl,rfl⟩|⟨hne,rfl,rfl⟩⟩ := moveAssign_cases hmoved
    · exact hk
    · have hown := hg.resolve_left hne this hd
      refine hk.drop (hk.idle dst this hd) hown (hk.idle.moved (idle_moves default) hs) ?_
      intro p hp hex
      refine program_moved hne hs (fun v hv => ?_) hex
      obtain rfl : this=v := Option.some.inj (hd.symm.trans hv)
      exact hp
  | destroy a =>
    obtain ⟨⟨cells,w⟩,hmoved,rfl⟩ := Option.map_eq_some_iff.mp h
    obtain ⟨this,hs,rfl,rfl⟩ := destroy_cases hmoved
    refine hk.drop (hk.idle a this hs) (hg this hs) (hk.idle.destroy a) ?_
    rintro p hp ⟨b,v,hb,hv⟩
    refine ⟨b,v,?_,hv⟩
    have hne : b≠a := by
      rintro rfl
      obtain rfl : this=v := Option.some.inj (hs.symm.trans hb)
      exact hp hv
    rw [Function.update_of_ne hne]
    exact hb

/-- If the slots are as intended after an operation, it was within the
condition. -/
theorem step_exact {a : Action D A} (hk : Kept t) (h : step default t a=some t')
    (hsound : Sound t') : TearsOwn default t a := by
  cases a with
  | attach a d progFd flags ret => trivial
  | moveConstruct dst src => trivial
  | moveAssign dst src =>
    obtain ⟨⟨cells,w⟩,hmoved,rfl⟩ := Option.map_eq_some_iff.mp h
    obtain ⟨this,other,hd,hs,⟨he,_,_⟩|⟨_,rfl,rfl⟩⟩ := moveAssign_cases hmoved
    · exact Or.inl he
    · refine Or.inr (fun v hv => ?_)
      obtain rfl : this=v := Option.some.inj (hd.symm.trans hv)
      refine (destruct_slots_iff (hk.idle dst this hd) t.world.net).mp ?_
      rw [hk.exact_slots]
      exact hsound.exact_slots
  | destroy a =>
    obtain ⟨⟨cells,w⟩,hmoved,rfl⟩ := Option.map_eq_some_iff.mp h
    obtain ⟨this,hs,rfl,rfl⟩ := destroy_cases hmoved
    intro v hv
    obtain rfl : this=v := Option.some.inj (hs.symm.trans hv)
    refine (destruct_slots_iff (hk.idle a this hs) t.world.net).mp ?_
    rw [hk.exact_slots]
    exact hsound.exact_slots

/-- XDP attachment slots. In a run every teardown withdraws exactly its own
object's program, and nothing is left in the end, if and only if each object
is torn down within the condition. -/
theorem slots_sound_iff (default : D → Mode) (actions : List (Action D A)) :
    Along (step default) Sound start actions ↔
      Guarded (step default) (TearsOwn default) start actions := by
  have hstart : Kept (start : State D A) := ⟨rfl,nofun,nofun⟩
  exact along_iff_guarded (I := Kept) (fun hk => hk.sound)
    (fun hk hg h => step_kept hk hg h) (fun hk h hsound => step_exact hk h hsound) hstart

end Preservation

/-- A program attached in generic mode on a device whose default is the
driver's mode: the destructor clears the driver slot, and the program stays. -/
theorem generic_program_stays :
    ∃ t,run (step (fun _ => Mode.drv)) (start : State (Fin 1) (Fin 1))
        [.attach 0 0 7 xdpFlagsSkbMode 0,.destroy 0]=some t ∧
      t.cells 0=none ∧ t.world.net.slots (0,.skb)=some ⟨7,0⟩ ∧ ¬Sound t := by
  refine ⟨_,rfl,rfl,by decide,?_⟩
  intro hsound
  have hempty := hsound.finished (by decide) (0,.skb)
  exact absurd hempty (by decide)

end Kpp.XdpSlots
