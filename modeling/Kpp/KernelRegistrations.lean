import Kpp.StepRun
import Mathlib.Data.Nat.Notation
import Mathlib.Logic.Function.Basic

/-!
# NetfilterHook and Notifier against the kernel's registries

The constructors register the block that is embedded in the object and drop
the result of the registration. What the destructors do depends on the
fields of the object alone: a hook is always unregistered, and a notifier
whenever it was given an unregister function.
-/

namespace Kpp.KernelRegistrations

open StepRun

variable {Chain : Type*}

/-- Where the kernel keeps registered blocks. -/
inductive Registry (Chain : Type*) where
  /-- Hooks of `init_net`. -/
  | netHooks
  /-- A notifier chain. -/
  | chain (c : Chain)
  deriving DecidableEq

/-- The kernel's registries; blocks are known by the objects they are in. -/
structure Kernel (Chain : Type*) where
  /-- Blocks that are registered. -/
  registered : Registry Chain → ℕ → Bool
  /-- Unregister calls for each block. -/
  unregisters : ℕ → ℕ
  /-- Something was unregistered that was not registered. -/
  stray : Bool

/-- `Notifier`: the field that its destructor reads. -/
structure Notifier (Chain : Type*) where
  /-- `unregister_ptr_`, by the chain it removes from. -/
  unregisterPtr : Option Chain

/-- A constructed object. -/
inductive Object (Chain : Type*) where
  | hook
  | notifier (this : Notifier Chain)

/-- Constructions with the outcome of the registration, and destructions. -/
inductive Action (Chain : Type*) where
  | hook (accepted : Bool)
  | notifier (reg : Chain) (unreg : Option Chain) (accepted : Bool)
  | destroy (block : ℕ)

/-- Objects over their lives; they are numbered in order of construction. -/
structure State (Chain : Type*) where
  /-- The kernel. -/
  kernel : Kernel Chain
  /-- Number of the next object. -/
  next : ℕ
  /-- Live objects. -/
  live : ℕ → Option (Object Chain)
  /-- Where the registration of each object succeeded, if it did. -/
  accepted : ℕ → Option (Registry Chain)

/-- Nothing constructed or registered yet. -/
def start : State Chain := ⟨⟨fun _ _ => false,fun _ => 0,false⟩,0,fun _ => none,fun _ => none⟩

section Operations
variable [DecidableEq Chain]

/-- `nf_register_net_hook` or a chain's register function, with its outcome. -/
def Kernel.register (r : Registry Chain) (block : ℕ) (accepted : Bool) (k : Kernel Chain) :
    Kernel Chain :=
  if accepted=true then
    {k with registered := fun r' b => if r'=r ∧ b=block then true else k.registered r' b}
  else k

/-- `nf_unregister_net_hook` or a chain's unregister function. -/
def Kernel.unregister (r : Registry Chain) (block : ℕ) (k : Kernel Chain) : Kernel Chain :=
  ⟨fun r' b => if r'=r ∧ b=block then false else k.registered r' b,
    Function.update k.unregisters block (k.unregisters block+1),
    k.stray || !k.registered r block⟩

/-- `NetfilterHook()`; the result of the registration is dropped. -/
def NetfilterHook.construct (block : ℕ) (accepted : Bool) (k : Kernel Chain) : Kernel Chain :=
  k.register .netHooks block accepted

/-- `~NetfilterHook()`. -/
def NetfilterHook.destruct (block : ℕ) (k : Kernel Chain) : Kernel Chain :=
  k.unregister .netHooks block

/-- `Notifier()`; the result of `reg` is dropped. -/
def Notifier.construct (reg : Chain) (unreg : Option Chain) (block : ℕ) (accepted : Bool)
    (k : Kernel Chain) : Notifier Chain×Kernel Chain :=
  (⟨unreg⟩,k.register (.chain reg) block accepted)

/-- `~Notifier()`. -/
def Notifier.destruct (this : Notifier Chain) (block : ℕ) (k : Kernel Chain) : Kernel Chain :=
  match this.unregisterPtr with
  | some c => k.unregister (.chain c) block
  | none => k

/-- Destructor of an object. -/
def Object.destruct (this : Object Chain) (block : ℕ) (k : Kernel Chain) : Kernel Chain :=
  match this with
  | .hook => NetfilterHook.destruct block k
  | .notifier this => this.destruct block k

/-- Record a construction: the object, the kernel after its constructor, and
where it tried to register. -/
def State.construct (this : Object Chain) (k : Kernel Chain) (r : Registry Chain)
    (accepted : Bool) (s : State Chain) : State Chain :=
  ⟨k,s.next+1,Function.update s.live s.next (some this),
    Function.update s.accepted s.next (if accepted=true then some r else none)⟩

/-- One construction or destruction. -/
def step (s : State Chain) : Action Chain → Option (State Chain)
  | .hook accepted =>
    some (s.construct .hook (NetfilterHook.construct s.next accepted s.kernel) .netHooks accepted)
  | .notifier reg unreg accepted =>
    let made := Notifier.construct reg unreg s.next accepted s.kernel
    some (s.construct (.notifier made.1) made.2 (.chain reg) accepted)
  | .destroy block =>
    match s.live block with
    | none => none
    | some this =>
      some {s with kernel := this.destruct block s.kernel,live := Function.update s.live block none}

end Operations

/-- Where the destructor unregisters, if it does. -/
def Object.unregistersFrom : Object Chain → Option (Registry Chain)
  | .hook => some .netHooks
  | .notifier this => this.unregisterPtr.map .chain

/-- Registrations and unregistrations are paired. -/
structure Paired (s : State Chain) : Prop where
  /-- Registered are the live objects whose registration succeeded. -/
  registered : ∀ r b,s.kernel.registered r b=true ↔ s.live b≠none ∧ s.accepted b=some r
  /-- No live object was unregistered. -/
  held : ∀ b,s.live b≠none → s.kernel.unregisters b=0
  /-- A destroyed object was unregistered once if its registration succeeded,
  and never otherwise. -/
  ended : ∀ b,s.live b=none → s.kernel.unregisters b=if (s.accepted b).isSome=true then 1 else 0
  /-- Nothing was unregistered that was not registered. -/
  clean : s.kernel.stray=false

/-- A destructor unregisters where the registration of its object succeeded,
and nowhere if it failed. -/
def Undoes (s : State Chain) : Action Chain → Prop
  | .destroy block => ∀ this,s.live block=some this → this.unregistersFrom=s.accepted block
  | _ => True

/-- Pairing, with nothing known about objects that are still to come. -/
structure Sound (s : State Chain) : Prop where
  /-- Registrations and unregistrations are paired. -/
  paired : Paired s
  /-- Later objects are not there yet. -/
  fresh : ∀ b,s.next≤b → s.live b=none ∧ s.accepted b=none

variable {s t : State Chain}

/-- An object is gone for good when its block is registered nowhere and was
unregistered as often as it had been registered. -/
theorem Sound.retire (hs : Sound s) {block : ℕ} (hlive : s.live block≠none) {k : Kernel Chain}
    (hother : ∀ b,b≠block → k.unregisters b=s.kernel.unregisters b ∧
      ∀ r,k.registered r b=s.kernel.registered r b)
    (hgone : ∀ r,k.registered r block=false)
    (hcount : k.unregisters block=if (s.accepted block).isSome=true then 1 else 0)
    (hclean : k.stray=false) :
    Sound {s with kernel := k,live := Function.update s.live block none} := by
  refine ⟨⟨?_,?_,?_,hclean⟩,?_⟩
  · intro r b
    change k.registered r b=true ↔ Function.update s.live block none b≠none ∧ s.accepted b=some r
    by_cases he : b=block
    · rw [he,hgone r,Function.update_self]
      exact iff_of_false Bool.false_ne_true (fun h => h.1 rfl)
    · rw [(hother b he).2 r,Function.update_of_ne he]
      exact hs.paired.registered r b
  · intro b hb
    change Function.update s.live block none b≠none at hb
    have he : b≠block := by
      rintro rfl
      exact hb (Function.update_self _ _ _)
    rw [Function.update_of_ne he] at hb
    exact (hother b he).1.trans (hs.paired.held b hb)
  · intro b hb
    change Function.update s.live block none b=none at hb
    by_cases he : b=block
    · rw [he]
      exact hcount
    · rw [Function.update_of_ne he] at hb
      exact (hother b he).1.trans (hs.paired.ended b hb)
  · intro b hb
    have hlater := hs.fresh b hb
    have he : b≠block := fun he => hlive (he ▸ hlater.1)
    exact ⟨(Function.update_of_ne he _ _).trans hlater.1,hlater.2⟩

variable [DecidableEq Chain]

/-- A destructor unregisters its block at one place, or does nothing. -/
theorem destruct_eq (this : Object Chain) (block : ℕ) (k : Kernel Chain) :
    this.destruct block k=this.unregistersFrom.elim k (fun r => k.unregister r block) := by
  cases this with
  | hook => rfl
  | notifier this =>
    cases this with
    | mk ptr => cases ptr <;> rfl

/-- A construction keeps the pairing, whatever its registration comes to. -/
theorem Sound.construct (hs : Sound s) (this : Object Chain) (r : Registry Chain)
    (accepted : Bool) :
    Sound (s.construct this (s.kernel.register r s.next accepted) r accepted) := by
  have hnew := hs.fresh s.next (Nat.le_refl _)
  have hunreg : (s.kernel.register r s.next accepted).unregisters=s.kernel.unregisters := by
    unfold Kernel.register
    split <;> rfl
  have hold : ∀ b,b≠s.next →
      Function.update s.live s.next (some this) b=s.live b ∧
      Function.update s.accepted s.next (if accepted=true then some r else none) b=
        s.accepted b ∧
      ∀ r',(s.kernel.register r s.next accepted).registered r' b=s.kernel.registered r' b := by
    intro b hb
    refine ⟨Function.update_of_ne hb _ _,Function.update_of_ne hb _ _,fun r' => ?_⟩
    unfold Kernel.register
    split
    · exact if_neg (fun h => hb h.2)
    · rfl
  refine ⟨⟨?_,?_,?_,?_⟩,?_⟩
  · intro r' b
    unfold State.construct
    dsimp only
    by_cases hb : b=s.next
    · subst hb
      have hnone : s.kernel.registered r' s.next=false := by
        rw [Bool.eq_false_iff]
        exact fun h => ((hs.paired.registered r' s.next).mp h).1 hnew.1
      rw [Function.update_self,Function.update_self]
      cases accepted with
      | false => simp [Kernel.register,hnone]
      | true =>
        by_cases hr : r'=r
        · simp [Kernel.register,hr]
        · simp [Kernel.register,hr,hnone,Ne.symm hr]
    · rw [(hold b hb).1,(hold b hb).2.1,(hold b hb).2.2]
      exact hs.paired.registered r' b
  · intro b hlive
    change (s.kernel.register r s.next accepted).unregisters b=0
    rw [hunreg]
    by_cases hb : b=s.next
    · rw [hb,hs.paired.ended s.next hnew.1,hnew.2]
      rfl
    · exact hs.paired.held b (fun h => hlive ((hold b hb).1.trans h))
  · intro b hdead
    change Function.update s.live s.next (some this) b=none at hdead
    change (s.kernel.register r s.next accepted).unregisters b=
      if (Function.update s.accepted s.next (if accepted=true then some r else none) b).isSome=true
      then 1 else 0
    rw [hunreg]
    by_cases hb : b=s.next
    · rw [hb,Function.update_self] at hdead
      cases hdead
    · rw [(hold b hb).1] at hdead
      rw [(hold b hb).2.1]
      exact hs.paired.ended b hdead
  · have hstray : (s.kernel.register r s.next accepted).stray=s.kernel.stray := by
      unfold Kernel.register
      split <;> rfl
    exact hstray.trans hs.paired.clean
  · intro b hb
    change s.next+1≤b at hb
    have hne : b≠s.next := by omega
    have hlater := hs.fresh b (by omega)
    exact ⟨(hold b hne).1.trans hlater.1,(hold b hne).2.1.trans hlater.2⟩

/-- A destruction that undoes the registration keeps the pairing. -/
theorem Sound.destroy (hs : Sound s) {block : ℕ} {this : Object Chain}
    (hlive : s.live block=some this) (hundoes : this.unregistersFrom=s.accepted block) :
    Sound {s with
      kernel := this.destruct block s.kernel,live := Function.update s.live block none} := by
  have hthere : s.live block≠none := by
    rw [hlive]
    exact nofun
  have hzero := hs.paired.held block hthere
  rw [destruct_eq,hundoes]
  cases ha : s.accepted block with
  | none =>
    -- nothing was registered, and nothing is done
    refine hs.retire hthere (fun _ _ => ⟨rfl,fun _ => rfl⟩) ?_ ?_ hs.paired.clean
    · intro r
      rw [Bool.eq_false_iff]
      intro hr
      have hold := ((hs.paired.registered r block).mp hr).2
      rw [ha] at hold
      cases hold
    · rw [ha]
      exact hzero
  | some r =>
    have hreg : s.kernel.registered r block=true :=
      (hs.paired.registered r block).mpr ⟨hthere,ha⟩
    refine hs.retire hthere (fun b hb => ⟨Function.update_of_ne hb _ _,fun r' => ?_⟩) ?_ ?_ ?_
    · exact if_neg (fun h => hb h.2)
    · intro r'
      change (if r'=r ∧ block=block then false else s.kernel.registered r' block)=false
      split
      · rfl
      · next hother =>
        rw [Bool.eq_false_iff]
        intro hr
        have hold := ((hs.paired.registered r' block).mp hr).2
        rw [ha] at hold
        exact hother ⟨(Option.some.inj hold).symm,rfl⟩
    · change Function.update s.kernel.unregisters block (s.kernel.unregisters block+1) block=_
      rw [Function.update_self,hzero,ha]
      rfl
    · change (s.kernel.stray || !s.kernel.registered r block)=false
      rw [hs.paired.clean,hreg]
      rfl

/-- Steps that undo registrations keep the pairing. -/
theorem step_sound (hs : Sound s) {a : Action Chain} (hg : Undoes s a)
    (h : step s a=some t) : Sound t := by
  cases a with
  | hook accepted =>
    obtain rfl := Option.some.inj h
    exact hs.construct .hook .netHooks accepted
  | notifier reg unreg accepted =>
    obtain rfl := Option.some.inj h
    exact hs.construct (.notifier ⟨unreg⟩) (.chain reg) accepted
  | destroy block =>
    cases hlive : s.live block with
    | none => simp only [step,hlive,reduceCtorEq] at h
    | some this =>
      simp only [step,hlive,Option.some.injEq] at h
      subst h
      exact hs.destroy hlive (hg this hlive)

/-- A step after which the pairing holds undid the registration. -/
theorem Sound.undoes_of_paired (hs : Sound s) {a : Action Chain} (h : step s a=some t)
    (hp : Paired t) : Undoes s a := by
  cases a with
  | hook accepted => trivial
  | notifier reg unreg accepted => trivial
  | destroy block =>
    intro this hlive
    simp only [step,hlive,Option.some.injEq] at h
    subst h
    have hthere : s.live block≠none := by
      rw [hlive]
      exact nofun
    have hzero := hs.paired.held block hthere
    have hended := hp.ended block (Function.update_self _ _ _)
    have hclean := hp.clean
    dsimp only at hended hclean
    rw [destruct_eq] at hended hclean
    cases hu : this.unregistersFrom with
    | none =>
      rw [hu] at hended
      cases ha : s.accepted block with
      | none => rfl
      | some r =>
        rw [ha] at hended
        cases hzero.symm.trans hended
    | some r =>
      rw [hu] at hclean
      have hboth := Bool.or_eq_false_iff.mp hclean
      have hreg : s.kernel.registered r block=true := by simpa using hboth.2
      exact ((hs.paired.registered r block).mp hreg).2.symm

/-- Registrations are paired in every state of a run exactly when every
destructor unregisters where its object's registration succeeded, and not at
all if it failed. -/
theorem paired_iff_undoes (actions : List (Action Chain)) :
    Along step Paired (start : State Chain) actions ↔ Guarded step Undoes start actions := by
  have hstart : Sound (start : State Chain) := by
    refine ⟨⟨?_,fun _ _ => rfl,fun _ _ => rfl,rfl⟩,fun _ _ => ⟨rfl,rfl⟩⟩
    intro r b
    exact iff_of_false nofun (fun h => h.1 rfl)
  exact along_iff_guarded Sound.paired (fun hs hg h => step_sound hs hg h)
    (fun hs h hp => hs.undoes_of_paired h hp) hstart

/-- A hook whose registration failed is unregistered by its destructor. -/
theorem failed_hook_unregistered :
    ∃ t,run step (start : State ℕ) [.hook false,.destroy 0]=some t ∧ t.accepted 0=none ∧
      t.kernel.unregisters 0=1 ∧ t.kernel.stray=true ∧ ¬Paired t := by
  refine ⟨_,rfl,rfl,rfl,rfl,?_⟩
  intro hp
  exact absurd hp.clean nofun

end Kpp.KernelRegistrations
