import Kpp.StepRun
import Kpp.UniqueHandle

/-!
# Objects owned through UniquePtr handles

Objects made by `make_unique` own one another through `UniquePtr` members,
nested to any depth, and own kernel resources through members of other
wrapper classes. Handles are local variables or members of such objects.
A destructor releases what the members of its object own.
-/

namespace Kpp.UniqueOwnership

open MoveOnlyHandle StepRun UniqueHandle

variable {H : Type*}

/-- A member of a class: plain data, a `UniquePtr`, or another wrapper. -/
inductive Member where
  | plain
  | unique
  | wrapper
  deriving DecidableEq

/-- The class of an object, its nested members listed in place. -/
structure Class where
  /-- Members in order of declaration. -/
  members : List Member
  /-- The class has a destructor of its own. -/
  userDestructor : Bool

/-- Running the destructor has no effect. -/
def Class.triviallyDestructible (T : Class) : Bool :=
  !T.userDestructor && T.members.all (fun m => m==.plain)

/-- An object constructed by `make_unique`. -/
structure Object where
  /-- Its class. -/
  type : Class
  /-- How often its destructor ran. -/
  destructions : ℕ

/-- Storage of a handle: a local variable, or a member of an object. -/
inductive Cell (H : Type*) where
  | root (h : H)
  | member (object index : ℕ)
  deriving DecidableEq

/-- Handles in their cells over the slab. -/
abbrev State (H : Type*) := Table (Cell H) ℕ (Slab Object)

/-- Operations on handles. -/
inductive Action (H : Type*) where
  | makeUnique (h : H) (T : Class) (allocated : Bool)
  | wrapNull (h : H)
  | moveConstruct (h : H) (src : Cell H)
  | moveAssign (dst src : Cell H)
  | destroy (h : H)

/-- The storage of the cell was not freed. -/
def stored (w : Slab Object) : Cell H → Bool
  | .root _ => true
  | .member p _ => w.frees p==0

/-- Value-initialisation makes every `UniquePtr` member of the new object null. -/
def placeMembers (p : ℕ) (T : Class) (slots : Cell H → Option UniquePtr) :
    Cell H → Option UniquePtr
  | .root h => slots (.root h)
  | .member q j => if q=p ∧ T.members[j]?=some .unique then some ⟨none⟩ else slots (.member q j)

section Steps
variable [DecidableEq H]

/-- One operation; handles in freed storage take no part. -/
def step (t : State H) : Action H → Option (State H)
  | .makeUnique h T allocated =>
    let made := makeUnique (⟨T,0⟩ : Object) allocated t.world
    match made.1.held with
    | some p => construct (.root h) made.1 ⟨placeMembers p T t.slots,made.2⟩
    | none => construct (.root h) made.1 ⟨t.slots,made.2⟩
  | .wrapNull h => construct (.root h) ⟨none⟩ t
  | .moveConstruct h src =>
    if stored t.world src=true then moveConstruct (.root h) src t else none
  | .moveAssign dst src =>
    if stored t.world dst=true ∧ stored t.world src=true then
      moveAssign defaultDeleter dst src t
    else none
  | .destroy h => destroy defaultDeleter (.root h) t

end Steps

/-- The destructor of the object ran once, or has no effect. -/
def Object.Destroyed (obj : Object) : Prop :=
  obj.type.triviallyDestructible=true ∨ obj.destructions=1

/-- Objects are destroyed and freed once each, and none is left without a handle. -/
structure Lifetimes (t : State H) : Prop where
  /-- A freed object was freed once, and was destroyed. -/
  freed : ∀ p obj,t.world.object p=some obj → 0<t.world.frees p →
    t.world.frees p=1 ∧ obj.Destroyed
  /-- An object whose last handle is gone was destroyed and freed. -/
  gone : ∀ p obj,t.world.object p=some obj →
    (∀ c,t.slots c=some ⟨some p⟩ → stored t.world c=false) →
    t.world.frees p=1 ∧ obj.Destroyed

/-- The handle in the cell owns nothing, or an object whose destructor has no effect. -/
def DropsTrivially (t : State H) (c : Cell H) : Prop :=
  ∀ p obj,t.slots c=some ⟨some p⟩ → t.world.object p=some obj →
    obj.type.triviallyDestructible=true

/-- Only trivially destructible objects are passed to the deleter. -/
def TrivialDrops (t : State H) : Action H → Prop
  | .moveAssign dst src => dst=src ∨ DropsTrivially t dst
  | .destroy h => DropsTrivially t (.root h)
  | _ => True

/-- No handle and no object yet. -/
def start : State H := ⟨fun _ => none,Slab.empty⟩

/-- Every object that was not freed has exactly one handle, and everything
freed was trivially destructible. -/
structure Owned (t : State H) : Prop where
  /-- Objects are where the allocator put them. -/
  sane : t.world.Sane
  /-- No destructor of an object ever ran. -/
  untouched : ∀ p obj,t.world.object p=some obj → obj.destructions=0
  /-- Freed objects were freed once and are trivially destructible. -/
  freed : ∀ p obj,t.world.object p=some obj → 0<t.world.frees p →
    t.world.frees p=1 ∧ obj.type.triviallyDestructible=true
  /-- Handles own objects that are there. -/
  valid : ∀ c p,t.slots c=some ⟨some p⟩ → p<t.world.next ∧ t.world.frees p=0
  /-- An object that is there has a handle. -/
  owner : ∀ p,p<t.world.next → t.world.frees p=0 → ∃ c,t.slots c=some ⟨some p⟩
  /-- It has only one. -/
  unique : Exclusive t.slots
  /-- Member handles are in objects that have such a member. -/
  placed : ∀ p j,t.slots (.member p j)≠none →
    ∃ obj,t.world.object p=some obj ∧ obj.type.members[j]?=some .unique

variable {t t' : State H}

/-- A class with a `UniquePtr` member is not trivially destructible. -/
theorem Class.not_trivial_of_unique {T : Class} {j : ℕ} (hj : T.members[j]?=some .unique) :
    T.triviallyDestructible≠true := by
  intro htrivial
  unfold triviallyDestructible at htrivial
  rw [Bool.and_eq_true,List.all_eq_true] at htrivial
  have hplain := htrivial.2 .unique (List.mem_of_getElem? hj)
  exact absurd hplain (by decide)

/-- Handles of an owned state are in storage that is there. -/
theorem Owned.stored (ho : Owned t) {c : Cell H} (hc : t.slots c≠none) :
    stored t.world c=true := by
  cases c with
  | root h => rfl
  | member p j =>
    obtain ⟨obj,hobj,hj⟩ := ho.placed p j hc
    have hzero : t.world.frees p=0 := by
      by_contra hne
      have hfreed := ho.freed p obj hobj (by omega)
      exact Class.not_trivial_of_unique hj hfreed.2
    dsimp only [UniqueOwnership.stored]
    rw [hzero]
    rfl

/-- Owned states have proper lifetimes. -/
theorem Owned.lifetimes (ho : Owned t) : Lifetimes t := by
  have hfreed : ∀ p obj,t.world.object p=some obj → 0<t.world.frees p →
      t.world.frees p=1 ∧ obj.Destroyed := by
    intro p obj hobj hpos
    have hf := ho.freed p obj hobj hpos
    exact ⟨hf.1,Or.inl hf.2⟩
  refine ⟨hfreed,?_⟩
  intro p obj hobj hgone
  have hpos : 0<t.world.frees p := by
    by_contra hnot
    obtain ⟨c,hc⟩ := ho.owner p (ho.sane.lt hobj) (by omega)
    have hlive : t.slots c≠none := by
      rw [hc]
      exact nofun
    have hstored := ho.stored hlive
    rw [hgone c hc] at hstored
    cases hstored
  exact hfreed p obj hobj hpos

/-- New empty member handles leave all owners as they were. -/
theorem placeMembers_owner_iff (p : ℕ) (T : Class) {slots : Cell H → Option UniquePtr}
    (hraw : ∀ j,slots (.member p j)=none) (c : Cell H) (r : ℕ) :
    placeMembers p T slots c=some ⟨some r⟩ ↔ slots c=some ⟨some r⟩ := by
  cases c with
  | root h => rfl
  | member q j =>
    dsimp only [placeMembers]
    split
    · next hnew =>
      rw [hnew.1,hraw j]
      simp only [Option.some.injEq,Owner.mk.injEq,reduceCtorEq]
    · rfl

/-- A change of handles that takes the owner away from what one handle held,
and gives that object to the deleter, keeps ownership. -/
theorem Owned.drop (ho : Owned t) (this : UniquePtr)
    (hthis : ∀ p,this.held=some p → p<t.world.next ∧ t.world.frees p=0)
    (htrivial : ∀ p obj,this.held=some p → t.world.object p=some obj →
      obj.type.triviallyDestructible=true) {slots : Cell H → Option UniquePtr}
    (hkeep : ∀ p,this.held≠some p → ((∃ d,slots d=some ⟨some p⟩) ↔ ∃ d,t.slots d=some ⟨some p⟩))
    (hlost : ∀ p,this.held=some p → ∀ d,slots d≠some ⟨some p⟩) (hunique : Exclusive slots)
    (hplaced : ∀ p j,slots (.member p j)≠none → t.slots (.member p j)≠none) :
    Owned ⟨slots,MoveOnlyHandle.destruct defaultDeleter this t.world⟩ := by
  cases this with
  | mk held =>
    cases held with
    | none =>
      refine ⟨ho.sane,ho.untouched,ho.freed,?_,?_,hunique,?_⟩
      · intro d p hd
        obtain ⟨d',hd'⟩ := (hkeep p nofun).mp ⟨d,hd⟩
        exact ho.valid d' p hd'
      · intro p hp hz
        exact (hkeep p nofun).mpr (ho.owner p hp hz)
      · intro p j hne
        exact ho.placed p j (hplaced p j hne)
    | some q =>
      have hq := hthis q rfl
      have hfrees := fun p => kfree_frees q p t.world
      have hother : ∀ p,p≠q → (⟨some q⟩ : UniquePtr).held≠some p :=
        fun p hne he => hne (Option.some.inj he).symm
      change Owned ⟨slots,kfree q t.world⟩
      refine ⟨ho.sane.kfree hq.1,ho.untouched,?_,?_,?_,hunique,?_⟩
      · intro p obj hobj hpos
        dsimp only at hpos ⊢
        rw [hfrees p] at hpos ⊢
        by_cases he : p=q
        · subst he
          rw [if_pos rfl,hq.2]
          exact ⟨rfl,htrivial p obj rfl hobj⟩
        · rw [if_neg he] at hpos ⊢
          exact ho.freed p obj hobj hpos
      · intro d p hd
        have hne : p≠q := by
          rintro rfl
          exact hlost p rfl d hd
        obtain ⟨d',hd'⟩ := (hkeep p (hother p hne)).mp ⟨d,hd⟩
        dsimp only
        rw [hfrees p,if_neg hne]
        exact ho.valid d' p hd'
      · intro p hp hz
        dsimp only at hz
        rw [hfrees p] at hz
        have hne : p≠q := by
          rintro rfl
          rw [if_pos rfl] at hz
          omega
        rw [if_neg hne] at hz
        exact (hkeep p (hother p hne)).mpr (ho.owner p hp hz)
      · intro p j hne
        exact ho.placed p j (hplaced p j hne)

/-- An object given to the deleter without a proper lifetime shows at once. -/
theorem Owned.drop_exact (ho : Owned t) {c : Cell H} {this : UniquePtr}
    (hc : t.slots c=some this) {slots : Cell H → Option UniquePtr}
    (hp : Lifetimes (⟨slots,MoveOnlyHandle.destruct defaultDeleter this t.world⟩ : State H)) :
    DropsTrivially t c := by
  intro p obj hslot hobj
  rw [hc] at hslot
  cases hslot
  have hpos : 0<(kfree p t.world).frees p := by
    rw [kfree_frees,if_pos rfl]
    omega
  have hdestroyed := (hp.freed p obj hobj hpos).2
  have hnever := ho.untouched p obj hobj
  rcases hdestroyed with htrivial | honce
  · exact htrivial
  · omega

section Preservation
variable [DecidableEq H]

/-- A new empty handle in a local variable keeps ownership. -/
theorem Owned.constructEmpty (ho : Owned t) {h : H} (hraw : t.slots (.root h)=none) :
    Owned ⟨Function.update t.slots (.root h) (some ⟨none⟩),t.world⟩ := by
  have howner := construct_owner_iff hraw (⟨none⟩ : UniquePtr)
  simp only [reduceCtorEq,and_false,false_or] at howner
  refine ⟨ho.sane,ho.untouched,ho.freed,?_,?_,?_,?_⟩
  · intro c p hc
    exact ho.valid c p ((howner c p).mp hc)
  · intro p hp hz
    obtain ⟨c,hc⟩ := ho.owner p hp hz
    exact ⟨c,(howner c p).mpr hc⟩
  · exact ho.unique.construct hraw _ nofun
  · intro p j hne
    have hcell : Cell.member p j≠Cell.root h := nofun
    dsimp only at hne
    rw [Function.update_of_ne hcell] at hne
    exact ho.placed p j hne

/-- A successful `make_unique` adds an object with its one handle. -/
theorem Owned.makeUnique (ho : Owned t) {h : H} (hraw : t.slots (.root h)=none) (T : Class) :
    Owned ⟨Function.update (placeMembers t.world.next T t.slots) (.root h)
      (some ⟨some t.world.next⟩),t.world.construct ⟨T,0⟩⟩ := by
  have hunmade := ho.sane.unmade t.world.next (le_refl _)
  have hempty : ∀ j,t.slots (.member t.world.next j)=none := by
    intro j
    by_contra hne
    obtain ⟨obj,hobj,_⟩ := ho.placed t.world.next j hne
    rw [hunmade.1] at hobj
    cases hobj
  have hplace := placeMembers_owner_iff t.world.next T hempty
  have hraw' : placeMembers t.world.next T t.slots (.root h)=none := hraw
  have howner := construct_owner_iff hraw' (⟨some t.world.next⟩ : UniquePtr)
  have hobject := Slab.construct_object (⟨T,0⟩ : Object) t.world
  refine ⟨ho.sane.construct _,?_,?_,?_,?_,?_,?_⟩
  · intro p obj hobj
    rw [hobject p] at hobj
    split at hobj
    · cases hobj
      rfl
    · exact ho.untouched p obj hobj
  · intro p obj hobj hpos
    change 0<t.world.frees p at hpos
    rw [hobject p] at hobj
    split at hobj
    · next he =>
      rw [he,hunmade.2] at hpos
      exact absurd hpos (Nat.lt_irrefl 0)
    · exact ho.freed p obj hobj hpos
  · intro c p hc
    change p<t.world.next+1 ∧ t.world.frees p=0
    rcases (howner c p).mp hc with ⟨_,hp⟩ | hold
    · cases hp
      exact ⟨Nat.lt_succ_self _,hunmade.2⟩
    · have hv := ho.valid c p ((hplace c p).mp hold)
      exact ⟨by omega,hv.2⟩
  · intro p hp hz
    change p<t.world.next+1 at hp
    by_cases he : p=t.world.next
    · exact ⟨.root h,(howner _ p).mpr (Or.inl ⟨rfl,he ▸ rfl⟩)⟩
    · obtain ⟨c,hc⟩ := ho.owner p (by omega) hz
      exact ⟨c,(howner c p).mpr (Or.inr ((hplace c p).mpr hc))⟩
  · have hplaced : Exclusive (placeMembers t.world.next T t.slots) := by
      intro a b r ha hb
      exact ho.unique a b r ((hplace a r).mp ha) ((hplace b r).mp hb)
    refine hplaced.construct hraw' _ ?_
    intro r hr c hc
    cases hr
    have hv := ho.valid c _ ((hplace c _).mp hc)
    exact absurd hv.1 (Nat.lt_irrefl _)
  · intro p j hne
    have hcell : Cell.member p j≠Cell.root h := nofun
    dsimp only at hne
    rw [Function.update_of_ne hcell] at hne
    dsimp only [placeMembers] at hne
    dsimp only
    rw [hobject p]
    split at hne
    · next hnew => exact ⟨⟨T,0⟩,if_pos hnew.1,hnew.2⟩
    · obtain ⟨obj,hobj,hj⟩ := ho.placed p j hne
      have hp := ho.sane.lt hobj
      refine ⟨obj,?_,hj⟩
      rw [if_neg (Nat.ne_of_lt hp)]
      exact hobj

/-- A permitted operation that drops only trivially destructible objects
keeps ownership. -/
theorem step_owned {a : Action H} (ho : Owned t) (hg : TrivialDrops t a)
    (h : step t a=some t') : Owned t' := by
  have hmembers : ∀ {slots : Cell H → Option UniquePtr} {cell : Cell H} {v},
      t.slots cell≠none → (∀ p j,slots (.member p j)≠none → t.slots (.member p j)≠none) →
      ∀ p j,Function.update slots cell v (.member p j)≠none → t.slots (.member p j)≠none := by
    intro slots cell v hcell hold p j hne
    by_cases he : Cell.member p j=cell
    · rw [he]
      exact hcell
    · rw [Function.update_of_ne he] at hne
      exact hold p j hne
  cases a with
  | makeUnique cell T allocated =>
    cases allocated with
    | true =>
      obtain ⟨hraw,rfl⟩ := construct_cases h
      exact ho.makeUnique hraw T
    | false =>
      obtain ⟨hraw,rfl⟩ := construct_cases h
      exact ho.constructEmpty hraw
  | wrapNull cell =>
    obtain ⟨hraw,rfl⟩ := construct_cases h
    exact ho.constructEmpty hraw
  | moveConstruct cell src =>
    simp only [step,Option.ite_none_right_eq_some] at h
    obtain ⟨other,hraw,hs,hne,rfl⟩ := moveConstruct_cases h.2
    have hnot : ∀ p,t.slots (.root cell)≠some ⟨some p⟩ := by
      intro p hp
      rw [hraw] at hp
      cases hp
    refine ho.drop ⟨none⟩ nofun nofun (fun p _ => exists_owner_move hne hs (hnot p)) nofun
      (ho.unique.move hne hs) ?_
    refine hmembers (by rw [hs]; exact nofun) (fun p j hm => ?_)
    have hcell : Cell.member p j≠Cell.root cell := nofun
    rwa [Function.update_of_ne hcell] at hm
  | moveAssign dst src =>
    simp only [step,Option.ite_none_right_eq_some] at h
    obtain ⟨this,other,hd,hs,⟨_,rfl⟩|⟨hne,rfl⟩⟩ := moveAssign_cases h.2
    · exact ho
    · have hdrop := hg.resolve_left hne
      have hthis : ∀ p,this.held=some p → t.slots dst=some ⟨some p⟩ := by
        intro p hp
        rw [hd,←hp]
      have hnot : ∀ p,this.held≠some p → t.slots dst≠some ⟨some p⟩ := by
        intro p hp hslot
        rw [hd] at hslot
        exact hp (congrArg Owner.held (Option.some.inj hslot))
      refine ho.drop this (fun p hp => ho.valid dst p (hthis p hp))
        (fun p obj hp hobj => hdrop p obj (hthis p hp) hobj)
        (fun p hp => exists_owner_move hne hs (hnot p hp))
        (fun p hp => ho.unique.lost_move hne hs (hthis p hp)) (ho.unique.move hne hs) ?_
      exact hmembers (by rw [hs]; exact nofun)
        (hmembers (by rw [hd]; exact nofun) (fun _ _ hm => hm))
  | destroy cell =>
    obtain ⟨this,hs,rfl⟩ := destroy_cases h
    have hthis : ∀ p,this.held=some p → t.slots (.root cell)=some ⟨some p⟩ := by
      intro p hp
      rw [hs,←hp]
    have hnot : ∀ p,this.held≠some p → t.slots (.root cell)≠some ⟨some p⟩ := by
      intro p hp hslot
      rw [hs] at hslot
      exact hp (congrArg Owner.held (Option.some.inj hslot))
    refine ho.drop this (fun p hp => ho.valid _ p (hthis p hp))
      (fun p obj hp hobj => hg p obj (hthis p hp) hobj)
      (fun p hp => exists_owner_destroy (hnot p hp))
      (fun p hp => ho.unique.lost_destroy (hthis p hp)) (ho.unique.destroy _) ?_
    exact hmembers (by rw [hs]; exact nofun) (fun _ _ hm => hm)

/-- The next state has proper lifetimes only if the operation dropped
trivially destructible objects. -/
theorem step_exact {a : Action H} (ho : Owned t) (h : step t a=some t') (hp : Lifetimes t') :
    TrivialDrops t a := by
  cases a with
  | makeUnique cell T allocated => trivial
  | wrapNull cell => trivial
  | moveConstruct cell src => trivial
  | moveAssign dst src =>
    simp only [step,Option.ite_none_right_eq_some] at h
    obtain ⟨this,other,hd,_,⟨he,_⟩|⟨_,rfl⟩⟩ := moveAssign_cases h.2
    · exact Or.inl he
    · exact Or.inr (ho.drop_exact hd hp)
  | destroy cell =>
    obtain ⟨this,hs,rfl⟩ := destroy_cases h
    exact ho.drop_exact hs hp

/-- UniquePtr object lifetime. In a run of handle operations every object is
destroyed before it is freed, and none is lost, exactly when each object that
reaches the deleter is trivially destructible. -/
theorem object_lifetimes_iff (actions : List (Action H)) :
    Along step Lifetimes start actions ↔ Guarded step TrivialDrops start actions := by
  have hstart : Owned (start : State H) := by
    refine ⟨Slab.empty_sane,nofun,nofun,nofun,?_,nofun,?_⟩
    · intro p hp
      exact absurd hp (Nat.not_lt_zero p)
    · intro p j hne
      exact absurd rfl hne
  exact along_iff_guarded (I := Owned) (fun ho => ho.lifetimes)
    (fun ho hg h => step_owned ho hg h) (fun ho h hp => step_exact ho h hp) hstart

end Preservation

/-- A node that owns the next node through a `UniquePtr` member: destroying
the only handle frees the first node and leaves the second with no handle. -/
theorem member_never_destroyed :
    ∃ t,run step (start : State (Fin 2))
        [.makeUnique 0 ⟨[.plain,.unique],false⟩ true,.makeUnique 1 ⟨[.plain],false⟩ true,
          .moveAssign (.member 0 1) (.root 1),.destroy 1,.destroy 0]=some t ∧
      t.world.frees 0=1 ∧ t.world.frees 1=0 ∧ t.slots (.member 0 1)=some ⟨some 1⟩ ∧
      ¬Lifetimes t := by
  refine ⟨_,rfl,rfl,rfl,rfl,fun hp => ?_⟩
  have hnode := (hp.freed 0 ⟨⟨[.plain,.unique],false⟩,0⟩ rfl (by decide)).2
  rcases hnode with htrivial | honce
  · exact absurd htrivial (by decide)
  · exact absurd honce (by decide)

end Kpp.UniqueOwnership
