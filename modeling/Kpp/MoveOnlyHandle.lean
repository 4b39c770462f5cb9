import Kpp.PointUpdate

/-!
# Move-only handles on releasable resources

A handle is one pointer field. Its destructor releases the resource unless
the field is null, moving clears the source, and a move assignment releases
the old resource of its target first. Handles live in storage cells; a cell
without a handle is raw. The count of cells that hold a resource is the
only fact about a table that its clients need.
-/

namespace Kpp.MoveOnlyHandle

open PointUpdate

variable {H R W : Type*}

/-- The pointer field of a handle; `none` is the null pointer. -/
structure Owner (R : Type*) where
  /-- Resource the handle owns, if any. -/
  held : Option R
  deriving DecidableEq

/-- Destructor: release the resource of a nonempty handle. -/
def destruct (release : R → W → W) (this : Owner R) (w : W) : W :=
  match this.held with
  | some r => release r w
  | none => w

/-- Move constructor: the new handle and the emptied source. -/
def moveFrom (other : Owner R) : Owner R×Owner R := (⟨other.held⟩,⟨none⟩)

/-- Move assignment between different handles: the old resource is released
before the source is read and cleared. -/
def assignFrom (release : R → W → W) (this other : Owner R) (w : W) : Owner R×Owner R×W :=
  (⟨other.held⟩,⟨none⟩,destruct release this w)

/-- Storage cells with their handles, next to the state the releases act on. -/
structure Table (H R W : Type*) where
  /-- Handle in each cell; `none` is raw storage. -/
  slots : H → Option (Owner R)
  /-- State of the resources themselves. -/
  world : W

section Cells
variable [DecidableEq H]

/-- Construct a handle in raw storage. -/
def construct (h : H) (this : Owner R) (t : Table H R W) : Option (Table H R W) :=
  match t.slots h with
  | none => some {t with slots := Function.update t.slots h (some this)}
  | some _ => none

/-- Move-construct a handle in raw storage from a live one. -/
def moveConstruct (dst src : H) (t : Table H R W) : Option (Table H R W) :=
  match t.slots dst,t.slots src with
  | none,some other =>
    let moved := moveFrom other
    some {t with slots :=
      Function.update (Function.update t.slots dst (some moved.1)) src (some moved.2)}
  | _,_ => none

/-- Move-assign between live handles; the address test makes self-assignment a no-op. -/
def moveAssign (release : R → W → W) (dst src : H) (t : Table H R W) : Option (Table H R W) :=
  match t.slots dst,t.slots src with
  | some this,some other =>
    if dst=src then some t
    else
      let assigned := assignFrom release this other t.world
      some ⟨Function.update (Function.update t.slots dst (some assigned.1)) src (some assigned.2.1),
        assigned.2.2⟩
  | _,_ => none

/-- Run the destructor of a live handle; its storage is raw afterwards. -/
def destroy (release : R → W → W) (h : H) (t : Table H R W) : Option (Table H R W) :=
  match t.slots h with
  | some this => some ⟨Function.update t.slots h none,destruct release this t.world⟩
  | none => none

/-- A construction changes one raw cell and nothing else. -/
theorem construct_cases {h : H} {this : Owner R} {t t' : Table H R W}
    (hc : construct h this t=some t') :
    t.slots h=none ∧ t'=⟨Function.update t.slots h (some this),t.world⟩ := by
  cases hs : t.slots h with
  | none =>
    simp only [construct,hs,Option.some.injEq] at hc
    exact ⟨rfl,hc.symm⟩
  | some other => simp only [construct,hs,reduceCtorEq] at hc

/-- A move construction fills a raw cell and empties the source. -/
theorem moveConstruct_cases {dst src : H} {t t' : Table H R W}
    (hc : moveConstruct dst src t=some t') :
    ∃ other,t.slots dst=none ∧ t.slots src=some other ∧ dst≠src ∧
      t'=⟨Function.update (Function.update t.slots dst (some ⟨other.held⟩)) src (some ⟨none⟩),
        t.world⟩ := by
  cases hd : t.slots dst with
  | some this => simp only [moveConstruct,hd,reduceCtorEq] at hc
  | none =>
    cases hs : t.slots src with
    | none => simp only [moveConstruct,hd,hs,reduceCtorEq] at hc
    | some other =>
      simp only [moveConstruct,hd,hs,Option.some.injEq] at hc
      refine ⟨other,rfl,rfl,?_,hc.symm⟩
      rintro rfl
      rw [hd] at hs
      cases hs

/-- A move assignment does nothing on the same cell, and otherwise releases
the old resource, moves the new one over and empties the source. -/
theorem moveAssign_cases {release : R → W → W} {dst src : H} {t t' : Table H R W}
    (hc : moveAssign release dst src t=some t') :
    ∃ this other,t.slots dst=some this ∧ t.slots src=some other ∧
      ((dst=src ∧ t'=t) ∨ (dst≠src ∧
        t'=⟨Function.update (Function.update t.slots dst (some ⟨other.held⟩)) src (some ⟨none⟩),
          destruct release this t.world⟩)) := by
  cases hd : t.slots dst with
  | none => simp only [moveAssign,hd,reduceCtorEq] at hc
  | some this =>
    cases hs : t.slots src with
    | none => simp only [moveAssign,hd,hs,reduceCtorEq] at hc
    | some other =>
      refine ⟨this,other,rfl,rfl,?_⟩
      by_cases he : dst=src
      · simp only [moveAssign,hd,hs,if_pos he,Option.some.injEq] at hc
        exact Or.inl ⟨he,hc.symm⟩
      · simp only [moveAssign,hd,hs,if_neg he,Option.some.injEq] at hc
        exact Or.inr ⟨he,hc.symm⟩

/-- A destructor call empties a live cell and releases what its handle held. -/
theorem destroy_cases {release : R → W → W} {h : H} {t t' : Table H R W}
    (hc : destroy release h t=some t') :
    ∃ this,t.slots h=some this ∧
      t'=⟨Function.update t.slots h none,destruct release this t.world⟩ := by
  cases hs : t.slots h with
  | none => simp only [destroy,hs,reduceCtorEq] at hc
  | some this =>
    simp only [destroy,hs,Option.some.injEq] at hc
    exact ⟨this,rfl,hc.symm⟩

end Cells

section Places
variable [DecidableEq H] {slots : H → Option (Owner R)}

/-- Every resource has at most one cell whose handle owns it. -/
def Exclusive (slots : H → Option (Owner R)) : Prop :=
  ∀ h h' r,slots h=some ⟨some r⟩ → slots h'=some ⟨some r⟩ → h=h'

/-- Owners after a construction: the new handle and the old ones. -/
theorem construct_owner_iff {h : H} (hraw : slots h=none) (this : Owner R) (h' : H) (r : R) :
    Function.update slots h (some this) h'=some ⟨some r⟩ ↔
      (h'=h ∧ this.held=some r) ∨ slots h'=some ⟨some r⟩ := by
  by_cases he : h'=h
  · subst he
    cases this
    simp only [Function.update_self,Option.some.injEq,Owner.mk.injEq,hraw,reduceCtorEq,or_false,
      true_and]
  · simp only [Function.update_of_ne he,he,false_and,false_or]

/-- Owners after a move: the target owns what the source owned. -/
theorem move_owner_iff {dst src : H} {other : Owner R} (hne : dst≠src) (h' : H) (r : R) :
    Function.update (Function.update slots dst (some ⟨other.held⟩)) src (some ⟨none⟩) h'=
        some ⟨some r⟩ ↔
      (h'=dst ∧ other.held=some r) ∨ (h'≠dst ∧ h'≠src ∧ slots h'=some ⟨some r⟩) := by
  by_cases hs : h'=src
  · subst hs
    simp only [Function.update_self,Option.some.injEq,Owner.mk.injEq,reduceCtorEq,Ne.symm hne,
      ne_eq,not_true_eq_false,false_and,and_false,or_false]
  · rw [Function.update_of_ne hs]
    by_cases hd : h'=dst
    · subst hd
      simp only [Function.update_self,Option.some.injEq,Owner.mk.injEq,true_and,ne_eq,
        not_true_eq_false,false_and,or_false]
    · simp only [Function.update_of_ne hd,hd,hs,false_and,ne_eq,not_false_eq_true,true_and,
        false_or]

/-- Owners after a destructor call: those of the other cells. -/
theorem destroy_owner_iff (h h' : H) (r : R) :
    Function.update slots h none h'=some ⟨some r⟩ ↔ h'≠h ∧ slots h'=some ⟨some r⟩ := by
  by_cases he : h'=h
  · subst he
    simp only [Function.update_self,reduceCtorEq,ne_eq,not_true_eq_false,false_and]
  · simp only [Function.update_of_ne he,ne_eq,he,not_false_eq_true,true_and]

/-- A resource without an owner may be given to a new handle. -/
theorem Exclusive.construct (hx : Exclusive slots) {h : H} (hraw : slots h=none) (this : Owner R)
    (hnew : ∀ r,this.held=some r → ∀ h',slots h'≠some ⟨some r⟩) :
    Exclusive (Function.update slots h (some this)) := by
  intro a b r ha hb
  rcases (construct_owner_iff hraw this a r).mp ha with ⟨ea,hr⟩ | ha'
  · rcases (construct_owner_iff hraw this b r).mp hb with ⟨eb,_⟩ | hb'
    · exact ea.trans eb.symm
    · exact absurd hb' (hnew r hr b)
  · rcases (construct_owner_iff hraw this b r).mp hb with ⟨_,hr⟩ | hb'
    · exact absurd ha' (hnew r hr a)
    · exact hx a b r ha' hb'

/-- A move keeps owners unique. -/
theorem Exclusive.move (hx : Exclusive slots) {dst src : H} {other : Owner R} (hne : dst≠src)
    (hs : slots src=some other) :
    Exclusive (Function.update (Function.update slots dst (some ⟨other.held⟩)) src
      (some ⟨none⟩)) := by
  have hsource : ∀ r,other.held=some r → slots src=some ⟨some r⟩ := by
    intro r hr
    rw [hs,←hr]
  intro a b r ha hb
  rcases (move_owner_iff hne a r).mp ha with ⟨ea,hr⟩ | ⟨_,ha',ha⟩
  · rcases (move_owner_iff hne b r).mp hb with ⟨eb,_⟩ | ⟨_,hb',hb⟩
    · exact ea.trans eb.symm
    · exact absurd (hx b src r hb (hsource r hr)) hb'
  · rcases (move_owner_iff hne b r).mp hb with ⟨_,hr⟩ | ⟨_,_,hb⟩
    · exact absurd (hx a src r ha (hsource r hr)) ha'
    · exact hx a b r ha hb

/-- A destructor call keeps owners unique. -/
theorem Exclusive.destroy (hx : Exclusive slots) (h : H) :
    Exclusive (Function.update slots h none) := by
  intro a b r ha hb
  have ha' := (destroy_owner_iff h a r).mp ha
  have hb' := (destroy_owner_iff h b r).mp hb
  exact hx a b r ha'.2 hb'.2

/-- A move keeps an owner for every resource its target did not own. -/
theorem exists_owner_move {dst src : H} {other : Owner R} (hne : dst≠src)
    (hs : slots src=some other) {r : R} (hdst : slots dst≠some ⟨some r⟩) :
    (∃ h,Function.update (Function.update slots dst (some ⟨other.held⟩)) src (some ⟨none⟩) h=
      some ⟨some r⟩) ↔ ∃ h,slots h=some ⟨some r⟩ := by
  constructor
  · rintro ⟨h,hh⟩
    rcases (move_owner_iff hne h r).mp hh with ⟨_,hr⟩ | ⟨_,_,hold⟩
    · refine ⟨src,?_⟩
      rw [hs,←hr]
    · exact ⟨h,hold⟩
  · rintro ⟨h,hh⟩
    by_cases he : h=src
    · refine ⟨dst,(move_owner_iff hne dst r).mpr (Or.inl ⟨rfl,?_⟩)⟩
      rw [he,hs] at hh
      cases hh
      rfl
    · refine ⟨h,(move_owner_iff hne h r).mpr (Or.inr ⟨?_,he,hh⟩)⟩
      rintro rfl
      exact hdst hh

/-- What the target of a move owned has no owner afterwards. -/
theorem Exclusive.lost_move (hx : Exclusive slots) {dst src : H} {other : Owner R} (hne : dst≠src)
    (hs : slots src=some other) {r : R} (hdst : slots dst=some ⟨some r⟩) (h : H) :
    Function.update (Function.update slots dst (some ⟨other.held⟩)) src (some ⟨none⟩) h≠
      some ⟨some r⟩ := by
  intro hh
  rcases (move_owner_iff hne h r).mp hh with ⟨_,hr⟩ | ⟨hd,_,hold⟩
  · have hsrc : slots src=some ⟨some r⟩ := by rw [hs,←hr]
    exact hne (hx dst src r hdst hsrc)
  · exact hd (hx h dst r hold hdst)

/-- A destructor call keeps an owner for every other resource. -/
theorem exists_owner_destroy {h : H} {r : R} (hh : slots h≠some ⟨some r⟩) :
    (∃ h',Function.update slots h none h'=some ⟨some r⟩) ↔ ∃ h',slots h'=some ⟨some r⟩ := by
  constructor
  · rintro ⟨h',hh'⟩
    exact ⟨h',((destroy_owner_iff h h' r).mp hh').2⟩
  · rintro ⟨h',hh'⟩
    refine ⟨h',(destroy_owner_iff h h' r).mpr ⟨?_,hh'⟩⟩
    rintro rfl
    exact hh hh'

/-- What a destroyed handle owned has no owner afterwards. -/
theorem Exclusive.lost_destroy (hx : Exclusive slots) {h : H} {r : R}
    (hh : slots h=some ⟨some r⟩) (h' : H) : Function.update slots h none h'≠some ⟨some r⟩ := by
  intro hh'
  have hold := (destroy_owner_iff h h' r).mp hh'
  exact hold.1 (hx h' h r hold.2 hh)

end Places

section Holders
variable [Fintype H] [DecidableEq R]

/-- The cell holds a handle that owns the resource. -/
abbrev Holds (r : R) (cell : Option (Owner R)) : Prop := cell=some ⟨some r⟩

/-- Number of cells whose handle owns the resource. -/
def holders (slots : H → Option (Owner R)) (r : R) : ℕ := countCells (Holds r) slots

/-- A live handle on the resource is counted. -/
theorem holders_pos {slots : H → Option (Owner R)} {h : H} {r : R}
    (hs : slots h=some ⟨some r⟩) : 0<holders slots r :=
  countCells_pos (Holds r) hs

/-- Once every cell is raw no resource has a holder. -/
theorem holders_raw {slots : H → Option (Owner R)} (hraw : ∀ h,slots h=none) (r : R) :
    holders slots r=0 := by
  refine (countCells_eq_zero (Holds r)).mpr ?_
  intro h
  rw [hraw h]
  exact nofun

variable [DecidableEq H]

/-- Storing a handle in a raw cell adds what it owns. -/
theorem holders_construct {slots : H → Option (Owner R)} {h : H} (hraw : slots h=none)
    (this : Owner R) (r : R) :
    holders (Function.update slots h (some this)) r=
      holders slots r+if this.held=some r then 1 else 0 := by
  have hc := countCells_update (Holds r) slots h (some this)
  have hiff : Holds r (some this) ↔ this.held=some r := by
    cases this
    simp only [Holds,Option.some.injEq,Owner.mk.injEq]
  have hnone : ¬Holds r (slots h) := by
    rw [hraw]
    exact nofun
  rw [if_neg hnone] at hc
  simpa only [holders,hiff,Nat.add_zero] using hc

/-- Moving into a cell keeps every count, apart from what the cell held. -/
theorem holders_move {slots : H → Option (Owner R)} {dst src : H} {other : Owner R}
    (hne : dst≠src) (hs : slots src=some other) (r : R) :
    holders (Function.update (Function.update slots dst (some ⟨other.held⟩)) src (some ⟨none⟩)) r+
        (if Holds r (slots dst) then 1 else 0)=holders slots r := by
  have hfirst := countCells_update (Holds r) slots dst (some ⟨other.held⟩)
  have hsecond := countCells_update (Holds r)
    (Function.update slots dst (some ⟨other.held⟩)) src (some ⟨none⟩)
  have hempty : ¬Holds r (some (⟨none⟩ : Owner R)) := by
    simp only [Holds,Option.some.injEq,Owner.mk.injEq,reduceCtorEq,not_false_eq_true]
  rw [Function.update_of_ne (Ne.symm hne),hs,if_neg hempty] at hsecond
  obtain ⟨held⟩ := other
  dsimp only [holders] at hfirst hsecond ⊢
  omega

/-- A cleared cell gives up what its handle held. -/
theorem holders_destroy (slots : H → Option (Owner R)) (h : H) (r : R) :
    holders (Function.update slots h none) r+(if Holds r (slots h) then 1 else 0)=
      holders slots r := by
  have hc := countCells_update (Holds r) slots h none
  have hnone : ¬Holds r (none : Option (Owner R)) := nofun
  rw [if_neg hnone] at hc
  simpa only [holders,Nat.add_zero] using hc

end Holders

end Kpp.MoveOnlyHandle
