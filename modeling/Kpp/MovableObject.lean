import Kpp.PointUpdate

/-!
# Objects of move-only classes in storage cells

A move-only class has a move constructor, a move assignment and a
destructor. Its assignment ends the life of the target's old value as the
destructor would and then moves the source over. Objects live in storage
cells, and a quantity that moves carry along is summed over all cells.
-/

namespace Kpp.MovableObject

open PointUpdate

variable {H V W : Type*}

/-- Special member functions of a move-only class, acting on a world. -/
structure MoveOnly (V W : Type*) where
  /-- Move constructor: the new object and the source afterwards. -/
  moveFrom : V → V×V
  /-- Move assignment between different objects: target, source and world. -/
  assignFrom : V → V → W → V×V×W
  /-- Destructor. -/
  destruct : V → W → W
  /-- Assignment drops the old value and moves the source over. -/
  assign_eq : ∀ this other w,assignFrom this other w=
    ((moveFrom other).1,(moveFrom other).2,destruct this w)

section Cells
variable [DecidableEq H]

/-- Construct an object in raw storage. -/
def construct (h : H) (this : V) (cells : H → Option V) : Option (H → Option V) :=
  match cells h with
  | none => some (Function.update cells h (some this))
  | some _ => none

/-- Move-construct an object in raw storage from a live one. -/
def moveConstruct (C : MoveOnly V W) (dst src : H) (cells : H → Option V) :
    Option (H → Option V) :=
  match cells dst,cells src with
  | none,some other =>
    let moved := C.moveFrom other
    some (Function.update (Function.update cells dst (some moved.1)) src (some moved.2))
  | _,_ => none

/-- Move-assign between live objects; self-assignment is a no-op. -/
def moveAssign (C : MoveOnly V W) (dst src : H) (cells : H → Option V) (w : W) :
    Option ((H → Option V)×W) :=
  match cells dst,cells src with
  | some this,some other =>
    if dst=src then some (cells,w)
    else
      let assigned := C.assignFrom this other w
      some (Function.update (Function.update cells dst (some assigned.1)) src (some assigned.2.1),
        assigned.2.2)
  | _,_ => none

/-- Destroy a live object; its storage is raw afterwards. -/
def destroy (C : MoveOnly V W) (h : H) (cells : H → Option V) (w : W) :
    Option ((H → Option V)×W) :=
  match cells h with
  | some this => some (Function.update cells h none,C.destruct this w)
  | none => none

/-- The cells after a move from one live object into another cell. -/
def moved (C : MoveOnly V W) (dst src : H) (other : V) (cells : H → Option V) : H → Option V :=
  Function.update (Function.update cells dst (some (C.moveFrom other).1)) src
    (some (C.moveFrom other).2)

variable {C : MoveOnly V W} {cells cells' : H → Option V} {w w' : W}

/-- A construction fills one raw cell. -/
theorem construct_cases {h : H} {this : V} (hc : construct h this cells=some cells') :
    cells h=none ∧ cells'=Function.update cells h (some this) := by
  cases hs : cells h with
  | none =>
    simp only [construct,hs,Option.some.injEq] at hc
    exact ⟨rfl,hc.symm⟩
  | some other => simp only [construct,hs,reduceCtorEq] at hc

/-- A move construction fills a raw cell from a live one. -/
theorem moveConstruct_cases {dst src : H} (hc : moveConstruct C dst src cells=some cells') :
    ∃ other,cells dst=none ∧ cells src=some other ∧ dst≠src ∧
      cells'=moved C dst src other cells := by
  cases hd : cells dst with
  | some this => simp only [moveConstruct,hd,reduceCtorEq] at hc
  | none =>
    cases hs : cells src with
    | none => simp only [moveConstruct,hd,hs,reduceCtorEq] at hc
    | some other =>
      simp only [moveConstruct,hd,hs,Option.some.injEq] at hc
      have hne : dst≠src := by
        rintro rfl
        rw [hd] at hs
        cases hs
      exact ⟨other,rfl,rfl,hne,hc.symm⟩

/-- A move assignment does nothing on one cell, and otherwise ends the
target's old value before the move. -/
theorem moveAssign_cases {dst src : H} (hc : moveAssign C dst src cells w=some (cells',w')) :
    ∃ this other,cells dst=some this ∧ cells src=some other ∧
      ((dst=src ∧ cells'=cells ∧ w'=w) ∨
        (dst≠src ∧ cells'=moved C dst src other cells ∧ w'=C.destruct this w)) := by
  cases hd : cells dst with
  | none => simp only [moveAssign,hd,reduceCtorEq] at hc
  | some this =>
    cases hs : cells src with
    | none => simp only [moveAssign,hd,hs,reduceCtorEq] at hc
    | some other =>
      refine ⟨this,other,rfl,rfl,?_⟩
      by_cases he : dst=src
      · simp only [moveAssign,hd,hs,if_pos he,Option.some.injEq,Prod.mk.injEq] at hc
        exact Or.inl ⟨he,hc.1.symm,hc.2.symm⟩
      · simp only [moveAssign,hd,hs,if_neg he,C.assign_eq,Option.some.injEq,Prod.mk.injEq] at hc
        exact Or.inr ⟨he,hc.1.symm,hc.2.symm⟩

/-- A destroyed object leaves a raw cell and its destructor's effect. -/
theorem destroy_cases {h : H} (hc : destroy C h cells w=some (cells',w')) :
    ∃ this,cells h=some this ∧ cells'=Function.update cells h none ∧ w'=C.destruct this w := by
  cases hs : cells h with
  | none => simp only [destroy,hs,reduceCtorEq] at hc
  | some this =>
    simp only [destroy,hs,Option.some.injEq,Prod.mk.injEq] at hc
    exact ⟨this,rfl,hc.1.symm,hc.2.symm⟩

/-- What is in the cells after a move: the moved value, what it left in the
source, and the objects of all other cells. -/
theorem moved_eq_some {dst src : H} {other : V} (hne : dst≠src) (h : H) (v : V) :
    moved C dst src other cells h=some v ↔
      (h=dst ∧ (C.moveFrom other).1=v) ∨ (h=src ∧ (C.moveFrom other).2=v) ∨
        (h≠dst ∧ h≠src ∧ cells h=some v) := by
  unfold moved
  by_cases hs : h=src
  · subst hs
    simp only [Function.update_self,Option.some.injEq,Ne.symm hne,false_and,true_and,ne_eq,
      not_true_eq_false,and_false,or_false,false_or]
  · rw [Function.update_of_ne hs]
    by_cases hd : h=dst
    · subst hd
      simp only [Function.update_self,Option.some.injEq,hne,false_and,true_and,ne_eq,
        not_true_eq_false,or_false]
    · simp only [Function.update_of_ne hd,hd,hs,false_and,ne_eq,not_false_eq_true,true_and,
        false_or]

/-- Every live object has the property. -/
def Every (P : V → Prop) (cells : H → Option V) : Prop := ∀ h v,cells h=some v → P v

/-- A new object with the property joins. -/
theorem Every.construct {P : V → Prop} (he : Every P cells) {v : V} (hv : P v) (h : H) :
    Every P (Function.update cells h (some v)) := by
  intro h' v' hs
  by_cases hh : h'=h
  · subst hh
    rw [Function.update_self] at hs
    cases hs
    exact hv
  · rw [Function.update_of_ne hh] at hs
    exact he h' v' hs

/-- A property that moved objects and their sources keep. -/
theorem Every.moved {P : V → Prop} (he : Every P cells)
    (hmove : ∀ v,P v → P (C.moveFrom v).1 ∧ P (C.moveFrom v).2) {dst src : H} {other : V}
    (hs : cells src=some other) : Every P (moved C dst src other cells) := by
  have hother := hmove other (he src other hs)
  exact (he.construct hother.1 dst).construct hother.2 src

/-- Fewer objects, fewer to have the property. -/
theorem Every.destroy {P : V → Prop} (he : Every P cells) (h : H) :
    Every P (Function.update cells h none) := by
  intro h' v hs
  by_cases hh : h'=h
  · subst hh
    rw [Function.update_self] at hs
    cases hs
  · rw [Function.update_of_ne hh] at hs
    exact he h' v hs

end Cells

section Totals
variable [Fintype H]

/-- A quantity of the objects, summed over all cells. -/
def total (weight : V → ℕ) (cells : H → Option V) : ℕ := ∑ h,(cells h).elim 0 weight

/-- Moves carry the quantity along and leave nothing of it in the source. -/
def Carried (C : MoveOnly V W) (weight : V → ℕ) : Prop :=
  ∀ v,weight (C.moveFrom v).1=weight v ∧ weight (C.moveFrom v).2=0

variable {C : MoveOnly V W} {weight : V → ℕ} {cells : H → Option V}

/-- No objects, no quantity. -/
theorem total_raw (weight : V → ℕ) (hraw : ∀ h,cells h=none) : total weight cells=0 := by
  refine Finset.sum_eq_zero (fun h _ => ?_)
  rw [hraw h]
  rfl

/-- The total is at least what one object has. -/
theorem le_total (weight : V → ℕ) {h : H} {v : V} (hs : cells h=some v) :
    weight v≤total weight cells := by
  have hle := Finset.single_le_sum (f := fun h => (cells h).elim 0 weight)
    (fun _ _ => Nat.zero_le _) (Finset.mem_univ h)
  rw [hs] at hle
  exact hle

variable [DecidableEq H]

/-- Overwriting a cell exchanges the quantity of its old content for the new. -/
theorem total_update (weight : V → ℕ) (cells : H → Option V) (h : H) (c : Option V) :
    total weight (Function.update cells h c)+(cells h).elim 0 weight=
      total weight cells+c.elim 0 weight :=
  sum_update (fun _ c => c.elim 0 weight) cells h c

/-- A construction adds what the new object has. -/
theorem total_construct (weight : V → ℕ) {h : H} (hraw : cells h=none) (v : V) :
    total weight (Function.update cells h (some v))=total weight cells+weight v := by
  have hc := total_update weight cells h (some v)
  rw [hraw] at hc
  exact hc

/-- A move keeps the total, apart from what the target had. -/
theorem total_moved (hw : Carried C weight) {dst src : H} {other : V} (hne : dst≠src)
    (hs : cells src=some other) :
    total weight (moved C dst src other cells)+(cells dst).elim 0 weight=total weight cells := by
  have hfirst := total_update weight cells dst (some (C.moveFrom other).1)
  have hsecond := total_update weight (Function.update cells dst (some (C.moveFrom other).1)) src
    (some (C.moveFrom other).2)
  have hcarry := hw other
  rw [Function.update_of_ne (Ne.symm hne),hs] at hsecond
  simp only [Option.elim_some,hcarry] at hfirst hsecond
  unfold moved
  omega

/-- A destroyed object takes what it had out of the total. -/
theorem total_destroy (weight : V → ℕ) {h : H} {v : V} (hs : cells h=some v) :
    total weight (Function.update cells h none)+weight v=total weight cells := by
  have hc := total_update weight cells h none
  rw [hs] at hc
  exact hc

end Totals

end Kpp.MovableObject
