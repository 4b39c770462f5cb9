import Mathlib.Algebra.Order.BigOperators.Group.Finset
import Mathlib.Data.Fintype.Basic

/-!
# Sums and counts over a family changed at one index

A finite family of cells is written one cell at a time. Each lemma states
how a sum, or a count of cells with a property, moves when one cell is
overwritten, without subtraction.
-/

namespace Kpp.PointUpdate

open Finset

variable {ι V M : Type*} [Fintype ι]

/-- Two families that agree at all other indices exchange their summands at one. -/
theorem sum_except [DecidableEq ι] [AddCommMonoid M] {f g : ι → M} (i : ι)
    (h : ∀ j,j≠i → f j=g j) : (∑ j,f j)+g i=(∑ j,g j)+f i := by
  have hrest : ∑ j∈univ.erase i,f j=∑ j∈univ.erase i,g j :=
    sum_congr rfl (fun j hj => h j (ne_of_mem_erase hj))
  rw [←add_sum_erase univ f (mem_univ i),←add_sum_erase univ g (mem_univ i),hrest,
    add_right_comm,add_comm (f i),add_right_comm]

/-- Overwriting one cell exchanges its old summand for the new one. -/
theorem sum_update [DecidableEq ι] [AddCommMonoid M] (F : ι → V → M) (f : ι → V) (i : ι) (v : V) :
    (∑ j,F j (Function.update f i v j))+F i (f i)=(∑ j,F j (f j))+F i v := by
  have h := sum_except (f := fun j => F j (Function.update f i v j)) (g := fun j => F j (f j)) i
    (fun j hj => by rw [Function.update_of_ne hj])
  rwa [Function.update_self] at h

/-- A family of numbers whose positive members have different partners, each
partner at least as large, sums to less than all partners if one is left over. -/
theorem sum_lt_of_partners {κ : Type*} [Fintype κ] [DecidableEq κ] {f : ι → ℕ} {g : κ → ℕ}
    (e : ι → κ) (hle : ∀ i,0<f i → f i≤g (e i))
    (hinj : ∀ i j,0<f i → 0<f j → e i=e j → i=j) {k : κ} (hk : 0<g k)
    (hfree : ∀ i,0<f i → e i≠k) : ∑ i,f i<∑ j,g j := by
  have hsupport : ∑ i∈univ.filter (fun i => 0<f i),f i=∑ i,f i := by
    refine sum_filter_of_ne ?_
    intro i _ hi
    exact Nat.pos_of_ne_zero hi
  have hpartners : ∑ i∈univ.filter (fun i => 0<f i),f i≤
      ∑ i∈univ.filter (fun i => 0<f i),g (e i) := by
    refine sum_le_sum ?_
    intro i hi
    exact hle i (mem_filter.mp hi).2
  have himage : ∑ i∈univ.filter (fun i => 0<f i),g (e i)=
      ∑ j∈(univ.filter (fun i => 0<f i)).image e,g j := by
    refine (sum_image ?_).symm
    intro i hi j hj hij
    exact hinj i j (mem_filter.mp hi).2 (mem_filter.mp hj).2 hij
  have hrest : ∑ j∈(univ.filter (fun i => 0<f i)).image e,g j≤∑ j∈univ.erase k,g j := by
    refine sum_le_sum_of_subset ?_
    intro j hj
    obtain ⟨i,hi,rfl⟩ := mem_image.mp hj
    exact mem_erase.mpr ⟨hfree i (mem_filter.mp hi).2,mem_univ _⟩
  have htotal := add_sum_erase univ g (mem_univ k)
  omega

/-- Number of cells whose content has the property. -/
def countCells (p : V → Prop) [DecidablePred p] (f : ι → V) : ℕ := ∑ j,if p (f j) then 1 else 0

variable (p : V → Prop) [DecidablePred p]

/-- Overwriting one cell exchanges its old contribution for the new one. -/
theorem countCells_update [DecidableEq ι] (f : ι → V) (i : ι) (v : V) :
    countCells p (Function.update f i v)+(if p (f i) then 1 else 0)=
      countCells p f+(if p v then 1 else 0) :=
  sum_update (fun _ w => if p w then 1 else 0) f i v

/-- A cell with the property is counted. -/
theorem countCells_pos {f : ι → V} {i : ι} (h : p (f i)) : 0<countCells p f := by
  refine Finset.sum_pos' (fun _ _ => Nat.zero_le _) ⟨i,mem_univ i,?_⟩
  rw [if_pos h]
  exact Nat.one_pos

/-- The count vanishes exactly when no cell has the property. -/
theorem countCells_eq_zero {f : ι → V} : countCells p f=0 ↔ ∀ i,¬p (f i) := by
  constructor
  · intro h i hi
    exact Nat.ne_of_gt (countCells_pos p hi) h
  · intro h
    exact sum_eq_zero (fun j _ => if_neg (h j))

end Kpp.PointUpdate
