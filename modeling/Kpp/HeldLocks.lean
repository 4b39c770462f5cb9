import Mathlib.Data.Fintype.EquivFin
import Mathlib.Order.Defs.Unbundled

/-!
# Locks taken and given back in nested order

The locks that a thread holds are a stack if it always gives back the one it
took last. Threads that wait for each other's locks, each for one that comes
behind all it holds, cannot all wait.
-/

namespace Kpp.HeldLocks

variable {Lock T : Type*}

/-- A thread takes a lock or gives one back. -/
inductive Event (Lock : Type*) where
  | lock (l : Lock)
  | unlock (l : Lock)

/-- Locks held after the events, the latest first; there is no result if a lock
is given back that is not the latest. -/
def replay [DecidableEq Lock] : List Lock → List (Event Lock) → Option (List Lock)
  | held,[] => some held
  | held,.lock l::events => replay (l::held) events
  | [],.unlock _::_ => none
  | h::held,.unlock l::events => if h=l then replay held events else none

/-- Events are replayed one part after another. -/
theorem replay_append [DecidableEq Lock] (held : List Lock) (xs ys : List (Event Lock)) :
    replay held (xs++ys)=(replay held xs).bind (fun now => replay now ys) := by
  induction xs generalizing held with
  | nil => rfl
  | cons event xs ih =>
    cases event with
    | lock l => exact ih (l::held)
    | unlock l =>
      cases held with
      | nil => rfl
      | cons h held =>
        simp only [List.cons_append,replay]
        split
        · exact ih held
        · rfl

/-- If every waiting thread wants a lock of a waiting thread that itself wants
a later one, then no thread waits. -/
theorem not_waiting [Finite T] {before : Lock → Lock → Prop} [IsStrictOrder Lock before]
    {waits : T → Prop} (wants : T → Lock)
    (hnext : ∀ t,waits t → ∃ u,waits u ∧ before (wants t) (wants u)) (t : T) : ¬waits t := by
  have htrans : IsTrans T (fun u t => before (wants t) (wants u)) :=
    ⟨fun _ _ _ hab hbc => Trans.trans hbc hab⟩
  have hirrefl : Std.Irrefl (fun u t : T => before (wants t) (wants u)) := ⟨fun _ => irrefl _⟩
  have hwf : WellFounded (fun u t : T => before (wants t) (wants u)) :=
    Finite.wellFounded_of_trans_of_irrefl _
  induction t using hwf.induction with
  | _ t ih =>
    intro ht
    obtain ⟨u,hu,hlater⟩ := hnext t ht
    exact ih u hlater hu

end Kpp.HeldLocks
