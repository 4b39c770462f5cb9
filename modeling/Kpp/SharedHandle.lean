import Mathlib.Logic.Basic

/-!
# The two fields of a SharedPtr

A `SharedPtr` has a pointer to its object and one to the control block that
holds the object; both lie in one allocation, so a block names both.
-/

namespace Kpp.SharedHandle

/-- `SharedPtr`, for control blocks `B`. -/
structure SharedPtr (B : Type*) where
  /-- `ptr_`, by the block of the object it points to. -/
  ptr : Option B
  /-- `cb_`. -/
  cb : Option B
  deriving DecidableEq

/-- Copying or moving out of the source. -/
inductive Transfer where
  | copy
  | move

variable {B L : Type*}

/-- `SharedPtr()`. -/
def SharedPtr.null : SharedPtr B := ⟨none,none⟩

/-- The handle `make_shared` returns for a new block. -/
def SharedPtr.ofBlock (b : B) : SharedPtr B := ⟨some b,some b⟩

/-- Both fields name one block, or both are null. -/
def SharedPtr.Coherent (x : SharedPtr B) : Prop := x.ptr=x.cb

/-- Block that a storage cell names; `none` is raw storage or a null handle. -/
def cellOf (slots : L → Option (SharedPtr B)) (l : L) : Option B := (slots l).bind SharedPtr.cb

/-- A coherent handle on a block is the one of this block. -/
theorem SharedPtr.Coherent.eq_ofBlock {x : SharedPtr B} (h : x.Coherent) {b : B}
    (hb : x.cb=some b) : x=ofBlock b := by
  obtain ⟨ptr,cb⟩ := x
  dsimp only at hb
  subst hb
  exact congrArg (fun p => SharedPtr.mk p (some b)) h

end Kpp.SharedHandle
