import Mathlib.Data.Nat.Notation
import Mathlib.Logic.Function.Basic

/-!
# Memory of words

Memory maps addresses to words. Writes stay inside a region, and a sequence
of writes to a region leaves the words outside of it alone.
-/

namespace Kpp.WordMemory

variable {W : Type*}

/-- Words by address. -/
abbrev Memory (W : Type*) := ℕ → W

/-- Write one word. -/
def write (addr : ℕ) (w : W) (m : Memory W) : Memory W := Function.update m addr w

/-- Fill `size` words from `addr` with one value. -/
def fill (addr size : ℕ) (w : W) (m : Memory W) : Memory W :=
  fun a => if addr≤a ∧ a<addr+size then w else m a

/-- The two memories differ at most inside the region. -/
def SameOutside (base size : ℕ) (m m' : Memory W) : Prop :=
  ∀ a,¬(base≤a ∧ a<base+size) → m' a=m a

variable {base size addr : ℕ} {w : W} {m m' m'' : Memory W}

/-- The written word is read back. -/
@[simp] theorem write_same (addr : ℕ) (w : W) (m : Memory W) : write addr w m addr=w := by
  unfold write
  rw [Function.update_self]

/-- Other words stay. -/
theorem write_other {a : ℕ} (h : a≠addr) : write addr w m a=m a := by
  unfold write
  rw [Function.update_of_ne h]

/-- Writing the word that is there changes nothing. -/
theorem write_idle (h : m addr=w) : write addr w m=m := by
  unfold write
  rw [←h,Function.update_eq_self]

/-- A filled word is read back. -/
theorem fill_inside {a : ℕ} (h : addr≤a ∧ a<addr+size) : fill addr size w m a=w := if_pos h

/-- Words before and after the filled ones stay. -/
theorem fill_outside {a : ℕ} (h : ¬(addr≤a ∧ a<addr+size)) : fill addr size w m a=m a := if_neg h

/-- Nothing changed anywhere. -/
theorem SameOutside.refl (base size : ℕ) (m : Memory W) : SameOutside base size m m :=
  fun _ _ => rfl

/-- Changes inside a region compose. -/
theorem SameOutside.trans (h : SameOutside base size m m') (h' : SameOutside base size m' m'') :
    SameOutside base size m m'' := by
  intro a ha
  rw [h' a ha,h a ha]

/-- A write inside the region. -/
theorem SameOutside.write (h : SameOutside base size m m') (addr : ℕ)
    (hin : base≤addr ∧ addr<base+size) (w : W) : SameOutside base size m (write addr w m') := by
  intro a ha
  have hne : a≠addr := by
    rintro rfl
    exact ha hin
  rw [write_other hne,h a ha]

/-- A fill inside the region. -/
theorem SameOutside.fill (h : SameOutside base size m m') (addr length : ℕ)
    (hin : base≤addr ∧ addr+length≤base+size) (w : W) :
    SameOutside base size m (fill addr length w m') := by
  intro a ha
  rw [fill_outside (by omega),h a ha]

end Kpp.WordMemory
