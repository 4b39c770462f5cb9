import Mathlib.Algebra.Group.Nat.Defs
import Mathlib.Data.Int.Notation

/-!
# The kernel's atomic counter

`atomic_t` is a 32-bit counter with wrap-around; reading it gives a signed
number. Counts below the sign bit behave like natural numbers.
-/

namespace Kpp.KernelAtomic

/-- `atomic_t`. -/
abbrev Atomic := BitVec 32

/-- `atomic_set` to a small constant. -/
def atomicSet (n : ℕ) : Atomic := BitVec.ofNat 32 n

/-- `atomic_inc`. -/
def atomicInc (v : Atomic) : Atomic := v+1#32

/-- `atomic_dec_and_test`: the decremented counter, and whether it became zero. -/
def atomicDecAndTest (v : Atomic) : Atomic×Bool := (v-1#32,v-1#32==0#32)

/-- `atomic_read`. -/
def atomicRead (v : Atomic) : ℤ := v.toInt

/-- Incrementing a counter that holds a natural number. -/
theorem atomicInc_ofNat (n : ℕ) :
    atomicInc (BitVec.ofNat 32 n)=BitVec.ofNat 32 (n+1) := by
  unfold atomicInc
  rw [BitVec.ofNat_add]

/-- Decrementing a counter that holds a positive number. -/
theorem atomicDec_ofNat (n : ℕ) :
    (atomicDecAndTest (BitVec.ofNat 32 (n+1))).1=BitVec.ofNat 32 n := by
  dsimp only [atomicDecAndTest]
  rw [BitVec.ofNat_add,BitVec.add_sub_cancel]

/-- The test after a decrement tells whether nothing is left, for every count
that fits. -/
theorem atomicTest_ofNat {n : ℕ} (h : n<2^32) :
    (atomicDecAndTest (BitVec.ofNat 32 (n+1))).2=true ↔ n=0 := by
  have hvalue := atomicDec_ofNat n
  dsimp only [atomicDecAndTest] at hvalue ⊢
  rw [hvalue,beq_iff_eq]
  constructor
  · intro hz
    have hnat := congrArg BitVec.toNat hz
    rw [BitVec.toNat_ofNat,BitVec.toNat_ofNat] at hnat
    omega
  · rintro rfl
    rfl

/-- A counter that holds more than one is not at its last reference. -/
theorem atomicTest_many {n : ℕ} (h : n+1<2^32) :
    (atomicDecAndTest (BitVec.ofNat 32 (n+2))).2=false := by
  rw [←Bool.not_eq_true,atomicTest_ofNat h]
  exact Nat.succ_ne_zero n

/-- Reading a counter below the sign bit gives the number it holds. -/
theorem atomicRead_ofNat {n : ℕ} (h : n<2^31) : atomicRead (BitVec.ofNat 32 n)=n := by
  unfold atomicRead
  rw [BitVec.toInt_eq_toNat_cond,BitVec.toNat_ofNat]
  omega

/-- A counter that reads as a natural number holds it, and it is below the sign bit. -/
theorem atomicRead_eq_natCast {v : Atomic} {n : ℕ} (h : atomicRead v=n) :
    v=BitVec.ofNat 32 n ∧ n<2^31 := by
  unfold atomicRead at h
  rw [BitVec.toInt_eq_toNat_cond] at h
  have hlt := v.isLt
  have hv : v.toNat=n ∧ n<2^31 := by
    split at h <;> omega
  refine ⟨BitVec.eq_of_toNat_eq ?_,hv.2⟩
  rw [BitVec.toNat_ofNat]
  omega

end Kpp.KernelAtomic
