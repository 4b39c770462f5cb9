import Kpp.KernelAtomic
import Kpp.StepRun

/-!
# Kref against the references that are held

A `Kref` counts in a 32-bit word that the kernel saturates instead of letting
it wrap: a saturated counter is never released. `init` may be called again at
any time. The references that owners hold are counted next to it.
-/

namespace Kpp.Krefs

open KernelAtomic StepRun

/-- `refcount_t`. -/
abbrev Refcount := Atomic

/-- `REFCOUNT_SATURATED`, in the middle of the negative numbers. -/
def saturated : Refcount := 0xC0000000#32

/-- `Kref`, with the counter in `ref_`. -/
structure Kref where
  /-- `ref_.refcount`. -/
  refcount : Refcount
  deriving DecidableEq

/-- `kref_init`. -/
def krefInit : Kref := ⟨1#32⟩

/-- `kref_get`: the counter before the increment tells whether to saturate. -/
def krefGet (k : Kref) : Kref :=
  if k.refcount=0#32 then ⟨saturated⟩
  else if atomicRead k.refcount<0 ∨ atomicRead (k.refcount+1#32)<0 then ⟨saturated⟩
  else ⟨k.refcount+1#32⟩

/-- `kref_put`, and whether it calls the release function. -/
def krefPut (k : Kref) : Kref×Bool :=
  if k.refcount=1#32 then (⟨0#32⟩,true)
  else if atomicRead k.refcount<0 ∨ atomicRead (k.refcount-1#32)<0 then (⟨saturated⟩,false)
  else (⟨k.refcount-1#32⟩,false)

/-- `Kref()`. -/
def Kref.create : Kref := krefInit

/-- `Kref::init`. -/
def Kref.init (_this : Kref) : Kref := krefInit

/-- `Kref::get`. -/
def Kref.get (this : Kref) : Kref := krefGet this

/-- `Kref::put`; the result is 1 if the release function was called. -/
def Kref.put (this : Kref) : Kref×ℤ :=
  let (k,released) := krefPut this
  (k,if released=true then 1 else 0)

/-- Calls of an owner. -/
inductive Call where
  | init
  | get
  | put

/-- A `Kref` and those who hold references of its object. -/
structure State where
  /-- The `Kref`. -/
  kref : Kref
  /-- References that owners hold. -/
  holders : ℕ
  /-- How often the release function was called. -/
  released : ℕ
  /-- Result of the last `put`, and the references held after it. -/
  last : Option (ℤ×ℕ)
  deriving DecidableEq

/-- A new object has one owner. -/
def start : State := ⟨Kref.create,1,0,none⟩

/-- One call. Only who holds a reference calls; `get` makes one more to hold,
`put` gives one up. -/
def step (s : State) : Call → Option State
  | .init => if 0<s.holders then some {s with kref := s.kref.init} else none
  | .get =>
    if 0<s.holders then some {s with kref := s.kref.get,holders := s.holders+1} else none
  | .put =>
    if 0<s.holders then
      let (kref,result) := s.kref.put
      some ⟨kref,s.holders-1,s.released+if result=1 then 1 else 0,some (result,s.holders-1)⟩
    else none

/-- The counter shows the references held. -/
structure Counts (s : State) : Prop where
  /-- It is their number. -/
  count : atomicRead s.kref.refcount=s.holders
  /-- The release function was called once if none is left, and not before. -/
  released : s.released=if s.holders=0 then 1 else 0
  /-- `put` told whether it was the last. -/
  answered : ∀ result left,s.last=some (result,left) → (result=1 ↔ left=0)

/-- `init` with one reference only, and `get` while the counter has room. -/
def Proper (s : State) : Call → Prop
  | .init => s.holders=1
  | .get => s.holders+1<2^31
  | .put => True

variable {s t : State}

/-- A counter that shows the references has fewer than 2^31. -/
theorem refcount_eq {k : Kref} {n : ℕ} (h : atomicRead k.refcount=n) :
    k=⟨BitVec.ofNat 32 n⟩ ∧ n<2^31 := by
  obtain ⟨v⟩ := k
  have hv := atomicRead_eq_natCast h
  exact ⟨congrArg Kref.mk hv.1,hv.2⟩

/-- Reading a counter at the sign bit. -/
theorem read_limit : atomicRead (BitVec.ofNat 32 (2^31))<0 := by decide

/-- A counter with room goes up by one, and the last value saturates. -/
theorem get_ofNat {n : ℕ} (hpos : 0<n) (hlt : n<2^31) :
    krefGet ⟨BitVec.ofNat 32 n⟩=
      if n+1<2^31 then ⟨BitVec.ofNat 32 (n+1)⟩ else ⟨saturated⟩ := by
  have hzero : BitVec.ofNat 32 n≠0#32 := by
    intro hz
    have hnat := congrArg BitVec.toNat hz
    rw [BitVec.toNat_ofNat,BitVec.toNat_ofNat] at hnat
    omega
  have hnow := atomicRead_ofNat hlt
  have hnext : BitVec.ofNat 32 n+1#32=BitVec.ofNat 32 (n+1) := atomicInc_ofNat n
  unfold krefGet
  dsimp only
  rw [if_neg hzero,hnow,hnext]
  by_cases hroom : n+1<2^31
  · have hafter := atomicRead_ofNat hroom
    rw [hafter,if_pos hroom,if_neg (by omega)]
  · have hlast : n+1=2^31 := by omega
    rw [if_neg hroom,hlast,if_pos (Or.inr read_limit)]

/-- A counter goes down by one, and its last reference is released. -/
theorem put_ofNat {n : ℕ} (hlt : n+1<2^31) :
    krefPut ⟨BitVec.ofNat 32 (n+1)⟩=(⟨BitVec.ofNat 32 n⟩,decide (n=0)) := by
  have hback : BitVec.ofNat 32 (n+1)-1#32=BitVec.ofNat 32 n := atomicDec_ofNat n
  have hnow := atomicRead_ofNat hlt
  have hafter := atomicRead_ofNat (Nat.lt_of_succ_lt hlt)
  unfold krefPut
  dsimp only
  rw [hnow,hback,hafter]
  cases n with
  | zero => rfl
  | succ n =>
    have hmany : BitVec.ofNat 32 (n+1+1)≠1#32 := by
      intro hone
      have hnat := congrArg BitVec.toNat hone
      rw [BitVec.toNat_ofNat,BitVec.toNat_ofNat] at hnat
      omega
    rw [if_neg hmany,if_neg (by omega),decide_eq_false (Nat.succ_ne_zero n)]

/-- A call with so many other references held, while the counter is right. -/
def State.after (s : State) (others : ℕ) : Call → State
  | .init => {s with kref := krefInit}
  | .get => {s with
      kref := if others+2<2^31 then ⟨BitVec.ofNat 32 (others+2)⟩ else ⟨saturated⟩
      holders := others+2}
  | .put =>
    let last := if others=0 then 1 else 0
    ⟨⟨BitVec.ofNat 32 others⟩,others,last,some (last,others)⟩

/-- What a call does where the counter is right. -/
theorem Counts.step_cases (hc : Counts s) {c : Call} (h : step s c=some t) :
    ∃ others,s.holders=others+1 ∧ others+1<2^31 ∧ s.released=0 ∧ t=s.after others c := by
  have hpos : 0<s.holders := by
    by_contra hzero
    cases c <;> simp only [step,if_neg hzero,reduceCtorEq] at h
  obtain ⟨n,hn⟩ := Nat.exists_eq_add_one.mpr hpos
  obtain ⟨hkref,hlt⟩ := refcount_eq hc.count
  have hreleased := hc.released
  rw [hn] at hkref hlt hreleased
  rw [if_neg (Nat.succ_ne_zero n)] at hreleased
  refine ⟨n,hn,hlt,hreleased,?_⟩
  cases c with
  | init =>
    rw [step,if_pos hpos] at h
    exact (Option.some.inj h).symm
  | get =>
    have hget := get_ofNat (Nat.succ_pos n) hlt
    rw [step,if_pos hpos,Kref.get,hkref,hget,hn] at h
    exact (Option.some.inj h).symm
  | put =>
    have hput := put_ofNat hlt
    rw [step,if_pos hpos] at h
    simp only [Kref.put,hkref,hput,hn,hreleased] at h
    rw [←Option.some.inj h]
    cases n <;> rfl

/-- A proper call keeps the counter right. -/
theorem Counts.step (hc : Counts s) {c : Call} (hg : Proper s c) (h : Krefs.step s c=some t) :
    Counts t := by
  obtain ⟨n,hn,hlt,hreleased,rfl⟩ := hc.step_cases h
  cases c with
  | init =>
    refine ⟨?_,hc.released,hc.answered⟩
    rw [Proper] at hg
    simp only [State.after,hg]
    rfl
  | get =>
    have hroom : n+2<2^31 := by
      rw [Proper,hn] at hg
      exact hg
    refine ⟨?_,?_,hc.answered⟩
    · simp only [State.after,if_pos hroom]
      exact atomicRead_ofNat hroom
    · exact hreleased
  | put =>
    refine ⟨atomicRead_ofNat (Nat.lt_of_succ_lt hlt),rfl,?_⟩
    intro result left hlast
    simp only [State.after,Option.some.injEq,Prod.mk.injEq] at hlast
    obtain ⟨rfl,rfl⟩ := hlast
    by_cases hz : n=0 <;> simp [hz]

/-- Right after any other call it is wrong. -/
theorem Counts.proper (hc : Counts s) {c : Call} (h : Krefs.step s c=some t) (ht : Counts t) :
    Proper s c := by
  obtain ⟨n,hn,hlt,-,rfl⟩ := hc.step_cases h
  cases c with
  | init =>
    have hone : (1 : ℤ)=s.holders := ht.count
    rw [Proper]
    omega
  | get =>
    rw [Proper,hn]
    by_contra hfull
    have hcount := ht.count
    have hnot : ¬n+2<2^31 := hfull
    simp only [State.after,if_neg hnot] at hcount
    have hnegative : atomicRead saturated<0 := by decide
    omega
  | put => trivial

/-- Runs of owners on one `Kref`. After every call the counter is the number
of references held, the release function was called exactly when the last was
given up, and that `put` alone returned 1, if and only if `init` is only called
with one reference and `get` never with 2^31-1. -/
theorem counts_iff_proper (calls : List Call) :
    Along Krefs.step Counts start calls ↔ Guarded Krefs.step Proper start calls :=
  along_iff_guarded (fun hc => hc) (fun hc hg h => hc.step hg h) (fun hc h ht => hc.proper h ht)
    ⟨rfl,rfl,nofun⟩

/-- A second `init` under two references: the first of two puts releases. -/
example : (run Krefs.step start [.get,.init,.put]).map (fun s => (s.holders,s.released))=
    some (1,1) := by decide

end Kpp.Krefs
