import Kpp.ParentChains
import Kpp.StepRun
import Mathlib.Data.Int.Notation

/-!
# KObjects in their tree

A `KObject` is the storage of a kernel object, and passes its calls on to it.
The kernel counts the references of the object, of which every child in sysfs
holds one, and calls its release function after the last one. `~KObject()`
does nothing about the references that are left.

Assumed: the storage of a `KObject` is zeroed memory, since `KObject()` leaves
`kobj_` as it is and `kobject_init` sets no name, set or parent; and no object
has so many references that its counter saturates.
-/

namespace Kpp.KObjectTrees

open ParentChains StepRun

variable {K : Type*}

/-- Storage and kernel objects. -/
structure State (K : Type*) where
  /-- References, parents and releases of the kernel objects. -/
  forest : Forest K
  /-- The `KObject` was constructed. -/
  made : K → Bool
  /-- It was not destroyed since. -/
  stored : K → Bool
  /-- `kobject_init` was called on it. -/
  initialised : K → Bool
  /-- It has a directory in sysfs. -/
  inSysfs : K → Bool
  /-- References taken through the `KObject` and not put. -/
  handles : K → ℕ
  /-- When it was initialised. -/
  rank : K → ℕ
  /-- Number of objects initialised so far. -/
  next : ℕ

/-- Constructor, member functions and destructor of `KObject`; the first result
of the kernel's attempt to make a directory comes with the call. -/
inductive Action (K : Type*) where
  | construct (this : K)
  | initAndAdd (this : K) (parent : Option K) (made : ℤ)
  | del (this : K)
  | get (this : K)
  | put (this : K)
  | destruct (this : K)

/-- No object constructed. -/
def start : State K :=
  ⟨⟨fun _ => 0,fun _ => none,fun _ => 0,false⟩,fun _ => false,fun _ => false,fun _ => false,
    fun _ => false,fun _ => 0,fun _ => 0,0⟩

/-- Error of a directory without one above it. -/
abbrev ENOENT : ℤ := 2

/-- References changed; what was released has no directory any more. -/
def State.after (forest : Forest K) (s : State K) : State K :=
  {s with
    forest := forest
    inSysfs := fun k => s.inSysfs k && forest.released k==s.forest.released k}

section Code
variable [DecidableEq K]

/-- `kobject_init`; initialising an object twice is an error. -/
def kobjectInit (k : K) (s : State K) : State K :=
  if s.initialised k=true then {s with forest := {s.forest with broken := true}}
  else {s with
    forest := {s.forest with refs := Function.update s.forest.refs k 1}
    initialised := Function.update s.initialised k true
    handles := Function.update s.handles k 1
    rank := Function.update s.rank k s.next
    next := s.next+1}

/-- Result of making the directory of a child: its own error, or that there is
no directory above it. -/
def State.childError (s : State K) (p : K) (made : ℤ) : ℤ :=
  if made≠0 then made else if s.inSysfs p=true then 0 else -ENOENT

/-- `kobject_add`. The reference of the parent is put again on an error. -/
def kobjectAdd (k : K) (parent : Option K) (made : ℤ) (s : State K) : ℤ×State K :=
  match parent with
  | none =>
    if made=0 then (0,{s with inSysfs := Function.update s.inSysfs k true}) else (made,s)
  | some p =>
    if s.childError p made=0 then
      (0,{s with
        forest := s.forest.attach k p
        inSysfs := Function.update s.inSysfs k true})
    else (s.childError p made,
      {s with forest := {s.forest with broken := s.forest.broken || s.forest.refs p==0}})

/-- `kobject_del`, which puts the reference of the parent. -/
def kobjectDel (k : K) (s : State K) : State K :=
  if s.forest.refs k=0 then {s with forest := {s.forest with broken := true}}
  else State.after (s.forest.detach (s.rank k) k)
    {s with inSysfs := Function.update s.inSysfs k false}

/-- `kobject_get`. -/
def kobjectGet (k : K) (s : State K) : State K := {s with forest := s.forest.take k}

/-- `kobject_put`. -/
def kobjectPut (k : K) (s : State K) : State K := s.after (s.forest.drop (s.rank k+1) k)

/-- `KObject::init_and_add`. -/
def initAndAdd (this : K) (parent : Option K) (made : ℤ) (s : State K) : ℤ×State K :=
  kobjectAdd this parent made (kobjectInit this s)

/-- One call. Member functions are called on objects that exist; what `get` and
`put` do to the references that the caller holds is recorded. -/
def step (s : State K) : Action K → Option (State K)
  | .construct this =>
    if s.made this=true then none
    else some {s with
      made := Function.update s.made this true
      stored := Function.update s.stored this true}
  | .initAndAdd this parent made =>
    if s.stored this=true then some (initAndAdd this parent made s).2 else none
  | .del this => if s.stored this=true then some (kobjectDel this s) else none
  | .get this =>
    if s.stored this=true then
      some {kobjectGet this s with handles := Function.update s.handles this (s.handles this+1)}
    else none
  | .put this =>
    if s.stored this=true then
      some {kobjectPut this s with handles := Function.update s.handles this (s.handles this-1)}
    else none
  | .destruct this =>
    if s.stored this=true then some {s with stored := Function.update s.stored this false}
    else none

end Code

variable [Fintype K] [DecidableEq K]

/-- Kernel objects live and end as they should. -/
structure Kept (s : State K) : Prop where
  /-- References are those of the callers and of children. -/
  accounts : Accounts s.handles s.forest
  /-- The storage is there while there are references. -/
  persists : ∀ k,0<s.forest.refs k → s.stored k=true
  /-- Objects are released once, after their last reference. -/
  released : ∀ k,s.forest.released k=
    if s.initialised k=true ∧ s.forest.refs k=0 then 1 else 0
  /-- Objects in sysfs have references. -/
  listed : ∀ k,s.inSysfs k=true → 0<s.forest.refs k

/-- The call keeps to the kernel's rules: objects are initialised once, below
objects that have references, put as often as they were got, not used without
references, and not destroyed with references. -/
def Proper (s : State K) : Action K → Prop
  | .construct _ => True
  | .initAndAdd this parent _ =>
    s.initialised this=false ∧ ∀ p,parent=some p → p≠this → 0<s.forest.refs p
  | .del this => 0<s.forest.refs this
  | .get this => 0<s.forest.refs this
  | .put this => 0<s.handles this
  | .destruct this => s.forest.refs this=0

/-- What holds between calls that are proper. -/
structure Sound (s : State K) : Prop extends Kept s where
  /-- Parents were initialised first. -/
  ranked : Ranked s.rank s.forest
  /-- Objects initialised so far come before those to come. -/
  early : ∀ k,s.initialised k=true → s.rank k<s.next
  /-- Only initialised objects have references. -/
  blank : ∀ k,s.initialised k=false → s.forest.refs k=0
  /-- Only objects with references have a parent. -/
  held : ∀ k p,s.forest.parent k=some p → 0<s.forest.refs k
  /-- Only constructed objects are stored, or initialised. -/
  constructed : ∀ k,s.stored k=true ∨ s.initialised k=true → s.made k=true

variable {s t : State K} {k : K}

omit [Fintype K] in
/-- What holds after overwriting one value, and not of the new one, held before. -/
theorem of_update {V : Type*} {P : V → Prop} {f : K → V} {v : V} {j : K} (hv : ¬P v)
    (h : P (Function.update f k v j)) : P (f j) := by
  by_cases hne : j=k
  · rw [hne,Function.update_self] at h
    exact absurd h hv
  · rwa [Function.update_of_ne hne] at h

/-- Objects with references were initialised. -/
theorem Sound.initialised (hs : Sound s) (hk : 0<s.forest.refs k) : s.initialised k=true := by
  by_contra hnot
  have hzero := hs.blank k (Bool.eq_false_iff.mpr hnot)
  omega

/-- No child holds an object without references. -/
theorem Sound.no_child (hs : Sound s) (hk : s.forest.refs k=0) (j : K) :
    s.forest.parent j≠some k := by
  have hcount := hs.accounts.counted k
  have hnone : s.forest.children k=0 := by omega
  exact (PointUpdate.countCells_eq_zero _).mp hnone j

/-- An object without references has no parent. -/
theorem Sound.no_parent (hs : Sound s) (hk : s.forest.refs k=0) : s.forest.parent k=none := by
  cases hparent : s.forest.parent k with
  | none => rfl
  | some p =>
    have hpos := hs.held k p hparent
    omega

/-- Giving up a reference keeps everything sound, whatever falls. -/
theorem Sound.dropped (hs : Sound s) {f g : Forest K} {handles : K → ℕ} {inSysfs : K → Bool}
    (hrefs : f.refs=s.forest.refs) (hreleased : f.released=s.forest.released)
    (hparent : ∀ j p,f.parent j=some p → s.forest.parent j=some p)
    (hin : ∀ j,inSysfs j=true → s.inSysfs j=true) (hd : Dropped handles k f g) :
    Sound {State.after g {s with inSysfs := inSysfs} with handles := handles} := by
  have hranked : Ranked s.rank f := fun j p hp => hs.ranked j p (hparent j p hp)
  have hle : ∀ j,g.refs j≤ s.forest.refs j := fun j => hrefs ▸ hd.refs_le j
  have hstood : ∀ j,¬Falls f k j → (g.refs j=0 ↔ s.forest.refs j=0) := by
    intro j hj
    have hle' := hle j
    have hkept := (hd.stood j hj).2.2
    rw [hrefs] at hkept
    omega
  refine ⟨⟨hd.accounts,?_,?_,?_⟩,hd.ranked hranked,hs.early,?_,?_,hs.constructed⟩
  · intro j hj
    exact hs.persists j (Nat.lt_of_lt_of_le hj (hle j))
  · intro j
    have hold := hs.released j
    change g.released j=if s.initialised j=true ∧ g.refs j=0 then 1 else 0
    by_cases hj : Falls f k j
    · obtain ⟨hzero,hcount,_⟩ := hd.fell j hj
      have hone : s.forest.refs j=1 := hrefs ▸ hj.refs_eq
      rw [if_neg (by omega)] at hold
      rw [hcount,hreleased,hold,if_pos ⟨hs.initialised (by omega),hzero⟩]
    · rw [(hd.stood j hj).1,hreleased,hold]
      exact if_congr (and_congr_right fun _ => (hstood j hj).symm) rfl rfl
  · intro j hj
    change (inSysfs j && g.released j==s.forest.released j)=true at hj
    obtain ⟨hlisted,hsame⟩ := Bool.and_eq_true_iff.mp hj
    have hpos := hs.listed j (hin j hlisted)
    by_cases hfalls : Falls f k j
    · have hcount := (hd.fell j hfalls).2.1
      rw [hreleased] at hcount
      have hequal := beq_iff_eq.mp hsame
      omega
    · have hiff := hstood j hfalls
      change 0<g.refs j
      omega
  · intro j hj
    have hzero := hs.blank j hj
    have hle' := hle j
    change g.refs j=0
    omega
  · intro j p hj
    change g.parent j=some p at hj
    change 0<g.refs j
    by_cases hfalls : Falls f k j
    · rw [(hd.fell j hfalls).2.2] at hj
      exact absurd hj nofun
    · rw [(hd.stood j hfalls).2.1] at hj
      have hpos := hs.held j p (hparent j p hj)
      have hiff := hstood j hfalls
      omega

/-- Taking a reference keeps everything sound, with a new child or without. -/
theorem Sound.taken (hs : Sound s) {f : Forest K} {handles : K → ℕ} {inSysfs : K → Bool}
    (hk : 0<s.forest.refs k) (hrefs : f.refs=(s.forest.take k).refs)
    (hreleased : f.released=s.forest.released) (ha : Accounts handles f)
    (hr : Ranked s.rank f) (hheld : ∀ j p,f.parent j=some p → 0<s.forest.refs j)
    (hlisted : ∀ j,inSysfs j=true → 0<s.forest.refs j) :
    Sound {s with forest := f,handles := handles,inSysfs := inSysfs} := by
  have htake := take_refs hk
  rw [←hrefs] at htake
  refine ⟨⟨ha,?_,?_,?_⟩,hr,hs.early,?_,?_,hs.constructed⟩
  · intro j hj
    have hzero := (htake j).2
    change 0<f.refs j at hj
    exact hs.persists j (by omega)
  · intro j
    exact (congrFun hreleased j).trans ((hs.released j).trans
      (if_congr (and_congr_right fun _ => (htake j).2.symm) rfl rfl))
  · intro j hj
    exact Nat.lt_of_lt_of_le (hlisted j hj) (htake j).1
  · intro j hj
    exact (htake j).2.mpr (hs.blank j hj)
  · intro j p hj
    exact Nat.lt_of_lt_of_le (hheld j p hj) (htake j).1

/-- What a `put` does to the counts, and what it releases. -/
theorem Sound.put_dropped (hs : Sound s) (hk : 0<s.handles k) :
    Dropped (Function.update s.handles k (s.handles k-1)) k s.forest
      (s.forest.drop (s.rank k+1) k) := by
  refine drop_spec hs.ranked (Nat.lt_succ_self _) ?_ hs.accounts.sound
  intro j
  have hj := hs.accounts.counted j
  by_cases hne : j=k
  · subst hne
    rw [Function.update_self,if_pos rfl]
    omega
  · rw [Function.update_of_ne hne,if_neg hne,hj,Nat.add_zero]

/-- `del` keeps everything sound. -/
theorem Sound.del (hs : Sound s) (hk : 0<s.forest.refs k) : Sound (kobjectDel k s) := by
  have hin : ∀ j,Function.update s.inSysfs k false j=true → s.inSysfs j=true :=
    fun _ hj => of_update (P := (·=true)) Bool.false_ne_true hj
  unfold kobjectDel
  rw [if_neg (by omega)]
  cases hparent : s.forest.parent k with
  | none =>
    have hsame : s.forest.detach (s.rank k) k=s.forest := by
      unfold Forest.detach
      rw [hparent]
    rw [hsame]
    refine ⟨⟨hs.accounts,hs.persists,hs.released,?_⟩,hs.ranked,hs.early,hs.blank,hs.held,
      hs.constructed⟩
    intro j hj
    exact hs.listed j (hin j (Bool.and_eq_true_iff.mp hj).1)
  | some p =>
    have hd := hs.accounts.detach hs.ranked hparent (hs.ranked k p hparent)
    have hcleared : ∀ j q,Function.update s.forest.parent k none j=some q →
        s.forest.parent j=some q :=
      fun _ q hq => of_update (P := (·=some q)) (Option.some_ne_none q).symm hq
    exact hs.dropped (f := {s.forest with parent := Function.update s.forest.parent k none})
      rfl rfl hcleared hin hd

/-- An object that is initialised for the first time is sound, and alone. -/
theorem Sound.init (hs : Sound s) (hstored : s.stored k=true) (hk : s.initialised k=false) :
    Sound (kobjectInit k s) := by
  have hzero := hs.blank k hk
  have hcount := hs.accounts.counted k
  unfold kobjectInit
  rw [if_neg (by rw [hk]; exact Bool.false_ne_true)]
  refine ⟨⟨⟨?_,hs.accounts.sound⟩,?_,?_,?_⟩,?_,?_,?_,?_,?_⟩
  · intro j
    have hj := hs.accounts.counted j
    change Function.update s.forest.refs k 1 j=Function.update s.handles k 1 j+s.forest.children j
    by_cases hne : j=k
    · subst hne
      rw [Function.update_self,Function.update_self]
      omega
    · rw [Function.update_of_ne hne,Function.update_of_ne hne,hj]
  · intro j hj
    by_cases hne : j=k
    · rw [hne]
      exact hstored
    · change 0<Function.update s.forest.refs k 1 j at hj
      rw [Function.update_of_ne hne] at hj
      exact hs.persists j hj
  · intro j
    have hj := hs.released j
    change s.forest.released j=
      if Function.update s.initialised k true j=true ∧ Function.update s.forest.refs k 1 j=0
      then 1 else 0
    by_cases hne : j=k
    · subst hne
      rw [if_neg (by rw [hk]; exact fun h => nomatch h.1)] at hj
      rw [Function.update_self,Function.update_self,if_neg (by omega),hj]
    · rw [Function.update_of_ne hne,Function.update_of_ne hne,hj]
  · intro j hj
    have hpos := hs.listed j hj
    have hne : j≠k := fun h => by rw [h] at hpos; omega
    change 0<Function.update s.forest.refs k 1 j
    rwa [Function.update_of_ne hne]
  · intro j p hj
    have hpos := hs.held j p hj
    have hne : j≠k := fun h => by rw [h] at hpos; omega
    have hp : p≠k := fun h => hs.no_child hzero j (h ▸ hj)
    change Function.update s.rank k s.next p<Function.update s.rank k s.next j
    rw [Function.update_of_ne hp,Function.update_of_ne hne]
    exact hs.ranked j p hj
  · intro j hj
    change Function.update s.rank k s.next j<s.next+1
    by_cases hne : j=k
    · rw [hne,Function.update_self]
      exact Nat.lt_succ_self _
    · change Function.update s.initialised k true j=true at hj
      rw [Function.update_of_ne hne] at hj
      rw [Function.update_of_ne hne]
      exact Nat.lt_succ_of_lt (hs.early j hj)
  · intro j hj
    change Function.update s.initialised k true j=false at hj
    have hne : j≠k := fun h => by rw [h,Function.update_self] at hj; cases hj
    rw [Function.update_of_ne hne] at hj
    exact (Function.update_of_ne hne _ _).trans (hs.blank j hj)
  · intro j p hj
    have hpos := hs.held j p hj
    have hne : j≠k := fun h => by rw [h] at hpos; omega
    change 0<Function.update s.forest.refs k 1 j
    rwa [Function.update_of_ne hne]
  · intro j hj
    by_cases hne : j=k
    · rw [hne]
      exact hs.constructed k (Or.inl hstored)
    · refine hs.constructed j (hj.imp_right ?_)
      intro h
      change Function.update s.initialised k true j=true at h
      rwa [Function.update_of_ne hne] at h

/-- `kobject_add` keeps everything sound, whatever the kernel answers. -/
theorem Sound.add (hs : Sound s) {parent : Option K} {made : ℤ} (hk : 0<s.forest.refs k)
    (halone : s.forest.parent k=none) (hp : ∀ p,parent=some p → 0<s.forest.refs p)
    (hrank : ∀ p,parent=some p → s.inSysfs p=true → s.rank p<s.rank k) :
    Sound (kobjectAdd k parent made s).2 := by
  have hlisted : ∀ j,Function.update s.inSysfs k true j=true → 0<s.forest.refs j := by
    intro j hj
    by_cases hne : j=k
    · rw [hne]
      exact hk
    · rw [Function.update_of_ne hne] at hj
      exact hs.listed j hj
  cases parent with
  | none =>
    unfold kobjectAdd
    dsimp only
    split
    · exact ⟨⟨hs.accounts,hs.persists,hs.released,hlisted⟩,hs.ranked,hs.early,hs.blank,hs.held,
        hs.constructed⟩
    · exact hs
  | some p =>
    have hpos := hp p rfl
    have herror : (s.forest.broken || s.forest.refs p==0)=s.forest.broken := by
      rw [beq_eq_false_iff_ne.mpr (Nat.ne_of_gt hpos),Bool.or_false]
    unfold kobjectAdd
    dsimp only
    by_cases hadded : s.childError p made=0
    · rw [if_pos hadded]
      have hthere : s.inSysfs p=true := by
        by_contra hnot
        rw [State.childError,if_neg hnot] at hadded
        split at hadded
        · next hmade => exact hmade hadded
        · exact absurd hadded (by decide)
      refine hs.taken hpos rfl rfl (hs.accounts.attach halone hpos) ?_ ?_ hlisted
      · intro j q hq
        change Function.update s.forest.parent k (some p) j=some q at hq
        by_cases hne : j=k
        · rw [hne,Function.update_self] at hq
          rw [hne,←Option.some.inj hq]
          exact hrank p rfl hthere
        · rw [Function.update_of_ne hne] at hq
          exact hs.ranked j q hq
      · intro j q hq
        change Function.update s.forest.parent k (some p) j=some q at hq
        by_cases hne : j=k
        · rw [hne]
          exact hk
        · rw [Function.update_of_ne hne] at hq
          exact hs.held j q hq
    · rw [if_neg hadded]
      dsimp only
      rw [herror]
      exact hs

omit [Fintype K] in
/-- What `kobject_init` does to an object that it has not seen. -/
theorem kobjectInit_eq (hk : s.initialised k=false) : kobjectInit k s={s with
    forest := {s.forest with refs := Function.update s.forest.refs k 1}
    initialised := Function.update s.initialised k true
    handles := Function.update s.handles k 1
    rank := Function.update s.rank k s.next
    next := s.next+1} := by
  unfold kobjectInit
  rw [if_neg (by rw [hk]; exact Bool.false_ne_true)]

/-- `init_and_add` keeps everything sound, whatever the kernel answers. -/
theorem Sound.initAndAdd (hs : Sound s) {parent : Option K} {made : ℤ}
    (hstored : s.stored k=true) (hk : s.initialised k=false)
    (hp : ∀ p,parent=some p → p≠k → 0<s.forest.refs p) :
    Sound (initAndAdd k parent made s).2 := by
  have hzero := hs.blank k hk
  have hinit := hs.init hstored hk
  unfold KObjectTrees.initAndAdd
  rw [kobjectInit_eq hk] at hinit ⊢
  refine hinit.add ?_ (hs.no_parent hzero) ?_ ?_
  · change 0<Function.update s.forest.refs k 1 k
    rw [Function.update_self]
    exact Nat.one_pos
  · intro p hparent
    change 0<Function.update s.forest.refs k 1 p
    by_cases hne : p=k
    · rw [hne,Function.update_self]
      exact Nat.one_pos
    · rw [Function.update_of_ne hne]
      exact hp p hparent hne
  · intro p _ hlisted
    have hpos := hs.listed p hlisted
    have hne : p≠k := fun h => by rw [h] at hpos; omega
    change Function.update s.rank k s.next p<Function.update s.rank k s.next k
    rw [Function.update_of_ne hne,Function.update_self]
    exact hs.early p (hs.initialised hpos)

omit [Fintype K] in
/-- Adding an object mends nothing. -/
theorem kobjectAdd_broken {parent : Option K} {made : ℤ} (h : s.forest.broken=true) :
    (kobjectAdd k parent made s).2.forest.broken=true := by
  unfold kobjectAdd
  cases parent with
  | none =>
    dsimp only
    split <;> exact h
  | some p =>
    dsimp only
    split
    · exact Bool.or_eq_true_iff.mpr (Or.inl h)
    · exact Bool.or_eq_true_iff.mpr (Or.inl h)

omit [Fintype K] in
/-- An object is added below one without references with a fault. -/
theorem kobjectAdd_missing {p : K} {made : ℤ} (h : s.forest.refs p=0) :
    (kobjectAdd k (some p) made s).2.forest.broken=true := by
  have hzero : (s.forest.refs p==0)=true := beq_iff_eq.mpr h
  unfold kobjectAdd
  dsimp only
  split
  · exact Bool.or_eq_true_iff.mpr (Or.inr hzero)
  · exact Bool.or_eq_true_iff.mpr (Or.inr hzero)

/-- Proper calls keep everything sound. -/
theorem step_sound (hs : Sound s) {a : Action K} (hg : Proper s a) (h : step s a=some t) :
    Sound t := by
  cases a with
  | construct this =>
    obtain ⟨_,ht⟩ := Option.ite_none_left_eq_some.mp h
    obtain rfl := Option.some.inj ht
    have hgrow : ∀ {f : K → Bool} {j : K},f j=true → Function.update f this true j=true := by
      intro f j hj
      by_cases hne : j=this
      · rw [hne,Function.update_self]
      · rwa [Function.update_of_ne hne]
    refine ⟨⟨hs.accounts,fun j hj => hgrow (hs.persists j hj),hs.released,hs.listed⟩,hs.ranked,
      hs.early,hs.blank,hs.held,?_⟩
    intro j hj
    change Function.update s.made this true j=true
    by_cases hne : j=this
    · rw [hne,Function.update_self]
    · change Function.update s.stored this true j=true ∨ s.initialised j=true at hj
      rw [Function.update_of_ne hne] at hj
      exact hgrow (hs.constructed j hj)
  | initAndAdd this parent made =>
    obtain ⟨hstored,ht⟩ := Option.ite_none_right_eq_some.mp h
    obtain rfl := Option.some.inj ht
    exact hs.initAndAdd hstored hg.1 hg.2
  | del this =>
    obtain ⟨_,ht⟩ := Option.ite_none_right_eq_some.mp h
    obtain rfl := Option.some.inj ht
    exact hs.del hg
  | get this =>
    obtain ⟨_,ht⟩ := Option.ite_none_right_eq_some.mp h
    obtain rfl := Option.some.inj ht
    exact hs.taken hg rfl rfl (hs.accounts.take hg) hs.ranked hs.held hs.listed
  | put this =>
    obtain ⟨_,ht⟩ := Option.ite_none_right_eq_some.mp h
    obtain rfl := Option.some.inj ht
    exact hs.dropped rfl rfl (fun _ _ hp => hp) (fun _ hin => hin) (hs.put_dropped hg)
  | destruct this =>
    obtain ⟨_,ht⟩ := Option.ite_none_right_eq_some.mp h
    obtain rfl := Option.some.inj ht
    have hshrink : ∀ {j : K},Function.update s.stored this false j=true → s.stored j=true :=
      of_update (P := (·=true)) Bool.false_ne_true
    refine ⟨⟨hs.accounts,?_,hs.released,hs.listed⟩,hs.ranked,hs.early,hs.blank,hs.held,
      fun j hj => hs.constructed j (hj.imp_left hshrink)⟩
    intro j hj
    have hne : j≠this := by
      intro hsame
      have hzero : s.forest.refs this=0 := hg
      change 0<s.forest.refs j at hj
      rw [hsame] at hj
      omega
    change Function.update s.stored this false j=true
    rw [Function.update_of_ne hne]
    exact hs.persists j hj

/-- A call after which everything is as it should be was proper. -/
theorem Sound.proper (hs : Sound s) {a : Action K} (h : step s a=some t) (hk : Kept t) :
    Proper s a := by
  cases a with
  | construct this => trivial
  | initAndAdd this parent made =>
    obtain ⟨_,ht⟩ := Option.ite_none_right_eq_some.mp h
    obtain rfl := Option.some.inj ht
    have hsound : (kobjectAdd this parent made (kobjectInit this s)).2.forest.broken=false :=
      hk.accounts.sound
    have hfirst : s.initialised this=false := by
      rw [Bool.eq_false_iff]
      intro hagain
      have hbroken : (kobjectInit this s).forest.broken=true := by
        unfold kobjectInit
        rw [if_pos hagain]
      rw [kobjectAdd_broken hbroken] at hsound
      cases hsound
    refine ⟨hfirst,?_⟩
    intro p hparent hne
    by_contra hpos
    have hzero : (kobjectInit this s).forest.refs p=0 := by
      rw [kobjectInit_eq hfirst]
      change Function.update s.forest.refs this 1 p=0
      rw [Function.update_of_ne hne]
      omega
    rw [hparent,kobjectAdd_missing hzero] at hsound
    cases hsound
  | del this =>
    obtain ⟨_,ht⟩ := Option.ite_none_right_eq_some.mp h
    obtain rfl := Option.some.inj ht
    by_contra hpos
    have hsound := hk.accounts.sound
    unfold kobjectDel at hsound
    rw [if_pos (show s.forest.refs this=0 from Nat.eq_zero_of_not_pos hpos)] at hsound
    cases hsound
  | get this =>
    obtain ⟨_,ht⟩ := Option.ite_none_right_eq_some.mp h
    obtain rfl := Option.some.inj ht
    by_contra hpos
    have hzero : (s.forest.refs this==0)=true := beq_iff_eq.mpr (Nat.eq_zero_of_not_pos hpos)
    have hsound : (s.forest.broken || s.forest.refs this==0)=false := hk.accounts.sound
    rw [hzero,Bool.or_true] at hsound
    cases hsound
  | put this =>
    obtain ⟨_,ht⟩ := Option.ite_none_right_eq_some.mp h
    obtain rfl := Option.some.inj ht
    by_contra hnone
    have hhandles : s.handles this=0 := Nat.eq_zero_of_not_pos hnone
    have hbefore := hs.accounts.counted this
    have hafter : (s.forest.drop (s.rank this+1) this).refs this=
        Function.update s.handles this (s.handles this-1) this+
          (s.forest.drop (s.rank this+1) this).children this := hk.accounts.counted this
    rw [Function.update_self,drop_children hs.ranked] at hafter
    by_cases hpos : 0<s.forest.refs this
    · have hless := drop_refs (n := s.rank this) hs.ranked hpos
      omega
    · have hsound : (s.forest.drop (s.rank this+1) this).broken=false := hk.accounts.sound
      unfold Forest.drop at hsound
      rw [if_pos (Nat.eq_zero_of_not_pos hpos)] at hsound
      cases hsound
  | destruct this =>
    obtain ⟨_,ht⟩ := Option.ite_none_right_eq_some.mp h
    obtain rfl := Option.some.inj ht
    by_contra hpos
    have hstored := hk.persists this (Nat.pos_of_ne_zero hpos)
    change Function.update s.stored this false this=true at hstored
    rw [Function.update_self] at hstored
    cases hstored

/-- Nothing is wrong before the first call. -/
theorem start_sound : Sound (start : State K) := by
  refine ⟨⟨⟨fun k => ?_,rfl⟩,nofun,fun _ => rfl,nofun⟩,nofun,nofun,fun _ _ => rfl,nofun,?_⟩
  · have hnone : (start : State K).forest.children k=0 :=
      (PointUpdate.countCells_eq_zero _).mpr (fun _ => nofun)
    rw [hnone]
    rfl
  · intro k h
    rcases h with h | h
    · cases h
    · cases h

/-- A `put` after any run of proper calls. It releases the object and those
above it as far up as each of them had one reference only, which leave sysfs,
and nothing else. -/
theorem put_releases {actions : List (Action K)}
    (hproper : Guarded step Proper (start : State K) actions)
    (hrun : run step start actions=some s) (hhandle : 0<s.handles k)
    (hput : step s (.put k)=some t) (j : K) :
    (Falls s.forest k j → t.forest.released j=1 ∧ t.forest.refs j=0 ∧ t.inSysfs j=false) ∧
      (¬Falls s.forest k j → t.forest.released j=s.forest.released j ∧
        t.inSysfs j=s.inSysfs j ∧ (t.forest.refs j=0 ↔ s.forest.refs j=0)) := by
  have hs := run_invariant (fun hs hg h => step_sound hs hg h) start_sound hproper hrun
  have hd := hs.put_dropped hhandle
  obtain ⟨_,ht⟩ := Option.ite_none_right_eq_some.mp hput
  obtain rfl := Option.some.inj ht
  constructor
  · intro hfalls
    obtain ⟨hzero,hcount,_⟩ := hd.fell j hfalls
    have hold := hs.released j
    rw [if_neg (by rw [hfalls.refs_eq]; omega)] at hold
    refine ⟨hcount.trans (by rw [hold]),hzero,?_⟩
    change (s.inSysfs j && (s.forest.drop (s.rank k+1) k).released j==s.forest.released j)=false
    rw [hcount,beq_eq_false_iff_ne.mpr (Nat.succ_ne_self _),Bool.and_false]
  · intro hstands
    obtain ⟨hsame,_,hkept⟩ := hd.stood j hstands
    have hle := hd.refs_le j
    refine ⟨hsame,?_,?_⟩
    · change (s.inSysfs j && (s.forest.drop (s.rank k+1) k).released j==s.forest.released j)=_
      rw [hsame,beq_self_eq_true,Bool.and_true]
    · change (s.forest.drop (s.rank k+1) k).refs j=0 ↔ _
      omega

/-- A directory that its caller put, and an object below it. -/
def nested : List (Action Bool) :=
  [.construct true,.construct false,.initAndAdd true none 0,.initAndAdd false (some true) 0,
    .put true]

/-- The last `put` of the object below releases both. -/
theorem put_releases_nested : ∃ s t,run step start nested=some s ∧
    step s (.put false)=some t ∧ t.forest.released false=1 ∧ t.forest.released true=1 := by
  have hproper : Guarded step Proper start nested := by
    rintro _ ⟨⟩
    refine ⟨trivial,?_⟩
    rintro _ ⟨⟩
    refine ⟨trivial,?_⟩
    rintro _ ⟨⟩
    refine ⟨⟨rfl,nofun⟩,?_⟩
    rintro _ ⟨⟩
    refine ⟨⟨rfl,fun p hp _ => by cases hp; decide⟩,?_⟩
    rintro _ ⟨⟩
    exact ⟨Nat.zero_lt_one,trivial⟩
  obtain ⟨s,hrun⟩ : ∃ s,run step start nested=some s := ⟨_,rfl⟩
  obtain ⟨t,hput⟩ : ∃ t,step s (.put false)=some t := by
    cases hrun
    exact ⟨_,rfl⟩
  have hhandle : 0<s.handles false := by
    cases hrun
    decide
  have hfalls : Falls s.forest false false ∧ Falls s.forest false true := by
    cases hrun
    exact ⟨.last rfl,.up rfl rfl (.last rfl)⟩
  exact ⟨s,t,hrun,hput,((put_releases hproper hrun hhandle hput false).1 hfalls.1).1,
    ((put_releases hproper hrun hhandle hput true).1 hfalls.2).1⟩

/-- An object that is deleted and not put, as in `status_module_exit`, is never
released. -/
example : (run step start [.construct (),.initAndAdd () none 0,.del ()]).map
    (fun s => (s.inSysfs (),s.forest.refs (),s.forest.released ()))=some (false,1,0) := by decide

/-- A `KObject` that is destroyed after its object was added leaves a directory
whose storage is gone. -/
example : (run step start [.construct (),.initAndAdd () none 0,.destruct ()]).map
    (fun s => (s.stored (),s.inSysfs (),s.forest.refs ()))=some (false,true,1) := by decide

end Kpp.KObjectTrees
