import Kpp.UniqueOwnership

/-!
# Move assignment inside an ownership structure

The handles of a list or tree are stored in the blocks they lead to. The
move assignment of `UniquePtr` passes the block of its target to the deleter
before it reads the source, step by step on memory: a freed block keeps no
handle of its own, and its contents are whatever the allocator leaves there.
-/

namespace Kpp.UniqueChains

open MoveOnlyHandle UniqueHandle
open UniqueOwnership (Cell Class Object stored)

variable {H : Type*}

/-- Handles in memory. -/
structure Heap (H : Type*) where
  /-- Handles in their cells over the slab. -/
  table : UniqueOwnership.State H
  /-- A handle inside a freed block was read or written. -/
  touched : Bool

/-- The cell is inside the block. -/
def Inside (p : ℕ) (c : Cell H) : Prop := ∃ j,c=.member p j

/-- Use the handle in a cell. -/
def Heap.touch (c : Cell H) (x : Heap H) : Heap H :=
  {x with touched := x.touched || !stored x.table.world c}

/-- Read `ptr_` of the handle in a cell. -/
def Heap.load (c : Cell H) (x : Heap H) : Option ℕ×Heap H :=
  ((x.table.slots c).bind Owner.held,x.touch c)

/-- What the allocator leaves in the cells of a freed block. -/
def scribble (p : ℕ) (junk : ℕ → UniquePtr) (slots : Cell H → Option UniquePtr) :
    Cell H → Option UniquePtr
  | .root h => slots (.root h)
  | .member q j => if q=p then (slots (.member q j)).map (fun _ => junk j)
      else slots (.member q j)

/-- `deleter_(ptr_)`: the block is freed and its contents are lost. -/
def Heap.delete (junk : ℕ → UniquePtr) (p : ℕ) (x : Heap H) : Heap H :=
  {x with table := ⟨scribble p junk x.table.slots,defaultDeleter p x.table.world⟩}

section Assignment
variable [DecidableEq H]

/-- Write `ptr_` of the handle in a cell. -/
def Heap.store (c : Cell H) (ptr : Option ℕ) (x : Heap H) : Heap H :=
  {x.touch c with table := ⟨Function.update x.table.slots c (some ⟨ptr⟩),x.table.world⟩}

/-- `UniquePtr::operator=(UniquePtr&&)` of the handles in two cells. -/
def moveAssign (junk : ℕ → UniquePtr) (dst src : Cell H) (x : Heap H) : Heap H :=
  if dst=src then x
  else
    let (ptr,x) := x.load dst
    let x := match ptr with
      | some p => x.delete junk p
      | none => x
    let (ptr,x) := x.load src
    let x := x.store dst ptr
    x.store src none

/-- The handle was moved: the target has what the source had, which is still
there, and the source is empty if it is. The target's old block was passed to
the deleter once, and nothing inside a freed block was used. -/
structure Moved (dst src : Cell H) (x y : Heap H) : Prop where
  /-- The target holds what the source held. -/
  target : y.table.slots dst=x.table.slots src
  /-- A source that still exists is empty. -/
  source : stored y.table.world src=true → y.table.slots src=some ⟨none⟩
  /-- The block that was moved is not freed. -/
  kept : ∀ q,x.table.slots src=some ⟨some q⟩ → y.table.world.frees q=0
  /-- Of all blocks the old one of the target was freed, and once. -/
  freed : ∀ p,y.table.world.frees p=
    x.table.world.frees p+if x.table.slots dst=some ⟨some p⟩ then 1 else 0
  /-- No handle in a freed block was used. -/
  untouched : y.touched=false

end Assignment

/-- Objects that own one another: every handle is stored in memory that is
there, and every block that is held is there and held once. -/
structure Chained (x : Heap H) : Prop where
  /-- Handles are in storage that was not freed. -/
  placed : ∀ c,x.table.slots c≠none → stored x.table.world c=true
  /-- Blocks that are held were not freed. -/
  valid : ∀ c p,x.table.slots c=some ⟨some p⟩ → x.table.world.frees p=0
  /-- Each has one handle. -/
  unique : Exclusive x.table.slots
  /-- Nothing went wrong yet. -/
  untouched : x.touched=false

/-- The target's block holds neither of the two handles. -/
def Apart (dst src : Cell H) (x : Heap H) : Prop :=
  ∀ p,x.table.slots dst=some ⟨some p⟩ → ¬Inside p src ∧ ¬Inside p dst

variable {x : Heap H}

/-- Reached states of objects with UniquePtr members are such structures. -/
theorem chained_of_owned {t : UniqueOwnership.State H} (ho : UniqueOwnership.Owned t) :
    Chained ⟨t,false⟩ :=
  ⟨fun _ hc => ho.stored hc,fun c p hc => (ho.valid c p hc).2,ho.unique,rfl⟩

/-- After a free the cells of the block are gone, and no others. -/
theorem stored_delete (p : ℕ) (w : Slab Object) (c : Cell H) :
    stored (defaultDeleter p w) c=true ↔ stored w c=true ∧ ¬Inside p c := by
  cases c with
  | root h => exact iff_of_true rfl ⟨rfl,nofun⟩
  | member q j =>
    have hfrees := kfree_frees p q w
    change ((kfree p w).frees q==0)=true ↔ (w.frees q==0)=true ∧ ¬Inside p (.member q j)
    rw [hfrees,beq_iff_eq,beq_iff_eq]
    by_cases he : q=p
    · subst he
      exact iff_of_false (by rw [if_pos rfl]; omega) (fun h => h.2 ⟨j,rfl⟩)
    · rw [if_neg he,Nat.add_zero]
      refine (and_iff_left ?_).symm
      rintro ⟨i,hi⟩
      cases hi
      exact he rfl

/-- The allocator leaves the handles of other blocks alone. -/
theorem scribble_outside {p : ℕ} {c : Cell H} (hc : ¬Inside p c) (junk : ℕ → UniquePtr)
    (slots : Cell H → Option UniquePtr) : scribble p junk slots c=slots c := by
  cases c with
  | root h => rfl
  | member q j =>
    dsimp only [scribble]
    rw [if_neg]
    rintro rfl
    exact hc ⟨j,rfl⟩

variable [DecidableEq H]

/-- Move assignment between two handles, with the memory after the deleter. -/
theorem moveAssign_eq (junk : ℕ → UniquePtr) {dst src : Cell H} (hne : dst≠src) (x : Heap H)
    {y : Heap H} (hy : y=match (x.table.slots dst).bind Owner.held with
      | some p => (x.touch dst).delete junk p
      | none => x.touch dst) :
    moveAssign junk dst src x=
      ⟨⟨Function.update (Function.update y.table.slots dst
          (some ⟨(y.table.slots src).bind Owner.held⟩)) src (some ⟨none⟩),y.table.world⟩,
        y.touched || !stored y.table.world src || !stored y.table.world dst ||
          !stored y.table.world src⟩ := by
  unfold moveAssign
  rw [if_neg hne]
  subst hy
  rfl

/-- A target without a block takes over the source's. -/
theorem moved_of_empty (hx : Chained x) (junk : ℕ → UniquePtr) {dst src : Cell H} (hne : dst≠src)
    (hd : x.table.slots dst=some ⟨none⟩) (hs : x.table.slots src≠none) :
    Moved dst src x (moveAssign junk dst src x) := by
  obtain ⟨other,hother⟩ := Option.ne_none_iff_exists'.mp hs
  have hdst : stored x.table.world dst=true := hx.placed dst (by rw [hd]; exact nofun)
  have hsrc : stored x.table.world src=true := hx.placed src hs
  rw [moveAssign_eq junk hne x (y := x.touch dst) (by rw [hd]; rfl)]
  refine ⟨?_,fun _ => Function.update_self _ _ _,?_,?_,?_⟩
  · change Function.update (Function.update x.table.slots dst
      (some ⟨(x.table.slots src).bind Owner.held⟩)) src (some ⟨none⟩) dst=x.table.slots src
    rw [Function.update_of_ne hne,Function.update_self,hother]
    rfl
  · exact fun q hq => hx.valid src q hq
  · intro p
    rw [hd,if_neg nofun]
    rfl
  · simp [Heap.touch,hx.untouched,hdst,hsrc]

/-- A target with a block hands it to the deleter, and after that the handles
are used where they are. -/
theorem moved_iff_of_block (hx : Chained x) (junk : ℕ → UniquePtr) {dst src : Cell H}
    (hne : dst≠src) {p : ℕ} (hd : x.table.slots dst=some ⟨some p⟩)
    (hs : x.table.slots src≠none) :
    Moved dst src x (moveAssign junk dst src x) ↔ ¬Inside p src ∧ ¬Inside p dst := by
  obtain ⟨other,hother⟩ := Option.ne_none_iff_exists'.mp hs
  have hdst : stored x.table.world dst=true := hx.placed dst (by rw [hd]; exact nofun)
  have hsrc : stored x.table.world src=true := hx.placed src hs
  have hgone : ∀ c : Cell H,stored (defaultDeleter p x.table.world) c=true ↔
      stored x.table.world c=true ∧ ¬Inside p c := stored_delete p x.table.world
  rw [moveAssign_eq junk hne x (y := (x.touch dst).delete junk p) (by rw [hd]; rfl)]
  constructor
  · intro hm
    have huntouched := hm.untouched
    simp only [Bool.or_eq_false_iff,Bool.not_eq_false'] at huntouched
    exact ⟨((hgone src).mp huntouched.2).2,((hgone dst).mp huntouched.1.2).2⟩
  · rintro ⟨hawaysrc,hawaydst⟩
    have hsrc' := (hgone src).mpr ⟨hsrc,hawaysrc⟩
    have hdst' := (hgone dst).mpr ⟨hdst,hawaydst⟩
    have hread : scribble p junk x.table.slots src=some other :=
      (scribble_outside hawaysrc junk x.table.slots).trans hother
    refine ⟨?_,fun _ => Function.update_self _ _ _,?_,?_,?_⟩
    · change Function.update (Function.update (scribble p junk x.table.slots) dst
        (some ⟨(scribble p junk x.table.slots src).bind Owner.held⟩)) src (some ⟨none⟩) dst=
          x.table.slots src
      rw [Function.update_of_ne hne,Function.update_self,hread,hother]
      rfl
    · intro q hq
      have hother' : q≠p := by
        rintro rfl
        exact hne (hx.unique dst src q hd hq)
      refine (kfree_frees p q x.table.world).trans ?_
      rw [if_neg hother',Nat.add_zero]
      exact hx.valid src q hq
    · intro q
      refine (kfree_frees p q x.table.world).trans ?_
      rw [hd]
      by_cases he : q=p
      · rw [if_pos he,if_pos (by rw [he])]
      · rw [if_neg he,if_neg]
        rintro ⟨⟩
        exact he rfl
    · simp [Heap.delete,Heap.touch,hx.untouched,hdst,hsrc',hdst']

/-- Move assignment between two handles of a structure of any size does what
it should exactly when the block of its target stores neither of them. -/
theorem moved_iff_apart (hx : Chained x) (junk : ℕ → UniquePtr) {dst src : Cell H}
    (hne : dst≠src) (hd : x.table.slots dst≠none) (hs : x.table.slots src≠none) :
    Moved dst src x (moveAssign junk dst src x) ↔ Apart dst src x := by
  obtain ⟨⟨held⟩,hthis⟩ := Option.ne_none_iff_exists'.mp hd
  cases held with
  | none =>
    refine iff_of_true (moved_of_empty hx junk hne hthis hs) ?_
    intro p hp
    rw [hthis] at hp
    cases hp
  | some p =>
    rw [moved_iff_of_block hx junk hne hthis hs]
    constructor
    · intro h q hq
      rw [hthis] at hq
      cases hq
      exact h
    · exact fun h => h p hthis

/-- Where it does, the handles that still exist are those of the assignment
that looks at values only. -/
theorem moveAssign_table (junk : ℕ → UniquePtr) {dst src : Cell H}
    (hne : dst≠src) (hd : x.table.slots dst≠none) (hs : x.table.slots src≠none)
    (ha : Apart dst src x) :
    ∃ t,MoveOnlyHandle.moveAssign defaultDeleter dst src x.table=some t ∧
      t.world=(moveAssign junk dst src x).table.world ∧
      ∀ c,stored t.world c=true → t.slots c=(moveAssign junk dst src x).table.slots c := by
  obtain ⟨⟨held⟩,hthis⟩ := Option.ne_none_iff_exists'.mp hd
  obtain ⟨other,hother⟩ := Option.ne_none_iff_exists'.mp hs
  have hvalues : MoveOnlyHandle.moveAssign defaultDeleter dst src x.table=
      some ⟨Function.update (Function.update x.table.slots dst (some ⟨other.held⟩)) src
        (some ⟨none⟩),destruct defaultDeleter ⟨held⟩ x.table.world⟩ := by
    simp only [MoveOnlyHandle.moveAssign,hthis,hother,if_neg hne,assignFrom]
  refine ⟨_,hvalues,?_⟩
  cases held with
  | none =>
    rw [moveAssign_eq junk hne x (y := x.touch dst) (by rw [hthis]; rfl)]
    refine ⟨rfl,fun c _ => ?_⟩
    change _=Function.update (Function.update x.table.slots dst
      (some ⟨(x.table.slots src).bind Owner.held⟩)) src (some ⟨none⟩) c
    rw [hother]
    rfl
  | some p =>
    rw [moveAssign_eq junk hne x (y := (x.touch dst).delete junk p) (by rw [hthis]; rfl)]
    refine ⟨rfl,fun c hc => ?_⟩
    have hread : scribble p junk x.table.slots src=some other :=
      (scribble_outside (ha p hthis).1 junk x.table.slots).trans hother
    have hcell : scribble p junk x.table.slots c=x.table.slots c :=
      scribble_outside ((stored_delete p x.table.world c).mp hc).2 junk x.table.slots
    change Function.update (Function.update x.table.slots dst (some ⟨other.held⟩)) src
        (some ⟨none⟩) c=Function.update (Function.update (scribble p junk x.table.slots) dst
      (some ⟨(scribble p junk x.table.slots src).bind Owner.held⟩)) src (some ⟨none⟩) c
    rw [hread,Function.update_apply,Function.update_apply,Function.update_apply,
      Function.update_apply,hcell]
    rfl

/-- A list of so many nodes whose head is a variable; each node has the handle
of the next one. -/
def listHeap (n : ℕ) : Heap Unit where
  table := ⟨fun
    | .root _ => some ⟨if 0<n then some 0 else none⟩
    | .member i j => if i<n ∧ j=0 then some ⟨if i+1<n then some (i+1) else none⟩ else none,
    ⟨n,fun p => if p<n then some ⟨⟨[.unique],false⟩,0⟩ else none,fun _ => 0⟩⟩
  touched := false

/-- A list's handles own one another. -/
theorem listHeap_chained (n : ℕ) : Chained (listHeap n) := by
  have hroot : ∀ u p,(listHeap n).table.slots (.root u)=some ⟨some p⟩ → p=0 := by
    intro u p hp
    change some (⟨if 0<n then some 0 else none⟩ : UniquePtr)=some ⟨some p⟩ at hp
    split at hp
    · cases hp
      rfl
    · cases hp
  have hmember : ∀ i j p,(listHeap n).table.slots (.member i j)=some ⟨some p⟩ →
      p=i+1 ∧ j=0 := by
    intro i j p hp
    change (if i<n ∧ j=0 then some (⟨if i+1<n then some (i+1) else none⟩ : UniquePtr)
      else none)=some ⟨some p⟩ at hp
    split at hp
    · next hij =>
      split at hp
      · cases hp
        exact ⟨rfl,hij.2⟩
      · cases hp
    · cases hp
  refine ⟨?_,fun _ _ _ => rfl,?_,rfl⟩
  · intro c _
    cases c <;> rfl
  · intro c d p hc hd
    cases c with
    | root u =>
      cases d with
      | root v => rfl
      | member i j =>
        have hzero := hroot u p hc
        have hnext := (hmember i j p hd).1
        omega
    | member i j =>
      have hnext := hmember i j p hc
      cases d with
      | root v =>
        have hzero := hroot v p hd
        omega
      | member k l =>
        have hother := hmember k l p hd
        obtain rfl : i=k := by omega
        rw [hnext.2,hother.2]

/-- `head = move(head->next)` uses the freed node on every list that has one. -/
theorem pop_front_not_moved (n : ℕ) (junk : ℕ → UniquePtr) :
    ¬Moved (.root ()) (.member 0 0) (listHeap (n+1))
      (moveAssign junk (.root ()) (.member 0 0) (listHeap (n+1))) := by
  have hd : (listHeap (n+1)).table.slots (.root ())=some ⟨some 0⟩ := by
    change some (⟨if 0<n+1 then some 0 else none⟩ : UniquePtr)=_
    rw [if_pos (Nat.succ_pos n)]
  have hs : (listHeap (n+1)).table.slots (.member 0 0)≠none := by
    change (if 0<n+1 ∧ 0=0 then some (⟨if 0+1<n+1 then some (0+1) else none⟩ : UniquePtr)
      else none)≠none
    rw [if_pos ⟨Nat.succ_pos n,rfl⟩]
    exact Option.some_ne_none _
  have hne : (Cell.root () : Cell Unit)≠.member 0 0 := by decide
  rw [moved_iff_of_block (listHeap_chained (n+1)) junk hne hd hs]
  exact fun h => h.1 ⟨0,rfl⟩

/-- Unlinking the second node of three through the first one's handle. -/
theorem moved_iff_apart_unlink :
    Moved (.member 0 0) (.member 2 0) (listHeap 3)
        (moveAssign (fun _ => ⟨none⟩) (.member 0 0) (.member 2 0) (listHeap 3)) ↔
      Apart (.member 0 0) (.member 2 0) (listHeap 3) :=
  moved_iff_apart (listHeap_chained 3) (fun _ => ⟨none⟩) nofun nofun nofun

/-- A list of two nodes loses its second node when the first is popped and the
allocator clears the freed block. -/
theorem pop_front_loses_list :
    ¬Moved (.root ()) (.member 0 0) (listHeap 2)
        (moveAssign (fun _ => ⟨none⟩) (.root ()) (.member 0 0) (listHeap 2)) ∧
      (listHeap 2).table.slots (.member 0 0)=some ⟨some 1⟩ ∧
      (moveAssign (fun _ => ⟨none⟩) (.root ()) (.member 0 0)
        (listHeap 2)).table.slots (.root ())=some ⟨none⟩ ∧
      (moveAssign (fun _ => ⟨none⟩) (.root ()) (.member 0 0) (listHeap 2)).touched=true := by
  refine ⟨?_,rfl,rfl,rfl⟩
  intro h
  exact absurd h.untouched (by decide)

end Kpp.UniqueChains
