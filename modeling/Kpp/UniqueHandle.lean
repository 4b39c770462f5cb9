import Kpp.MoveOnlyHandle

/-!
# UniquePtr, its default deleter and make_unique

`make_unique` takes storage from the slab allocator and constructs an
object in it; `DefaultDeleter` hands the storage to `kfree` and does
nothing else. The slab remembers what was constructed at each address and
how often the address was freed.
-/

namespace Kpp.UniqueHandle

open MoveOnlyHandle

/-- Slab allocator with objects of one kind of record. -/
structure Slab (T : Type*) where
  /-- Next address `kmalloc` returns. -/
  next : ℕ
  /-- Object constructed at each address. -/
  object : ℕ → Option T
  /-- How often each address was passed to `kfree`. -/
  frees : ℕ → ℕ

variable {T : Type*}

/-- Nothing allocated yet. -/
def Slab.empty : Slab T := ⟨0,fun _ => none,fun _ => 0⟩

/-- A successful `kmalloc` followed by placement new. -/
def Slab.construct (obj : T) (w : Slab T) : Slab T :=
  {w with next := w.next+1,object := Function.update w.object w.next (some obj)}

/-- Overwrite the object at an address. -/
def Slab.write (p : ℕ) (obj : T) (w : Slab T) : Slab T :=
  {w with object := Function.update w.object p (some obj)}

/-- `kpp::kfree`. -/
def kfree (ptr : ℕ) (w : Slab T) : Slab T :=
  {w with frees := Function.update w.frees ptr (w.frees ptr+1)}

/-- `DefaultDeleter::operator()`. -/
def defaultDeleter (ptr : ℕ) (w : Slab T) : Slab T := kfree ptr w

/-- `UniquePtr` with its pointer `ptr_`; the deleter has no state. -/
abbrev UniquePtr := Owner ℕ

/-- `~UniquePtr()`. -/
def UniquePtr.destruct (this : UniquePtr) (w : Slab T) : Slab T :=
  MoveOnlyHandle.destruct defaultDeleter this w

/-- `UniquePtr::release`: the pointer, and the emptied handle. -/
def UniquePtr.release (this : UniquePtr) : Option ℕ×UniquePtr := (this.held,⟨none⟩)

/-- `UniquePtr::operator bool`. -/
def UniquePtr.operatorBool (this : UniquePtr) : Bool := this.held.isSome

/-- `make_unique`, with the outcome of its allocation. -/
def makeUnique (obj : T) (allocated : Bool) (w : Slab T) : UniquePtr×Slab T :=
  if allocated=true then (⟨some w.next⟩,w.construct obj) else (⟨none⟩,w)

/-- Addresses handed out hold objects, and the others were never freed. -/
structure Slab.Sane (w : Slab T) : Prop where
  /-- An object is at every address handed out. -/
  made : ∀ p,p<w.next → ∃ obj,w.object p=some obj
  /-- There is none elsewhere. -/
  unmade : ∀ p,w.next≤p → w.object p=none ∧ w.frees p=0

/-- The empty slab is sane. -/
theorem Slab.empty_sane : (Slab.empty : Slab T).Sane :=
  ⟨fun p hp => absurd hp (Nat.not_lt_zero p),fun _ _ => ⟨rfl,rfl⟩⟩

/-- An object at an address means that the address was handed out. -/
theorem Slab.Sane.lt {w : Slab T} (hw : w.Sane) {p : ℕ} {obj : T} (ho : w.object p=some obj) :
    p<w.next := by
  by_contra hge
  have hnone := (hw.unmade p (not_lt.mp hge)).1
  rw [ho] at hnone
  cases hnone

/-- Construction keeps the slab sane. -/
theorem Slab.Sane.construct {w : Slab T} (hw : w.Sane) (obj : T) : (w.construct obj).Sane := by
  constructor
  · intro p hp
    change p<w.next+1 at hp
    by_cases he : p=w.next
    · subst he
      exact ⟨obj,Function.update_self _ _ _⟩
    · obtain ⟨old,hold⟩ := hw.made p (by omega)
      refine ⟨old,?_⟩
      dsimp only [Slab.construct]
      rw [Function.update_of_ne he]
      exact hold
  · intro p hp
    change w.next+1≤p at hp
    have he : p≠w.next := by omega
    dsimp only [Slab.construct]
    rw [Function.update_of_ne he]
    exact hw.unmade p (by omega)

/-- Overwriting an object keeps the slab sane. -/
theorem Slab.Sane.write {w : Slab T} (hw : w.Sane) {p : ℕ} (hp : p<w.next) (obj : T) :
    (w.write p obj).Sane := by
  constructor
  · intro q hq
    by_cases he : q=p
    · subst he
      exact ⟨obj,Function.update_self _ _ _⟩
    · obtain ⟨old,hold⟩ := hw.made q hq
      refine ⟨old,?_⟩
      dsimp only [Slab.write]
      rw [Function.update_of_ne he]
      exact hold
  · intro q hq
    have he : q≠p := fun he => Nat.lt_irrefl p (Nat.lt_of_lt_of_le hp (he ▸ hq))
    dsimp only [Slab.write]
    rw [Function.update_of_ne he]
    exact hw.unmade q hq

/-- Freeing an address that was handed out keeps the slab sane. -/
theorem Slab.Sane.kfree {w : Slab T} (hw : w.Sane) {p : ℕ} (hp : p<w.next) :
    (kfree p w).Sane := by
  refine ⟨hw.made,?_⟩
  intro q hq
  change w.next≤q at hq
  have he : q≠p := by omega
  dsimp only [UniqueHandle.kfree]
  rw [Function.update_of_ne he]
  exact hw.unmade q hq

/-- A new object is at the next address and the others stay. -/
theorem Slab.construct_object (obj : T) (w : Slab T) (p : ℕ) :
    (w.construct obj).object p=if p=w.next then some obj else w.object p := by
  dsimp only [Slab.construct]
  rw [Function.update_apply]

/-- An overwritten object is at its address and the others stay. -/
theorem Slab.write_object (p : ℕ) (obj : T) (w : Slab T) (q : ℕ) :
    (w.write p obj).object q=if q=p then some obj else w.object q := by
  dsimp only [Slab.write]
  rw [Function.update_apply]

/-- The block at the address is allocated and was not freed. -/
def Slab.Live (w : Slab T) (p : ℕ) : Prop := p<w.next ∧ w.frees p=0

/-- `make_unique` keeps the slab sane. -/
theorem Slab.Sane.makeUnique {w : Slab T} (hw : w.Sane) (obj : T) (allocated : Bool) :
    (makeUnique obj allocated w).2.Sane := by
  cases allocated with
  | true => exact hw.construct obj
  | false => exact hw

/-- Blocks stay allocated through a `make_unique`. -/
theorem Slab.Live.makeUnique {w : Slab T} {p : ℕ} (hp : w.Live p) (obj : T) (allocated : Bool) :
    (makeUnique obj allocated w).2.Live p := by
  cases allocated with
  | true => exact ⟨Nat.lt_succ_of_lt hp.1,hp.2⟩
  | false => exact hp

/-- A successful `make_unique` allocates a block that was not there. -/
theorem Slab.Sane.live_new {w : Slab T} (hw : w.Sane) (obj : T) :
    (UniqueHandle.makeUnique obj true w).2.Live w.next ∧ ¬w.Live w.next :=
  ⟨⟨Nat.lt_succ_self _,(hw.unmade w.next (le_refl _)).2⟩,fun h => Nat.lt_irrefl _ h.1⟩

/-- Freeing counts at its address only. -/
theorem kfree_frees (p q : ℕ) (w : Slab T) :
    (kfree p w).frees q=w.frees q+if q=p then 1 else 0 := by
  dsimp only [kfree]
  rw [Function.update_apply]
  split
  · next he => rw [he]
  · rfl

end Kpp.UniqueHandle
