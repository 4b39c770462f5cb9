import Mathlib.Data.Nat.Notation
import Mathlib.Logic.Function.Basic
import Mathlib.Tactic.Common

/-!
# Lives of numbered objects

Objects get numbers when they are constructed and are counted when their
destructor runs. Storage cells hold at most one live object each. A ledger
is kept when the objects that were not destroyed are exactly those in cells.
-/

namespace Kpp.ObjectLives

/-- Objects constructed so far, and how often each was destroyed. -/
structure Lives where
  /-- Number of the next object. -/
  next : ℕ
  /-- Destructor calls for each object. -/
  ends : ℕ → ℕ
  /-- Something that is not alive was used as an object. -/
  misused : Bool
  /-- Storage was given up with an object in it that was not destroyed. -/
  lost : Bool

/-- No objects yet. -/
def Lives.start : Lives := ⟨0,fun _ => 0,false,false⟩

/-- An object is constructed; its number is `next`. -/
def Lives.begin (l : Lives) : Lives := {l with next := l.next+1}

/-- The destructor of an object runs. -/
def Lives.finish (id : ℕ) (l : Lives) : Lives :=
  {l with ends := Function.update l.ends id (l.ends id+1)}

/-- Storage without an object is used as one. -/
def Lives.misuse (l : Lives) : Lives := {l with misused := true}

/-- Storage of a live object is given up without its destructor. -/
def Lives.lose (l : Lives) : Lives := {l with lost := true}

/-- Something went wrong, and stays so. -/
def Lives.Spoiled (l : Lives) : Prop := l.misused=true ∨ l.lost=true

variable {H : Type*} {held : H → Option ℕ} {l : Lives}

/-- The objects in cells are those that are alive, and all others that were
constructed have been destroyed once. -/
structure Kept (held : H → Option ℕ) (l : Lives) : Prop where
  /-- An object in a cell was constructed and not destroyed. -/
  alive : ∀ h id,held h=some id → id<l.next ∧ l.ends id=0
  /-- It is in one cell. -/
  unique : ∀ h h' id,held h=some id → held h'=some id → h=h'
  /-- An object that is in no cell was destroyed once. -/
  ended : ∀ id,id<l.next → (∀ h,held h≠some id) → l.ends id=1
  /-- Later objects were not destroyed yet. -/
  later : ∀ id,l.next≤ id → l.ends id=0
  /-- Only live objects were used. -/
  proper : l.misused=false
  /-- No live object lost its storage. -/
  whole : l.lost=false

/-- Empty cells keep the empty ledger. -/
theorem kept_start : Kept (fun _ : H => none) Lives.start :=
  ⟨nofun,nofun,fun id hid => absurd hid (Nat.not_lt_zero id),fun _ _ => rfl,rfl,rfl⟩

variable [DecidableEq H]

/-- A new object goes into an empty cell. -/
theorem Kept.begin (hk : Kept held l) {h : H} (hraw : held h=none) :
    Kept (Function.update held h (some l.next)) l.begin := by
  have hcases : ∀ h' id,Function.update held h (some l.next) h'=some id →
      (h'=h ∧ id=l.next) ∨ (h'≠h ∧ held h'=some id) := by
    intro h' id hid
    by_cases he : h'=h
    · subst he
      rw [Function.update_self] at hid
      exact Or.inl ⟨rfl,(Option.some.inj hid).symm⟩
    · rw [Function.update_of_ne he] at hid
      exact Or.inr ⟨he,hid⟩
  refine ⟨?_,?_,?_,?_,hk.proper,hk.whole⟩
  · intro h' id hid
    rcases hcases h' id hid with ⟨_,rfl⟩ | ⟨_,hold⟩
    · exact ⟨Nat.lt_succ_self _,hk.later _ (Nat.le_refl _)⟩
    · have halive := hk.alive h' id hold
      exact ⟨Nat.lt_succ_of_lt halive.1,halive.2⟩
  · intro a b id ha hb
    rcases hcases a id ha with ⟨ea,hnew⟩ | ⟨_,ha⟩
    · rcases hcases b id hb with ⟨eb,_⟩ | ⟨_,hb⟩
      · exact ea.trans eb.symm
      · have halive := (hk.alive b id hb).1
        omega
    · rcases hcases b id hb with ⟨_,hnew⟩ | ⟨_,hb⟩
      · have halive := (hk.alive a id ha).1
        omega
      · exact hk.unique a b id ha hb
  · intro id hid hgone
    change id<l.next+1 at hid
    have hold : id≠l.next := by
      rintro rfl
      exact hgone h (Function.update_self _ _ _)
    refine hk.ended id (by omega) (fun h' hh => hgone h' ?_)
    have hne : h'≠h := by
      rintro rfl
      rw [hraw] at hh
      cases hh
    rw [Function.update_of_ne hne]
    exact hh
  · intro id hid
    change l.next+1≤ id at hid
    exact hk.later id (by omega)

/-- The destructor of an object in a cell empties the cell. -/
theorem Kept.finish (hk : Kept held l) {h : H} {id : ℕ} (hheld : held h=some id) :
    Kept (Function.update held h none) (l.finish id) := by
  have halive := hk.alive h id hheld
  have hcases : ∀ h' id',Function.update held h none h'=some id' → held h'=some id' ∧ id'≠id := by
    intro h' id' hid
    have hne : h'≠h := by
      rintro rfl
      rw [Function.update_self] at hid
      cases hid
    rw [Function.update_of_ne hne] at hid
    refine ⟨hid,?_⟩
    rintro rfl
    exact hne (hk.unique h' h id' hid hheld)
  have hother : ∀ id',id'≠id → (l.finish id).ends id'=l.ends id' :=
    fun id' hne => Function.update_of_ne hne _ _
  refine ⟨?_,?_,?_,?_,hk.proper,hk.whole⟩
  · intro h' id' hid
    have hold := hcases h' id' hid
    rw [hother id' hold.2]
    exact hk.alive h' id' hold.1
  · intro a b id' ha hb
    exact hk.unique a b id' (hcases a id' ha).1 (hcases b id' hb).1
  · intro id' hid hgone
    by_cases he : id'=id
    · subst he
      change Function.update l.ends id' (l.ends id'+1) id'=1
      rw [Function.update_self,halive.2]
    · rw [hother id' he]
      refine hk.ended id' hid (fun h' hh => hgone h' ?_)
      have hne : h'≠h := by
        rintro rfl
        rw [hheld] at hh
        exact he (Option.some.inj hh).symm
      rw [Function.update_of_ne hne]
      exact hh
  · intro id' hid
    change l.next≤ id' at hid
    have hlt := halive.1
    rw [hother id' (by omega)]
    exact hk.later id' hid

end Kpp.ObjectLives
