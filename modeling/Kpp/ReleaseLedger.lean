import Mathlib.Data.Nat.Basic
import Mathlib.Logic.Function.Basic
import Mathlib.Tactic.Common

/-!
# Reference drops against owners

Every resource has a reference count, a count of how often it was freed,
and a flag for drops made after the last reference was gone. A ledger sets
this state against an owner count kept elsewhere. It is balanced while each
reference has its owner. It is overdrawn once some resource has more
owners and frees than references were ever given out, and it stays so.
-/

namespace Kpp.ReleaseLedger

variable {P : Type*}

/-- Reference count of one resource with its history. -/
structure Counted where
  /-- References outstanding; the last drop frees the resource. -/
  users : ℕ
  /-- How often the resource was handed to the allocator. -/
  frees : ℕ
  /-- A reference was dropped when none was left. -/
  stale : Bool
  deriving DecidableEq

/-- A resource that was never handed out. -/
def fresh : Counted := ⟨0,0,false⟩

/-- Drop one reference; dropping without a reference frees the resource again. -/
def Counted.put (c : Counted) : Counted :=
  match c.users with
  | 0 => ⟨0,c.frees+1,true⟩
  | 1 => ⟨0,c.frees+1,c.stale⟩
  | n+2 => ⟨n+1,c.frees,c.stale⟩

/-- Dropping the only reference frees the resource once more. -/
theorem put_last {c : Counted} (h : c.users=1) : c.put=⟨0,c.frees+1,c.stale⟩ := by
  simp only [Counted.put,h]

/-- With at most one reference every drop leaves none and frees. -/
theorem put_sole {c : Counted} (h : c.users≤1) : c.put.users=0 ∧ c.put.frees=c.frees+1 := by
  obtain hu|hu : c.users=0 ∨ c.users=1 := by omega
  · simp only [Counted.put,hu,and_self]
  · simp only [Counted.put,hu,and_self]

/-- No resource has more than one reference. -/
def Sole (w : P → Counted) : Prop := ∀ p,(w p).users≤1

/-- Each reference has its owner, and no resource was freed under an owner. -/
def Balanced (own : P → ℕ) (w : P → Counted) : Prop :=
  ∀ p,(w p).stale=false ∧ (w p).users=own p ∧ own p+(w p).frees≤1

/-- Some resource has more owners and frees than its single reference allows. -/
def Overdrawn (own : P → ℕ) (w : P → Counted) : Prop := Sole w ∧ ∃ p,2≤own p+(w p).frees

/-- Every resource handed out was freed exactly once and not dropped after. -/
def FreedOnce (w : P → Counted) : Prop :=
  ∀ p,w p≠fresh → (w p).frees=1 ∧ (w p).stale=false

/-- No resource was freed twice or dropped after it was freed. -/
def Unharmed (w : P → Counted) : Prop := ∀ p,(w p).frees≤1 ∧ (w p).stale=false

section Balances
variable {own own' : P → ℕ} {w : P → Counted} {p : P}

/-- At most one reference is out in a balanced ledger. -/
theorem Balanced.sole (hb : Balanced own w) : Sole w := by
  intro p
  obtain ⟨_,hu,hf⟩ := hb p
  omega

/-- A balanced ledger has no double free behind it. -/
theorem Balanced.unharmed (hb : Balanced own w) : Unharmed w := by
  intro p
  obtain ⟨hs,_,hf⟩ := hb p
  exact ⟨by omega,hs⟩

/-- Nothing handed out yet, nobody owns anything. -/
theorem balanced_fresh : Balanced (fun _ => 0) (fun _ : P => fresh) :=
  fun _ => ⟨rfl,rfl,Nat.zero_le _⟩

/-- Owner counts may be replaced by equal ones. -/
theorem Balanced.congr (hb : Balanced own w) (h : ∀ q,own' q=own q) : Balanced own' w := by
  obtain rfl : own'=own := funext h
  exact hb

/-- An overdrawn ledger stays so when owners are only added. -/
theorem Overdrawn.mono (ho : Overdrawn own w) (h : ∀ q,own q≤own' q) : Overdrawn own' w := by
  obtain ⟨hs,q,hq⟩ := ho
  exact ⟨hs,q,le_trans hq (Nat.add_le_add_right (h q) _)⟩

/-- A balanced ledger without owners has freed each resource exactly once. -/
theorem Balanced.freedOnce (hb : Balanced own w) (hz : ∀ p,own p=0) : FreedOnce w := by
  intro p hp
  obtain ⟨hs,hu,hf⟩ := hb p
  rw [hz p] at hu hf
  refine ⟨?_,hs⟩
  by_contra hne
  have hfz : (w p).frees=0 := by omega
  refine hp ?_
  calc w p=⟨(w p).users,(w p).frees,(w p).stale⟩ := rfl
    _=fresh := by rw [hu,hfz,hs]; rfl

/-- An overdrawn ledger without owners has freed some resource more than once. -/
theorem Overdrawn.not_freedOnce (ho : Overdrawn own w) (hz : ∀ p,own p=0) : ¬FreedOnce w := by
  obtain ⟨_,p,hp⟩ := ho
  intro hf
  rw [hz p] at hp
  have hne : w p≠fresh := by
    intro he
    rw [he] at hp
    simp only [fresh] at hp
    omega
  have hone := (hf p hne).1
  omega

end Balances

section Drops
variable [DecidableEq P] {own own' : P → ℕ} {w : P → Counted} {p : P}

/-- Drop one reference of a resource. -/
def put (p : P) (w : P → Counted) : P → Counted := Function.update w p (w p).put

/-- Use a resource; the use is flagged when no reference is left. -/
def touch (p : P) (w : P → Counted) : P → Counted :=
  Function.update w p {w p with stale := (w p).stale || (w p).users==0}

/-- Hand out a resource with a single reference. -/
def give (p : P) (w : P → Counted) : P → Counted := Function.update w p ⟨1,0,false⟩

/-- A new resource enters with its single owner. -/
theorem Balanced.give (hb : Balanced own w) (hp : w p=fresh)
    (h : ∀ q,own' q=own q+if q=p then 1 else 0) : Balanced own' (give p w) := by
  intro q
  obtain ⟨hs,hu,hf⟩ := hb q
  have hq := h q
  by_cases he : q=p
  · subst he
    rw [if_pos rfl] at hq
    rw [hp] at hu
    have hz : own q=0 := hu.symm
    simp only [ReleaseLedger.give,Function.update_self]
    exact ⟨trivial,by omega,by omega⟩
  · rw [if_neg he] at hq
    simp only [ReleaseLedger.give,Function.update_of_ne he]
    exact ⟨hs,by omega,by omega⟩

/-- An owner that drops its reference and forgets it keeps the balance. -/
theorem Balanced.put (hb : Balanced own w)
    (h : ∀ q,own' q+(if q=p then 1 else 0)=own q) : Balanced own' (put p w) := by
  intro q
  obtain ⟨hs,hu,hf⟩ := hb q
  have hq := h q
  by_cases he : q=p
  · subst he
    rw [if_pos rfl] at hq
    have hone : (w q).users=1 := by omega
    simp only [ReleaseLedger.put,Function.update_self,put_last hone]
    exact ⟨hs,by omega,by omega⟩
  · rw [if_neg he] at hq
    simp only [ReleaseLedger.put,Function.update_of_ne he]
    exact ⟨hs,by omega,by omega⟩

/-- Dropping keeps at most one reference per resource. -/
theorem Sole.put (hs : Sole w) : Sole (put p w) := by
  intro q
  by_cases he : q=p
  · subst he
    simp only [ReleaseLedger.put,Function.update_self,(put_sole (hs q)).1,Nat.zero_le]
  · simp only [ReleaseLedger.put,Function.update_of_ne he]
    exact hs q

/-- Handing out keeps at most one reference per resource. -/
theorem Sole.give (hs : Sole w) : Sole (give p w) := by
  intro q
  by_cases he : q=p
  · subst he
    simp only [ReleaseLedger.give,Function.update_self,le_refl]
  · simp only [ReleaseLedger.give,Function.update_of_ne he]
    exact hs q

/-- A drop frees exactly the resource it names. -/
theorem put_frees (hs : Sole w) (q : P) :
    (put p w q).frees=(w q).frees+if q=p then 1 else 0 := by
  by_cases he : q=p
  · subst he
    simp only [ReleaseLedger.put,Function.update_self,(put_sole (hs q)).2,if_true]
  · simp only [ReleaseLedger.put,Function.update_of_ne he,if_neg he,Nat.add_zero]

/-- Dropping a reference that stays owned overdraws the ledger. -/
theorem Balanced.overdrawn_put (hb : Balanced own w) (hp : 0<own p)
    (h : own p≤own' p) : Overdrawn own' (ReleaseLedger.put p w) := by
  refine ⟨hb.sole.put,p,?_⟩
  rw [put_frees hb.sole p,if_pos rfl]
  omega

/-- Using an owned resource leaves a balanced ledger as it was. -/
theorem Balanced.touch (hb : Balanced own w) (hp : 0<own p) : ReleaseLedger.touch p w=w := by
  obtain ⟨hs,hu,_⟩ := hb p
  have hone : ((w p).users==0)=false := by
    rw [beq_eq_false_iff_ne]
    omega
  rw [ReleaseLedger.touch,hone,hs,Bool.or_false,←hs]
  exact Function.update_eq_self p w

/-- Uses never settle an overdrawn ledger. -/
theorem Overdrawn.touch (ho : Overdrawn own w) : Overdrawn own (ReleaseLedger.touch p w) := by
  obtain ⟨hs,q,hq⟩ := ho
  have hsame : ∀ r,(ReleaseLedger.touch p w r).users=(w r).users ∧
      (ReleaseLedger.touch p w r).frees=(w r).frees := by
    intro r
    by_cases he : r=p
    · subst he
      simp only [ReleaseLedger.touch,Function.update_self,and_self]
    · simp only [ReleaseLedger.touch,Function.update_of_ne he,and_self]
  refine ⟨fun r => (hsame r).1 ▸ hs r,q,?_⟩
  rw [(hsame q).2]
  exact hq

/-- An overdrawn ledger stays so when a drop gives up at most its own owner. -/
theorem Overdrawn.put (ho : Overdrawn own w)
    (h : ∀ q,own q≤own' q+if q=p then 1 else 0) : Overdrawn own' (put p w) := by
  obtain ⟨hs,q,hq⟩ := ho
  refine ⟨hs.put,q,?_⟩
  rw [put_frees hs q]
  have hle := h q
  omega

/-- An overdrawn ledger stays so when a fresh resource is handed out. -/
theorem Overdrawn.give (ho : Overdrawn own w) (hp : w p=fresh)
    (h : ∀ q,own q≤own' q) : Overdrawn own' (give p w) := by
  obtain ⟨hs,q,hq⟩ := ho
  refine ⟨hs.give,q,?_⟩
  have hle := h q
  by_cases he : q=p
  · subst he
    rw [hp] at hq
    simp only [fresh] at hq
    omega
  · simp only [ReleaseLedger.give,Function.update_of_ne he]
    omega

end Drops


end Kpp.ReleaseLedger
