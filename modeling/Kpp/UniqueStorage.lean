import Kpp.StepRun
import Kpp.UniqueHandle

/-!
# Storage of blocks under free-standing UniquePtr handles

Handles are made by `make_unique`, moved, overwritten, asked to `release()`
their pointer and destroyed in any order. A block leaves its handle in one
of two ways: the caller of `release()` takes it, or the deleter does.
-/

namespace Kpp.UniqueStorage

open MoveOnlyHandle StepRun UniqueHandle

variable {H T : Type*}

/-- Handles over the slab, and the pointers handed to callers. -/
structure State (H T : Type*) where
  /-- Storage cells of the handles over the slab allocator. -/
  handles : Table H ℕ (Slab T)
  /-- How often `release()` returned each block. -/
  returned : ℕ → ℕ

/-- Operations on handles. -/
inductive Action (H T : Type*) where
  | makeUnique (h : H) (obj : T) (allocated : Bool)
  | wrapNull (h : H)
  | moveConstruct (dst src : H)
  | moveAssign (dst src : H)
  | release (h : H)
  | destroy (h : H)

section Steps
variable [DecidableEq H]

/-- `make_unique` into a raw cell. -/
def makeUniqueAt (h : H) (obj : T) (allocated : Bool) (t : Table H ℕ (Slab T)) :
    Option (Table H ℕ (Slab T)) :=
  let made := makeUnique obj allocated t.world
  construct h made.1 ⟨t.slots,made.2⟩

/-- `release()` on a live handle; a null pointer is nobody's block. -/
def releaseAt (h : H) (t : State H T) : Option (State H T) :=
  match t.handles.slots h with
  | some this =>
    let released := UniquePtr.release this
    some ⟨⟨Function.update t.handles.slots h (some released.2),t.handles.world⟩,
      fun p => t.returned p+if released.1=some p then 1 else 0⟩
  | none => none

/-- One operation. -/
def step (t : State H T) : Action H T → Option (State H T)
  | .makeUnique h obj allocated =>
    (makeUniqueAt h obj allocated t.handles).map (fun handles => {t with handles := handles})
  | .wrapNull h => (construct h ⟨none⟩ t.handles).map (fun handles => {t with handles := handles})
  | .moveConstruct dst src =>
    (moveConstruct dst src t.handles).map (fun handles => {t with handles := handles})
  | .moveAssign dst src =>
    (moveAssign defaultDeleter dst src t.handles).map (fun handles => {t with handles := handles})
  | .release h => releaseAt h t
  | .destroy h =>
    (destroy defaultDeleter h t.handles).map (fun handles => {t with handles := handles})

end Steps

/-- No handle and no block yet. -/
def start : State H T := ⟨⟨fun _ => none,Slab.empty⟩,fun _ => 0⟩

section Ledger
variable [Fintype H]

/-- Each block obtained so far is in one place, handles test true exactly on
blocks that are still theirs, and in the end only returned blocks remain. -/
structure Accounted (t : State H T) : Prop where
  /-- Held by exactly one handle, returned once, or deleted exactly once. -/
  place : ∀ p,p<t.handles.world.next →
    (holders t.handles.slots p=1 ∧ t.returned p=0 ∧ t.handles.world.frees p=0) ∨
    (holders t.handles.slots p=0 ∧ t.returned p=1 ∧ t.handles.world.frees p=0) ∨
    (holders t.handles.slots p=0 ∧ t.returned p=0 ∧ t.handles.world.frees p=1)
  /-- A handle tests true exactly when it holds a block, one that is still there. -/
  tests : ∀ h this,t.handles.slots h=some this →
    (UniquePtr.operatorBool this=true ↔ ∃ p,this.held=some p ∧ p<t.handles.world.next ∧
      t.returned p=0 ∧ t.handles.world.frees p=0)
  /-- Without handles the blocks never deleted are those returned. -/
  finished : (∀ h,t.handles.slots h=none) → ∀ p,
    (p<t.handles.world.next ∧ t.handles.world.frees p=0 ↔ t.returned p=1)

/-- Holders, returns and frees of each block add up to its one allocation. -/
def Ledger (t : State H T) : Prop :=
  ∀ p,holders t.handles.slots p+t.returned p+t.handles.world.frees p=
    if p<t.handles.world.next then 1 else 0

variable {t t' : State H T}

/-- The ledger accounts for every block. -/
theorem Ledger.accounted (hl : Ledger t) : Accounted t := by
  constructor
  · intro p hlt
    have hp := hl p
    rw [if_pos hlt] at hp
    omega
  · intro h this hs
    constructor
    · intro htest
      obtain ⟨p,hheld⟩ := Option.isSome_iff_exists.mp htest
      have hpos : 0<holders t.handles.slots p := by
        refine holders_pos (h := h) ?_
        rw [hs,←hheld]
      have hp := hl p
      split at hp
      · next hlt => exact ⟨p,hheld,hlt,by omega,by omega⟩
      · omega
    · rintro ⟨p,hheld,_⟩
      exact Option.isSome_iff_exists.mpr ⟨p,hheld⟩
  · intro hraw p
    have hp := hl p
    rw [holders_raw hraw p] at hp
    split at hp
    · next hlt => constructor <;> omega
    · next hge => constructor <;> omega

/-- Destroying a handle moves what it held from the holders to the frees. -/
theorem Ledger.drop (hl : Ledger t) (this : UniquePtr) {slots : H → Option UniquePtr}
    (hown : ∀ p,holders slots p+(if Holds p (some this) then 1 else 0)=holders t.handles.slots p) :
    Ledger ⟨⟨slots,destruct defaultDeleter this t.handles.world⟩,t.returned⟩ := by
  intro p
  have hp := hl p
  have hw := hown p
  cases this with
  | mk held =>
    cases held with
    | none =>
      have hnone : ¬Holds p (some (⟨none⟩ : UniquePtr)) := by
        simp only [Holds,Option.some.injEq,Owner.mk.injEq,reduceCtorEq,not_false_eq_true]
      rw [if_neg hnone] at hw
      change holders slots p+t.returned p+t.handles.world.frees p=
        if p<t.handles.world.next then 1 else 0
      omega
    | some q =>
      have hholds : Holds p (some (⟨some q⟩ : UniquePtr)) ↔ p=q := by
        simp only [Holds,Option.some.injEq,Owner.mk.injEq,eq_comm]
      have hfrees := kfree_frees q p t.handles.world
      rw [if_congr hholds rfl rfl] at hw
      change holders slots p+t.returned p+(kfree q t.handles.world).frees p=
        if p<t.handles.world.next then 1 else 0
      omega

variable [DecidableEq H]

/-- A new handle of `make_unique` enters with its block, or empty. -/
theorem Ledger.makeUnique (hl : Ledger t) {h : H} {obj : T} {allocated : Bool}
    {handles : Table H ℕ (Slab T)} (hmade : makeUniqueAt h obj allocated t.handles=some handles) :
    Ledger ⟨handles,t.returned⟩ := by
  obtain ⟨hraw,rfl⟩ := construct_cases hmade
  intro p
  have hp := hl p
  have hcell := holders_construct hraw (UniqueHandle.makeUnique obj allocated t.handles.world).1 p
  dsimp only at hcell ⊢
  rw [hcell]
  cases allocated with
  | false =>
    change holders t.handles.slots p+0+t.returned p+t.handles.world.frees p=
      if p<t.handles.world.next then 1 else 0
    omega
  | true =>
    change holders t.handles.slots p+(if some t.handles.world.next=some p then 1 else 0)+
      t.returned p+t.handles.world.frees p=if p<t.handles.world.next+1 then 1 else 0
    simp only [Option.some.injEq]
    split_ifs at hp ⊢ <;> omega

/-- Releasing a handle moves its block from the holders to the returns. -/
theorem Ledger.release (hl : Ledger t) {h : H} (hstep : releaseAt h t=some t') : Ledger t' := by
  cases hs : t.handles.slots h with
  | none => simp only [releaseAt,hs,reduceCtorEq] at hstep
  | some this =>
    simp only [releaseAt,hs,Option.some.injEq] at hstep
    subst hstep
    intro p
    have hp := hl p
    have hcell := PointUpdate.countCells_update (Holds p) t.handles.slots h
      (some (UniquePtr.release this).2)
    have hempty : ¬Holds p (some (UniquePtr.release this).2) := by
      simp only [Holds,UniquePtr.release,Option.some.injEq,Owner.mk.injEq,reduceCtorEq,
        not_false_eq_true]
    have hheld : Holds p (t.handles.slots h) ↔ (UniquePtr.release this).1=some p := by
      obtain ⟨held⟩ := this
      simp only [hs,Holds,UniquePtr.release,Option.some.injEq,Owner.mk.injEq]
    rw [if_neg hempty,if_congr hheld rfl rfl] at hcell
    dsimp only [holders] at hp hcell ⊢
    omega

/-- Every operation keeps the ledger. -/
theorem step_ledger {a : Action H T} (hl : Ledger t) (h : step t a=some t') : Ledger t' := by
  cases a with
  | makeUnique cell obj allocated =>
    obtain ⟨handles,hmade,rfl⟩ := Option.map_eq_some_iff.mp h
    exact hl.makeUnique hmade
  | wrapNull cell =>
    obtain ⟨handles,hmade,rfl⟩ := Option.map_eq_some_iff.mp h
    obtain ⟨hraw,rfl⟩ := construct_cases hmade
    intro p
    have hp := hl p
    have hcell := holders_construct hraw (⟨none⟩ : UniquePtr) p
    simp only [reduceCtorEq,if_false] at hcell
    dsimp only
    omega
  | moveConstruct dst src =>
    obtain ⟨handles,hmoved,rfl⟩ := Option.map_eq_some_iff.mp h
    obtain ⟨other,hraw,hs,hne,rfl⟩ := moveConstruct_cases hmoved
    intro p
    have hp := hl p
    have hcell := holders_move hne hs p
    rw [hraw,if_neg nofun] at hcell
    dsimp only
    omega
  | moveAssign dst src =>
    obtain ⟨handles,hmoved,rfl⟩ := Option.map_eq_some_iff.mp h
    obtain ⟨this,other,hd,hs,⟨_,rfl⟩|⟨hne,rfl⟩⟩ := moveAssign_cases hmoved
    · exact hl
    · refine hl.drop this (fun p => ?_)
      have hcell := holders_move hne hs p
      rw [hd] at hcell
      exact hcell
  | release cell => exact hl.release h
  | destroy cell =>
    obtain ⟨handles,hdestroyed,rfl⟩ := Option.map_eq_some_iff.mp h
    obtain ⟨this,hs,rfl⟩ := destroy_cases hdestroyed
    refine hl.drop this (fun p => ?_)
    have hcell := holders_destroy t.handles.slots cell p
    rw [hs] at hcell
    exact hcell

/-- UniquePtr ownership of storage. In every state of every run of handle
operations each block is held by one handle, was returned once, or was
deleted once. -/
theorem storage_accounted (actions : List (Action H T)) :
    Along step Accounted start actions := by
  have hstart : Ledger (start : State H T) := by
    intro p
    have hraw : holders (start : State H T).handles.slots p=0 := holders_raw (fun _ => rfl) p
    rw [hraw]
    rfl
  exact along_of_preserved (I := Ledger) (fun hl => hl.accounted)
    (fun hl h => step_ledger hl h) hstart

end Ledger

end Kpp.UniqueStorage
