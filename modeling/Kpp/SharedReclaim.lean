import Kpp.SharedRelease
import Mathlib.Data.Fin.VecNotation

/-!
# Destroying a root reclaims what only it reached

In an acyclic heap with correct counts, the destructor of a root handle
destroys and frees exactly the objects that the other roots do not reach, and
leaves a heap of the others with correct counts.
-/

namespace Kpp.SharedReclaim

open CountAccounts CountedGraph KernelAtomic PointUpdate SharedHandle SharedHeap SharedCascade
  SharedRelease

variable {L B : Type*}

section Depth

/-- A fold keeps its result when its steps are defined more often. -/
theorem foldlM_mono {σ α : Type*} {F G : σ → α → Option σ}
    (h : ∀ s a t,F s a=some t → G s a=some t) {xs : List α} {s t : σ}
    (hs : xs.foldlM F s=some t) : xs.foldlM G s=some t := by
  induction xs generalizing s with
  | nil => exact hs
  | cons a xs ih =>
    rw [List.foldlM_cons] at hs ⊢
    obtain ⟨u,hu,hrest⟩ := Option.bind_eq_some_iff.mp hs
    exact Option.bind_eq_some_iff.mpr ⟨u,h s a u hu,ih hrest⟩

variable [DecidableEq L] [DecidableEq B] {lay : Layout L B} {m n : ℕ} {l : L} {s t : Heap L B}

/-- A release that ends at some depth ends the same way at the next. -/
theorem release_succ (h : release lay n l s=some t) : release lay (n+1) l s=some t := by
  induction n generalizing l s t with
  | zero => cases h
  | succ n ih =>
    unfold release at h ⊢
    dsimp only at h ⊢
    cases hcell : cellOf (access lay l s).slots l with
    | none =>
      rw [hcell] at h
      exact h
    | some b =>
      rw [hcell] at h
      dsimp only at h ⊢
      by_cases hlast : (atomicDecAndTest ((access lay l s).count b)).2=true
      · rw [if_pos hlast] at h ⊢
        split at h
        · exact h
        · obtain ⟨u,hu,hfree⟩ := Option.map_eq_some_iff.mp h
          refine Option.map_eq_some_iff.mpr ⟨u,foldlM_mono ?_ hu,hfree⟩
          intro v f w hw
          obtain ⟨x,hx,hput⟩ := Option.map_eq_some_iff.mp hw
          exact Option.map_eq_some_iff.mpr ⟨x,ih hx,hput⟩
      · rw [if_neg hlast] at h ⊢
        exact h

/-- The result of a destructor does not depend on the depth allowed for it. -/
theorem destroyHandle_mono (hmn : m≤n) (h : destroyHandle lay m l s=some t) :
    destroyHandle lay n l s=some t := by
  obtain ⟨u,hu,hput⟩ := Option.map_eq_some_iff.mp h
  refine Option.map_eq_some_iff.mpr ⟨u,?_,hput⟩
  induction n,hmn using Nat.le_induction with
  | base => exact hu
  | succ n _ ih => exact release_succ ih

end Depth

section Reclaim
variable [Fintype L] [DecidableEq L] [DecidableEq B]

/-- From `s` to `t` the root handle `l` was destroyed, and with it all that only it reached. -/
structure Reclaimed (lay : Layout L B) (l : L) (s t : Heap L B) : Prop where
  /-- Nothing was broken. -/
  sound : t.fault=false
  /-- What the other roots do not reach is destroyed and freed, each once. -/
  reclaimed : ∀ b,¬Reached lay.home (cellOf s.slots) l b → t.destroyed b=1 ∧ t.freed b=1
  /-- What they reach is neither. -/
  survives : ∀ b,Reached lay.home (cellOf s.slots) l b → t.destroyed b=0 ∧ t.freed b=0
  /-- The fields of reclaimed objects are destroyed. -/
  emptied : ∀ f b,lay.home f=some b → ¬Reached lay.home (cellOf s.slots) l b → t.slots f=none
  /-- Those of the others are untouched. -/
  untouched : ∀ f b,lay.home f=some b → Reached lay.home (cellOf s.slots) l b →
    t.slots f=s.slots f
  /-- The root is destroyed. -/
  removed : t.slots l=none
  /-- Other roots are untouched. -/
  roots : ∀ r,lay.home r=none → r≠l → t.slots r=s.slots r
  /-- Counts of the blocks that are left are the numbers of handles on them. -/
  counted : ∀ b,Reached lay.home (cellOf s.slots) l b →
    atomicRead (t.count b)=handlesOn t.slots b

variable [Fintype B] {lay : Layout L B} {s : Heap L B} {l : L}

/-- Destroying a root handle of an acyclic heap with correct counts ends, at
every sufficient depth in the same state, and reclaims what only it reached. -/
theorem destroy_root_reclaims (hw : WellCounted lay s)
    (hacyclic : Acyclic lay.home (cellOf s.slots)) (hheld : ∀ b,0<handlesOn s.slots b)
    (hroot : lay.home l=none) (hslot : s.slots l≠none) :
    ∃ t,(∀ n,depth B≤n → destroyHandle lay n l s=some t) ∧ Reclaimed lay l s t := by
  have hstays : ∀ r,lay.home r=none → Stays lay s.slots l r := by
    intro r hr h hh
    rw [hr] at hh
    cases hh
  obtain ⟨t,ht,hsettled,_⟩ := release_spec hw hslot
  have hs := hsettled (hstays l hroot)
  have hnamed : ∀ b,∃ l,cellOf s.slots l=some b := by
    intro b
    have hpos := hheld b
    rw [←counted_nil] at hpos
    obtain ⟨l',_,hl'⟩ := exists_of_counted_pos hpos
    exact ⟨l',hl'⟩
  have hdropped : ∀ b,Dropped lay.home (cellOf s.slots) l b ↔
      ¬Reached lay.home (cellOf s.slots) l b := dropped_iff_not_reached hacyclic hnamed
  have hkept : ∀ {b},Reached lay.home (cellOf s.slots) l b →
      ¬Dropped lay.home (cellOf s.slots) l b := fun hr => hr.not_dropped
  have hother : ∀ f,f≠l → (put l none t).slots f=t.slots f :=
    fun f hf => Function.update_of_ne hf _ _
  have hfield : ∀ {f b},lay.home f=some b → f≠l := by
    rintro f b hf rfl
    rw [hroot] at hf
    cases hf
  refine ⟨put l none t,?_,?_⟩
  · intro n hn
    refine destroyHandle_mono hn ?_
    rw [destroyHandle,ht,Option.map_some]
  · refine ⟨hs.cascade.sound,?_,fun b hr => hs.alive (hkept hr),?_,?_,
      Function.update_self _ _ _,?_,?_⟩
    · intro b hr
      have hd := hs.complete b ((hdropped b).mpr hr)
      exact ⟨hd,(hs.finished b).trans hd⟩
    · intro f b hf hr
      rw [hother f (hfield hf)]
      exact hs.slot_gone (fun hst => hst b hf ((hdropped b).mpr hr))
    · intro f b hf hr
      rw [hother f (hfield hf)]
      refine hs.slot_stays ?_
      intro h hh
      rw [hf] at hh
      cases hh
      exact hkept hr
    · intro r hr hne
      rw [hother r hne]
      exact hs.slot_stays (hstays r hr)
    · intro b hr
      have hcount : counted t.slots [l] b=handlesOn (put l none t).slots b := by
        rw [←counted_clear List.mem_cons_self,counted_forget (Function.update_self _ _ _),
          counted_nil]
        rfl
      have hlive := (hs.alive (hkept hr)).1
      rw [←hcount]
      change atomicRead (t.count b)=_
      rw [hs.cascade.count b hlive,atomicRead_ofNat (count_lt hw hs.cascade b)]

end Reclaim

/-- An object with two handle fields, and two root handles. -/
def pairLayout : Layout (Fin 4) (Fin 3) where
  fields := ![[1,2],[],[]]
  home := ![none,some 0,some 0,none]
  mem_fields := by decide
  nodup := by decide

/-- One field is on an object of its own, the other on the object of the second root. -/
def pairHeap : Heap (Fin 4) (Fin 3) where
  slots := fun l => some (.ofBlock (![0,1,2,2] l))
  count := ![atomicSet 1,atomicSet 1,atomicSet 2]
  destroyed := fun _ => 0
  freed := fun _ => 0
  fault := false

/-- The counts of this heap are correct. -/
theorem pairHeap_wellCounted : WellCounted pairLayout pairHeap where
  sound := rfl
  live := fun _ => ⟨rfl,rfl⟩
  built := fun _ _ _ => Option.some_ne_none _
  coherent := fun _ _ h => by cases h; rfl
  counted := by decide

/-- Without the first root its object and one more are reclaimed. -/
theorem destroy_root_reclaims_pair :
    ∃ t,(∀ n,depth (Fin 3)≤n → destroyHandle pairLayout n 0 pairHeap=some t) ∧
      Reclaimed pairLayout 0 pairHeap t :=
  destroy_root_reclaims pairHeap_wellCounted (acyclic_of_rank Fin.val (by decide)) (by decide) rfl
    (Option.some_ne_none _)

end Kpp.SharedReclaim
