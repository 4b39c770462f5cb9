import Kpp.SharedHeap

/-!
# The cascade of a release

While one handle is given up, objects are destroyed inside the destruction of
others. Halfway some cells still name a block whose count no longer includes
them: these handles are being released. The invariant says what holds at
every point of the cascade, and each step of a release keeps it.
-/

namespace Kpp.SharedCascade

open CountAccounts CountedGraph KernelAtomic PointUpdate SharedHandle SharedHeap

variable {L B : Type*}

section Access
variable {lay : Layout L B} {s : Heap L B} {l : L} {b : B}

/-- Using a handle in storage that was not freed breaks nothing. -/
theorem access_ok (hhome : homeFreed lay l s=false) (hl : s.slots l≠none) : access lay l s=s := by
  cases s with
  | mk slots count destroyed freed fault =>
    dsimp only [access] at hl ⊢
    rw [hhome,Option.isNone_eq_false_iff.mpr (Option.isSome_iff_ne_none.mpr hl)]
    simp only [Bool.or_false]

/-- Using a block that was not freed breaks nothing. -/
theorem touch_ok (hb : s.freed b=0) : touch b s=s := by
  cases s with
  | mk slots count destroyed freed fault =>
    dsimp only [touch] at hb ⊢
    simp only [hb,lt_self_iff_false,decide_false,Bool.or_false]

/-- Storage of a handle is there unless the block of its object was freed. -/
theorem homeFreed_ok (hlive : ∀ h,lay.home l=some h → s.freed h=0) : homeFreed lay l s=false := by
  dsimp only [homeFreed]
  cases hhome : lay.home l with
  | none => rfl
  | some h =>
    dsimp only
    rw [hlive h hhome]
    exact decide_eq_false (Nat.lt_irrefl 0)

/-- Storage of a field is there until the block of its object is freed. -/
theorem homeFreed_field {h : B} (hh : lay.home l=some h) (hf : s.freed h=0) :
    homeFreed lay l s=false := by
  refine homeFreed_ok ?_
  intro h' hh'
  rw [hh] at hh'
  cases hh'
  exact hf

/-- Cells that name a block have a handle on it. -/
theorem slot_of_cell (hl : cellOf s.slots l=some b) : ∃ x,s.slots l=some x ∧ x.cb=some b :=
  Option.bind_eq_some_iff.mp hl

/-- A cell that names a block is not raw. -/
theorem slot_ne_none (hl : cellOf s.slots l=some b) : s.slots l≠none := by
  obtain ⟨x,hx,_⟩ := slot_of_cell hl
  rw [hx]
  exact Option.some_ne_none x

end Access

section Begin
variable [DecidableEq B] {s : Heap L B} {b c : B}

/-- The object of a block is about to be destroyed: its count is zero. -/
def begun (b : B) (s : Heap L B) : Heap L B :=
  {s with count := Function.update s.count b (BitVec.ofNat 32 0),
          destroyed := Function.update s.destroyed b (s.destroyed b+1)}

/-- Its object counts as destroyed. -/
theorem begun_self (hb : s.destroyed b=0) : (begun b s).destroyed b=1 := by
  dsimp only [begun]
  rw [Function.update_self,hb]

/-- The others are as before. -/
theorem begun_other (hcb : c≠b) : (begun b s).destroyed c=s.destroyed c :=
  Function.update_of_ne hcb _ _

/-- Objects that are being destroyed already still are. -/
theorem begun_more (hb : s.destroyed b=0) (hc : s.destroyed c=1) :
    (begun b s).destroyed c=1 := by
  by_cases hcb : c=b
  · rw [hcb,begun_self hb]
  · rw [begun_other hcb,hc]

end Begin

section Releases
variable [DecidableEq L] [DecidableEq B] {lay : Layout L B} {s : Heap L B} {l : L} {b : B} {n : ℕ}

/-- Releasing a null handle does nothing. -/
theorem release_null (hhome : homeFreed lay l s=false) (hl : s.slots l≠none)
    (hcell : cellOf s.slots l=none) : release lay (n+1) l s=some s := by
  unfold release
  rw [access_ok hhome hl]
  dsimp only
  rw [hcell]

/-- Releasing a handle decrements the count, and that is all unless it becomes zero. -/
theorem release_drop (hhome : homeFreed lay l s=false) (hcell : cellOf s.slots l=some b)
    (hb : s.freed b=0) (htest : (atomicDecAndTest (s.count b)).2=false) :
    release lay (n+1) l s=
      some {s with count := Function.update s.count b (atomicDecAndTest (s.count b)).1} := by
  unfold release
  rw [access_ok hhome (slot_ne_none hcell)]
  dsimp only
  rw [hcell]
  dsimp only [setCount]
  rw [touch_ok hb,htest,if_neg Bool.false_ne_true]

/-- Releasing a handle that is not the last one leaves the others. -/
theorem release_many (hhome : homeFreed lay l s=false) (hcell : cellOf s.slots l=some b)
    (hb : s.freed b=0) {m : ℕ} (hcount : s.count b=BitVec.ofNat 32 (m+2)) (hm : m+1<2^32) :
    release lay (n+1) l s=
      some {s with count := Function.update s.count b (BitVec.ofNat 32 (m+1))} := by
  rw [release_drop hhome hcell hb (by rw [hcount]; exact atomicTest_many hm),hcount,
    atomicDec_ofNat]

/-- Releasing the last handle destroys the fields of the object and frees the block. -/
theorem release_last (hhome : homeFreed lay l s=false) (hslot : s.slots l=some (.ofBlock b))
    (hb : s.freed b=0) (hcount : s.count b=BitVec.ofNat 32 1) :
    release lay (n+1) l s=
      (destroyFields lay n (lay.fields b).reverse (begun b s)).map (freeBlock lay l) := by
  have hcell : cellOf s.slots l=some b := by rw [cellOf,hslot]; rfl
  have hone : BitVec.ofNat 32 1=BitVec.ofNat 32 (0+1) := rfl
  have hbegin : ∀ v,beginDestroy b {s with count := Function.update s.count b v}=
      {s with count := Function.update s.count b v,
              destroyed := Function.update s.destroyed b (s.destroyed b+1)} := by
    intro v
    have htouch : touch b {s with count := Function.update s.count b v}=
        {s with count := Function.update s.count b v} := touch_ok hb
    rw [beginDestroy,htouch]
  unfold release destroyFields destroyHandle
  rw [access_ok hhome (slot_ne_none hcell)]
  dsimp only
  rw [hcell]
  dsimp only [setCount]
  rw [touch_ok hb,hcount,hone,(atomicTest_ofNat (by omega)).mpr rfl,if_pos rfl,atomicDec_ofNat,
    hslot]
  dsimp only [Option.bind_some,SharedPtr.ofBlock,begun]
  rw [hbegin]

end Releases

section Invariant
variable [DecidableEq L] [DecidableEq B]

/-- Counted reference of a cell, unless its handle is being released. -/
def weight (slots : L → Option (SharedPtr B)) (P : List L) (b : B) (l : L) : ℕ :=
  if l∈P then 0 else refers (cellOf slots l) b

variable [Fintype L]

/-- Counted references on a block while the handles of `P` are being released. -/
def counted (slots : L → Option (SharedPtr B)) (P : List L) (b : B) : ℕ := ∑ l,weight slots P b l

/-- The handle is the lost one or a field of a destroyed object. -/
def GivenUp (lay : Layout L B) (lost : L) (s : Heap L B) (l : L) : Prop :=
  l=lost ∨ ∃ h,lay.home l=some h ∧ s.destroyed h=1

/-- The state `s` is on the way from `start`, where the handle `lost` is given
up, and the handles of `P` are being released. -/
structure Cascade (lay : Layout L B) (start : Heap L B) (lost : L) (s : Heap L B) (P : List L) :
    Prop where
  /-- Nothing was broken so far. -/
  sound : s.fault=false
  /-- Handles are only removed. -/
  shrunk : ∀ l,s.slots l=start.slots l ∨ s.slots l=none
  /-- Blocks are destroyed and freed at most once, in this order. -/
  life : ∀ b,s.destroyed b≤1 ∧ s.freed b≤ s.destroyed b
  /-- Removed handles were fields of destroyed objects. -/
  cleared : ∀ l,s.slots l≠start.slots l → ∃ h,lay.home l=some h ∧ s.destroyed h=1
  /-- Freed objects have no fields left. -/
  emptied : ∀ l h,lay.home l=some h → s.freed h=1 → s.slots l=none
  /-- Live blocks count the references on them. -/
  count : ∀ b,s.destroyed b=0 → s.count b=BitVec.ofNat 32 (counted s.slots P b)
  /-- Live blocks keep a reference. -/
  needed : ∀ b,s.destroyed b=0 → 0<handlesOn start.slots b → 0<counted s.slots P b
  /-- Destroyed blocks have none. -/
  spent : ∀ b,s.destroyed b=1 → counted s.slots P b=0
  /-- Destroyed blocks are to be reclaimed. -/
  dropped : ∀ b,s.destroyed b=1 → Dropped lay.home (cellOf start.slots) lost b
  /-- Handles being released were given up. -/
  pending : ∀ l∈P,GivenUp lay lost s l

variable {lay : Layout L B} {start s : Heap L B} {lost f : L} {P : List L} {b : B}

/-- A cell that is not being released counts for the block it names. -/
theorem counted_pos {slots : L → Option (SharedPtr B)} (hf : f∉P) (hcell : cellOf slots f=some b) :
    0<counted slots P b := by
  refine Finset.sum_pos' (fun _ _ => Nat.zero_le _) ⟨f,Finset.mem_univ f,?_⟩
  rw [weight,if_neg hf,refers,if_pos hcell]
  exact Nat.one_pos

/-- If nothing counts for a block, its cells are all being released. -/
theorem mem_of_counted_zero {slots : L → Option (SharedPtr B)} (h : counted slots P b=0)
    (hcell : cellOf slots f=some b) : f∈P := by
  by_contra hf
  exact Nat.ne_of_gt (counted_pos hf hcell) h

/-- A handle that begins to be released no longer counts. -/
theorem counted_push (slots : L → Option (SharedPtr B)) (hf : f∉P) (b : B) :
    counted slots (f::P) b+refers (cellOf slots f) b=counted slots P b := by
  have hother : ∀ l,l≠f → weight slots (f::P) b l=weight slots P b l := by
    intro l hl
    simp only [weight,List.mem_cons,hl,false_or]
  have h := sum_except f hother
  rwa [weight,if_neg hf,weight,if_pos List.mem_cons_self,Nat.add_zero] at h

/-- For the block it is on there is one reference less. -/
theorem counted_push_self {slots : L → Option (SharedPtr B)} (hf : f∉P)
    (hcell : cellOf slots f=some b) : counted slots (f::P) b+1=counted slots P b := by
  have h := counted_push slots hf b
  rwa [refers,if_pos hcell] at h

/-- For all others there are as many as before. -/
theorem counted_push_other {slots : L → Option (SharedPtr B)} (hf : f∉P)
    (hcell : cellOf slots f≠some b) : counted slots (f::P) b=counted slots P b := by
  have h := counted_push slots hf b
  rwa [refers,if_neg hcell,Nat.add_zero] at h

/-- Those are all blocks but the one that the handle is on. -/
theorem counted_push_rest {slots : L → Option (SharedPtr B)} (hf : f∉P)
    (hcell : cellOf slots f=some b) (c : B) (hcb : c≠b) :
    counted slots (f::P) c=counted slots P c := by
  refine counted_push_other hf ?_
  rw [hcell]
  exact fun he => hcb (Option.some.inj he).symm

/-- Handles removed while they are being released did not count before. -/
theorem counted_clear {slots : L → Option (SharedPtr B)} (hf : f∈P) (b : B) :
    counted (Function.update slots f none) P b=counted slots P b := by
  refine Finset.sum_congr rfl ?_
  intro l _
  by_cases hl : l=f
  · subst hl
    rw [weight,weight,if_pos hf,if_pos hf]
  · rw [weight,weight,cellOf,cellOf,Function.update_of_ne hl]

/-- Removed handles need not be listed as being released. -/
theorem counted_forget {slots : L → Option (SharedPtr B)} (hf : slots f=none) (b : B) :
    counted slots (f::P) b=counted slots P b := by
  refine Finset.sum_congr rfl ?_
  intro l _
  by_cases hl : l=f
  · subst hl
    have hcell : refers (cellOf slots l) b=0 := by rw [cellOf,hf]; rfl
    rw [weight,weight,if_pos List.mem_cons_self,hcell,ite_self]
  · simp only [weight,List.mem_cons,hl,false_or]

/-- At first all handles count. -/
theorem counted_nil (slots : L → Option (SharedPtr B)) (b : B) :
    counted slots [] b=handlesOn slots b :=
  Finset.sum_congr rfl (fun _ _ => if_neg List.not_mem_nil)

/-- A heap with correct counts is at the start of a cascade. -/
theorem Cascade.begin (hw : WellCounted lay start) : Cascade lay start lost start [] where
  sound := hw.sound
  shrunk := fun _ => Or.inl rfl
  life := fun b => by rw [(hw.live b).1,(hw.live b).2]; exact ⟨Nat.zero_le 1,le_refl 0⟩
  cleared := fun _ h => absurd rfl h
  emptied := fun _ h _ hf => by rw [(hw.live h).2] at hf; cases hf
  count := fun b _ => by rw [counted_nil]; exact (atomicRead_eq_natCast (hw.counted b)).1
  needed := fun b _ h => by rwa [counted_nil]
  spent := fun b h => by rw [(hw.live b).1] at h; cases h
  dropped := fun b h => by rw [(hw.live b).1] at h; cases h
  pending := fun _ h => by cases h

/-- A cell that still names a block named it at the start. -/
theorem Cascade.cell_start (hc : Cascade lay start lost s P) (hcell : cellOf s.slots f=some b) :
    cellOf start.slots f=some b := by
  cases hc.shrunk f with
  | inl h => rwa [cellOf,←h]
  | inr h => exact absurd h (slot_ne_none hcell)

/-- Counts do not grow. -/
theorem Cascade.counted_le (hc : Cascade lay start lost s P) (b : B) :
    counted s.slots P b≤handlesOn start.slots b := by
  refine Finset.sum_le_sum ?_
  intro l _
  by_cases hcell : cellOf s.slots l=some b
  · rw [weight,refers,refers,if_pos hcell,if_pos (hc.cell_start hcell)]
    split <;> omega
  · rw [weight,refers,if_neg hcell,ite_self]
    exact Nat.zero_le _

/-- Handles that are not being released are on live blocks. -/
theorem Cascade.alive (hc : Cascade lay start lost s P) (hf : f∉P)
    (hcell : cellOf s.slots f=some b) : s.destroyed b=0 ∧ s.freed b=0 := by
  have hlife := hc.life b
  have hpos := counted_pos hf hcell
  have hspent := hc.spent b
  omega

/-- All handles being released were given up, with one more that is. -/
theorem Cascade.given (hc : Cascade lay start lost s P) (hp : GivenUp lay lost s f) :
    ∀ l∈f::P,GivenUp lay lost s l := List.forall_mem_cons.mpr ⟨hp,hc.pending⟩

/-- If all references on a block are given up or being released, its other
references are fields of destroyed objects. -/
theorem Cascade.homes_gone (hc : Cascade lay start lost s P)
    (hp : GivenUp lay lost s f) (hzero : counted s.slots (f::P) b=0) {l : L}
    (hl : cellOf start.slots l=some b) (hne : l≠lost) :
    ∃ h,lay.home l=some h ∧ s.destroyed h=1 := by
  by_cases hsame : s.slots l=start.slots l
  · have hcell : cellOf s.slots l=some b := by rwa [cellOf,hsame]
    exact (hc.given hp l (mem_of_counted_zero hzero hcell)).resolve_left hne
  · exact hc.cleared l hsame

/-- A handle that is being released is removed. -/
theorem Cascade.clear (hc : Cascade lay start lost s P) (hf : f∈P) {p : B}
    (hp : lay.home f=some p) (hd : s.destroyed p=1) : Cascade lay start lost (put f none s) P where
  sound := hc.sound
  shrunk := by
    intro l
    dsimp only [put]
    rw [Function.update_apply]
    split
    · exact Or.inr rfl
    · exact hc.shrunk l
  life := hc.life
  cleared := by
    intro l hl
    by_cases hlf : l=f
    · exact ⟨p,by rwa [hlf],hd⟩
    · dsimp only [put] at hl
      rw [Function.update_of_ne hlf] at hl
      exact hc.cleared l hl
  emptied := by
    intro l h hl hh
    dsimp only [put]
    rw [Function.update_apply]
    split
    · rfl
    · exact hc.emptied l h hl hh
  count := fun b hb => (hc.count b hb).trans (congrArg _ (counted_clear hf b).symm)
  needed := fun b hb hn => (hc.needed b hb hn).trans_eq (counted_clear hf b).symm
  spent := fun b hb => (counted_clear hf b).trans (hc.spent b hb)
  dropped := hc.dropped
  pending := hc.pending

/-- A removed handle need not be listed. -/
theorem Cascade.forget (hc : Cascade lay start lost s (f::P)) (hf : s.slots f=none) :
    Cascade lay start lost s P :=
  {hc with
    count := fun b hb => (hc.count b hb).trans (congrArg _ (counted_forget hf b))
    needed := fun b hb hn => (hc.needed b hb hn).trans_eq (counted_forget hf b)
    spent := fun b hb => (counted_forget hf b).symm.trans (hc.spent b hb)
    pending := fun l hl => hc.pending l (List.mem_cons_of_mem f hl)}

/-- The count of a destroyed block does not matter. -/
theorem Cascade.recount (hc : Cascade lay start lost s P) (hb : s.destroyed b=1) (v : Atomic) :
    Cascade lay start lost {s with count := Function.update s.count b v} P :=
  {hc with
    count := by
      intro c hd
      have hne : c≠b := by
        rintro rfl
        rw [hb] at hd
        cases hd
      dsimp only
      rw [Function.update_of_ne hne]
      exact hc.count c hd}

/-- The block of a destroyed object without fields is freed. -/
theorem Cascade.free (hc : Cascade lay start lost s P) (hb : s.destroyed b=1) (hf : s.freed b=0)
    (hfields : ∀ l,lay.home l=some b → s.slots l=none) :
    Cascade lay start lost {s with freed := Function.update s.freed b (s.freed b+1)} P :=
  {hc with
    life := by
      intro c
      dsimp only
      rw [Function.update_apply]
      split
      · rename_i hcb
        rw [hcb,hb,hf]
        exact ⟨le_refl 1,le_refl 1⟩
      · exact hc.life c
    emptied := by
      intro l h hl hh
      dsimp only at hh
      rw [Function.update_apply] at hh
      split at hh
      · rename_i hhb
        exact hfields l (by rw [hl,hhb])
      · exact hc.emptied l h hl hh}

section Push
variable (hc : Cascade lay start lost s P) (hf : f∉P)
  (hp : GivenUp lay lost s f)
include hc hf hp

/-- The release of a null handle begins. -/
theorem Cascade.pushNull (hcell : cellOf s.slots f=none) : Cascade lay start lost s (f::P) := by
  have hsame : ∀ b,counted s.slots (f::P) b=counted s.slots P b := by
    intro b
    refine counted_push_other hf ?_
    rw [hcell]
    exact (Option.some_ne_none b).symm
  refine {hc with count := ?_,needed := ?_,spent := ?_,pending := hc.given hp}
  · intro b hb
    rw [hsame]
    exact hc.count b hb
  · intro b hb hn
    rw [hsame]
    exact hc.needed b hb hn
  · intro b hb
    rw [hsame]
    exact hc.spent b hb

/-- The release of a handle that is not the last one begins. -/
theorem Cascade.pushDrop (hcell : cellOf s.slots f=some b) {n : ℕ}
    (hn : counted s.slots P b=n+2) :
    Cascade lay start lost {s with count := Function.update s.count b (BitVec.ofNat 32 (n+1))}
      (f::P) := by
  have hleft : counted s.slots (f::P) b=n+1 := by
    have h := counted_push_self hf hcell
    omega
  have hsame := counted_push_rest hf hcell
  refine {hc with count := ?_,needed := ?_,spent := ?_,pending := hc.given hp}
  · intro c hd
    by_cases hcb : c=b
    · subst hcb
      dsimp only
      rw [Function.update_self,hleft]
    · dsimp only
      rw [Function.update_of_ne hcb,hsame c hcb]
      exact hc.count c hd
  · intro c hd hs
    by_cases hcb : c=b
    · rw [hcb,hleft]
      exact Nat.succ_pos n
    · rw [hsame c hcb]
      exact hc.needed c hd hs
  · intro c hd
    have h := counted_push s.slots hf c
    have hz := hc.spent c hd
    dsimp only
    omega

/-- The release of the last handle begins: the block is to be reclaimed. -/
theorem Cascade.pushLast (hcell : cellOf s.slots f=some b) (hn : counted s.slots P b=1) :
    Cascade lay start lost (begun b s) (f::P) := by
  have halive := hc.alive hf hcell
  have hzero : counted s.slots (f::P) b=0 := by
    have h := counted_push_self hf hcell
    omega
  have hsame := counted_push_rest hf hcell
  have hself := begun_self halive.1
  refine ⟨hc.sound,hc.shrunk,?_,?_,hc.emptied,?_,?_,?_,?_,?_⟩
  · intro c
    by_cases hcb : c=b
    · rw [hcb,hself]
      exact ⟨le_refl 1,halive.2.trans_le (Nat.zero_le 1)⟩
    · rw [begun_other hcb]
      exact hc.life c
  · intro l hl
    obtain ⟨h,hh,hd⟩ := hc.cleared l hl
    exact ⟨h,hh,begun_more halive.1 hd⟩
  · intro c hd
    by_cases hcb : c=b
    · rw [hcb,hself] at hd
      cases hd
    · rw [begun_other hcb] at hd
      refine (Function.update_of_ne hcb _ _).trans ?_
      rw [hc.count c hd,←hsame c hcb]
      rfl
  · intro c hd hs
    by_cases hcb : c=b
    · rw [hcb,hself] at hd
      cases hd
    · rw [begun_other hcb] at hd
      exact (hc.needed c hd hs).trans_eq (hsame c hcb).symm
  · intro c hd
    by_cases hcb : c=b
    · rw [hcb]
      exact hzero
    · rw [begun_other hcb] at hd
      exact (hsame c hcb).trans (hc.spent c hd)
  · intro c hd
    by_cases hcb : c=b
    · rw [hcb]
      refine .intro (hc.cell_start hcell) ?_ ?_
      · intro l hl hne
        obtain ⟨h,hh,_⟩ := hc.homes_gone hp hzero hl hne
        exact ⟨h,hh⟩
      · intro l h hl hne hh
        obtain ⟨h',hh',hd'⟩ := hc.homes_gone hp hzero hl hne
        rw [hh] at hh'
        cases hh'
        exact hc.dropped h hd'
    · rw [begun_other hcb] at hd
      exact hc.dropped c hd
  · intro l hl
    refine (hc.given hp l hl).imp id ?_
    rintro ⟨h,hh,hd⟩
    exact ⟨h,hh,begun_more halive.1 hd⟩

end Push

end Invariant

end Kpp.SharedCascade
