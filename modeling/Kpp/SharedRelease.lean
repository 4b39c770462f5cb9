import Kpp.SharedCascade

/-!
# What a release leaves behind

By induction on the nesting of destructors, destroying a handle keeps the
cascade invariant and finishes every object it starts to destroy. A release
that does not destroy the handle it releases ends with exactly the dropped
blocks destroyed and freed; one that does uses a destroyed handle.
-/

namespace Kpp.SharedRelease

open CountAccounts CountedGraph KernelAtomic PointUpdate SharedHandle SharedHeap SharedCascade

variable {L B : Type*}

/-- The object of the lost handle is being destroyed: until its block is
freed its count stays at zero for as long as the handle is there. -/
def Opened (start : Heap L B) (lost : L) (s : Heap L B) : Prop :=
  ∀ b,cellOf start.slots lost=some b → s.destroyed b=1 ∧ s.freed b=0 ∧
    (s.slots lost≠none → s.count b=BitVec.ofNat 32 0)

/-- From `s` to `t` the handles of `fs` were destroyed, with all that followed. -/
structure Cleans (lay : Layout L B) (fs : List L) (s t : Heap L B) : Prop where
  /-- Objects under destruction stay as they are. -/
  kept : ∀ b,s.destroyed b=1 → t.destroyed b=1 ∧ t.freed b=s.freed b
  /-- Other objects are left alone, or destroyed and freed. -/
  finished : ∀ b,s.destroyed b=0 → t.freed b=t.destroyed b ∧ t.destroyed b≤1
  /-- The other fields of objects under destruction stay as they are. -/
  others : ∀ l h,lay.home l=some h → s.destroyed h=1 → l∉fs → t.slots l=s.slots l
  /-- Handles are only removed. -/
  shrunk : ∀ l,t.slots l=s.slots l ∨ t.slots l=none
  /-- The destroyed handles are gone. -/
  removed : ∀ l∈fs,t.slots l=none

variable {lay : Layout L B} {start s t u : Heap L B} {lost f : L} {P fs : List L} {b p : B} {n : ℕ}

/-- Nothing happened. -/
theorem Cleans.refl (hlife : ∀ b,s.destroyed b≤1 ∧ s.freed b≤ s.destroyed b) :
    Cleans lay [] s s where
  kept := fun _ h => ⟨h,rfl⟩
  finished := fun b h => ⟨by have := hlife b; omega,(hlife b).1⟩
  others := fun _ _ _ _ _ => rfl
  shrunk := fun _ => Or.inl rfl
  removed := fun _ h => by cases h

/-- A destroyed handle is removed at the end. -/
theorem Cleans.put [DecidableEq L] (h : Cleans lay [] s t) (f : L) :
    Cleans lay [f] s (put f none t) where
  kept := h.kept
  finished := h.finished
  others := by
    intro l p hl hp hne
    refine (Function.update_of_ne (List.ne_of_not_mem_cons hne) _ _).trans ?_
    exact h.others l p hl hp List.not_mem_nil
  shrunk := by
    intro l
    dsimp only [SharedHeap.put]
    rw [Function.update_apply]
    split
    · exact Or.inr rfl
    · exact h.shrunk l
  removed := by
    intro l hl
    rw [List.mem_singleton.mp hl]
    exact Function.update_self _ _ _

/-- One handle after the other. -/
theorem Cleans.cons (h : Cleans lay [f] s t) (k : Cleans lay fs t u) : Cleans lay (f::fs) s u where
  kept := by
    intro b hb
    obtain ⟨hd,hf⟩ := h.kept b hb
    obtain ⟨hd',hf'⟩ := k.kept b hd
    exact ⟨hd',hf'.trans hf⟩
  finished := by
    intro b hb
    obtain ⟨hf,hd⟩ := h.finished b hb
    by_cases hz : t.destroyed b=0
    · exact k.finished b hz
    · have hone : t.destroyed b=1 := by omega
      obtain ⟨hd',hf'⟩ := k.kept b hone
      omega
  others := by
    intro l p hl hp hne
    have hlf : l∉[f] := fun hm => hne (List.mem_cons.mpr (Or.inl (List.mem_singleton.mp hm)))
    have hsecond := k.others l p hl (h.kept p hp).1 (List.not_mem_of_not_mem_cons hne)
    exact hsecond.trans (h.others l p hl hp hlf)
  shrunk := by
    intro l
    cases k.shrunk l with
    | inl hk => rw [hk]; exact h.shrunk l
    | inr hk => exact Or.inr hk
  removed := by
    intro l hl
    cases List.mem_cons.mp hl with
    | inl hlf =>
      have hgone := h.removed l (List.mem_singleton.mpr hlf)
      cases k.shrunk l with
      | inl hk => exact hk.trans hgone
      | inr hk => exact hk
    | inr hlfs => exact k.removed l hlfs

/-- Counts do not matter. -/
theorem Cleans.recount (h : Cleans lay fs s t) (c : B → Atomic) :
    Cleans lay fs s {t with count := c} :=
  ⟨h.kept,h.finished,h.others,h.shrunk,h.removed⟩

/-- An object is destroyed with its fields and freed. -/
theorem Cleans.close [DecidableEq B] (h : Cleans lay fs (begun b s) t) (hb : s.destroyed b=0)
    (hf : s.freed b=0) (hfs : ∀ l∈fs,lay.home l=some b) :
    Cleans lay [] s {t with freed := Function.update t.freed b (t.freed b+1)} := by
  have hother : ∀ c,s.destroyed c=1 → c≠b := by
    rintro c hc rfl
    rw [hb] at hc
    cases hc
  refine ⟨?_,?_,?_,h.shrunk,fun _ hl => absurd hl List.not_mem_nil⟩
  · intro c hc
    obtain ⟨hd,hfr⟩ := h.kept c (begun_more hb hc)
    exact ⟨hd,(Function.update_of_ne (hother c hc) _ _).trans hfr⟩
  · intro c hc
    by_cases hcb : c=b
    · obtain ⟨hd,hfr⟩ := h.kept b (begun_self hb)
      subst hcb
      dsimp only
      rw [Function.update_self,hd,hfr]
      exact ⟨congrArg (fun k => k+1) hf,le_refl 1⟩
    · dsimp only
      rw [Function.update_of_ne hcb]
      exact h.finished c ((begun_other hcb).trans hc)
  · intro l p hl hp _
    refine h.others l p hl (begun_more hb hp) ?_
    intro hm
    rw [hfs l hm] at hl
    exact hother p hp (Option.some.inj hl).symm

/-- The lost handle may be removed. -/
theorem Opened.put [DecidableEq L] (h : Opened start lost s) (f : L) :
    Opened start lost (put f none s) := by
  intro b hb
  obtain ⟨hd,hf,hcount⟩ := h b hb
  refine ⟨hd,hf,fun hs => hcount ?_⟩
  by_cases hl : lost=f
  · subst hl
    exact absurd (Function.update_self _ _ _) hs
  · dsimp only [SharedHeap.put] at hs
    rwa [Function.update_of_ne hl] at hs

/-- Counts do not matter once the lost handle is removed. -/
theorem Opened.recount (h : Opened start lost s) (hs : s.slots lost=none) (c : B → Atomic) :
    Opened start lost {s with count := c} :=
  fun b hb => ⟨(h b hb).1,(h b hb).2.1,fun hne => absurd hs hne⟩

/-- Counts of live blocks do not matter. -/
theorem Opened.recountLive [DecidableEq B] (h : Opened start lost s) (hb : s.destroyed b=0)
    (v : Atomic) : Opened start lost {s with count := Function.update s.count b v} := by
  intro c hc
  obtain ⟨hd,hf,hcount⟩ := h c hc
  have hne : c≠b := by
    rintro rfl
    rw [hb] at hd
    cases hd
  exact ⟨hd,hf,fun hs => (Function.update_of_ne hne _ _).trans (hcount hs)⟩

/-- Freeing another block does not matter. -/
theorem Opened.free [DecidableEq B] (h : Opened start lost s)
    (hb : cellOf start.slots lost≠some b) :
    Opened start lost {s with freed := Function.update s.freed b (s.freed b+1)} := by
  intro c hc
  obtain ⟨hd,hf,hcount⟩ := h c hc
  have hne : c≠b := by
    rintro rfl
    exact hb hc
  exact ⟨hd,(Function.update_of_ne hne _ _).trans hf,hcount⟩

section Alive
variable [Fintype B]

/-- Number of live objects. -/
def alive (s : Heap L B) : ℕ := countCells (fun d => d=0) s.destroyed

/-- Objects are not created while handles are destroyed. -/
theorem Cleans.alive_le (h : Cleans lay fs s t)
    (hlife : ∀ b,s.destroyed b≤1 ∧ s.freed b≤ s.destroyed b) : alive t≤alive s := by
  refine Finset.sum_le_sum ?_
  intro b _
  have hl := hlife b
  have hk := h.kept b
  dsimp only
  split <;> split <;> omega

/-- There are at most as many live objects as blocks. -/
theorem alive_le_card (s : Heap L B) : alive s≤Fintype.card B := by
  rw [←Finset.card_univ,Finset.card_eq_sum_ones]
  refine Finset.sum_le_sum ?_
  intro b _
  dsimp only
  split <;> omega

/-- An object that begins to be destroyed is one less. -/
theorem alive_begun [DecidableEq B] (hb : s.destroyed b=0) : alive (begun b s)+1=alive s := by
  have h := countCells_update (fun d => d=0) s.destroyed b (s.destroyed b+1)
  rwa [if_pos hb,if_neg (Nat.succ_ne_zero _),Nat.add_zero] at h

end Alive

/-- `kfree(cb_)` on a handle whose storage is there. -/
theorem freeBlock_ok [DecidableEq B] (hhome : homeFreed lay f s=false)
    (hcell : cellOf s.slots f=some b) :
    freeBlock lay f s={s with freed := Function.update s.freed b (s.freed b+1)} := by
  rw [freeBlock,access_ok hhome (slot_ne_none hcell),hcell]

/-- `kfree(cb_)` on a destroyed handle. -/
theorem freeBlock_raw [DecidableEq B] (hf : s.slots f=none) : (freeBlock lay f s).fault=true := by
  have hcell : cellOf (access lay f s).slots f=none := by
    dsimp only [access,cellOf]
    rw [hf]
    rfl
  dsimp only [freeBlock]
  rw [hcell]

section Specs
variable [DecidableEq L] [DecidableEq B] [Fintype L]

/-- Counts fit in the counter. -/
theorem count_lt (hw : WellCounted lay start) (hc : Cascade lay start lost s P) (b : B) :
    counted s.slots P b<2^31 :=
  (hc.counted_le b).trans_lt (atomicRead_eq_natCast (hw.counted b)).2

/-- A block that is counted has a handle that is not being released. -/
theorem exists_of_counted_pos {slots : L → Option (SharedPtr B)} (h : 0<counted slots P b) :
    ∃ l,l∉P ∧ cellOf slots l=some b := by
  obtain ⟨l,_,hl⟩ := Finset.exists_ne_zero_of_sum_ne_zero (Nat.ne_of_gt h)
  have hmem : l∉P := fun hm => hl (if_pos hm)
  refine ⟨l,hmem,?_⟩
  by_contra hcell
  rw [weight,if_neg hmem,refers,if_neg hcell] at hl
  exact hl rfl

/-- Every dropped block is destroyed once all objects under destruction have
lost their fields: a live one would still be named by a field of such an object. -/
theorem dropped_destroyed (hc : Cascade lay start lost s [lost])
    (hempty : ∀ l h,lay.home l=some h → s.destroyed h=1 → s.slots l=none)
    (hd : Dropped lay.home (cellOf start.slots) lost b) : s.destroyed b=1 := by
  induction hd with
  | @intro b l hl hhome _ ih =>
    by_contra hlive
    have hzero : s.destroyed b=0 := by have := (hc.life b).1; omega
    have hheld : 0<handlesOn start.slots b := by
      rw [←counted_nil]
      exact counted_pos List.not_mem_nil hl
    obtain ⟨l',hl',hcell⟩ := exists_of_counted_pos (hc.needed b hzero hheld)
    have hne : l'≠lost := fun h => hl' (List.mem_singleton.mpr h)
    have hstart := hc.cell_start hcell
    obtain ⟨h,hh⟩ := hhome l' hstart hne
    exact slot_ne_none hcell (hempty l' h hh (ih l' h hstart hne hh))

/-- The handle is not a field of a dropped block. -/
def Stays (lay : Layout L B) (slots : L → Option (SharedPtr B)) (lost l : L) : Prop :=
  ∀ h,lay.home l=some h → ¬Dropped lay.home (cellOf slots) lost h

/-- The end of a release: what was destroyed is freed, and that is what was dropped. -/
structure Settled (lay : Layout L B) (start : Heap L B) (lost : L) (t : Heap L B) : Prop where
  /-- The cascade is over, the lost handle is still there. -/
  cascade : Cascade lay start lost t [lost]
  /-- What was destroyed is freed. -/
  finished : ∀ b,t.freed b=t.destroyed b
  /-- What was dropped is destroyed. -/
  complete : ∀ b,Dropped lay.home (cellOf start.slots) lost b → t.destroyed b=1

/-- A cascade without destruction is settled. -/
theorem Settled.intact (hc : Cascade lay start lost t [lost])
    (hlive : ∀ b,t.destroyed b=0 ∧ t.freed b=0) : Settled lay start lost t := by
  refine ⟨hc,fun b => (hlive b).2.trans (hlive b).1.symm,?_⟩
  intro b hd
  refine dropped_destroyed hc ?_ hd
  intro l h _ hh
  rw [(hlive h).1] at hh
  cases hh

/-- Blocks that live on were not dropped. -/
theorem Settled.not_dropped (hs : Settled lay start lost t) (hb : t.destroyed b=0) :
    ¬Dropped lay.home (cellOf start.slots) lost b := by
  intro hd
  rw [hs.complete b hd] at hb
  cases hb

/-- Blocks that were not dropped live on. -/
theorem Settled.alive (hs : Settled lay start lost t)
    (hb : ¬Dropped lay.home (cellOf start.slots) lost b) : t.destroyed b=0 ∧ t.freed b=0 := by
  have hlife := hs.cascade.life b
  have hfinished := hs.finished b
  have hnot : t.destroyed b≠1 := fun hd => hb (hs.cascade.dropped b hd)
  omega

/-- Handles outside of dropped blocks are unchanged. -/
theorem Settled.slot_stays (hs : Settled lay start lost t) (hl : Stays lay start.slots lost f) :
    t.slots f=start.slots f := by
  by_contra hne
  obtain ⟨h,hh,hd⟩ := hs.cascade.cleared f hne
  exact hl h hh (hs.cascade.dropped h hd)

/-- Handles inside of them are gone. -/
theorem Settled.slot_gone (hs : Settled lay start lost t) (hl : ¬Stays lay start.slots lost f) :
    t.slots f=none := by
  unfold Stays at hl
  push Not at hl
  obtain ⟨h,hh,hd⟩ := hl
  exact hs.cascade.emptied f h hh ((hs.finished h).trans (hs.complete h hd))

/-- `kfree(cb_)` after the object of the last handle was destroyed. -/
theorem freeBlock_spec (hw : WellCounted lay start) (hcell : cellOf start.slots lost=some b)
    (hc : Cascade lay start lost t [lost])
    (hkept : Cleans lay (lay.fields b).reverse (begun b start) t) :
    (Stays lay start.slots lost lost → Settled lay start lost (freeBlock lay lost t)) ∧
    (¬Stays lay start.slots lost lost → (freeBlock lay lost t).fault=true) := by
  obtain ⟨hdb,hfb⟩ := hkept.kept b (begun_self (hw.live b).1)
  have hempty : ∀ l,lay.home l=some b → t.slots l=none :=
    fun l hl => hkept.removed l (List.mem_reverse.mpr ((lay.mem_fields l b).mpr hl))
  have hother : ∀ c,c≠b → t.freed c=t.destroyed c := by
    intro c hcb
    exact (hkept.finished c ((begun_other hcb).trans (hw.live c).1)).1
  have hgone : ∀ l h,lay.home l=some h → t.destroyed h=1 → t.slots l=none := by
    intro l h hl hd
    by_cases hhb : h=b
    · rw [hhb] at hl
      exact hempty l hl
    · exact hc.emptied l h hl ((hother h hhb).trans hd)
  have hcomplete := fun c => dropped_destroyed (b := c) hc hgone
  constructor
  · intro hstays
    have hliving : ∀ h,lay.home lost=some h → t.destroyed h=0 := by
      intro h hh
      have hnot : t.destroyed h≠1 := fun hd => hstays h hh (hc.dropped h hd)
      have hlife := hc.life h
      omega
    have hslot : t.slots lost=start.slots lost := by
      by_contra hne
      obtain ⟨h,hh,hd⟩ := hc.cleared lost hne
      exact hstays h hh (hc.dropped h hd)
    have hhome : homeFreed lay lost t=false := by
      refine homeFreed_ok ?_
      intro h hh
      have hlife := hc.life h
      have hzero := hliving h hh
      omega
    rw [freeBlock_ok hhome (by rwa [cellOf,hslot])]
    refine ⟨hc.free hdb (hfb.trans (hw.live b).2) hempty,?_,hcomplete⟩
    intro c
    by_cases hcb : c=b
    · subst hcb
      dsimp only
      rw [Function.update_self,hfb,hdb]
      exact congrArg (fun k => k+1) (hw.live c).2
    · exact (Function.update_of_ne hcb _ _).trans (hother c hcb)
  · intro hdies
    unfold Stays at hdies
    push Not at hdies
    obtain ⟨h,hh,hd⟩ := hdies
    exact freeBlock_raw (hgone lost h hh (hcomplete h hd))

/-- The destructor of the lost handle, met when its own object is destroyed. -/
theorem lost_spec (hc : Cascade lay start lost s P) (ho : Opened start lost s)
    (hlp : lay.home lost=some p) (hd : s.destroyed p=1) (hfr : s.freed p=0)
    (hslot : s.slots lost≠none) (hmem : lost∈P) :
    ∃ t,destroyHandle lay (n+1) lost s=some t ∧ Cascade lay start lost t P ∧ Opened start lost t ∧
      Cleans lay [lost] s t := by
  have hhome := homeFreed_field hlp hfr
  have hclean : Cleans lay [lost] s (put lost none s) := (Cleans.refl hc.life).put lost
  cases hcell : cellOf s.slots lost with
  | none =>
    refine ⟨put lost none s,?_,hc.clear hmem hlp hd,ho.put lost,hclean⟩
    rw [destroyHandle,release_null hhome hslot hcell,Option.map_some]
  | some b =>
    -- the count of the object under destruction goes below zero and is never tested again
    obtain ⟨hdb,hfb,hcount⟩ := ho b (hc.cell_start hcell)
    refine ⟨put lost none {s with
      count := Function.update s.count b (atomicDecAndTest (s.count b)).1},
      ?_,(hc.recount hdb _).clear hmem hlp hd,?_,hclean.recount _⟩
    · rw [destroyHandle,release_drop hhome hcell hfb (by rw [hcount hslot]; rfl),Option.map_some]
    · exact (ho.put lost).recount (Function.update_self _ _ _) _

variable [Fintype B]

/-- What the destructor of a field does, to a depth of `n` nested destructors. -/
def HandleSpec (lay : Layout L B) (start : Heap L B) (lost : L) (n : ℕ) : Prop :=
  ∀ s P f p,Cascade lay start lost s P → Opened start lost s → lay.home f=some p →
    s.destroyed p=1 → s.freed p=0 → s.slots f≠none → (f∈P → f=lost) → alive s<n →
    ∃ t,destroyHandle lay n f s=some t ∧ Cascade lay start lost t P ∧ Opened start lost t ∧
      Cleans lay [f] s t

/-- The destructors of the fields of an object, one after the other. -/
theorem fields_spec (hspec : HandleSpec lay start lost n) (hnodup : fs.Nodup)
    (hfs : ∀ f∈fs,lay.home f=some p ∧ s.slots f≠none ∧ (f∈P → f=lost))
    (hc : Cascade lay start lost s P) (ho : Opened start lost s) (hd : s.destroyed p=1)
    (hf : s.freed p=0) (hn : alive s<n) :
    ∃ t,destroyFields lay n fs s=some t ∧ Cascade lay start lost t P ∧ Opened start lost t ∧
      Cleans lay fs s t := by
  induction fs generalizing s with
  | nil => exact ⟨s,rfl,hc,ho,.refl hc.life⟩
  | cons f fs ih =>
    obtain ⟨hnot,hrest⟩ := List.nodup_cons.mp hnodup
    obtain ⟨hhome,hslot,hpend⟩ := hfs f List.mem_cons_self
    obtain ⟨t,ht,hct,hot,hclean⟩ := hspec s P f p hc ho hhome hd hf hslot hpend hn
    obtain ⟨hdt,hft⟩ := hclean.kept p hd
    have hleft : ∀ g∈fs,lay.home g=some p ∧ t.slots g≠none ∧ (g∈P → g=lost) := by
      intro g hg
      obtain ⟨hghome,hgslot,hgpend⟩ := hfs g (List.mem_cons_of_mem f hg)
      have hne : g∉[f] := by
        intro hm
        rw [List.mem_singleton.mp hm] at hg
        exact hnot hg
      refine ⟨hghome,?_,hgpend⟩
      rwa [hclean.others g p hghome hd hne]
    obtain ⟨u,hu,hcu,hou,hclean'⟩ := ih hrest hleft hct hot hdt (hft.trans hf)
      ((hclean.alive_le hc.life).trans_lt hn)
    refine ⟨u,?_,hcu,hou,hclean.cons hclean'⟩
    rw [destroyFields,List.foldlM_cons,ht]
    exact hu

/-- The release of a last handle: the object is destroyed, and what is left is `kfree(cb_)`. -/
theorem last_spec (hw : WellCounted lay start) (hspec : HandleSpec lay start lost n)
    (hc : Cascade lay start lost s P) (ho : f=lost ∨ Opened start lost s) (hf : f∉P)
    (hp : GivenUp lay lost s f) (hhome : homeFreed lay f s=false)
    (hcell : cellOf s.slots f=some b) (hone : counted s.slots P b=1) (hn : alive s<n+1) :
    ∃ t,release lay (n+1) f s=some (freeBlock lay f t) ∧ Cascade lay start lost t (f::P) ∧
      Opened start lost t ∧ Cleans lay (lay.fields b).reverse (begun b s) t := by
  obtain ⟨hdead,hfreed⟩ := hc.alive hf hcell
  have hslot : s.slots f=some (.ofBlock b) := by
    obtain ⟨x,hx,hxb⟩ := slot_of_cell hcell
    have hstart : start.slots f=some x := by
      cases hc.shrunk f with
      | inl h => rwa [←h]
      | inr h => exact absurd h (slot_ne_none hcell)
    rw [hx,(hw.coherent f x hstart).eq_ofBlock hxb]
  have hself := begun_self hdead
  have hopened : Opened start lost (begun b s) := by
    intro c hlost
    by_cases hcb : c=b
    · rw [hcb]
      exact ⟨hself,hfreed,fun _ => Function.update_self _ _ _⟩
    · cases ho with
      | inl hfl =>
        have hstart := hc.cell_start hcell
        rw [hfl,hlost] at hstart
        exact absurd (Option.some.inj hstart) hcb
      | inr ho =>
        obtain ⟨hd,hfr,hcount⟩ := ho c hlost
        exact ⟨(Function.update_of_ne hcb _ _).trans hd,hfr,
          fun h => (Function.update_of_ne hcb _ _).trans (hcount h)⟩
  have hfields : ∀ g∈(lay.fields b).reverse,
      lay.home g=some b ∧ (begun b s).slots g≠none ∧ (g∈f::P → g=lost) := by
    intro g hg
    have hghome := (lay.mem_fields g b).mp (List.mem_reverse.mp hg)
    have hliving : ∀ h,lay.home g=some h → s.destroyed h≠1 := by
      intro h hh hd
      rw [hghome] at hh
      cases hh
      rw [hdead] at hd
      cases hd
    refine ⟨hghome,?_,?_⟩
    · have hsame : s.slots g=start.slots g := by
        by_contra hne
        obtain ⟨h,hh,hd⟩ := hc.cleared g hne
        exact hliving h hh hd
      exact fun h => hw.built g b hghome (hsame.symm.trans h)
    · intro hmem
      refine (hc.given hp g hmem).resolve_right ?_
      rintro ⟨h,hh,hd⟩
      exact hliving h hh hd
  have hless := alive_begun hdead
  obtain ⟨t,ht,hct,hot,hclean⟩ := fields_spec hspec (List.nodup_reverse.mpr (lay.nodup b)) hfields
    (hc.pushLast hf hp hcell hone) hopened hself hfreed (by omega)
  refine ⟨t,?_,hct,hot,hclean⟩
  rw [release_last hhome hslot hfreed (by rw [hc.count b hdead,hone]),ht]
  rfl

/-- The destructor of a field that is the last handle on its block. -/
theorem last_field_spec (hw : WellCounted lay start) (hspec : HandleSpec lay start lost n)
    (hc : Cascade lay start lost s P) (ho : Opened start lost s) (hfp : lay.home f=some p)
    (hd : s.destroyed p=1) (hfr : s.freed p=0) (hf : f∉P) (hcell : cellOf s.slots f=some b)
    (hone : counted s.slots P b=1) (hn : alive s<n+1) :
    ∃ t,destroyHandle lay (n+1) f s=some t ∧ Cascade lay start lost t P ∧ Opened start lost t ∧
      Cleans lay [f] s t := by
  obtain ⟨hdb,hfb⟩ := hc.alive hf hcell
  have hpb : p≠b := by
    rintro rfl
    rw [hd] at hdb
    cases hdb
  have hbegun : (begun b s).destroyed p=1 := begun_more hdb hd
  have hhomes : ∀ l∈(lay.fields b).reverse,lay.home l=some b :=
    fun l hl => (lay.mem_fields l b).mp (List.mem_reverse.mp hl)
  obtain ⟨t,ht,hct,hot,hkept⟩ := last_spec hw hspec hc (Or.inr ho) hf (Or.inr ⟨p,hfp,hd⟩)
    (homeFreed_field hfp hfr) hcell hone hn
  obtain ⟨hdt,hft⟩ := hkept.kept p hbegun
  obtain ⟨hdbt,hfbt⟩ := hkept.kept b (begun_self hdb)
  -- the handle itself is in another object and is still there for `kfree(cb_)`
  have hslot : t.slots f=s.slots f := by
    refine hkept.others f p hfp hbegun ?_
    intro hm
    rw [hhomes f hm] at hfp
    exact hpb (Option.some.inj hfp).symm
  have hfree := freeBlock_ok (homeFreed_field hfp (hft.trans hfr))
    (by rwa [cellOf,hslot] : cellOf t.slots f=some b)
  have hempty : ∀ l,lay.home l=some b → t.slots l=none :=
    fun l hl => hkept.removed l (List.mem_reverse.mpr ((lay.mem_fields l b).mpr hl))
  refine ⟨put f none {t with freed := Function.update t.freed b (t.freed b+1)},
    ?_,?_,?_,(hkept.close hdb hfb hhomes).put f⟩
  · rw [destroyHandle,ht,Option.map_some,hfree]
  · have hdone := (hct.free hdbt (hfbt.trans hfb) hempty).clear List.mem_cons_self hfp hdt
    exact hdone.forget (Function.update_self _ _ _)
  · refine Opened.put (hot.free ?_) f
    intro hlost
    have hd' := (ho b hlost).1
    rw [hdb] at hd'
    cases hd'

/-- The destructor of a field keeps the invariant and finishes what it starts. -/
theorem handle_spec (hw : WellCounted lay start) (n : ℕ) : HandleSpec lay start lost n := by
  induction n with
  | zero => exact fun _ _ _ _ _ _ _ _ _ _ _ hn => absurd hn (Nat.not_lt_zero _)
  | succ n ih =>
    intro s P f p hc ho hfp hd hfr hslot hpend hn
    by_cases hf : f∈P
    · obtain rfl := hpend hf
      exact lost_spec hc ho hfp hd hfr hslot hf
    · have hp : GivenUp lay lost s f := Or.inr ⟨p,hfp,hd⟩
      have hhome := homeFreed_field hfp hfr
      have hclean : Cleans lay [f] s (put f none s) := (Cleans.refl hc.life).put f
      cases hcell : cellOf s.slots f with
      | none =>
        refine ⟨put f none s,?_,?_,ho.put f,hclean⟩
        · rw [destroyHandle,release_null hhome hslot hcell,Option.map_some]
        · have hpushed := (hc.pushNull hf hp hcell).clear List.mem_cons_self hfp hd
          exact hpushed.forget (Function.update_self _ _ _)
      | some b =>
        have hbound := count_lt hw hc b
        obtain ⟨hdb,hfb⟩ := hc.alive hf hcell
        obtain ⟨m,hm⟩ := Nat.exists_eq_succ_of_ne_zero (Nat.ne_of_gt (counted_pos hf hcell))
        cases m with
        | zero => exact last_field_spec hw ih hc ho hfp hd hfr hf hcell hm hn
        | succ m =>
          have hcount : s.count b=BitVec.ofNat 32 (m+2) := by rw [hc.count b hdb,hm]
          refine ⟨put f none {s with count := Function.update s.count b (BitVec.ofNat 32 (m+1))},
            ?_,?_,(ho.recountLive hdb _).put f,hclean.recount _⟩
          · rw [destroyHandle,release_many hhome hcell hfb hcount (by omega),Option.map_some]
          · have hpushed := (hc.pushDrop hf hp hcell hm).clear List.mem_cons_self hfp hd
            exact hpushed.forget (Function.update_self _ _ _)

/-- A release ends. It settles the heap if it keeps the handle that it
releases, and breaks something if it destroys it. -/
theorem release_spec (hw : WellCounted lay start) (hslot : start.slots lost≠none) :
    ∃ t,release lay (depth B) lost start=some t ∧
      (Stays lay start.slots lost lost → Settled lay start lost t) ∧
      (¬Stays lay start.slots lost lost → t.fault=true) := by
  have hc : Cascade lay start lost start [] := .begin hw
  have hf := List.not_mem_nil (a := lost)
  have hhome : homeFreed lay lost start=false := homeFreed_ok (fun h _ => (hw.live h).2)
  cases hcell : cellOf start.slots lost with
  | none =>
    have hs : Settled lay start lost start := .intact (hc.pushNull hf (Or.inl rfl) hcell) hw.live
    exact ⟨start,release_null hhome hslot hcell,fun _ => hs,
      fun hdies => absurd (fun h _ => hs.not_dropped (hw.live h).1) hdies⟩
  | some b =>
    have hbound := count_lt hw hc b
    obtain ⟨m,hm⟩ := Nat.exists_eq_succ_of_ne_zero (Nat.ne_of_gt (counted_pos hf hcell))
    cases m with
    | succ m =>
      have hcount : start.count b=BitVec.ofNat 32 (m+2) := by rw [hc.count b (hw.live b).1,hm]
      have hs := Settled.intact (hc.pushDrop hf (Or.inl rfl) hcell hm) hw.live
      refine ⟨_,?_,fun _ => hs,fun hdies => absurd (fun h _ => hs.not_dropped (hw.live h).1) hdies⟩
      rw [depth,release_many hhome hcell (hw.live b).2 hcount (by omega)]
    | zero =>
      obtain ⟨t,ht,hct,_,hkept⟩ := last_spec hw (handle_spec hw (Fintype.card B)) hc (Or.inl rfl) hf
        (Or.inl rfl) hhome hcell hm (Nat.lt_succ_of_le (alive_le_card start))
      exact ⟨_,ht,freeBlock_spec hw hcell hct hkept⟩

end Specs

end Kpp.SharedRelease
