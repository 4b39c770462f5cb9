import Kpp.SharedRelease
import Mathlib.Data.Fin.VecNotation

/-!
# Assignment between linked handles

`operator=` releases the old object of its target before it reads the other
handle. If the release destroys the object that holds one of the two handles,
a destroyed handle is used. Otherwise the target ends with the object of the
other handle and all counts are correct, unless a copy overflows the count.
-/

namespace Kpp.SharedAssign

open CountAccounts CountedGraph KernelAtomic PointUpdate SharedHandle SharedHeap SharedCascade
  SharedRelease

variable {L B : Type*} {lay : Layout L B} {dst src l : L} {s t : Heap L B} {b : B}

variable [DecidableEq L] [DecidableEq B]

/-- A broken heap stays broken. -/
theorem takeOver_fault (how : Transfer) (hf : t.fault=true) :
    (takeOver lay how dst src t).fault=true := by
  have haccess : (access lay dst (access lay src t)).fault=true := by
    dsimp only [access]
    rw [hf]
    simp only [Bool.true_or]
  dsimp only [takeOver]
  split
  · rfl
  · cases how with
    | copy =>
      dsimp only
      split
      · dsimp only [setCount,touch,put]
        rw [haccess,Bool.true_or]
      · exact haccess
    | move => exact haccess

/-- Reading a destroyed handle breaks the heap. -/
theorem takeOver_raw (how : Transfer) (hsrc : t.slots src=none) :
    (takeOver lay how dst src t).fault=true := by
  have hslot : (access lay dst (access lay src t)).slots src=none := hsrc
  dsimp only [takeOver]
  rw [hslot]

/-- The rest of an assignment between handles in storage that is there. -/
theorem takeOver_ok (how : Transfer) (hdst : homeFreed lay dst t=false) (hslot : t.slots dst≠none)
    (hsrc : homeFreed lay src t=false) {x : SharedPtr B} (hx : t.slots src=some x)
    (hb : ∀ b,x.cb=some b → t.freed b=0) :
    takeOver lay how dst src t=match how with
      | .copy => match x.cb with
        | some b => {put dst (some x) t with
            count := Function.update t.count b (atomicInc (t.count b))}
        | none => put dst (some x) t
      | .move => put src (some .null) (put dst (some x) t) := by
  have hsrc' : t.slots src≠none := by rw [hx]; exact Option.some_ne_none x
  rw [takeOver,access_ok hsrc hsrc',access_ok hdst hslot]
  dsimp only
  rw [hx]
  obtain ⟨ptr,cb⟩ := x
  cases how with
  | copy =>
    cases cb with
    | none => rfl
    | some b =>
      have htouch : touch b (put dst (some ⟨ptr,some b⟩) t)=put dst (some ⟨ptr,some b⟩) t :=
        touch_ok (hb b rfl)
      dsimp only [setCount]
      rw [htouch]
      rfl
  | move => rfl

variable [Fintype L]

open Classical in
/-- Handles on a block that are left after the release of the handle `lost`. -/
noncomputable def staying (lay : Layout L B) (slots : L → Option (SharedPtr B)) (lost : L) (b : B) :
    ℕ := ∑ l,if l≠lost ∧ Stays lay slots lost l then refers (cellOf slots l) b else 0

/-- The assignment did what it is for. -/
structure Assigned (dst src : L) (s t : Heap L B) : Prop where
  /-- Nothing was broken. -/
  sound : t.fault=false
  /-- The target has the handle that the other one was. -/
  value : t.slots dst=s.slots src
  /-- Its object is alive. -/
  alive : ∀ b,cellOf s.slots src=some b → t.destroyed b=0 ∧ t.freed b=0
  /-- Counts of the blocks that are left are the numbers of handles on them. -/
  counted : ∀ b,t.freed b=0 → atomicRead (t.count b)=handlesOn t.slots b

/-- A settled release leaves the handles outside of dropped blocks. -/
theorem counted_settled (hs : Settled lay s dst t) (b : B) :
    counted t.slots [dst] b=staying lay s.slots dst b := by
  refine Finset.sum_congr rfl ?_
  intro l _
  by_cases hl : l=dst
  · rw [weight,if_pos (List.mem_singleton.mpr hl),if_neg (fun h => h.1 hl)]
  · rw [weight,if_neg (fun h => hl (List.mem_singleton.mp h))]
    by_cases hst : Stays lay s.slots dst l
    · rw [if_pos ⟨hl,hst⟩,cellOf,cellOf,hs.slot_stays hst]
    · rw [if_neg (fun h => hst h.2),cellOf,hs.slot_gone hst]
      rfl

/-- Storing a handle exchanges the old reference for the new one. -/
theorem handlesOn_put (slots : L → Option (SharedPtr B)) (l : L) (x : SharedPtr B) (b : B) :
    handlesOn (Function.update slots l (some x)) b+refers (cellOf slots l) b=
      handlesOn slots b+refers x.cb b :=
  sum_update (fun _ (v : Option (SharedPtr B)) => refers (v.bind SharedPtr.cb) b) slots l (some x)

/-- The target of a settled release counts for the handle stored in it. -/
theorem handlesOn_target (hs : Settled lay s dst t) (x : SharedPtr B) (b : B) :
    handlesOn (Function.update t.slots dst (some x)) b=staying lay s.slots dst b+refers x.cb b := by
  have hput := handlesOn_put t.slots dst x b
  have hpush := counted_push t.slots (List.not_mem_nil (a := dst)) b
  rw [counted_settled hs,counted_nil] at hpush
  omega

/-- What is stored in the other handle afterwards replaces its reference. -/
theorem handlesOn_moved (hs : Settled lay s dst t) (hne : dst≠src) {x : SharedPtr B}
    (hx : t.slots src=some x) (b : B) :
    handlesOn (Function.update (Function.update t.slots dst (some x)) src (some .null)) b=
      staying lay s.slots dst b := by
  have hput := handlesOn_put (Function.update t.slots dst (some x)) src .null b
  have hcell : cellOf (Function.update t.slots dst (some x)) src=x.cb := by
    rw [cellOf,Function.update_of_ne hne.symm,hx,Option.bind_some]
  rw [hcell,handlesOn_target hs] at hput
  have hnull : refers (SharedPtr.null (B := B)).cb b=0 := rfl
  omega

/-- The count of a block that is left shows what stays. -/
theorem count_settled (hw : WellCounted lay s) (hs : Settled lay s dst t) (hb : t.freed b=0) :
    t.count b=BitVec.ofNat 32 (staying lay s.slots dst b) ∧ staying lay s.slots dst b<2^31 := by
  rw [←counted_settled hs]
  exact ⟨hs.cascade.count b ((hs.finished b).symm.trans hb),count_lt hw hs.cascade b⟩

/-- After a settled release that keeps both handles the rest of the assignment
does what it is for, unless it copies and the count is full. -/
theorem takeOver_assigned (how : Transfer) (hw : WellCounted lay s) (hs : Settled lay s dst t)
    (hdst : Stays lay s.slots dst dst) (hsrc : Stays lay s.slots dst src) (hne : dst≠src)
    (hdstSlot : s.slots dst≠none) {x : SharedPtr B} (hx : s.slots src=some x) :
    Assigned dst src s (takeOver lay how dst src t) ↔
      (how=.copy → ∀ b,cellOf s.slots src=some b → staying lay s.slots dst b+1<2^31) := by
  have hxt : t.slots src=some x := (hs.slot_stays hsrc).trans hx
  have hhome : ∀ l,Stays lay s.slots dst l → homeFreed lay l t=false :=
    fun l hl => homeFreed_ok (fun h hh => (hs.alive (hl h hh)).2)
  have hcell : cellOf s.slots src=x.cb := by rw [cellOf,hx,Option.bind_some]
  have halive : ∀ b,x.cb=some b → t.destroyed b=0 ∧ t.freed b=0 := by
    intro b hb
    refine hs.alive ?_
    intro hd
    obtain ⟨h,hh,hd'⟩ := hd.home_dropped (hcell.trans hb) hne.symm
    exact hsrc h hh hd'
  have hread : ∀ c,t.freed c=0 → refers x.cb c=0 →
      atomicRead (t.count c)=handlesOn (Function.update t.slots dst (some x)) c := by
    intro c hc hzero
    obtain ⟨hcount,hbound⟩ := count_settled hw hs hc
    rw [handlesOn_target hs,hzero,hcount,atomicRead_ofNat hbound,Nat.add_zero]
  have hvalue : Function.update t.slots dst (some x) dst=s.slots src :=
    (Function.update_self _ _ _).trans hx.symm
  rw [takeOver_ok how (hhome dst hdst) (by rwa [hs.slot_stays hdst]) (hhome src hsrc) hxt
    (fun b hb => (halive b hb).2),hcell]
  cases how with
  | copy =>
    cases hcb : x.cb with
    | none =>
      refine ⟨fun _ _ b hb => (by cases hb),fun _ => ?_⟩
      refine ⟨hs.cascade.sound,hvalue,fun b hb => halive b (hcell.symm.trans hb),?_⟩
      exact fun c hc => hread c hc (by rw [hcb]; rfl)
    | some b =>
      dsimp only
      obtain ⟨hcount,hbound⟩ := count_settled hw hs (halive b hcb).2
      have hnum : handlesOn (Function.update t.slots dst (some x)) b=
          staying lay s.slots dst b+1 := by
        rw [handlesOn_target hs,hcb,refers,if_pos rfl]
      have hinc : atomicInc (t.count b)=BitVec.ofNat 32 (staying lay s.slots dst b+1) := by
        rw [hcount,atomicInc_ofNat]
      constructor
      · intro ha _ c hc
        cases hc
        have h := ha.counted b (halive b hcb).2
        dsimp only [put] at h
        rw [Function.update_self,hnum] at h
        exact (atomicRead_eq_natCast h).2
      · intro hfits
        refine ⟨hs.cascade.sound,hvalue,fun c hc => halive c (hcell.symm.trans hc),?_⟩
        intro c hc
        dsimp only [put]
        by_cases hcb' : c=b
        · subst hcb'
          rw [Function.update_self,hinc,hnum,atomicRead_ofNat (hfits rfl c rfl)]
        · rw [Function.update_of_ne hcb']
          exact hread c hc (by rw [hcb,refers,if_neg (fun h => hcb' (Option.some.inj h).symm)])
  | move =>
    refine ⟨fun _ h => (by cases h),fun _ => ?_⟩
    refine ⟨hs.cascade.sound,?_,fun b hb => halive b (hcell.symm.trans hb),?_⟩
    · exact (Function.update_of_ne hne _ _).trans hvalue
    · intro c hc
      obtain ⟨hcount,hbound⟩ := count_settled hw hs hc
      dsimp only [put]
      rw [handlesOn_moved hs hne hxt,hcount,atomicRead_ofNat hbound]

variable [Fintype B]

/-- Assignment does what it is for exactly if its release destroys neither
the object of its target nor that of the other handle, and a copy fits in the count. -/
theorem assign_correct_iff (how : Transfer) (hw : WellCounted lay s) (hdst : s.slots dst≠none)
    (hsrc : s.slots src≠none) :
    (∃ t,assign lay how dst src s=some t ∧ Assigned dst src s t) ↔
      dst=src ∨ Stays lay s.slots dst dst ∧ Stays lay s.slots dst src ∧
        (how=.copy → ∀ b,cellOf s.slots src=some b → staying lay s.slots dst b+1<2^31) := by
  by_cases hne : dst=src
  · subst hne
    refine iff_of_true ⟨s,if_pos rfl,hw.sound,rfl,fun b _ => hw.live b,fun b _ => hw.counted b⟩ ?_
    exact Or.inl rfl
  · obtain ⟨u,hu,hsettled,hbroken⟩ := release_spec hw hdst
    obtain ⟨x,hx⟩ := Option.ne_none_iff_exists'.mp hsrc
    have hassign : assign lay how dst src s=some (takeOver lay how dst src u) := by
      rw [assign,if_neg hne,hu,Option.map_some]
    have honly : (∃ t,assign lay how dst src s=some t ∧ Assigned dst src s t) ↔
        Assigned dst src s (takeOver lay how dst src u) := by
      rw [hassign]
      exact ⟨fun ⟨_,ht,ha⟩ => Option.some.inj ht ▸ ha,fun ha => ⟨_,rfl,ha⟩⟩
    rw [honly,or_iff_right hne]
    by_cases hd : Stays lay s.slots dst dst
    · have hs := hsettled hd
      by_cases hr : Stays lay s.slots dst src
      · rw [takeOver_assigned how hw hs hd hr hne hdst hx]
        exact ⟨fun h => ⟨hd,hr,h⟩,fun h => h.2.2⟩
      · refine iff_of_false ?_ (fun h => hr h.2.1)
        intro ha
        have hf := ha.sound
        rw [takeOver_raw how (hs.slot_gone hr)] at hf
        cases hf
    · refine iff_of_false ?_ (fun h => hd h.1)
      intro ha
      have hf := ha.sound
      rw [takeOver_fault how (hbroken hd)] at hf
      cases hf

/-- Both assignments do what they are for exactly if the release destroys
neither the object of the target nor that of the other handle; a copy also has
to fit in the count. -/
theorem assignment_correct_iff (hw : WellCounted lay s) (hdst : s.slots dst≠none)
    (hsrc : s.slots src≠none) :
    ((∃ t,copyAssign lay dst src s=some t ∧ Assigned dst src s t) ↔
      dst=src ∨ Stays lay s.slots dst dst ∧ Stays lay s.slots dst src ∧
        ∀ b,cellOf s.slots src=some b → staying lay s.slots dst b+1<2^31) ∧
    ((∃ t,moveAssign lay dst src s=some t ∧ Assigned dst src s t) ↔
      dst=src ∨ Stays lay s.slots dst dst ∧ Stays lay s.slots dst src) := by
  have hcopy := assign_correct_iff .copy hw hdst hsrc
  have hmove := assign_correct_iff .move hw hdst hsrc
  simp only [forall_const] at hcopy
  simp only [reduceCtorEq,false_implies,and_true] at hmove
  exact ⟨hcopy,hmove⟩

/-- A root handle and the field of an object. -/
def listLayout : Layout (Fin 2) (Fin 2) where
  fields := ![[1],[]]
  home := ![none,some 0]
  mem_fields := by decide
  nodup := by decide

/-- A list of two objects: the root `head` and `head->next`. -/
def listHeap : Heap (Fin 2) (Fin 2) where
  slots := fun l => some (.ofBlock l)
  count := fun _ => atomicSet 1
  destroyed := fun _ => 0
  freed := fun _ => 0
  fault := false

/-- The counts of the list are correct. -/
theorem listHeap_wellCounted : WellCounted listLayout listHeap where
  sound := rfl
  live := fun _ => ⟨rfl,rfl⟩
  built := fun _ _ _ => Option.some_ne_none _
  coherent := fun _ _ h => by cases h; rfl
  counted := by decide

/-- Whether the list may be advanced. -/
theorem assignment_correct_iff_list :
    ((∃ t,copyAssign listLayout 0 1 listHeap=some t ∧ Assigned 0 1 listHeap t) ↔
      (0 : Fin 2)=1 ∨ Stays listLayout listHeap.slots 0 0 ∧ Stays listLayout listHeap.slots 0 1 ∧
        ∀ b,cellOf listHeap.slots 1=some b → staying listLayout listHeap.slots 0 b+1<2^31) ∧
    ((∃ t,moveAssign listLayout 0 1 listHeap=some t ∧ Assigned 0 1 listHeap t) ↔
      (0 : Fin 2)=1 ∨ Stays listLayout listHeap.slots 0 0 ∧ Stays listLayout listHeap.slots 0 1) :=
  assignment_correct_iff listHeap_wellCounted (Option.some_ne_none _) (Option.some_ne_none _)

/-- `head = head->next` frees the object that holds `next` and then reads it. -/
theorem advance_reads_freed_handle :
    WellCounted listLayout listHeap ∧ listHeap.slots 0≠none ∧ listHeap.slots 1≠none ∧
      (release listLayout (depth (Fin 2)) 0 listHeap).map (homeFreed listLayout 1)=some true ∧
      (¬∃ t,copyAssign listLayout 0 1 listHeap=some t ∧ Assigned 0 1 listHeap t) ∧
      ¬∃ t,moveAssign listLayout 0 1 listHeap=some t ∧ Assigned 0 1 listHeap t := by
  have hfault : ∀ how,(assign listLayout how 0 1 listHeap).map Heap.fault=some true := by
    intro how
    cases how <;> rfl
  have hwrong : ∀ how,¬∃ t,assign listLayout how 0 1 listHeap=some t ∧ Assigned 0 1 listHeap t := by
    rintro how ⟨t,ht,ha⟩
    have hf := hfault how
    rw [ht,Option.map_some,ha.sound] at hf
    cases hf
  exact ⟨listHeap_wellCounted,Option.some_ne_none _,Option.some_ne_none _,rfl,hwrong .copy,
    hwrong .move⟩

end Kpp.SharedAssign
