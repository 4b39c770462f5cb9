import Mathlib.Data.Fintype.Option
import Kpp.SharedReclaim

/-!
# What shared pointers never give back

Objects whose fields refer to each other in a circle keep their counts above
zero. In a heap of any shape with correct counts, the destructor of a root
handle ends and reclaims what is held neither by another root nor by a circle;
what hangs on a circle is left behind, whether or not anything can still
reach it.
-/

namespace Kpp.SharedCycles

open CountAccounts CountedGraph KernelAtomic SharedHandle SharedHeap SharedCascade SharedRelease
  SharedReclaim

variable {L B : Type*} [Fintype L] [DecidableEq L] [DecidableEq B]

/-- From `s` to `t` the root handle `l` was destroyed, and with it all that
nothing else held. -/
structure Swept (lay : Layout L B) (l : L) (s t : Heap L B) : Prop where
  /-- Nothing was broken. -/
  sound : t.fault=false
  /-- What neither a root nor a circle holds is destroyed and freed, each once. -/
  swept : ∀ b,¬Held lay.home (cellOf s.slots) l b → t.destroyed b=1 ∧ t.freed b=1
  /-- What one of them holds is neither. -/
  left : ∀ b,Held lay.home (cellOf s.slots) l b → t.destroyed b=0 ∧ t.freed b=0
  /-- The root is destroyed. -/
  removed : t.slots l=none
  /-- Fields of destroyed objects are destroyed. -/
  emptied : ∀ f b,lay.home f=some b → ¬Held lay.home (cellOf s.slots) l b → t.slots f=none
  /-- All other handles are as before. -/
  untouched : ∀ f,f≠l → (∀ b,lay.home f=some b → Held lay.home (cellOf s.slots) l b) →
    t.slots f=s.slots f
  /-- Counts of the objects that are left are the numbers of handles on them. -/
  counted : ∀ b,Held lay.home (cellOf s.slots) l b → atomicRead (t.count b)=handlesOn t.slots b

variable [Fintype B] {lay : Layout L B} {s : Heap L B} {l : L}

/-- Destroying a root handle of any heap with correct counts ends, at every
sufficient depth in the same state, and reclaims exactly what is held neither
by another root nor by a circle of fields. -/
theorem destroy_root_sweeps (hw : WellCounted lay s) (hheld : ∀ b,0<handlesOn s.slots b)
    (hroot : lay.home l=none) (hslot : s.slots l≠none) :
    ∃ t,(∀ n,depth B≤n → destroyHandle lay n l s=some t) ∧ Swept lay l s t := by
  have hstays : Stays lay s.slots l l := by
    intro h hh
    rw [hroot] at hh
    cases hh
  obtain ⟨t,ht,hsettled,-⟩ := release_spec hw hslot
  have hs := hsettled hstays
  have hnamed : ∀ b,∃ l',cellOf s.slots l'=some b := by
    intro b
    have hpos := hheld b
    rw [←counted_nil] at hpos
    obtain ⟨l',-,hl'⟩ := exists_of_counted_pos hpos
    exact ⟨l',hl'⟩
  have hdropped := dropped_iff_not_held hroot hnamed
  have hkept : ∀ {b},Held lay.home (cellOf s.slots) l b →
      ¬Dropped lay.home (cellOf s.slots) l b := by
    intro b hb hd
    exact (hdropped b).mp hd hb
  have hother : ∀ f,f≠l → (put l none t).slots f=t.slots f :=
    fun f hf => Function.update_of_ne hf _ _
  have hfield : ∀ {f b},lay.home f=some b → f≠l := by
    intro f b hf he
    rw [he,hroot] at hf
    cases hf
  refine ⟨put l none t,?_,?_⟩
  · intro n hn
    refine destroyHandle_mono hn ?_
    rw [destroyHandle,ht,Option.map_some]
  · refine ⟨hs.cascade.sound,?_,fun b hb => hs.alive (hkept hb),Function.update_self _ _ _,
      ?_,?_,?_⟩
    · intro b hb
      have hd := hs.complete b ((hdropped b).mpr hb)
      exact ⟨hd,(hs.finished b).trans hd⟩
    · intro f b hf hb
      rw [hother f (hfield hf)]
      exact hs.slot_gone (fun hst => hst b hf ((hdropped b).mpr hb))
    · intro f hne hf
      rw [hother f hne]
      exact hs.slot_stays (fun h hh => hkept (hf h hh))
    · intro b hb
      have hcount : counted t.slots [l] b=handlesOn (put l none t).slots b := by
        rw [←counted_clear List.mem_cons_self,counted_forget (Function.update_self _ _ _),
          counted_nil]
        rfl
      have hlive := (hs.alive (hkept hb)).1
      rw [←hcount]
      change atomicRead (t.count b)=_
      rw [hs.cascade.count b hlive,atomicRead_ofNat (count_lt hw hs.cascade b)]

/-- A root handle, and two objects with a field each. -/
def ringLayout : Layout (Option Bool) Bool where
  fields := fun b => [some b]
  home := id
  mem_fields := by decide
  nodup := by decide

/-- Each of the two objects refers to the other one, and the root to the first. -/
def ringHeap : Heap (Option Bool) Bool where
  slots := fun l => some (.ofBlock (l.elim false not))
  count := fun b => atomicSet (if b=true then 1 else 2)
  destroyed := fun _ => 0
  freed := fun _ => 0
  fault := false

/-- The counts of this heap are correct. -/
theorem ringHeap_wellCounted : WellCounted ringLayout ringHeap where
  sound := rfl
  live := fun _ => ⟨rfl,rfl⟩
  built := fun _ _ _ => Option.some_ne_none _
  coherent := fun _ _ h => by cases h; rfl
  counted := by decide

/-- After the only root is gone the objects of the circle are still there. -/
theorem destroy_root_sweeps_ring :
    ∃ t,(∀ n,depth Bool≤n → destroyHandle ringLayout n none ringHeap=some t) ∧
      Swept ringLayout none ringHeap t :=
  destroy_root_sweeps ringHeap_wellCounted (by decide) rfl (Option.some_ne_none _)

/-- No object is freed. -/
example : (destroyHandle ringLayout 4 none ringHeap).map (fun t => (t.freed false,t.freed true))=
    some (0,0) := by decide

end Kpp.SharedCycles
