import Mathlib.Data.Nat.Notation
import Mathlib.Data.List.Nodup
import Mathlib.Logic.Function.Basic
import Mathlib.Tactic.Common

/-!
# Rings of doubly linked cells

Every cell has a pointer to the next and one to the previous cell. A circle
of cells is closed under both, and which of its cells comes first does not
matter. A cell is linked in between two neighbours and unlinked from them by
pointer writes that leave all circles of other cells as they are.
-/

namespace Kpp.PointerRings

variable {Ptr : Type*}

/-- The pointers of all cells. -/
structure Links (Ptr : Type*) where
  /-- Pointer to the next cell. -/
  next : Ptr → Ptr
  /-- Pointer to the previous cell. -/
  prev : Ptr → Ptr

/-- The first cell leads over the listed ones to the last, and back. -/
def Segment (links : Links Ptr) : Ptr → List Ptr → Ptr → Prop
  | a,[],b => links.next a=b ∧ links.prev b=a
  | a,x::xs,b => (links.next a=x ∧ links.prev x=a) ∧ Segment links x xs b

/-- The listed cells lead from each to the next and from the last to the first. -/
def Circle (links : Links Ptr) : List Ptr → Prop
  | [] => True
  | a::xs => Segment links a xs a

variable {links links' : Links Ptr} {a b : Ptr} {xs ys : List Ptr}

/-- A segment is cut at any of its cells. -/
theorem segment_append {x : Ptr} :
    Segment links a (xs++x::ys) b ↔ Segment links a xs x ∧ Segment links x ys b := by
  induction xs generalizing a with
  | nil => exact Iff.rfl
  | cons y xs ih =>
    rw [List.cons_append,Segment,Segment,ih]
    exact and_assoc.symm

/-- A segment depends on the next pointers of all its cells but the last and
on the previous pointers of all but the first. -/
theorem segment_congr (hnext : ∀ p∈a::xs,links'.next p=links.next p)
    (hprev : ∀ p∈b::xs,links'.prev p=links.prev p) (h : Segment links a xs b) :
    Segment links' a xs b := by
  induction xs generalizing a with
  | nil =>
    have ha := hnext a List.mem_cons_self
    have hb := hprev b List.mem_cons_self
    exact ⟨ha.trans h.1,hb.trans h.2⟩
  | cons x xs ih =>
    have ha := hnext a List.mem_cons_self
    have hx := hprev x (List.mem_cons_of_mem b List.mem_cons_self)
    refine ⟨⟨ha.trans h.1.1,hx.trans h.1.2⟩,ih ?_ ?_ h.2⟩
    · exact fun p hp => hnext p (List.mem_cons_of_mem a hp)
    · intro p hp
      rcases List.mem_cons.mp hp with rfl | hp
      · exact hprev p List.mem_cons_self
      · exact hprev p (List.mem_cons_of_mem b (List.mem_cons_of_mem x hp))

/-- A circle depends on the pointers of its own cells only. -/
theorem circle_congr {c : List Ptr} (h : Circle links c)
    (hsame : ∀ p∈c,links'.next p=links.next p ∧ links'.prev p=links.prev p) : Circle links' c := by
  cases c with
  | nil => trivial
  | cons a xs => exact segment_congr (fun p hp => (hsame p hp).1) (fun p hp => (hsame p hp).2) h

/-- Any cell of a circle may come first. -/
theorem circle_rotate (xs ys : List Ptr) (h : Circle links (xs++ys)) : Circle links (ys++xs) := by
  cases xs with
  | nil => simpa only [List.nil_append,List.append_nil] using h
  | cons x xs =>
    cases ys with
    | nil => simpa only [List.nil_append,List.append_nil] using h
    | cons y ys =>
      have hcut := segment_append.mp h
      exact segment_append.mpr ⟨hcut.2,hcut.1⟩

/-- What is known of the neighbours of the first cell of a circle. -/
theorem circle_neighbours (h : Circle links (a::xs)) :
    links.prev (links.next a)=a ∧ links.next (links.prev a)=a ∧
      links.next a∈a::xs ∧ links.prev a∈a::xs := by
  have hafter : links.prev (links.next a)=a ∧ links.next a∈a::xs := by
    cases xs with
    | nil =>
      rw [h.1]
      exact ⟨h.2,List.mem_cons_self⟩
    | cons x xs =>
      rw [h.1.1]
      exact ⟨h.1.2,List.mem_cons_of_mem a List.mem_cons_self⟩
  have hbefore : links.next (links.prev a)=a ∧ links.prev a∈a::xs := by
    rcases List.eq_nil_or_concat' xs with rfl | ⟨ws,w,rfl⟩
    · rw [h.2]
      exact ⟨h.1,List.mem_cons_self⟩
    · have hlast := (segment_append.mp h).2
      rw [hlast.2]
      exact ⟨hlast.1,List.mem_cons_of_mem a List.mem_concat_self⟩
  exact ⟨hafter.1,hbefore.1,hafter.2,hbefore.2⟩

/-- The two pointers are inverse on a circle, and do not leave it. -/
theorem circle_inverse {c : List Ptr} (h : Circle links c) {p : Ptr} (hp : p∈c) :
    links.prev (links.next p)=p ∧ links.next (links.prev p)=p ∧
      links.next p∈c ∧ links.prev p∈c := by
  obtain ⟨us,vs,rfl⟩ := List.append_of_mem hp
  have hmem : ∀ q,q∈p::(vs++us) → q∈us++p::vs := by
    intro q hq
    simp only [List.mem_cons,List.mem_append] at hq ⊢
    tauto
  have hfirst := circle_neighbours (circle_rotate us (p::vs) h)
  exact ⟨hfirst.1,hfirst.2.1,hmem _ hfirst.2.2.1,hmem _ hfirst.2.2.2⟩

variable [DecidableEq Ptr]

/-- Link a cell in between two others. -/
def Links.link (cell before after : Ptr) (links : Links Ptr) : Links Ptr :=
  ⟨Function.update (Function.update links.next cell after) before cell,
    Function.update (Function.update links.prev after cell) cell before⟩

/-- Make two cells neighbours. -/
def Links.join (before after : Ptr) (links : Links Ptr) : Links Ptr :=
  ⟨Function.update links.next before after,Function.update links.prev after before⟩

/-- Linking writes to the cell and its neighbours only. -/
theorem link_frame {cell before after p : Ptr} (hcell : p≠cell) (hbefore : p≠before)
    (hafter : p≠after) : (links.link cell before after).next p=links.next p ∧
      (links.link cell before after).prev p=links.prev p := by
  constructor
  · exact (Function.update_of_ne hbefore _ _).trans (Function.update_of_ne hcell _ _)
  · exact (Function.update_of_ne hcell _ _).trans (Function.update_of_ne hafter _ _)

/-- Joining writes to the two neighbours only. -/
theorem join_frame {before after p : Ptr} (hbefore : p≠before) (hafter : p≠after) :
    (links.join before after).next p=links.next p ∧
      (links.join before after).prev p=links.prev p :=
  ⟨Function.update_of_ne hbefore _ _,Function.update_of_ne hafter _ _⟩

/-- A new cell linked in behind the first one of a circle. -/
theorem circle_link {cell : Ptr} (h : Circle links (a::xs)) (hd : (cell::a::xs).Nodup) :
    Circle (links.link cell a (links.next a)) (a::cell::xs) := by
  have hcell := (List.nodup_cons.mp hd).1
  have ha := (List.nodup_cons.mp (List.nodup_cons.mp hd).2).1
  have hne : cell≠a := fun he => hcell (he ▸ List.mem_cons_self)
  have hnext : (links.link cell a (links.next a)).next a=cell := Function.update_self _ _ _
  have hprev : (links.link cell a (links.next a)).prev cell=a := Function.update_self _ _ _
  have hcellNext : (links.link cell a (links.next a)).next cell=links.next a :=
    (Function.update_of_ne hne _ _).trans (Function.update_self _ _ _)
  have hafter : links.next a≠cell → (links.link cell a (links.next a)).prev (links.next a)=cell :=
    fun hn => (Function.update_of_ne hn _ _).trans (Function.update_self _ _ _)
  refine ⟨⟨hnext,hprev⟩,?_⟩
  cases xs with
  | nil =>
    rw [h.1] at hcellNext hafter ⊢
    exact ⟨hcellNext,hafter hne.symm⟩
  | cons x xs =>
    have hx : x≠cell := fun he => hcell (he ▸ List.mem_cons_of_mem a List.mem_cons_self)
    have hrest := (List.nodup_cons.mp (List.nodup_cons.mp (List.nodup_cons.mp hd).2).2).1
    rw [h.1.1] at hcellNext hafter ⊢
    refine ⟨⟨hcellNext,hafter hx⟩,segment_congr ?_ ?_ h.2⟩
    · intro p hp
      have hpa : p≠a := fun he => ha (he ▸ hp)
      have hpc : p≠cell := fun he => hcell (he ▸ List.mem_cons_of_mem a hp)
      exact (Function.update_of_ne hpa _ _).trans (Function.update_of_ne hpc _ _)
    · intro p hp
      have hpc : p≠cell := by
        rintro rfl
        rcases List.mem_cons.mp hp with he | hp
        · exact hne he
        · exact hcell (List.mem_cons_of_mem a (List.mem_cons_of_mem x hp))
      have hpx : p≠x := by
        rintro rfl
        rcases List.mem_cons.mp hp with he | hp
        · exact ha (he ▸ List.mem_cons_self)
        · exact hrest hp
      exact (Function.update_of_ne hpc _ _).trans (Function.update_of_ne hpx _ _)

/-- A new cell linked in before the first one of a circle. -/
theorem circle_link_before {cell : Ptr} (h : Circle links (a::xs)) (hd : (cell::a::xs).Nodup) :
    Circle (links.link cell (links.prev a) a) (a::(xs++[cell])) := by
  rcases List.eq_nil_or_concat' xs with rfl | ⟨ws,w,rfl⟩
  · have hlink := circle_link h hd
    rw [h.1] at hlink
    rw [h.2]
    exact hlink
  · have hlast := (segment_append.mp h).2
    have hturned : Circle links (w::a::ws) := circle_rotate (a::ws) [w] h
    have hperm : (cell::a::(ws++[w])).Perm (cell::w::a::ws) :=
      List.Perm.cons cell (List.perm_append_singleton w (a::ws))
    have hlink := circle_link hturned (hperm.nodup_iff.mp hd)
    rw [hlast.1] at hlink
    rw [hlast.2,List.append_assoc]
    exact circle_rotate [w,cell] (a::ws) hlink

/-- A circle without its first cell, whose neighbours were joined. -/
theorem circle_join (h : Circle links (a::xs)) (hd : (a::xs).Nodup) :
    Circle (links.join (links.prev a) (links.next a)) xs := by
  cases xs with
  | nil => trivial
  | cons z zs =>
    have hz := (List.nodup_cons.mp (List.nodup_cons.mp hd).2).1
    rw [h.1.1]
    rcases List.eq_nil_or_concat' zs with rfl | ⟨ws,w,rfl⟩
    · rw [h.2.2]
      exact ⟨Function.update_self _ _ _,Function.update_self _ _ _⟩
    · have hcut := segment_append.mp h.2
      have hws := (List.nodup_append.mp (List.nodup_cons.mp (List.nodup_cons.mp hd).2).2).2.2
      have hzw : z≠w := fun he => hz (he ▸ List.mem_concat_self)
      rw [hcut.2.2]
      refine segment_append.mpr ⟨segment_congr ?_ ?_ hcut.1,Function.update_self _ _ _,
        Function.update_self _ _ _⟩
      · intro p hp
        have hpw : p≠w := by
          rintro rfl
          rcases List.mem_cons.mp hp with he | hp
          · exact hzw he.symm
          · exact hws p hp p List.mem_cons_self rfl
        exact Function.update_of_ne hpw _ _
      · intro p hp
        have hpz : p≠z := by
          rintro rfl
          rcases List.mem_cons.mp hp with he | hp
          · exact hzw he
          · exact hz (List.mem_append_left _ hp)
        exact Function.update_of_ne hpz _ _

end Kpp.PointerRings
