import Mathlib.Data.Fintype.EquivFin
import Mathlib.Logic.Relation

/-!
# What a counted graph loses with one reference

References have a target block, and a home block unless they are roots.
When one reference is given up, counting reclaims the blocks all of whose
other references have a home that is reclaimed. In an acyclic graph these
are the blocks that no root reaches without the lost reference.
-/

namespace Kpp.CountedGraph

variable {L B : Type*}

section Graph
variable (home target : L → Option B) (gone : L)

/-- A block that is reclaimed once the reference `gone` is given up: it has
references, and all others are inside reclaimed blocks. -/
inductive Dropped : B → Prop where
  | intro {b : B} {l : L} (hl : target l=some b)
      (hhome : ∀ l',target l'=some b → l'≠gone → ∃ h,home l'=some h)
      (hall : ∀ l' h,target l'=some b → l'≠gone → home l'=some h → Dropped h) : Dropped b

/-- A block that is reached from the roots other than `gone`. -/
inductive Reached : B → Prop where
  | root {l : L} {b : B} (hl : target l=some b) (hr : home l=none) (hne : l≠gone) : Reached b
  | field {l : L} {b h : B} (hl : target l=some b) (hh : home l=some h) (hne : l≠gone)
      (hr : Reached h) : Reached b

/-- One block holds a reference on the other. -/
def Edge (h b : B) : Prop := ∃ l,home l=some h ∧ target l=some b

/-- No block reaches itself. -/
def Acyclic : Prop := ∀ b,¬Relation.TransGen (Edge home target) b b

end Graph

variable {home target : L → Option B} {gone : L}

/-- A block with a reference in a block that stays, or with another root, stays. -/
theorem Dropped.home_dropped {b : B} (hd : Dropped home target gone b) {l : L}
    (hl : target l=some b) (hne : l≠gone) : ∃ h,home l=some h ∧ Dropped home target gone h := by
  cases hd with
  | intro _ hhome hall =>
    obtain ⟨h,hh⟩ := hhome l hl hne
    exact ⟨h,hh,hall l h hl hne hh⟩

/-- Reached blocks are not reclaimed. -/
theorem Reached.not_dropped {b : B} (hr : Reached home target gone b) :
    ¬Dropped home target gone b := by
  induction hr with
  | root hl hroot hne =>
    intro hd
    obtain ⟨h,hh,_⟩ := hd.home_dropped hl hne
    rw [hroot] at hh
    cases hh
  | field hl hh hne _ ih =>
    intro hd
    obtain ⟨h',hh',hd'⟩ := hd.home_dropped hl hne
    rw [hh] at hh'
    cases hh'
    exact ih hd'

/-- A graph whose edges go up in some order is acyclic. -/
theorem acyclic_of_rank (rank : B → ℕ)
    (h : ∀ l a b,home l=some a → target l=some b → rank a<rank b) : Acyclic home target := by
  have hup : ∀ {a b},Relation.TransGen (Edge home target) a b → rank a<rank b := by
    intro a b hab
    induction hab with
    | single he =>
      obtain ⟨l,hl,ht⟩ := he
      exact h l _ _ hl ht
    | tail _ he ih =>
      obtain ⟨l,hl,ht⟩ := he
      exact ih.trans (h l _ _ hl ht)
  exact fun b hb => Nat.lt_irrefl _ (hup hb)

/-- Reachability of an acyclic finite graph is well founded. -/
theorem Acyclic.wellFounded [Finite B] (ha : Acyclic home target) :
    WellFounded (Relation.TransGen (Edge home target)) := by
  have htrans : IsTrans B (Relation.TransGen (Edge home target)) := ⟨fun _ _ _ => .trans⟩
  have hirrefl : Std.Irrefl (Relation.TransGen (Edge home target)) := ⟨ha⟩
  exact Finite.wellFounded_of_trans_of_irrefl _

/-- In an acyclic finite graph where every block has a reference exactly the
blocks that the other references do not reach are reclaimed. -/
theorem dropped_iff_not_reached [Finite B] (ha : Acyclic home target)
    (hheld : ∀ b,∃ l,target l=some b) (b : B) :
    Dropped home target gone b ↔ ¬Reached home target gone b := by
  refine ⟨fun hd hr => hr.not_dropped hd,?_⟩
  induction b using ha.wellFounded.induction with
  | _ b ih =>
    intro hnot
    obtain ⟨l,hl⟩ := hheld b
    refine .intro hl ?_ ?_
    · intro l' hl' hne
      cases hh : home l' with
      | none => exact absurd (.root hl' hh hne) hnot
      | some h => exact ⟨h,rfl⟩
    · intro l' h hl' hne hh
      refine ih h (.single ⟨l',hh,hl'⟩) ?_
      intro hr
      exact hnot (.field hl' hh hne hr)

/-- No block that is reclaimed reaches itself. -/
theorem Dropped.not_cycle (hgone : home gone=none) {b : B} (hd : Dropped home target gone b) :
    ¬Relation.TransGen (Edge home target) b b := by
  induction hd with
  | intro hl hhome hall ih =>
    intro hcycle
    obtain ⟨h,hback,l,hh,ht⟩ := Relation.TransGen.tail'_iff.mp hcycle
    have hne : l≠gone := by
      rintro rfl
      exact Option.some_ne_none h (hh.symm.trans hgone)
    exact ih l h ht hne hh (.head' ⟨l,hh,ht⟩ hback)

/-- What leads to a reclaimed block is reclaimed. -/
theorem Dropped.of_leads (hgone : home gone=none) {c b : B}
    (hlead : Relation.ReflTransGen (Edge home target) c b) (hd : Dropped home target gone b) :
    Dropped home target gone c := by
  induction hlead with
  | refl => exact hd
  | tail _ hedge ih =>
    obtain ⟨l,hh,ht⟩ := hedge
    have hne : l≠gone := by
      rintro rfl
      exact Option.some_ne_none _ (hh.symm.trans hgone)
    obtain ⟨h,hh',hd'⟩ := hd.home_dropped ht hne
    obtain rfl := Option.some.inj (hh.symm.trans hh')
    exact ih hd'

/-- The block is reached from the roots other than `gone`, or from a block
that reaches itself. -/
def Held (home target : L → Option B) (gone : L) (b : B) : Prop :=
  Reached home target gone b ∨
    ∃ c,Relation.TransGen (Edge home target) c c ∧ Relation.ReflTransGen (Edge home target) c b

/-- A block with a reference in a held block is held. -/
theorem Held.field (hgone : home gone=none) {h b : B} (hheld : Held home target gone h)
    (hedge : Edge home target h b) : Held home target gone b := by
  rcases hheld with hr | ⟨c,hcycle,hlead⟩
  · obtain ⟨l,hh,ht⟩ := hedge
    refine Or.inl (.field ht hh ?_ hr)
    rintro rfl
    exact Option.some_ne_none h (hh.symm.trans hgone)
  · exact Or.inr ⟨c,hcycle,hlead.tail hedge⟩

/-- Without cycles above it a block of a finite graph comes after all blocks
that lead to it. -/
theorem wellFounded_above [Finite B] {b : B}
    (hfree : ∀ c,Relation.TransGen (Edge home target) c c →
      ¬Relation.ReflTransGen (Edge home target) c b) :
    WellFounded (fun x y : {c // Relation.ReflTransGen (Edge home target) c b} =>
      Relation.TransGen (Edge home target) x.1 y.1) := by
  have htrans : IsTrans {c // Relation.ReflTransGen (Edge home target) c b}
      (fun x y => Relation.TransGen (Edge home target) x.1 y.1) := ⟨fun _ _ _ => .trans⟩
  have hirrefl : Std.Irrefl (fun x y : {c // Relation.ReflTransGen (Edge home target) c b} =>
      Relation.TransGen (Edge home target) x.1 y.1) := ⟨fun x hx => hfree x.1 hx x.2⟩
  exact Finite.wellFounded_of_trans_of_irrefl _

/-- When a root of a finite graph is given up, exactly the blocks that are not
held are reclaimed, with or without cycles. -/
theorem dropped_iff_not_held [Finite B] (hgone : home gone=none)
    (href : ∀ b,∃ l,target l=some b) (b : B) :
    Dropped home target gone b ↔ ¬Held home target gone b := by
  constructor
  · rintro hd (hr | ⟨c,hcycle,hlead⟩)
    · exact hr.not_dropped hd
    · exact (hd.of_leads hgone hlead).not_cycle hgone hcycle
  · intro hnot
    have hfree : ∀ c,Relation.TransGen (Edge home target) c c →
        ¬Relation.ReflTransGen (Edge home target) c b :=
      fun c hcycle hlead => hnot (Or.inr ⟨c,hcycle,hlead⟩)
    -- the blocks above `b` come in an order, none of them is held
    have habove : ∀ x : {c // Relation.ReflTransGen (Edge home target) c b},
        ¬Held home target gone x.1 → Dropped home target gone x.1 := by
      intro x
      induction x using (wellFounded_above hfree).induction with
      | _ x ih =>
        intro hx
        obtain ⟨l,hl⟩ := href x.1
        refine .intro hl ?_ ?_
        · intro l' hl' hne
          cases hh : home l' with
          | none => exact absurd (Or.inl (.root hl' hh hne)) hx
          | some h => exact ⟨h,rfl⟩
        · intro l' h hl' _ hh
          have hedge : Edge home target h x.1 := ⟨l',hh,hl'⟩
          exact ih ⟨h,.head hedge x.2⟩ (.single hedge) (fun hk => hx (hk.field hgone hedge))
    exact habove ⟨b,.refl⟩ hnot

end Kpp.CountedGraph
