import Kpp.PointUpdate

/-!
# Counted nodes that hold their parents

A node has a count of references, and holds one of its parent's until it lets
go of the parent. Giving up the last reference of a node releases it, and the
node lets go of its parent, so that one reference given up may release a chain
of nodes. References that are not those of children are held outside.
-/

namespace Kpp.ParentChains

open PointUpdate

variable {K : Type*}

/-- Counted nodes with their parents. -/
structure Forest (K : Type*) where
  /-- References of each node. -/
  refs : K → ℕ
  /-- The parent of which the node holds a reference. -/
  parent : K → Option K
  /-- How often each node was released. -/
  released : K → ℕ
  /-- A reference was given up or taken where there was none. -/
  broken : Bool

section Operations
variable [DecidableEq K]

/-- One reference more. -/
def Forest.take (k : K) (f : Forest K) : Forest K :=
  {f with
    refs := Function.update f.refs k (f.refs k+1)
    broken := f.broken || f.refs k==0}

/-- The node is released, and lets go of its parent. -/
def Forest.release (k : K) (f : Forest K) : Forest K :=
  {f with
    refs := Function.update f.refs k 0
    parent := Function.update f.parent k none
    released := Function.update f.released k (f.released k+1)}

/-- One reference less, through at most so many nodes. -/
def Forest.drop : ℕ → K → Forest K → Forest K
  | 0,_,f => {f with broken := true}
  | n+1,k,f =>
    if f.refs k=0 then {f with broken := true}
    else if f.refs k=1 then
      match f.parent k with
      | some p => Forest.drop n p (f.release k)
      | none => f.release k
    else {f with refs := Function.update f.refs k (f.refs k-1)}

/-- The node holds a reference of this parent from now on. -/
def Forest.attach (k p : K) (f : Forest K) : Forest K :=
  {f.take p with parent := Function.update f.parent k (some p)}

/-- The node lets go of its parent. -/
def Forest.detach (n : ℕ) (k : K) (f : Forest K) : Forest K :=
  match f.parent k with
  | some p => Forest.drop n p {f with parent := Function.update f.parent k none}
  | none => f

/-- Number of children that hold the node. -/
def Forest.children [Fintype K] (f : Forest K) (k : K) : ℕ := countCells (·=some k) f.parent

end Operations

/-- The node is released when one reference of the first one is given up: it
and all nodes on the way to it have one reference. -/
inductive Falls (f : Forest K) : K → K → Prop where
  | last {k : K} (hlast : f.refs k=1) : Falls f k k
  | up {k p a : K} (hlast : f.refs k=1) (hparent : f.parent k=some p) (hp : Falls f p a) :
    Falls f k a

/-- Parents come before their children. -/
def Ranked (rank : K → ℕ) (f : Forest K) : Prop := ∀ k p,f.parent k=some p → rank p<rank k

/-- References are those held outside and by children. -/
structure Accounts [Fintype K] [DecidableEq K] (outside : K → ℕ) (f : Forest K) : Prop where
  /-- The counts are correct. -/
  counted : ∀ k,f.refs k=outside k+f.children k
  /-- Nothing is broken. -/
  sound : f.broken=false

variable {rank : K → ℕ} {f f' g : Forest K} {k p a : K}

/-- Only nodes before the first one fall with it. -/
theorem Falls.rank_le (hr : Ranked rank f) (h : Falls f k a) : rank a≤rank k := by
  induction h with
  | last _ => exact Nat.le_refl _
  | up _ hparent _ ih =>
    have hp := hr _ _ hparent
    omega

/-- What falls depends on the nodes before the first one. -/
theorem Falls.congr (hr : Ranked rank f) (hsame : ∀ j,rank j≤rank k →
    f'.refs j=f.refs j ∧ f'.parent j=f.parent j) (h : Falls f k a) : Falls f' k a := by
  induction h with
  | last hlast => exact .last ((hsame _ (Nat.le_refl _)).1.trans hlast)
  | up hlast hparent _ ih =>
    obtain ⟨hrefs,hup⟩ := hsame _ (Nat.le_refl _)
    have hp := hr _ _ hparent
    exact .up (hrefs.trans hlast) (hup.trans hparent) (ih (fun j hj => hsame j (by omega)))

/-- What falls had one reference. -/
theorem Falls.refs_eq (h : Falls f k a) : f.refs a=1 := by
  induction h with
  | last hlast => exact hlast
  | up _ _ _ ih => exact ih

/-- A node with other references keeps everything standing. -/
theorem not_falls (h : f.refs k≠1) : ¬Falls f k a := by
  intro hfalls
  cases hfalls with
  | last hlast => exact h hlast
  | up hlast _ _ => exact h hlast

/-- A node with one reference falls, and then what falls with its parent. -/
theorem falls_iff (h : f.refs k=1) : Falls f k a ↔ a=k ∨ ∃ p,f.parent k=some p ∧ Falls f p a := by
  constructor
  · intro hfalls
    cases hfalls with
    | last _ => exact Or.inl rfl
    | up _ hparent hp => exact Or.inr ⟨_,hparent,hp⟩
  · rintro (rfl | ⟨p,hparent,hp⟩)
    · exact .last h
    · exact .up h hparent hp

/-- From `f` to `g` one reference on a node was given up. -/
structure Dropped [Fintype K] [DecidableEq K] (outside : K → ℕ) (k : K) (f g : Forest K) :
    Prop where
  /-- The other references are accounted for. -/
  accounts : Accounts outside g
  /-- No node has more references than before. -/
  refs_le : ∀ a,g.refs a≤f.refs a
  /-- What falls is released once, and has no reference and no parent left. -/
  fell : ∀ a,Falls f k a → g.refs a=0 ∧ g.released a=f.released a+1 ∧ g.parent a=none
  /-- What does not fall is not released, and keeps its parent and a reference. -/
  stood : ∀ a,¬Falls f k a → g.released a=f.released a ∧ g.parent a=f.parent a ∧
    (f.refs a≠0 → g.refs a≠0)

variable [DecidableEq K]

/-- What a release does to the node, and to the other nodes. -/
theorem release_self : (f.release k).refs k=0 ∧ (f.release k).parent k=none ∧
    (f.release k).released k=f.released k+1 :=
  ⟨Function.update_self _ _ _,Function.update_self _ _ _,Function.update_self _ _ _⟩

theorem release_other (ha : a≠k) : (f.release k).refs a=f.refs a ∧
    (f.release k).parent a=f.parent a ∧ (f.release k).released a=f.released a :=
  ⟨Function.update_of_ne ha _ _,Function.update_of_ne ha _ _,Function.update_of_ne ha _ _⟩

/-- Parents still come first after a release. -/
theorem Ranked.release (hr : Ranked rank f) : Ranked rank (f.release k) := by
  intro j p hp
  by_cases hj : j=k
  · rw [hj,release_self.2.1] at hp
    exact absurd hp nofun
  · rw [(release_other hj).2.1] at hp
    exact hr j p hp

/-- Below a node that is released the same falls as before. -/
theorem falls_release (hr : Ranked rank f) (hp : rank p<rank k) :
    Falls (f.release k) p a ↔ Falls f p a := by
  have hsame : ∀ j,rank j≤rank p →
      (f.release k).refs j=f.refs j ∧ (f.release k).parent j=f.parent j := by
    intro j hj
    have hne : j≠k := fun h => by rw [h] at hj; omega
    exact ⟨(release_other hne).1,(release_other hne).2.1⟩
  constructor
  · exact Falls.congr hr.release (fun j hj => ⟨(hsame j hj).1.symm,(hsame j hj).2.symm⟩)
  · exact Falls.congr hr hsame

/-- Giving up a reference clears parents at most, and nothing behind the node changes. -/
theorem drop_frame {n : ℕ} (hr : Ranked rank f) :
    (∀ j,(f.drop n k).parent j=f.parent j ∨ (f.drop n k).parent j=none) ∧
      ∀ j,rank k<rank j → (f.drop n k).parent j=f.parent j ∧ (f.drop n k).refs j=f.refs j := by
  induction n generalizing k f with
  | zero => exact ⟨fun _ => Or.inl rfl,fun _ _ => ⟨rfl,rfl⟩⟩
  | succ n ih =>
    have hreleased : ∀ j,(f.release k).parent j=f.parent j ∨ (f.release k).parent j=none := by
      intro j
      by_cases hj : j=k
      · rw [hj]
        exact Or.inr release_self.2.1
      · exact Or.inl (release_other hj).2.1
    have hbehind : ∀ j,rank k<rank j →
        (f.release k).parent j=f.parent j ∧ (f.release k).refs j=f.refs j := by
      intro j hj
      have hne : j≠k := fun h => by rw [h] at hj; omega
      exact ⟨(release_other hne).2.1,(release_other hne).1⟩
    unfold Forest.drop
    by_cases hzero : f.refs k=0
    · rw [if_pos hzero]
      exact ⟨fun _ => Or.inl rfl,fun _ _ => ⟨rfl,rfl⟩⟩
    rw [if_neg hzero]
    by_cases hlast : f.refs k=1
    · rw [if_pos hlast]
      cases hparent : f.parent k with
      | none => exact ⟨hreleased,hbehind⟩
      | some p =>
        have hp := hr k p hparent
        obtain ⟨hclear,hsame⟩ := ih (k := p) hr.release
        refine ⟨fun j => ?_,fun j hj => ?_⟩
        · rcases hclear j with hold | hnone
          · rw [hold]
            exact hreleased j
          · exact Or.inr hnone
        · obtain ⟨hup,hrefs⟩ := hsame j (by omega)
          rw [hup,hrefs]
          exact hbehind j hj
    · rw [if_neg hlast]
      refine ⟨fun _ => Or.inl rfl,fun j hj => ⟨rfl,Function.update_of_ne ?_ _ _⟩⟩
      exact fun h => by rw [h] at hj; omega

/-- The node itself has one reference less. -/
theorem drop_refs {n : ℕ} (hr : Ranked rank f) (hpos : 0<f.refs k) :
    (f.drop (n+1) k).refs k+1=f.refs k := by
  unfold Forest.drop
  rw [if_neg (by omega)]
  by_cases hlast : f.refs k=1
  · rw [if_pos hlast]
    cases hparent : f.parent k with
    | none => rw [release_self.1,hlast]
    | some p =>
      have hp := hr k p hparent
      rw [((drop_frame (k := p) hr.release).2 k hp).2,release_self.1,hlast]
  · rw [if_neg hlast]
    dsimp only
    rw [Function.update_self]
    omega

variable [Fintype K] {outside : K → ℕ}

/-- Its children stay where they are. -/
theorem drop_children {n : ℕ} (hr : Ranked rank f) : (f.drop n k).children k=f.children k := by
  obtain ⟨hclear,hsame⟩ := drop_frame (n := n) (k := k) hr
  refine Finset.sum_congr rfl ?_
  intro j _
  refine if_congr ?_ rfl rfl
  by_cases hj : rank k<rank j
  · rw [(hsame j hj).1]
  · have hold : ¬f.parent j=some k := fun h => hj (hr j k h)
    rcases hclear j with h | h
    · rw [h]
    · rw [h]
      exact iff_of_false nofun hold

/-- A released node is one child less of its parent. -/
theorem children_release (j : K) :
    (f.release k).children j+(if f.parent k=some j then 1 else 0)=f.children j := by
  have hcount := countCells_update (·=some j) f.parent k none
  rw [if_neg (show ¬(none : Option K)=some j from nofun)] at hcount
  exact hcount

/-- Giving up a reference that is not the last one. -/
theorem dropped_more (hcount : ∀ j,f.refs j=outside j+f.children j+(if j=k then 1 else 0))
    (hsound : f.broken=false) (hmore : f.refs k≠1) :
    Dropped outside k f {f with refs := Function.update f.refs k (f.refs k-1)} := by
  have hself := hcount k
  rw [if_pos rfl] at hself
  have hrefs : ∀ j,Function.update f.refs k (f.refs k-1) j=outside j+f.children j := by
    intro j
    by_cases hj : j=k
    · subst hj
      rw [Function.update_self]
      omega
    · rw [Function.update_of_ne hj,hcount j,if_neg hj,Nat.add_zero]
  refine ⟨⟨hrefs,hsound⟩,?_,fun a h => absurd h (not_falls hmore),fun a _ => ⟨rfl,rfl,?_⟩⟩
  · intro j
    have hj := hcount j
    have hj' := hrefs j
    dsimp only
    omega
  · intro hpos
    dsimp only
    by_cases hj : a=k
    · subst hj
      rw [Function.update_self]
      omega
    · rw [Function.update_of_ne hj]
      exact hpos

/-- The counts after a release: the parent has one reference more than its holders. -/
theorem count_release (hcount : ∀ j,f.refs j=outside j+f.children j+(if j=k then 1 else 0))
    (hlast : f.refs k=1) (hself : f.parent k≠some k) (j : K) :
    (f.release k).refs j=
      outside j+(f.release k).children j+(if f.parent k=some j then 1 else 0) := by
  have hchildren := children_release (f := f) (k := k) j
  have hj := hcount j
  by_cases hne : j=k
  · subst hne
    rw [if_pos rfl] at hj
    rw [if_neg hself] at hchildren
    rw [release_self.1,if_neg hself]
    omega
  · rw [if_neg hne] at hj
    rw [(release_other hne).1]
    omega

/-- Giving up the last reference of a node without a parent. -/
theorem dropped_root (hcount : ∀ j,f.refs j=outside j+f.children j+(if j=k then 1 else 0))
    (hsound : f.broken=false) (hlast : f.refs k=1) (hparent : f.parent k=none) :
    Dropped outside k f (f.release k) := by
  have hrefs := count_release hcount hlast (by rw [hparent]; exact nofun)
  have hfalls : ∀ a,Falls f k a ↔ a=k := by
    intro a
    rw [falls_iff hlast,hparent]
    exact or_iff_left (fun ⟨_,hp,_⟩ => nomatch hp)
  refine ⟨⟨fun j => ?_,hsound⟩,fun a => ?_,fun a ha => ?_,fun a ha => ?_⟩
  · rw [hrefs j,hparent,if_neg (show ¬(none : Option K)=some j from nofun),Nat.add_zero]
  · by_cases ha : a=k
    · rw [ha,release_self.1]
      exact Nat.zero_le _
    · rw [(release_other ha).1]
  · rw [(hfalls a).mp ha]
    exact ⟨release_self.1,release_self.2.2,release_self.2.1⟩
  · obtain ⟨hrefs,hup,hreleased⟩ := release_other (f := f) (fun h => ha ((hfalls a).mpr h))
    exact ⟨hreleased,hup,fun h => by rw [hrefs]; exact h⟩

/-- Giving up the last reference of a node goes on with its parent. -/
theorem dropped_up (hr : Ranked rank f) (hlast : f.refs k=1) (hparent : f.parent k=some p)
    (hd : Dropped outside p (f.release k) g) : Dropped outside k f g := by
  have hp := hr k p hparent
  have hfalls : ∀ a,Falls f k a ↔ a=k ∨ Falls (f.release k) p a := by
    intro a
    rw [falls_iff hlast,hparent,falls_release hr hp]
    simp only [Option.some.injEq,exists_eq_left']
  have hself : ¬Falls (f.release k) p k := by
    intro h
    have hle := h.rank_le hr.release
    omega
  refine ⟨hd.accounts,fun a => ?_,fun a ha => ?_,fun a ha => ?_⟩
  · refine (hd.refs_le a).trans ?_
    by_cases ha : a=k
    · rw [ha,release_self.1]
      exact Nat.zero_le _
    · rw [(release_other ha).1]
  · by_cases hne : a=k
    · subst hne
      obtain ⟨hreleased,hup,_⟩ := hd.stood a hself
      have hle := hd.refs_le a
      rw [release_self.1] at hle
      rw [hreleased,hup]
      exact ⟨Nat.le_zero.mp hle,release_self.2.2,release_self.2.1⟩
    · have hbelow := hd.fell a (((hfalls a).mp ha).resolve_left hne)
      rw [(release_other hne).2.2] at hbelow
      exact hbelow
  · have hne : a≠k := fun h => ha ((hfalls a).mpr (Or.inl h))
    have hbelow := hd.stood a (fun h => ha ((hfalls a).mpr (Or.inr h)))
    rw [(release_other hne).1,(release_other hne).2.1,(release_other hne).2.2] at hbelow
    exact hbelow

/-- Giving up a reference that is held outside releases what falls. -/
theorem drop_spec {n : ℕ} (hr : Ranked rank f) (hn : rank k<n)
    (hcount : ∀ j,f.refs j=outside j+f.children j+(if j=k then 1 else 0))
    (hsound : f.broken=false) : Dropped outside k f (f.drop n k) := by
  induction n generalizing k f with
  | zero => exact absurd hn (Nat.not_lt_zero _)
  | succ n ih =>
    have hself := hcount k
    rw [if_pos rfl] at hself
    unfold Forest.drop
    rw [if_neg (by omega)]
    by_cases hlast : f.refs k=1
    · rw [if_pos hlast]
      cases hparent : f.parent k with
      | none => exact dropped_root hcount hsound hlast hparent
      | some p =>
        have hp := hr k p hparent
        have hne : f.parent k≠some k := fun h => Nat.lt_irrefl _ (hr k k h)
        refine dropped_up hr hlast hparent (ih hr.release (by omega) ?_ hsound)
        intro j
        have hj := count_release hcount hlast hne j
        simp only [hparent,Option.some.injEq,@eq_comm K p j] at hj
        exact hj
    · rw [if_neg hlast]
      exact dropped_more hcount hsound hlast

/-- Parents still come first after a reference was given up. -/
theorem Dropped.ranked (hr : Ranked rank f) (hd : Dropped outside k f g) : Ranked rank g := by
  intro j p hp
  by_cases hj : Falls f k j
  · rw [(hd.fell j hj).2.2] at hp
    exact absurd hp nofun
  · rw [(hd.stood j hj).2.1] at hp
    exact hr j p hp

omit [Fintype K] in
/-- Taking a reference takes none from a node. -/
theorem take_refs (hk : 0<f.refs k) (j : K) :
    f.refs j≤(f.take k).refs j ∧ ((f.take k).refs j=0 ↔ f.refs j=0) := by
  change f.refs j≤Function.update f.refs k (f.refs k+1) j ∧
    (Function.update f.refs k (f.refs k+1) j=0 ↔ f.refs j=0)
  by_cases hne : j=k
  · subst hne
    rw [Function.update_self]
    omega
  · rw [Function.update_of_ne hne]
    omega

/-- A reference that is taken is held outside from then on. -/
theorem Accounts.take (ha : Accounts outside f) (hk : 0<f.refs k) :
    Accounts (Function.update outside k (outside k+1)) (f.take k) := by
  constructor
  · intro j
    have hj := ha.counted j
    change Function.update f.refs k (f.refs k+1) j=_+f.children j
    by_cases hne : j=k
    · subst hne
      rw [Function.update_self,Function.update_self]
      omega
    · rw [Function.update_of_ne hne,Function.update_of_ne hne,hj]
  · have hzero : (f.refs k==0)=false := beq_eq_false_iff_ne.mpr (by omega)
    change (f.broken || f.refs k==0)=false
    rw [ha.sound,hzero]
    rfl

/-- A node that gets a parent is one child more of it. -/
theorem children_attach (hk : f.parent k=none) (j : K) :
    (f.attach k p).children j=f.children j+(if j=p then 1 else 0) := by
  have hcount := countCells_update (·=some j) f.parent k (some p)
  rw [hk,if_neg (show ¬(none : Option K)=some j from nofun),Nat.add_zero] at hcount
  simp only [Option.some.injEq,@eq_comm K p j] at hcount
  exact hcount

/-- A node that gets a parent takes a reference of it. -/
theorem Accounts.attach (ha : Accounts outside f) (hk : f.parent k=none) (hp : 0<f.refs p) :
    Accounts outside (f.attach k p) := by
  refine ⟨fun j => ?_,(ha.take hp).sound⟩
  have hj := ha.counted j
  rw [children_attach hk]
  change Function.update f.refs p (f.refs p+1) j=_
  by_cases hne : j=p
  · subst hne
    rw [Function.update_self,if_pos rfl]
    omega
  · rw [Function.update_of_ne hne,if_neg hne,hj,Nat.add_zero]

/-- A node that lets go of its parent gives up one reference of it. -/
theorem Accounts.detach {n : ℕ} (ha : Accounts outside f) (hr : Ranked rank f)
    (hparent : f.parent k=some p) (hn : rank p<n) :
    Dropped outside p {f with parent := Function.update f.parent k none} (f.detach n k) := by
  have hcleared : Ranked rank {f with parent := Function.update f.parent k none} := by
    intro j q hq
    dsimp only at hq
    by_cases hj : j=k
    · rw [hj,Function.update_self] at hq
      exact absurd hq nofun
    · rw [Function.update_of_ne hj] at hq
      exact hr j q hq
  unfold Forest.detach
  rw [hparent]
  refine drop_spec hcleared hn ?_ ha.sound
  intro j
  have hcount := countCells_update (·=some j) f.parent k none
  rw [hparent,if_neg (show ¬(none : Option K)=some j from nofun)] at hcount
  simp only [Option.some.injEq,@eq_comm K p j] at hcount
  exact (ha.counted j).trans ((congrArg (outside j+·) hcount.symm).trans (Nat.add_assoc _ _ _).symm)

end Kpp.ParentChains
