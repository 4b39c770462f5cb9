import Kpp.PointUpdate

/-!
# Accounts of counted references

Blocks carry a count of references. References sit in cells, and threads
work on blocks through cells: while a thread is halfway through an operation
a cell may name a block without a counted reference, or a counted reference
may have no cell. The role of a thread says which. The accounts relate
counts, cells, roles and the life of every block, and each rule is one step
of one thread.
-/

namespace Kpp.CountAccounts

open Finset PointUpdate

/-- What a thread is doing to a block. -/
inductive Role (B : Type*) where
  | none
  | making (b : B)
  | holding (b : B)
  | stale (b : B)
  | destroying (b : B)
  | freeing (b : B)

section Weights
variable {B : Type*} [DecidableEq B]

/-- The thread's cell names the block without a counted reference. -/
def Role.owes : Role B → B → ℕ
  | .stale c,b => if b=c then 1 else 0
  | .destroying c,b => if b=c then 1 else 0
  | .freeing c,b => if b=c then 1 else 0
  | _,_ => 0

/-- The thread has a counted reference that is in no cell yet. -/
def Role.holds : Role B → B → ℕ
  | .holding c,b => if b=c then 1 else 0
  | _,_ => 0

/-- The thread has storage for the block and no count yet. -/
def Role.makes : Role B → B → ℕ
  | .making c,b => if b=c then 1 else 0
  | _,_ => 0

/-- The thread dropped the last reference and has to destroy the object. -/
def Role.destroys : Role B → B → ℕ
  | .destroying c,b => if b=c then 1 else 0
  | _,_ => 0

/-- The thread destroyed the object and has to free the block. -/
def Role.frees : Role B → B → ℕ
  | .freeing c,b => if b=c then 1 else 0
  | _,_ => 0

/-- The role of a thread whose cell has this uncounted content. -/
def staleRole : Option B → Role B
  | some b => .stale b
  | none => .none

/-- The cell names the block. -/
def refers (c : Option B) (b : B) : ℕ := if c=some b then 1 else 0

/-- An uncounted cell owes what it names. -/
@[simp] theorem staleRole_owes (c : Option B) (b : B) : (staleRole c).owes b=refers c b := by
  cases c with
  | none => rfl
  | some d => simp only [staleRole,Role.owes,refers,Option.some.injEq,eq_comm]

/-- It has no other role. -/
@[simp] theorem staleRole_rest (c : Option B) (b : B) :
    (staleRole c).holds b=0 ∧ (staleRole c).makes b=0 ∧ (staleRole c).destroys b=0 ∧
      (staleRole c).frees b=0 := by
  cases c <;> exact ⟨rfl,rfl,rfl,rfl⟩

/-- The block that a role is about. -/
def Role.block : Role B → Option B
  | .none => Option.none
  | .making b => some b
  | .holding b => some b
  | .stale b => some b
  | .destroying b => some b
  | .freeing b => some b

/-- A role says nothing about other blocks. -/
theorem Role.elsewhere {r : Role B} {b c : B} (hr : r.block=Option.none ∨ r.block=some b)
    (hc : c≠b) :
    r.owes c=0 ∧ r.holds c=0 ∧ r.makes c=0 ∧ r.destroys c=0 ∧ r.frees c=0 := by
  have hother : ∀ d,r.block=some d → (if c=d then 1 else 0)=0 := by
    intro d hd
    rcases hr with hnone | hsome
    · cases hnone.symm.trans hd
    · exact if_neg (Option.some.inj (hsome.symm.trans hd) ▸ hc)
  cases r with
  | none => exact ⟨rfl,rfl,rfl,rfl,rfl⟩
  | making d => exact ⟨rfl,rfl,hother d rfl,rfl,rfl⟩
  | holding d => exact ⟨rfl,hother d rfl,rfl,rfl,rfl⟩
  | stale d => exact ⟨hother d rfl,rfl,rfl,rfl,rfl⟩
  | destroying d => exact ⟨hother d rfl,rfl,rfl,hother d rfl,rfl⟩
  | freeing d => exact ⟨hother d rfl,rfl,rfl,rfl,hother d rfl⟩

/-- A thread owes at most one reference. -/
theorem Role.owes_le_one (r : Role B) (b : B) : r.owes b≤1 := by
  have hite : ∀ c,(if b=c then 1 else 0)≤1 := by
    intro c
    split <;> omega
  cases r with
  | stale c => exact hite c
  | destroying c => exact hite c
  | freeing c => exact hite c
  | none => exact Nat.zero_le 1
  | making c => exact Nat.zero_le 1
  | holding c => exact Nat.zero_le 1

end Weights

variable {B H T C : Type*} [DecidableEq B] [Fintype H] [Fintype T]

/-- The accounts of all blocks. -/
structure Accounts (enc : ℕ → C) (cells : H → Option B) (roles : T → Role B) (refs born : B → ℕ)
    (count : B → C) (destroyed freed : B → ℕ) : Prop where
  /-- Counted references and uncounted cells are the cells and the references on the way. -/
  balance : ∀ b,refs b+∑ t,(roles t).owes b=∑ h,refers (cells h) b+∑ t,(roles t).holds b
  /-- A block that was born is in one stage of its life. -/
  life : ∀ b,(if 0<refs b then 1 else 0)+∑ t,(roles t).makes b+∑ t,(roles t).destroys b+
    ∑ t,(roles t).frees b+freed b=born b
  /-- Blocks are born once. -/
  once : ∀ b,born b≤1
  /-- One thread makes a block. -/
  single : ∀ b,∑ t,(roles t).makes b+∑ t,(roles t).holds b≤born b
  /-- An object is destroyed before its block is freed. -/
  gone : ∀ b,destroyed b=∑ t,(roles t).frees b+freed b
  /-- The counter of a live block shows its references. -/
  count : ∀ b,0<refs b → count b=enc (refs b)

variable {enc : ℕ → C} {cells cells' : H → Option B} {roles : T → Role B} {refs born : B → ℕ}
  {count : B → C} {destroyed freed : B → ℕ} {b : B} {t : T}

/-- In the accounts a block is destroyed and freed at most once, in this order. -/
theorem Accounts.ordered (ha : Accounts enc cells roles refs born count destroyed freed) (b : B) :
    destroyed b≤1 ∧ freed b≤destroyed b := by
  have hlife := ha.life b
  have hgone := ha.gone b
  have honce := ha.once b
  omega

/-- A block with references is in use. -/
theorem Accounts.alive (ha : Accounts enc cells roles refs born count destroyed freed)
    (h : 0<refs b) : destroyed b=0 ∧ freed b=0 := by
  have hlife := ha.life b
  have hgone := ha.gone b
  have honce := ha.once b
  rw [if_pos h] at hlife
  omega

/-- A block that some thread makes, destroys or frees has no reference and
was not freed. -/
theorem Accounts.unfinished (ha : Accounts enc cells roles refs born count destroyed freed)
    (h : 0<(roles t).makes b ∨ 0<(roles t).destroys b ∨ 0<(roles t).frees b) :
    refs b=0 ∧ freed b=0 := by
  have hlife := ha.life b
  have honce := ha.once b
  have hweight : ∀ w : Role B → B → ℕ,w (roles t) b≤∑ u,w (roles u) b :=
    fun w => single_le_sum_of_canonicallyOrdered (f := fun u => w (roles u) b) (mem_univ t)
  have hm := hweight Role.makes
  have hd := hweight Role.destroys
  have hf := hweight Role.frees
  split at hlife <;> omega

/-- Counted references are at most the cells, and one on the way. -/
theorem Accounts.refs_le (ha : Accounts enc cells roles refs born count destroyed freed) (b : B) :
    refs b≤∑ h,refers (cells h) b+1 := by
  have hbalance := ha.balance b
  have hsingle := ha.single b
  have honce := ha.once b
  omega

/-- A cell that no thread owes has a counted reference. Each thread that owes
a reference has a cell of its own that names the block. -/
theorem Accounts.counted (ha : Accounts enc cells roles refs born count destroyed freed)
    [DecidableEq H] (e : T → H) (hname : ∀ t,0<(roles t).owes b → cells (e t)=some b)
    (hown : ∀ t u,0<(roles t).owes b → 0<(roles u).owes b → e t=e u → t=u) {h : H}
    (hh : cells h=some b) (hfree : ∀ t,0<(roles t).owes b → e t≠h) : 0<refs b := by
  have hone : ∀ h',cells h'=some b → refers (cells h') b=1 := fun h' hc => if_pos hc
  have hless : ∑ t,(roles t).owes b<∑ h,refers (cells h) b := by
    refine sum_lt_of_partners e ?_ hown (by rw [hone h hh]; exact Nat.one_pos) hfree
    intro t ht
    rw [hone _ (hname t ht)]
    exact (roles t).owes_le_one b
  have hbalance := ha.balance b
  omega

/-- A counter set along with the references of its block shows them. -/
theorem Accounts.count_update (ha : Accounts enc cells roles refs born count destroyed freed)
    {n : ℕ} {v : C} (hv : 0<n → v=enc n) (c : B) :
    0<Function.update refs b n c →
      Function.update count b v c=enc (Function.update refs b n c) := by
  rw [Function.update_apply,Function.update_apply]
  split
  · exact hv
  · exact ha.count c

section Rules
variable [DecidableEq T]

/-- A step of one thread keeps the accounts if its own changes cancel out. -/
theorem Accounts.change (ha : Accounts enc cells roles refs born count destroyed freed)
    (t : T) (r : Role B) (more less : B → ℕ) {refs' born' : B → ℕ} {count' : B → C}
    {destroyed' freed' : B → ℕ}
    (hcells : ∀ b,∑ h,refers (cells' h) b+less b=∑ h,refers (cells h) b+more b)
    (hcancel : ∀ b,
      refs' b+r.owes b+less b+(roles t).holds b=refs b+(roles t).owes b+more b+r.holds b ∧
      (if 0<refs' b then 1 else 0)+r.makes b+r.destroys b+r.frees b+freed' b+born b=
        (if 0<refs b then 1 else 0)+(roles t).makes b+(roles t).destroys b+(roles t).frees b+
          freed b+born' b ∧
      r.makes b+r.holds b+born b≤(roles t).makes b+(roles t).holds b+born' b ∧
      destroyed' b+(roles t).frees b+freed b=destroyed b+r.frees b+freed' b)
    (honce : ∀ b,born' b≤1) (hcount : ∀ b,0<refs' b → count' b=enc (refs' b)) :
    Accounts enc cells' (Function.update roles t r) refs' born' count' destroyed' freed' := by
  have hmove : ∀ (w : Role B → B → ℕ) (b : B),
      ∑ u,w (Function.update roles t r u) b+w (roles t) b=∑ u,w (roles u) b+w r b :=
    fun w b => sum_update (fun _ v => w v b) roles t r
  refine ⟨?_,?_,honce,?_,?_,hcount⟩
  · intro b
    have h := ha.balance b
    have hc := hcells b
    have hb := (hcancel b).1
    have ho := hmove Role.owes b
    have hh := hmove Role.holds b
    omega
  · intro b
    have h := ha.life b
    have hl := (hcancel b).2.1
    have hm := hmove Role.makes b
    have hd := hmove Role.destroys b
    have hf := hmove Role.frees b
    omega
  · intro b
    have h := ha.single b
    have hs := (hcancel b).2.2.1
    have hm := hmove Role.makes b
    have hh := hmove Role.holds b
    omega
  · intro b
    have h := ha.gone b
    have hg := (hcancel b).2.2.2
    have hf := hmove Role.frees b
    omega

/-- A step that concerns one block and no cell keeps the accounts if its
changes of that block cancel out. -/
theorem Accounts.move (ha : Accounts enc cells roles refs born count destroyed freed)
    {old : Role B} (ht : roles t=old) (r : Role B) (hold : old.block=none ∨ old.block=some b)
    (hr : r.block=none ∨ r.block=some b) {refs' born' : B → ℕ} {count' : B → C}
    {destroyed' freed' : B → ℕ}
    (hrest : ∀ c,c≠b → refs' c=refs c ∧ born' c=born c ∧ destroyed' c=destroyed c ∧
      freed' c=freed c)
    (hcancel : refs' b+r.owes b+old.holds b=refs b+old.owes b+r.holds b ∧
      (if 0<refs' b then 1 else 0)+r.makes b+r.destroys b+r.frees b+freed' b+born b=
        (if 0<refs b then 1 else 0)+old.makes b+old.destroys b+old.frees b+freed b+born' b ∧
      r.makes b+r.holds b+born b≤old.makes b+old.holds b+born' b ∧
      destroyed' b+old.frees b+freed b=destroyed b+r.frees b+freed' b)
    (honce : ∀ b,born' b≤1) (hcount : ∀ b,0<refs' b → count' b=enc (refs' b)) :
    Accounts enc cells (Function.update roles t r) refs' born' count' destroyed' freed' := by
  refine ha.change t r 0 0 (fun _ => rfl) ?_ honce hcount
  intro c
  rw [ht]
  by_cases hc : c=b
  · subst hc
    exact hcancel
  · have hsame := hrest c hc
    have hleft := Role.elsewhere hold hc
    have hright := Role.elsewhere hr hc
    rw [hsame.1,hsame.2.1,hsame.2.2.1,hsame.2.2.2]
    simp only [hleft,hright,Pi.zero_apply,le_refl,and_self]

/-- A new block. -/
theorem Accounts.allocate (ha : Accounts enc cells roles refs born count destroyed freed)
    (ht : roles t=.none) (hb : born b=0) :
    Accounts enc cells (Function.update roles t (.making b)) refs (Function.update born b 1) count
      destroyed freed := by
  refine ha.move ht (.making b) (Or.inl rfl) (Or.inr rfl)
    (fun c hc => ⟨rfl,Function.update_of_ne hc _ _,rfl,rfl⟩) ?_ ?_ ha.count
  · rw [Function.update_self,hb]
    simp only [Role.owes,Role.holds,Role.makes,Role.destroys,Role.frees,if_true]
    refine ⟨?_,?_,?_,?_⟩ <;> first | trivial | omega
  · intro c
    have honce := ha.once c
    rw [Function.update_apply]
    split <;> omega

/-- The first reference of a new block, in no cell yet. -/
theorem Accounts.initialise (ha : Accounts enc cells roles refs born count destroyed freed)
    (ht : roles t=.making b) :
    Accounts enc cells (Function.update roles t (.holding b)) (Function.update refs b 1) born
      (Function.update count b (enc 1)) destroyed freed := by
  have hmakes : 0<(roles t).makes b := by
    rw [ht]
    dsimp only [Role.makes]
    rw [if_pos rfl]
    exact Nat.one_pos
  have hzero := (ha.unfinished (Or.inl hmakes)).1
  refine ha.move ht (.holding b) (Or.inr rfl) (Or.inr rfl)
    (fun c hc => ⟨Function.update_of_ne hc _ _,rfl,rfl,rfl⟩) ?_ ha.once
    (ha.count_update (fun _ => rfl))
  rw [Function.update_self,hzero]
  simp only [Role.owes,Role.holds,Role.makes,Role.destroys,Role.frees,if_true,lt_self_iff_false,
    if_false,Nat.one_pos,le_refl,and_self,Nat.reduceAdd]

/-- The last reference of a block is dropped; its cell still names the block. -/
theorem Accounts.dropLast (ha : Accounts enc cells roles refs born count destroyed freed)
    (ht : roles t=.none) (hb : refs b=1) (v : C) :
    Accounts enc cells (Function.update roles t (.destroying b)) (Function.update refs b 0) born
      (Function.update count b v) destroyed freed := by
  refine ha.move ht (.destroying b) (Or.inl rfl) (Or.inr rfl)
    (fun c hc => ⟨Function.update_of_ne hc _ _,rfl,rfl,rfl⟩) ?_ ha.once
    (ha.count_update (fun h => absurd h (Nat.lt_irrefl 0)))
  rw [Function.update_self,hb]
  simp only [Role.owes,Role.holds,Role.makes,Role.destroys,Role.frees,if_true,lt_self_iff_false,
    if_false,Nat.one_pos,le_refl,and_self]

/-- A reference is dropped and others are left; its cell still names the block. -/
theorem Accounts.drop (ha : Accounts enc cells roles refs born count destroyed freed)
    (ht : roles t=.none) {n : ℕ} (hb : refs b=n+2) :
    Accounts enc cells (Function.update roles t (.stale b)) (Function.update refs b (n+1)) born
      (Function.update count b (enc (n+1))) destroyed freed := by
  refine ha.move ht (.stale b) (Or.inl rfl) (Or.inr rfl)
    (fun c hc => ⟨Function.update_of_ne hc _ _,rfl,rfl,rfl⟩) ?_ ha.once
    (ha.count_update (fun _ => rfl))
  rw [Function.update_self,hb]
  simp only [Role.owes,Role.holds,Role.makes,Role.destroys,Role.frees,if_true,Nat.succ_pos,le_refl,
    and_self]

/-- The object of a block without references is destroyed. -/
theorem Accounts.destroy (ha : Accounts enc cells roles refs born count destroyed freed)
    (ht : roles t=.destroying b) :
    Accounts enc cells (Function.update roles t (.freeing b)) refs born count
      (Function.update destroyed b (destroyed b+1)) freed := by
  refine ha.move ht (.freeing b) (Or.inr rfl) (Or.inr rfl)
    (fun c hc => ⟨rfl,rfl,Function.update_of_ne hc _ _,rfl⟩) ?_ ha.once ha.count
  rw [Function.update_self]
  simp only [Role.owes,Role.holds,Role.makes,Role.destroys,Role.frees,if_true,le_refl,and_self]

/-- The block of a destroyed object is freed; a cell still names it. -/
theorem Accounts.free (ha : Accounts enc cells roles refs born count destroyed freed)
    (ht : roles t=.freeing b) :
    Accounts enc cells (Function.update roles t (.stale b)) refs born count destroyed
      (Function.update freed b (freed b+1)) := by
  refine ha.move ht (.stale b) (Or.inr rfl) (Or.inr rfl)
    (fun c hc => ⟨rfl,rfl,rfl,Function.update_of_ne hc _ _⟩) ?_ ha.once ha.count
  rw [Function.update_self]
  simp only [Role.owes,Role.holds,Role.makes,Role.destroys,Role.frees,if_true]
  refine ⟨?_,?_,?_,?_⟩ <;> first | trivial | omega

/-- The reference that an uncounted cell names is counted. -/
theorem Accounts.increment (ha : Accounts enc cells roles refs born count destroyed freed)
    (ht : roles t=.stale b) (hb : 0<refs b) :
    Accounts enc cells (Function.update roles t .none) (Function.update refs b (refs b+1)) born
      (Function.update count b (enc (refs b+1))) destroyed freed := by
  refine ha.move ht .none (Or.inr rfl) (Or.inl rfl)
    (fun c hc => ⟨Function.update_of_ne hc _ _,rfl,rfl,rfl⟩) ?_ ha.once
    (ha.count_update (fun _ => rfl))
  rw [Function.update_self]
  simp only [Role.owes,Role.holds,Role.makes,Role.destroys,Role.frees,if_true,hb,Nat.succ_pos,
    le_refl,and_self]

variable [DecidableEq H]

/-- A reference on its way reaches an empty cell. -/
theorem Accounts.publish (ha : Accounts enc cells roles refs born count destroyed freed)
    (ht : roles t=.holding b) {h : H} (hh : cells h=none) :
    Accounts enc (Function.update cells h (some b)) (Function.update roles t .none) refs born count
      destroyed freed := by
  refine ha.change t .none _ _ (fun c => sum_update (fun _ v => refers v c) cells h (some b)) ?_
    ha.once ha.count
  intro c
  rw [ht,hh]
  dsimp only [Role.owes,Role.holds,Role.makes,Role.destroys,Role.frees,refers]
  by_cases hc : c=b
  · subst hc
    simp only [if_true,reduceCtorEq,if_false]
    refine ⟨?_,?_,?_,?_⟩ <;> first | trivial | omega
  · have hne : ¬some b=some c := fun he => hc (Option.some.inj he).symm
    simp only [if_neg hc,if_neg hne,reduceCtorEq,if_false,le_refl,and_self]

/-- An uncounted cell is overwritten with other uncounted content. -/
theorem Accounts.overwrite (ha : Accounts enc cells roles refs born count destroyed freed)
    {h : H} (ht : roles t=staleRole (cells h)) (c : Option B) :
    Accounts enc (Function.update cells h c) (Function.update roles t (staleRole c)) refs born count
      destroyed freed := by
  refine ha.change t (staleRole c) _ _ (fun d => sum_update (fun _ v => refers v d) cells h c) ?_
    ha.once ha.count
  intro d
  have hnew := staleRole_rest c d
  have hold := staleRole_rest (cells h) d
  rw [ht,staleRole_owes,staleRole_owes]
  refine ⟨?_,?_,?_,?_⟩ <;> first | trivial | omega

end Rules

end Kpp.CountAccounts
