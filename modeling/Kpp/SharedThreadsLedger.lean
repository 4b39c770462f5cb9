import Kpp.SharedThreads

/-!
# The ledger of interleaved SharedPtr operations

The ledger gives each thread in flight a role towards the block of its own
cell, and keeps the accounts of all blocks with these roles. One step of a
thread touches cells that no other thread uses, so the roles of the others
stay, and the step is one rule of the accounts.
-/

namespace Kpp.SharedThreadsLedger

open CountAccounts KernelAtomic SharedHandle SharedThreads StepRun

variable {T H : Type*}

/-- The role of a thread towards the block its cell names. -/
def blockRole (f : ℕ → Role ℕ) : Option ℕ → Role ℕ
  | some b => f b
  | none => .none

/-- The role of a thread by its position. -/
def roleAt (slots : H → Option (SharedPtr ℕ)) : Pc H → Role ℕ
  | .idle => .none
  | .setCount _ b => .making b
  | .constructObject _ b => .holding b
  | .returnHandle _ b => .holding b
  | .decrement _ _ => .none
  | .destroyObject h _ => blockRole .destroying (cellOf slots h)
  | .freeBlock h _ => blockRole .freeing (cellOf slots h)
  | .loadPtr _ dst _ => staleRole (cellOf slots dst)
  | .loadCb _ dst _ => staleRole (cellOf slots dst)
  | .increment dst _ => staleRole (cellOf slots dst)
  | .clearPtr _ src => staleRole (cellOf slots src)
  | .clearCb _ src => staleRole (cellOf slots src)

/-- The cell whose block the thread owes a reference. -/
def cover : Pc H → Option H
  | .destroyObject h _ => some h
  | .freeBlock h _ => some h
  | .loadPtr _ dst _ => some dst
  | .loadCb _ dst _ => some dst
  | .increment dst _ => some dst
  | .clearPtr _ src => some src
  | .clearCb _ src => some src
  | _ => none

/-- The source of the rest of an assignment is another live handle. -/
def SourceReady (slots : H → Option (SharedPtr ℕ)) (h : H) : Then H → Prop
  | .finish => True
  | .assign _ src => h≠src ∧ ∃ y,slots src=some y ∧ y.Coherent

/-- What a thread relies on about the cells it uses. -/
def Local (slots : H → Option (SharedPtr ℕ)) : Pc H → Prop
  | .idle => True
  | .setCount h _ => slots h=none
  | .constructObject h _ => slots h=none
  | .returnHandle h _ => slots h=none
  | .decrement h k => (∃ x,slots h=some x ∧ x.Coherent) ∧ SourceReady slots h k
  | .destroyObject h k => (∃ b,slots h=some (.ofBlock b)) ∧ SourceReady slots h k
  | .freeBlock h k => (∃ b,slots h=some (.ofBlock b)) ∧ SourceReady slots h k
  | .loadPtr _ dst src => dst≠src ∧ ∃ y,slots src=some y ∧ y.Coherent
  | .loadCb _ dst src => dst≠src ∧ ∃ x y,slots dst=some x ∧ slots src=some y ∧ y.Coherent ∧
    x.ptr=y.ptr
  | .increment dst src => dst≠src ∧ ∃ b,slots dst=some (.ofBlock b) ∧ slots src=some (.ofBlock b)
  | .clearPtr dst src => dst≠src ∧ ∃ c,slots dst=some ⟨c,c⟩ ∧ slots src=some ⟨c,c⟩
  | .clearCb dst src => dst≠src ∧ ∃ c,slots dst=some ⟨c,c⟩ ∧ slots src=some ⟨none,c⟩

/-- Addresses handed out by the allocator. -/
def born (next b : ℕ) : ℕ := if b<next then 1 else 0

/-- Blocks named by all cells. -/
abbrev cells (s : State T H) : H → Option ℕ := cellOf s.slots

/-- Roles of all threads. -/
def roles (s : State T H) : T → Role ℕ := fun t => roleAt s.slots (s.pc t)

/-- Sources are used. -/
theorem source_mem_uses (how : Transfer) (src : H) :
    src∈transferWrites how src++transferReads how src := by
  cases how with
  | copy => exact List.mem_append_right _ List.mem_cons_self
  | move => exact List.mem_append_left _ List.mem_cons_self

/-- The covered cell is one the thread modifies. -/
theorem cover_mem_writes {p : Pc H} {h : H} (hc : cover p=some h) : h∈p.writes := by
  cases p with
  | destroyObject | freeBlock | loadPtr | loadCb | increment =>
    cases hc
    exact List.mem_cons_self
  | clearPtr | clearCb =>
    cases hc
    exact List.mem_cons_of_mem _ List.mem_cons_self
  | idle | setCount | constructObject | returnHandle | decrement => cases hc

section Congruence
variable {slots slots' : H → Option (SharedPtr ℕ)}

/-- The source of an assignment stays ready while its cell stays. -/
theorem SourceReady.congr {h : H} {k : Then H} (hk : ∀ g∈k.writes++k.reads,slots' g=slots g)
    (hs : SourceReady slots h k) : SourceReady slots' h k := by
  cases k with
  | finish => trivial
  | assign how src =>
    refine ⟨hs.1,?_⟩
    rw [hk src (source_mem_uses how src)]
    exact hs.2

/-- What a thread relies on stays while its cells stay. -/
theorem Local.congr {p : Pc H} (hp : ∀ g∈p.uses,slots' g=slots g) (hl : Local slots p) :
    Local slots' p := by
  have hfirst : ∀ {h : H} {ws rs : List H},(∀ g∈(h::ws)++rs,slots' g=slots g) →
      slots' h=slots h ∧ ∀ g∈ws++rs,slots' g=slots g := by
    intro h ws rs hall
    exact ⟨hall h List.mem_cons_self,fun g hg => hall g (List.mem_cons_of_mem h hg)⟩
  cases p with
  | idle => trivial
  | setCount h b =>
    have hh := hfirst hp
    exact hh.1.trans hl
  | constructObject h b =>
    have hh := hfirst hp
    exact hh.1.trans hl
  | returnHandle h b =>
    have hh := hfirst hp
    exact hh.1.trans hl
  | decrement h k =>
    have hh := hfirst hp
    refine ⟨?_,hl.2.congr hh.2⟩
    rw [hh.1]
    exact hl.1
  | destroyObject h k =>
    have hh := hfirst hp
    refine ⟨?_,hl.2.congr hh.2⟩
    rw [hh.1]
    exact hl.1
  | freeBlock h k =>
    have hh := hfirst hp
    refine ⟨?_,hl.2.congr hh.2⟩
    rw [hh.1]
    exact hl.1
  | loadPtr how dst src =>
    have hh := hfirst hp
    refine ⟨hl.1,?_⟩
    rw [hh.2 src (source_mem_uses how src)]
    exact hl.2
  | loadCb how dst src =>
    have hh := hfirst hp
    refine ⟨hl.1,?_⟩
    rw [hh.1,hh.2 src (source_mem_uses how src)]
    exact hl.2
  | increment dst src =>
    have hh := hfirst hp
    refine ⟨hl.1,?_⟩
    rw [hh.1,hh.2 src List.mem_cons_self]
    exact hl.2
  | clearPtr dst src =>
    have hh := hfirst hp
    refine ⟨hl.1,?_⟩
    rw [hh.1,hh.2 src List.mem_cons_self]
    exact hl.2
  | clearCb dst src =>
    have hh := hfirst hp
    refine ⟨hl.1,?_⟩
    rw [hh.1,hh.2 src List.mem_cons_self]
    exact hl.2

/-- Roles depend on the cells a thread modifies. -/
theorem roleAt_congr {p : Pc H} (hp : ∀ g∈p.writes,slots' g=slots g) :
    roleAt slots' p=roleAt slots p := by
  have hcell : ∀ g∈p.writes,cellOf slots' g=cellOf slots g := by
    intro g hg
    unfold cellOf
    rw [hp g hg]
  cases p with
  | idle | setCount | constructObject | returnHandle | decrement => rfl
  | destroyObject h k => exact congrArg (blockRole .destroying) (hcell h List.mem_cons_self)
  | freeBlock h k => exact congrArg (blockRole .freeing) (hcell h List.mem_cons_self)
  | loadPtr how dst src => exact congrArg staleRole (hcell dst List.mem_cons_self)
  | loadCb how dst src => exact congrArg staleRole (hcell dst List.mem_cons_self)
  | increment dst src => exact congrArg staleRole (hcell dst List.mem_cons_self)
  | clearPtr dst src =>
    exact congrArg staleRole (hcell src (List.mem_cons_of_mem dst List.mem_cons_self))
  | clearCb dst src =>
    exact congrArg staleRole (hcell src (List.mem_cons_of_mem dst List.mem_cons_self))

/-- A thread that owes a reference covers a cell that names the block. -/
theorem owes_cover {p : Pc H} {b : ℕ} (ho : 0<(roleAt slots p).owes b) :
    ∃ g,cover p=some g ∧ cellOf slots g=some b := by
  have hrefers : ∀ c : Option ℕ,0<refers c b → c=some b := by
    intro c hc
    by_contra hne
    unfold refers at hc
    rw [if_neg hne] at hc
    exact Nat.lt_irrefl 0 hc
  have hblock : ∀ {f : ℕ → Role ℕ} {c : Option ℕ},(∀ d,(f d).owes b=refers (some d) b) →
      0<(blockRole f c).owes b → c=some b := by
    intro f c hf hpos
    cases c with
    | none => exact absurd hpos (Nat.lt_irrefl 0)
    | some d =>
      dsimp only [blockRole] at hpos
      rw [hf d] at hpos
      exact hrefers _ hpos
  have hweight : ∀ d : ℕ,(if b=d then 1 else 0)=refers (some d) b := by
    intro d
    simp only [refers,Option.some.injEq,eq_comm]
  have hstale : ∀ {g : H},0<(staleRole (cellOf slots g)).owes b → cellOf slots g=some b := by
    intro g hpos
    rw [staleRole_owes] at hpos
    exact hrefers _ hpos
  cases p with
  | idle | setCount | constructObject | returnHandle | decrement =>
    exact absurd ho (Nat.lt_irrefl 0)
  | destroyObject h k => exact ⟨h,rfl,hblock (f := Role.destroying) hweight ho⟩
  | freeBlock h k => exact ⟨h,rfl,hblock (f := Role.freeing) hweight ho⟩
  | loadPtr how dst src => exact ⟨dst,rfl,hstale ho⟩
  | loadCb how dst src => exact ⟨dst,rfl,hstale ho⟩
  | increment dst src => exact ⟨dst,rfl,hstale ho⟩
  | clearPtr dst src => exact ⟨src,rfl,hstale ho⟩
  | clearCb dst src => exact ⟨src,rfl,hstale ho⟩

end Congruence

/-- The block that a live handle names. -/
theorem cells_eq {s : State T H} {h : H} {x : SharedPtr ℕ} (hx : s.slots h=some x) :
    cells s h=x.cb := by
  unfold cells cellOf
  rw [hx]
  rfl

section Updates
variable [DecidableEq H] {s s' : State T H}

/-- Blocks named after one cell was written. -/
theorem cells_update {h : H} {x : Option (SharedPtr ℕ)}
    (hslots : s'.slots=Function.update s.slots h x) :
    cells s'=Function.update (cells s) h (x.bind SharedPtr.cb) := by
  funext g
  unfold cells cellOf
  rw [hslots,Function.update_apply,Function.update_apply]
  split <;> rfl

/-- Roles after a thread moved on and wrote a cell that no other thread uses. -/
theorem roles_update [DecidableEq T] {t : T} {p : Pc H} {h : H} {x : Option (SharedPtr ℕ)}
    (hslots : s'.slots=Function.update s.slots h x) (hpc : s'.pc=Function.update s.pc t p)
    (hmine : ∀ u,u≠t → h∉(s.pc u).uses) :
    roles s'=Function.update (roles s) t (roleAt s'.slots p) := by
  funext u
  unfold roles
  rw [hpc]
  by_cases hu : u=t
  · rw [hu,Function.update_self,Function.update_self]
  · rw [Function.update_of_ne hu,Function.update_of_ne hu,hslots]
    refine roleAt_congr ?_
    intro g hg
    have hne : g≠h := by
      rintro rfl
      exact hmine u hu (List.mem_append_left _ hg)
    exact Function.update_of_ne hne _ _

end Updates

variable [Fintype T] [Fintype H]

/-- The accounts of a state with given counted references. -/
abbrev Books (refs : ℕ → ℕ) (s : State T H) : Prop :=
  Accounts (BitVec.ofNat 32) (cells s) (roles s) refs (born s.next) s.count s.destroyed s.freed

/-- The accounts balance, threads in flight do not disturb one another, and
every handle that no thread modifies is coherent. -/
structure Ledger (refs : ℕ → ℕ) (s : State T H) : Prop where
  /-- The accounts balance. -/
  books : Books refs s
  /-- Nothing was broken so far. -/
  sound : s.fault=false
  /-- No thread modifies a cell that another one uses. -/
  apart : ∀ t u,t≠u → ∀ h∈(s.pc t).writes,h∉(s.pc u).uses
  /-- Each thread finds its cells as it left them. -/
  own : ∀ t,Local s.slots (s.pc t)
  /-- Other handles are coherent. -/
  coherent : ∀ h x,s.slots h=some x → (∀ t,h∉(s.pc t).writes) → x.Coherent

variable {refs refs' : ℕ → ℕ} {s s' : State T H} {t : T}

/-- A handle that no thread covers has a counted reference. -/
theorem Ledger.counted [DecidableEq H] (hl : Ledger refs s) {g : H} {b : ℕ}
    (hg : cellOf s.slots g=some b) (hfree : ∀ u,cover (s.pc u)≠some g) : 0<refs b := by
  have hcover : ∀ u,0<(roles s u).owes b → ∃ c,cover (s.pc u)=some c ∧ cells s c=some b :=
    fun u hu => owes_cover hu
  refine hl.books.counted (fun u => (cover (s.pc u)).getD g) ?_ ?_ hg ?_
  · intro u hu
    obtain ⟨c,hc,hb⟩ := hcover u hu
    rw [hc]
    exact hb
  · intro u v hu hv he
    obtain ⟨c,hc,_⟩ := hcover u hu
    obtain ⟨d,hd,_⟩ := hcover v hv
    rw [hc,hd] at he
    obtain rfl : c=d := he
    by_contra hne
    exact hl.apart u v hne c (cover_mem_writes hc) (List.mem_append_left _ (cover_mem_writes hd))
  · intro u hu
    obtain ⟨c,hc,_⟩ := hcover u hu
    rw [hc]
    intro he
    have hcg : c=g := he
    exact hfree u (hc.trans (congrArg some hcg))

/-- No other thread covers a cell that a thread uses. -/
theorem Ledger.cover_of_uses (hl : Ledger refs s) {g : H} (hg : g∈(s.pc t).uses)
    (hmine : cover (s.pc t)≠some g) (u : T) : cover (s.pc u)≠some g := by
  by_cases hu : u=t
  · rw [hu]
    exact hmine
  · intro hc
    exact hl.apart u t hu g (cover_mem_writes hc) hg

/-- An access to a block with references does no harm. -/
theorem Ledger.touch_alive (hl : Ledger refs s) {b : ℕ} (hb : 0<refs b) : touch b s=s := by
  have hfreed := (hl.books.alive hb).2
  have hnot : ¬0<s.freed b := by omega
  unfold touch
  rw [decide_eq_false hnot,Bool.or_false]

/-- An access to a block that is not finished does no harm. -/
theorem Ledger.touch_unfinished (hl : Ledger refs s) {b : ℕ}
    (h : roles s t=.making b ∨ roles s t=.destroying b) : touch b s=s := by
  have hpos : 0<(roles s t).makes b ∨ 0<(roles s t).destroys b ∨ 0<(roles s t).frees b := by
    rcases h with h | h
    · rw [h]
      exact Or.inl (by simp only [Role.makes,if_true,Nat.one_pos])
    · rw [h]
      exact Or.inr (Or.inl (by simp only [Role.destroys,if_true,Nat.one_pos]))
  have hfreed := (hl.books.unfinished hpos).2
  have hnot : ¬0<s.freed b := by omega
  unfold touch
  rw [decide_eq_false hnot,Bool.or_false]

section Moves
variable [DecidableEq T] [DecidableEq H]

/-- A thread moves on and writes a cell that no other thread uses. The ledger
is kept if the accounts are, and the thread finds its cells as it needs them. -/
theorem Ledger.advance (hl : Ledger refs s) {p : Pc H} {h : H} {x : Option (SharedPtr ℕ)}
    (hslots : s'.slots=Function.update s.slots h x) (hpc : s'.pc=Function.update s.pc t p)
    (hsound : s'.fault=false) (hmine : ∀ u,u≠t → h∉(s.pc u).uses)
    (hapart : ∀ u,u≠t → (∀ g∈p.writes,g∉(s.pc u).uses) ∧ ∀ g∈p.reads,g∉(s.pc u).writes)
    (hown : Local s'.slots p)
    (hcoherent : ∀ g y,s'.slots g=some y → g∉p.writes → (g=h ∨ g∈(s.pc t).writes) → y.Coherent)
    (hbooks : Accounts (BitVec.ofNat 32) (Function.update (cells s) h (x.bind SharedPtr.cb))
      (Function.update (roles s) t (roleAt s'.slots p)) refs' (born s'.next) s'.count s'.destroyed
      s'.freed) : Ledger refs' s' := by
  have hother : ∀ u,u≠t → s'.pc u=s.pc u := by
    intro u hu
    rw [hpc,Function.update_of_ne hu]
  have hself : s'.pc t=p := by
    rw [hpc,Function.update_self]
  refine ⟨?_,hsound,?_,?_,?_⟩
  · unfold Books
    rw [cells_update hslots,roles_update hslots hpc hmine]
    exact hbooks
  · intro u v huv g hg
    by_cases hu : u=t
    · have hv : v≠t := fun he => huv (hu.trans he.symm)
      rw [hu,hself] at hg
      rw [hother v hv]
      exact (hapart v hv).1 g hg
    · rw [hother u hu] at hg
      by_cases hv : v=t
      · rw [hv,hself]
        intro hmem
        rcases List.mem_append.mp hmem with hw | hr
        · exact (hapart u hu).1 g hw (List.mem_append_left _ hg)
        · exact (hapart u hu).2 g hr hg
      · rw [hother v hv]
        exact hl.apart u v huv g hg
  · intro u
    by_cases hu : u=t
    · rw [hu,hself]
      exact hown
    · rw [hother u hu]
      refine (hl.own u).congr ?_
      intro g hg
      have hne : g≠h := by
        rintro rfl
        exact hmine u hu hg
      rw [hslots,Function.update_of_ne hne]
  · intro g y hg hfree
    have hp : g∉p.writes := by
      have hgt := hfree t
      rwa [hself] at hgt
    by_cases hnew : g=h ∨ g∈(s.pc t).writes
    · exact hcoherent g y hg hp hnew
    · have hne : g≠h := fun he => hnew (Or.inl he)
      refine hl.coherent g y ?_ ?_
      · rwa [hslots,Function.update_of_ne hne] at hg
      · intro u
        by_cases hu : u=t
        · rw [hu]
          exact fun hmem => hnew (Or.inr hmem)
        · have hgu := hfree u
          rwa [hother u hu] at hgu

/-- A thread with an operation in flight moves on within the cells it uses
and writes one that it modifies. -/
theorem Ledger.advanceOwn (hl : Ledger refs s) {p : Pc H} {h : H} {x : Option (SharedPtr ℕ)}
    (hslots : s'.slots=Function.update s.slots h x) (hpc : s'.pc=Function.update s.pc t p)
    (hsound : s'.fault=false) (hh : h∈(s.pc t).writes)
    (hwrites : p.writes⊆(s.pc t).writes) (hreads : p.reads⊆(s.pc t).uses)
    (hown : Local s'.slots p)
    (hcoherent : ∀ g y,s'.slots g=some y → g∈(s.pc t).writes → g∉p.writes → y.Coherent)
    (hbooks : Accounts (BitVec.ofNat 32) (Function.update (cells s) h (x.bind SharedPtr.cb))
      (Function.update (roles s) t (roleAt s'.slots p)) refs' (born s'.next) s'.count s'.destroyed
      s'.freed) : Ledger refs' s' := by
  refine hl.advance hslots hpc hsound ?_ ?_ hown ?_ hbooks
  · intro u hu
    exact hl.apart t u (Ne.symm hu) h hh
  · intro u hu
    constructor
    · intro g hg
      exact hl.apart t u (Ne.symm hu) g (hwrites hg)
    · intro g hg hmem
      exact hl.apart u t hu g hmem (hreads hg)
  · intro g y hg hp hnew
    rcases hnew with rfl | hmem
    · exact hcoherent g y hg hh hp
    · exact hcoherent g y hg hmem hp

/-- A thread moves on to modify the same cells and writes none of them yet. -/
theorem Ledger.advanceStill (hl : Ledger refs s) {p : Pc H} {h : H}
    (hslots : s'.slots=s.slots) (hpc : s'.pc=Function.update s.pc t p)
    (hsound : s'.fault=false) (hh : h∈(s.pc t).writes)
    (hwrites : p.writes=(s.pc t).writes) (hreads : p.reads⊆(s.pc t).uses)
    (hown : Local s.slots p)
    (hbooks : Accounts (BitVec.ofNat 32) (cells s) (Function.update (roles s) t (roleAt s.slots p))
      refs' (born s'.next) s'.count s'.destroyed s'.freed) : Ledger refs' s' := by
  have hsame : s'.slots=Function.update s.slots h (s.slots h) := by
    rw [hslots,Function.update_eq_self]
  refine hl.advanceOwn hsame hpc hsound hh ?_ hreads ?_ ?_ ?_
  · rw [hwrites]
    exact List.Subset.refl _
  · rw [hslots]
    exact hown
  · intro g y _ hin hout
    rw [hwrites] at hout
    exact absurd hin hout
  · have hcell : Function.update (cells s) h ((s.slots h).bind SharedPtr.cb)=cells s :=
      Function.update_eq_self h (cells s)
    rw [hcell,hslots]
    exact hbooks

/-- After a release whose cell still names its block the operation goes on. -/
theorem Ledger.complete (hl : Ledger refs s) {h : H} {k : Then H}
    (hp : s.pc t=.decrement h k ∨ s.pc t=.freeBlock h k) (hslots : s'.slots=s.slots)
    (hpc : s'.pc=s.pc) (hsound : s'.fault=false)
    (hbooks : Accounts (BitVec.ofNat 32) (cells s)
      (Function.update (roles s) t (staleRole (cells s h))) refs' (born s'.next) s'.count
      s'.destroyed s'.freed) : Ledger refs' (complete t h k s') := by
  have hwrites : (s.pc t).writes=h::k.writes := by
    rcases hp with hp | hp <;> rw [hp] <;> rfl
  have huses : (s.pc t).uses=(h::k.writes)++k.reads := by
    rcases hp with hp | hp <;> rw [hp] <;> rfl
  have hsource : SourceReady s.slots h k := by
    have hown := hl.own t
    rcases hp with hp | hp <;> rw [hp] at hown <;> exact hown.2
  have hmem : h∈(s.pc t).writes := by
    rw [hwrites]
    exact List.mem_cons_self
  cases k with
  | finish =>
    have hover := hbooks.overwrite (t := t) (h := h) (Function.update_self _ _ _) none
    rw [Function.update_idem] at hover
    refine hl.advanceOwn (p := .idle) (h := h) (x := none) ?_ ?_ hsound hmem
      (List.nil_subset _) (List.nil_subset _) trivial ?_ hover
    · rw [←hslots]
      rfl
    · rw [←hpc]
      rfl
    · intro g y hg hin _
      rw [hwrites] at hin
      have he : g=h := List.mem_singleton.mp hin
      have hnone : (SharedThreads.complete t h .finish s').slots h=none :=
        Function.update_self _ _ _
      rw [he,hnone] at hg
      cases hg
  | assign how src =>
    refine hl.advanceStill (p := .loadPtr how h src) (h := h) hslots ?_ hsound hmem hwrites.symm ?_
      hsource hbooks
    · rw [←hpc]
      rfl
    · rw [huses]
      exact List.subset_append_right _ _

/-- A step of `make_shared` that sets the count. -/
theorem Ledger.setCount (hl : Ledger refs s) {h : H} {b : ℕ} (hp : s.pc t=.setCount h b) :
    ∃ refs',Ledger refs' (goto t (.constructObject h b)
      {touch b s with count := Function.update s.count b (atomicSet 1)}) := by
  have hrole : roles s t=.making b := by
    unfold roles
    rw [hp]
    rfl
  have hown := hl.own t
  rw [hp] at hown
  rw [hl.touch_unfinished (Or.inl hrole)]
  refine ⟨_,hl.advanceStill (p := .constructObject h b) (h := h) rfl rfl hl.sound ?_ ?_
    (List.nil_subset _) hown (hl.books.initialise hrole)⟩
  · rw [hp]
    exact List.mem_cons_self
  · rw [hp]
    rfl

/-- The constructor of the object. -/
theorem Ledger.constructObject (hl : Ledger refs s) {h : H} {b : ℕ}
    (hp : s.pc t=.constructObject h b) : Ledger refs (goto t (.returnHandle h b) s) := by
  have hrole : roles s t=.holding b := by
    unfold roles
    rw [hp]
    rfl
  have hown := hl.own t
  rw [hp] at hown
  refine hl.advanceStill (p := .returnHandle h b) (h := h) rfl rfl hl.sound ?_ ?_
    (List.nil_subset _) hown ?_
  · rw [hp]
    exact List.mem_cons_self
  · rw [hp]
    rfl
  · have hsame : Function.update (roles s) t (.holding b)=roles s := by
      rw [←hrole,Function.update_eq_self]
    change Accounts _ _ (Function.update (roles s) t (.holding b)) _ _ _ _ _
    rw [hsame]
    exact hl.books

/-- The handle that `make_shared` returns. -/
theorem Ledger.returnHandle (hl : Ledger refs s) {h : H} {b : ℕ} (hp : s.pc t=.returnHandle h b) :
    Ledger refs (goto t .idle (put h (some (.ofBlock b)) s)) := by
  have hrole : roles s t=.holding b := by
    unfold roles
    rw [hp]
    rfl
  have hraw : cells s h=none := by
    have hown := hl.own t
    rw [hp] at hown
    unfold cells cellOf
    rw [hown]
    rfl
  refine hl.advanceOwn (p := .idle) (h := h) (x := some (.ofBlock b)) rfl rfl hl.sound ?_
    (List.nil_subset _) (List.nil_subset _) trivial ?_ (hl.books.publish hrole hraw)
  · rw [hp]
    exact List.mem_cons_self
  · intro g y hg hin _
    rw [hp] at hin
    have he : g=h := List.mem_singleton.mp hin
    have hnew : (goto t .idle (put h (some (.ofBlock b)) s)).slots h=some (.ofBlock b) :=
      Function.update_self _ _ _
    rw [he,hnew] at hg
    cases hg
    rfl

/-- The decrement of a release, with a count that fits. -/
theorem Ledger.decrement (hl : Ledger refs s) (hb : Bounded s) {h : H} {k : Then H}
    (hp : s.pc t=.decrement h k) : ∃ refs',Ledger refs' (decrement t h k s) := by
  have hrole : roles s t=.none := by
    unfold roles
    rw [hp]
    rfl
  have hown := hl.own t
  rw [hp] at hown
  obtain ⟨⟨x,hx,hcoherent⟩,hsource⟩ := hown
  have huses : h∈(s.pc t).uses := by
    rw [hp]
    exact List.mem_cons_self
  unfold SharedThreads.decrement
  rw [hx]
  dsimp only
  cases hcb : x.cb with
  | none =>
    have hcell : cells s h=none := (cells_eq hx).trans hcb
    refine ⟨refs,hl.complete (Or.inl hp) rfl rfl hl.sound ?_⟩
    have hsame : Function.update (roles s) t (staleRole (cells s h))=roles s := by
      rw [hcell]
      change Function.update (roles s) t .none=roles s
      rw [←hrole,Function.update_eq_self]
    rw [hsame]
    exact hl.books
  | some b =>
    have hcell : cells s h=some b := (cells_eq hx).trans hcb
    have hpos : 0<refs b := by
      refine hl.counted hcell (hl.cover_of_uses huses ?_)
      rw [hp]
      exact nofun
    have hfits := hl.books.refs_le b
    have hbound := hb b
    have hcount := hl.books.count b hpos
    obtain ⟨n,hn⟩ : ∃ n,refs b=n+1 := ⟨refs b-1,by omega⟩
    have hsmall : n<2^32 := by
      have hhandles : ∑ g,refers (cells s g) b<2^31 := hbound
      omega
    dsimp only
    rw [hl.touch_alive hpos,hcount,hn,atomicDec_ofNat]
    by_cases hz : n=0
    · subst hz
      have htest := (atomicTest_ofNat hsmall).mpr rfl
      rw [if_pos htest]
      have hlast := hl.books.dropLast hrole hn (BitVec.ofNat 32 0)
      refine ⟨Function.update refs b 0,hl.advanceStill (p := .destroyObject h k) (h := h) rfl rfl
        hl.sound ?_ ?_ ?_ ⟨⟨b,?_⟩,hsource⟩ ?_⟩
      · rw [hp]
        exact List.mem_cons_self
      · rw [hp]
        rfl
      · rw [hp]
        exact List.subset_append_right _ _
      · rw [hx,hcoherent.eq_ofBlock hcb]
      · change Accounts _ _ (Function.update (roles s) t
          (blockRole .destroying (cells s h))) _ _ _ _ _
        rw [hcell]
        exact hlast
    · obtain ⟨m,hm⟩ : ∃ m,n=m+1 := ⟨n-1,by omega⟩
      subst hm
      have htest : ¬(atomicDecAndTest (BitVec.ofNat 32 (m+1+1))).2=true := by
        rw [atomicTest_ofNat hsmall]
        omega
      rw [if_neg htest]
      have hdrop := hl.books.drop hrole hn
      refine ⟨Function.update refs b (m+1),hl.complete (Or.inl hp) rfl rfl hl.sound ?_⟩
      rw [hcell]
      exact hdrop

/-- The destructor of the object. -/
theorem Ledger.destroyObject (hl : Ledger refs s) {h : H} {k : Then H}
    (hp : s.pc t=.destroyObject h k) : Ledger refs (destroyObject t h k s) := by
  have hown := hl.own t
  rw [hp] at hown
  obtain ⟨⟨b,hx⟩,hsource⟩ := hown
  have hcell : cells s h=some b := cells_eq hx
  have hrole : roles s t=.destroying b := by
    unfold roles
    rw [hp]
    exact congrArg (blockRole .destroying) hcell
  unfold SharedThreads.destroyObject
  rw [hx]
  dsimp only [Option.bind_some,SharedPtr.ofBlock]
  rw [hl.touch_unfinished (Or.inr hrole)]
  refine hl.advanceStill (p := .freeBlock h k) (h := h) rfl rfl hl.sound ?_ ?_ ?_
    ⟨⟨b,hx⟩,hsource⟩ ?_
  · rw [hp]
    exact List.mem_cons_self
  · rw [hp]
    rfl
  · rw [hp]
    exact List.subset_append_right _ _
  · change Accounts _ _ (Function.update (roles s) t (blockRole .freeing (cells s h))) _ _ _ _ _
    rw [hcell]
    exact hl.books.destroy hrole

/-- The free of the block. -/
theorem Ledger.freeBlock (hl : Ledger refs s) {h : H} {k : Then H}
    (hp : s.pc t=.freeBlock h k) : Ledger refs (freeBlock t h k s) := by
  have hown := hl.own t
  rw [hp] at hown
  obtain ⟨⟨b,hx⟩,hsource⟩ := hown
  have hcell : cells s h=some b := cells_eq hx
  have hrole : roles s t=.freeing b := by
    unfold roles
    rw [hp]
    exact congrArg (blockRole .freeing) hcell
  unfold SharedThreads.freeBlock
  rw [hx]
  refine hl.complete (Or.inr hp) rfl rfl hl.sound ?_
  rw [hcell]
  exact hl.books.free hrole

/-- The load of the object pointer. -/
theorem Ledger.loadPtr (hl : Ledger refs s) {how : Transfer} {dst src : H}
    (hp : s.pc t=.loadPtr how dst src) : Ledger refs (loadPtr t how dst src s) := by
  have hown := hl.own t
  rw [hp] at hown
  obtain ⟨hne,y,hy,hcoherent⟩ := hown
  unfold SharedThreads.loadPtr
  rw [hy]
  refine hl.advanceOwn (p := .loadCb how dst src) (h := dst)
    (x := some ⟨y.ptr,(s.slots dst).bind SharedPtr.cb⟩) rfl rfl hl.sound ?_ ?_ ?_
    ⟨hne,⟨y.ptr,(s.slots dst).bind SharedPtr.cb⟩,y,Function.update_self _ _ _,?_,hcoherent,
      rfl⟩ ?_ ?_
  · rw [hp]
    exact List.mem_cons_self
  · rw [hp]
    exact List.Subset.refl _
  · rw [hp]
    exact List.subset_append_right _ _
  · exact (Function.update_of_ne (Ne.symm hne) _ _).trans hy
  · intro g z _ hin hout
    rw [hp] at hin
    exact absurd hin hout
  · have hcell : Function.update (cells s) dst (cells s dst)=cells s := Function.update_eq_self _ _
    have hnew : cellOf (Function.update s.slots dst
        (some ⟨y.ptr,(s.slots dst).bind SharedPtr.cb⟩)) dst=cells s dst := by
      unfold cellOf
      rw [Function.update_self]
      rfl
    have hrole : Function.update (roles s) t (staleRole (cells s dst))=roles s := by
      have hold : roles s t=staleRole (cells s dst) := by
        unfold roles
        rw [hp]
        rfl
      rw [←hold,Function.update_eq_self]
    change Accounts _ (Function.update (cells s) dst (cells s dst)) (Function.update (roles s) t
      (staleRole (cellOf (Function.update s.slots dst
        (some ⟨y.ptr,(s.slots dst).bind SharedPtr.cb⟩)) dst))) _ _ _ _ _
    rw [hcell,hnew,hrole]
    exact hl.books

/-- The load of the block pointer. -/
theorem Ledger.loadCb (hl : Ledger refs s) {how : Transfer} {dst src : H}
    (hp : s.pc t=.loadCb how dst src) : Ledger refs (loadCb t how dst src s) := by
  have hown := hl.own t
  rw [hp] at hown
  obtain ⟨hne,x,y,hx,hy,hcoherent,hptr⟩ := hown
  have hrole : roles s t=staleRole (cells s dst) := by
    unfold roles
    rw [hp]
    rfl
  have hover := hl.books.overwrite hrole y.cb
  have hmem : dst∈(s.pc t).writes := by
    rw [hp]
    exact List.mem_cons_self
  -- both fields of the target now name the block of the source
  have hload : (⟨x.ptr,y.cb⟩ : SharedPtr ℕ)=⟨y.cb,y.cb⟩ := by
    rw [hptr,hcoherent]
  have hdst : Function.update s.slots dst (some ⟨y.cb,y.cb⟩) dst=some ⟨y.cb,y.cb⟩ :=
    Function.update_self _ _ _
  have hsrc : Function.update s.slots dst (some ⟨y.cb,y.cb⟩) src=some ⟨y.cb,y.cb⟩ := by
    rw [Function.update_of_ne (Ne.symm hne),hy]
    obtain ⟨ptr,cb⟩ := y
    exact congrArg (fun q => some (SharedPtr.mk q cb)) hcoherent
  unfold SharedThreads.loadCb
  rw [hy,hx]
  dsimp only [Option.bind_some]
  rw [hload]
  cases how with
  | copy =>
    cases hcb : y.cb with
    | none =>
      rw [hcb] at hover hdst
      refine hl.advanceOwn (p := .idle) (h := dst) (x := some ⟨none,none⟩) rfl rfl hl.sound hmem
        (List.nil_subset _) (List.nil_subset _) trivial ?_ hover
      intro g z hg hin _
      rw [hp] at hin
      have he : g=dst := List.mem_singleton.mp hin
      rw [he] at hg
      obtain rfl := Option.some.inj (hdst.symm.trans hg)
      rfl
    | some b =>
      rw [hcb] at hover hdst hsrc
      refine hl.advanceOwn (p := .increment dst src) (h := dst) (x := some ⟨some b,some b⟩) rfl rfl
        hl.sound hmem ?_ ?_ ⟨hne,b,hdst,hsrc⟩ ?_ ?_
      · rw [hp]
        exact List.Subset.refl _
      · rw [hp]
        exact List.subset_append_right _ _
      · intro g z _ hin hout
        rw [hp] at hin
        exact absurd hin hout
      · have hcell : cellOf (Function.update s.slots dst (some ⟨some b,some b⟩)) dst=some b := by
          unfold cellOf
          rw [hdst]
          rfl
        change Accounts _ _ (Function.update (roles s) t (staleRole
          (cellOf (Function.update s.slots dst (some ⟨some b,some b⟩)) dst))) _ _ _ _ _
        rw [hcell]
        exact hover
  | move =>
    refine hl.advanceOwn (p := .clearPtr dst src) (h := dst) (x := some ⟨y.cb,y.cb⟩) rfl rfl
      hl.sound hmem ?_ (List.nil_subset _) ⟨hne,y.cb,hdst,hsrc⟩ ?_ ?_
    · rw [hp]
      exact List.Subset.refl _
    · intro g z _ hin hout
      rw [hp] at hin
      exact absurd hin hout
    · have hcell : cellOf (Function.update s.slots dst (some ⟨y.cb,y.cb⟩)) src=y.cb := by
        unfold cellOf
        rw [hsrc]
        rfl
      change Accounts _ _ (Function.update (roles s) t (staleRole
        (cellOf (Function.update s.slots dst (some ⟨y.cb,y.cb⟩)) src))) _ _ _ _ _
      rw [hcell]
      exact hover

/-- The increment: the source keeps its block alive meanwhile. -/
theorem Ledger.increment (hl : Ledger refs s) {dst src : H} (hp : s.pc t=.increment dst src) :
    ∃ refs',Ledger refs' (increment t dst s) := by
  have hown := hl.own t
  rw [hp] at hown
  obtain ⟨hne,b,hd,hs⟩ := hown
  have hcell : cells s dst=some b := cells_eq hd
  have hrole : roles s t=.stale b := by
    unfold roles
    rw [hp]
    exact congrArg staleRole hcell
  have hsource : cellOf s.slots src=some b := by
    unfold cellOf
    rw [hs]
    rfl
  have hpos : 0<refs b := by
    refine hl.counted hsource (hl.cover_of_uses (t := t) ?_ ?_)
    · rw [hp]
      exact List.mem_cons_of_mem _ List.mem_cons_self
    · rw [hp]
      exact fun he => hne (Option.some.inj he)
  have hcount := hl.books.count b hpos
  unfold SharedThreads.increment
  rw [hd]
  dsimp only [Option.bind_some,SharedPtr.ofBlock]
  rw [hl.touch_alive hpos,hcount,atomicInc_ofNat]
  have hsame : s.slots=Function.update s.slots dst (s.slots dst) := by
    rw [Function.update_eq_self]
  refine ⟨Function.update refs b (refs b+1),hl.advanceOwn (p := .idle) (h := dst)
    (x := s.slots dst) hsame rfl hl.sound ?_ (List.nil_subset _) (List.nil_subset _) trivial ?_ ?_⟩
  · rw [hp]
    exact List.mem_cons_self
  · intro g z hg hin _
    rw [hp] at hin
    have he : g=dst := List.mem_singleton.mp hin
    have hnow : s.slots g=some z := hg
    rw [he,hd] at hnow
    cases hnow
    rfl
  · have hcells : Function.update (cells s) dst ((s.slots dst).bind SharedPtr.cb)=cells s :=
      Function.update_eq_self dst (cells s)
    rw [hcells]
    exact hl.books.increment hrole hpos

/-- The first write that clears a moved source. -/
theorem Ledger.clearPtr (hl : Ledger refs s) {dst src : H} (hp : s.pc t=.clearPtr dst src) :
    Ledger refs (clearPtr t dst src s) := by
  have hown := hl.own t
  rw [hp] at hown
  obtain ⟨hne,c,hd,hs⟩ := hown
  have hcell : cells s src=c := cells_eq hs
  unfold SharedThreads.clearPtr
  rw [hs]
  refine hl.advanceOwn (p := .clearCb dst src) (h := src) (x := some ⟨none,c⟩) rfl rfl
    hl.sound ?_ ?_ (List.nil_subset _) ⟨hne,c,?_,Function.update_self _ _ _⟩ ?_ ?_
  · rw [hp]
    exact List.mem_cons_of_mem _ List.mem_cons_self
  · rw [hp]
    exact List.Subset.refl _
  · exact (Function.update_of_ne hne _ _).trans hd
  · intro g z _ hin hout
    rw [hp] at hin
    exact absurd hin hout
  · have hcells : Function.update (cells s) src c=cells s := by
      rw [←hcell,Function.update_eq_self]
    have hnew : cellOf (Function.update s.slots src (some ⟨none,c⟩)) src=c := by
      unfold cellOf
      rw [Function.update_self]
      rfl
    have hrole : Function.update (roles s) t (staleRole c)=roles s := by
      have hold : roles s t=staleRole c := by
        unfold roles
        rw [hp]
        exact congrArg staleRole hcell
      rw [←hold,Function.update_eq_self]
    change Accounts _ (Function.update (cells s) src c) (Function.update (roles s) t
      (staleRole (cellOf (Function.update s.slots src (some ⟨none,c⟩)) src))) _ _ _ _ _
    rw [hcells,hnew,hrole]
    exact hl.books

/-- The second one. -/
theorem Ledger.clearCb (hl : Ledger refs s) {dst src : H} (hp : s.pc t=.clearCb dst src) :
    Ledger refs (clearCb t src s) := by
  have hown := hl.own t
  rw [hp] at hown
  obtain ⟨hne,c,hd,hs⟩ := hown
  have hcell : cells s src=c := cells_eq hs
  have hrole : roles s t=staleRole (cells s src) := by
    unfold roles
    rw [hp]
    rfl
  unfold SharedThreads.clearCb
  rw [hs]
  refine hl.advanceOwn (p := .idle) (h := src) (x := some ⟨none,none⟩) rfl rfl hl.sound ?_
    (List.nil_subset _) (List.nil_subset _) trivial ?_ (hl.books.overwrite hrole none)
  · rw [hp]
    exact List.mem_cons_of_mem _ List.mem_cons_self
  · intro g z hg hin _
    rw [hp] at hin
    have hcases : g=dst ∨ g=src := by
      rcases List.mem_cons.mp hin with he | he
      · exact Or.inl he
      · exact Or.inr (List.mem_singleton.mp he)
    have hg' : Function.update s.slots src (some ⟨none,none⟩) g=some z := hg
    rcases hcases with rfl | rfl
    · rw [Function.update_of_ne hne,hd] at hg'
      cases hg'
      rfl
    · rw [Function.update_self] at hg'
      cases hg'
      rfl

end Moves

end Kpp.SharedThreadsLedger
