import Kpp.SharedThreadsLedger

/-!
# Counting is correct under every interleaving

Operations start undisturbed and then run step by step; both keep the
ledger while the number of handles on a block fits its counter, and a state
with a ledger counts correctly.
-/

namespace Kpp.SharedThreadsCorrect

open CountAccounts KernelAtomic SharedHandle SharedThreads SharedThreadsLedger StepRun

variable {T H : Type*} {refs refs' : ℕ → ℕ} {s s' : State T H} {t : T}

/-- A thread without an operation in flight. -/
theorem idle_of_isIdle (h : (s.pc t).isIdle=true) : s.pc t=.idle := by
  cases hp : s.pc t with
  | idle => rfl
  | setCount | constructObject | returnHandle | decrement | destroyObject | freeBlock | loadPtr
  | loadCb | increment | clearPtr | clearCb =>
    rw [hp] at h
    cases h

/-- It has no role. -/
theorem roles_idle (hidle : s.pc t=.idle) : roles s t=.none := by
  unfold roles
  rw [hidle]
  rfl

/-- Handles that an operation uses undisturbed are not modified by other threads. -/
theorem not_written {ws rs : List H}
    (hapart : ∀ u,u≠t → (∀ h∈ws,h∉(s.pc u).uses) ∧ ∀ h∈rs,h∉(s.pc u).writes) {g : H}
    (hg : g∈ws++rs) : ∀ u,u≠t → g∉(s.pc u).writes := by
  intro u hu hmem
  rcases List.mem_append.mp hg with hw | hr
  · exact (hapart u hu).1 g hw (List.mem_append_left _ hmem)
  · exact (hapart u hu).2 g hr hmem

variable [Fintype T]

/-- With no operation in flight no thread has a part in the accounts. -/
theorem sum_idle (hidle : ∀ t,s.pc t=.idle) {w : Role ℕ → ℕ → ℕ} {b : ℕ} (hw : w .none b=0) :
    ∑ t,w (roles s t) b=0 := by
  refine Finset.sum_eq_zero ?_
  intro t _
  rw [roles_idle (hidle t)]
  exact hw

variable [Fintype H]

/-- A live handle that no other thread modifies is coherent. -/
theorem coherent_of_undisturbed (hl : Ledger refs s) (hp : s.pc t=.idle) {g : H}
    (hg : (s.slots g).isSome=true) (hfree : ∀ u,u≠t → g∉(s.pc u).writes) :
    ∃ x,s.slots g=some x ∧ x.Coherent := by
  obtain ⟨x,hx⟩ := Option.isSome_iff_exists.mp hg
  refine ⟨x,hx,hl.coherent g x hx ?_⟩
  intro u
  by_cases hu : u=t
  · rw [hu,hp]
    exact List.not_mem_nil
  · exact hfree u hu

/-- Nothing happened yet. -/
theorem start_ledger : Ledger (fun _ => 0) (start : State T H) := by
  have hzero : ∀ (w : Role ℕ → ℕ → ℕ) (b : ℕ),w .none b=0 →
      ∑ t,w (roles (start : State T H) t) b=0 := fun _ _ hw => sum_idle (fun _ => rfl) hw
  have hcells : ∀ b,∑ h,refers (cells (start : State T H) h) b=0 :=
    fun _ => Finset.sum_eq_zero (fun _ _ => rfl)
  refine ⟨?_,rfl,fun _ _ _ _ => nofun,fun _ => trivial,nofun⟩
  refine ⟨fun b => ?_,fun b => ?_,fun b => Nat.zero_le 1,fun b => ?_,fun b => ?_,fun b h => ?_⟩
  · rw [hzero Role.owes b rfl,hzero Role.holds b rfl,hcells b]
  · rw [hzero Role.makes b rfl,hzero Role.destroys b rfl,hzero Role.frees b rfl]
    rfl
  · rw [hzero Role.makes b rfl,hzero Role.holds b rfl]
    exact Nat.zero_le _
  · rw [hzero Role.frees b rfl]
    rfl
  · exact absurd h (Nat.lt_irrefl 0)

/-- An idle thread has no part in the accounts. -/
theorem idle_books [DecidableEq T] (hl : Ledger refs s) (hidle : s.pc t=.idle) :
    Accounts (BitVec.ofNat 32) (cells s) (Function.update (roles s) t .none) refs (born s.next)
      s.count s.destroyed s.freed := by
  rw [←roles_idle hidle,Function.update_eq_self]
  exact hl.books

section Steps
variable [DecidableEq T] [DecidableEq H]

/-- A step of an operation in flight keeps the ledger. -/
theorem ledger_resume (hl : Ledger refs s) (hb : Bounded s) (h : resume t s=some s') :
    ∃ refs',Ledger refs' s' := by
  unfold SharedThreads.resume at h
  cases hp : s.pc t with
  | idle =>
    rw [hp] at h
    cases h
  | setCount g b =>
    rw [hp] at h
    cases h
    exact hl.setCount hp
  | constructObject g b =>
    rw [hp] at h
    cases h
    exact ⟨refs,hl.constructObject hp⟩
  | returnHandle g b =>
    rw [hp] at h
    cases h
    exact ⟨refs,hl.returnHandle hp⟩
  | decrement g k =>
    rw [hp] at h
    cases h
    exact hl.decrement hb hp
  | destroyObject g k =>
    rw [hp] at h
    cases h
    exact ⟨refs,hl.destroyObject hp⟩
  | freeBlock g k =>
    rw [hp] at h
    cases h
    exact ⟨refs,hl.freeBlock hp⟩
  | loadPtr how dst src =>
    rw [hp] at h
    cases h
    exact ⟨refs,hl.loadPtr hp⟩
  | loadCb how dst src =>
    rw [hp] at h
    cases h
    exact ⟨refs,hl.loadCb hp⟩
  | increment dst src =>
    rw [hp] at h
    cases h
    exact hl.increment hp
  | clearPtr dst src =>
    rw [hp] at h
    cases h
    exact ⟨refs,hl.clearPtr hp⟩
  | clearCb dst src =>
    rw [hp] at h
    cases h
    exact ⟨refs,hl.clearCb hp⟩

/-- An idle thread enters an operation without writing a cell. -/
theorem ledger_enter (hl : Ledger refs s) (hidle : s.pc t=.idle) {p : Pc H} {g : H}
    (hslots : s'.slots=s.slots) (hpc : s'.pc=Function.update s.pc t p) (hsound : s'.fault=false)
    (hapart : ∀ u,u≠t → (∀ h∈p.writes,h∉(s.pc u).uses) ∧ ∀ h∈p.reads,h∉(s.pc u).writes)
    (hg : g∈p.writes) (hown : Local s.slots p)
    (hbooks : Accounts (BitVec.ofNat 32) (cells s) (Function.update (roles s) t (roleAt s.slots p))
      refs' (born s'.next) s'.count s'.destroyed s'.freed) : Ledger refs' s' := by
  have hsame : s'.slots=Function.update s.slots g (s.slots g) := by
    rw [hslots,Function.update_eq_self]
  refine hl.advance hsame hpc hsound (fun u hu => (hapart u hu).1 g hg) hapart ?_ ?_ ?_
  · rw [hslots]
    exact hown
  · intro h y _ hout hnew
    rcases hnew with rfl | hmem
    · exact absurd hg hout
    · rw [hidle] at hmem
      exact absurd hmem List.not_mem_nil
  · have hcell : Function.update (cells s) g ((s.slots g).bind SharedPtr.cb)=cells s :=
      Function.update_eq_self g (cells s)
    rw [hcell,hslots]
    exact hbooks

/-- An idle thread constructs an empty handle in raw storage. -/
theorem ledger_construct (hl : Ledger refs s) (hidle : s.pc t=.idle) {g : H}
    (hraw : (s.slots g).isNone=true) (hmine : ∀ u,u≠t → g∉(s.pc u).uses) :
    Ledger refs (put g (some .null) s) := by
  have hpc : (put g (some .null) s).pc=Function.update s.pc t .idle := by
    rw [←hidle,Function.update_eq_self]
    rfl
  have hnone : s.slots g=none := Option.isNone_iff_eq_none.mp hraw
  refine hl.advance (p := .idle) (h := g) (x := some .null) rfl hpc hl.sound hmine ?_ trivial ?_ ?_
  · intro u _
    exact ⟨nofun,nofun⟩
  · intro h y hy _ hnew
    rcases hnew with rfl | hmem
    · have hnew : (put h (some .null) s).slots h=some .null := Function.update_self _ _ _
      rw [hnew] at hy
      cases hy
      rfl
    · rw [hidle] at hmem
      exact absurd hmem List.not_mem_nil
  · have hcell : Function.update (cells s) g none=cells s := by
      have hold : cells s g=none := by
        unfold cells cellOf
        rw [hnone]
        rfl
      rw [←hold,Function.update_eq_self]
    change Accounts _ (Function.update (cells s) g none)
      (Function.update (roles s) t .none) _ _ _ _ _
    rw [hcell]
    exact idle_books hl hidle

/-- An idle thread begins to construct a handle from another one. -/
theorem ledger_load (hl : Ledger refs s) (hidle : s.pc t=.idle) {how : Transfer} {dst src : H}
    (hready : ((s.slots dst).isNone && (s.slots src).isSome)=true)
    (hapart : ∀ u,u≠t → (∀ h∈dst::transferWrites how src,h∉(s.pc u).uses) ∧
      ∀ h∈transferReads how src,h∉(s.pc u).writes) :
    Ledger refs (goto t (.loadPtr how dst src) s) := by
  obtain ⟨hd,hs⟩ := Bool.and_eq_true_iff.mp hready
  obtain ⟨y,hy⟩ := coherent_of_undisturbed hl hidle hs
    (not_written hapart (List.mem_cons_of_mem dst (source_mem_uses how src)))
  have hnone : s.slots dst=none := Option.isNone_iff_eq_none.mp hd
  have hne : dst≠src := by
    rintro rfl
    rw [hnone] at hy
    cases hy.1
  have hcell : cellOf s.slots dst=none := by
    unfold cellOf
    rw [hnone]
    rfl
  have hload : roleAt s.slots (.loadPtr how dst src)=.none := congrArg staleRole hcell
  refine ledger_enter hl hidle (p := .loadPtr how dst src) (g := dst) rfl rfl hl.sound hapart
    List.mem_cons_self ⟨hne,y,hy⟩ ?_
  rw [hload]
  exact idle_books hl hidle

/-- An idle thread begins an assignment between different handles. -/
theorem ledger_assign (hl : Ledger refs s) (hidle : s.pc t=.idle) {how : Transfer} {dst src : H}
    (hne : dst≠src) (hready : ((s.slots dst).isSome && (s.slots src).isSome)=true)
    (hapart : ∀ u,u≠t → (∀ h∈dst::transferWrites how src,h∉(s.pc u).uses) ∧
      ∀ h∈transferReads how src,h∉(s.pc u).writes) :
    Ledger refs (goto t (.decrement dst (.assign how src)) s) := by
  obtain ⟨hd,hs⟩ := Bool.and_eq_true_iff.mp hready
  have htarget := coherent_of_undisturbed hl hidle hd (not_written hapart List.mem_cons_self)
  have hsource := coherent_of_undisturbed hl hidle hs
    (not_written hapart (List.mem_cons_of_mem dst (source_mem_uses how src)))
  exact ledger_enter hl hidle (p := .decrement dst (.assign how src)) (g := dst) rfl rfl hl.sound
    hapart List.mem_cons_self ⟨htarget,hne,hsource⟩ (idle_books hl hidle)

/-- An idle thread begins `make_shared` with storage from the allocator. -/
theorem ledger_allocate (hl : Ledger refs s) (hidle : s.pc t=.idle) {h : H}
    (hready : (s.slots h).isNone=true) (hapart : Undisturbed t (.makeShared h true) s) :
    Ledger refs (goto t (.setCount h s.next) {s with next := s.next+1}) := by
  have hborn : born s.next s.next=0 := if_neg (Nat.lt_irrefl _)
  have hnext : Function.update (born s.next) s.next 1=born (s.next+1) := by
    funext b
    unfold born
    rw [Function.update_apply]
    split_ifs <;> omega
  have hnew := hl.books.allocate (roles_idle hidle) hborn
  rw [hnext] at hnew
  exact ledger_enter hl hidle (p := .setCount h s.next) (g := h) rfl rfl hl.sound hapart
    List.mem_cons_self (Option.isNone_iff_eq_none.mp hready) hnew

/-- Reading `use_count()` undisturbed breaks nothing. -/
theorem begin_useCount (hl : Ledger refs s) (hidle : s.pc t=.idle) {h : H}
    (hready : (s.slots h).isSome=true) (hapart : Undisturbed t (.useCount h) s) :
    begin t s (.useCount h)=s := by
  obtain ⟨x,hx⟩ := Option.isSome_iff_exists.mp hready
  dsimp only [begin]
  rw [hx]
  dsimp only
  cases hcb : x.cb with
  | none => rfl
  | some b =>
    have hcell : cellOf s.slots h=some b := by
      unfold cellOf
      rw [hx]
      exact hcb
    have hpos : 0<refs b := by
      refine hl.counted hcell ?_
      intro u hc
      by_cases hu : u=t
      · rw [hu,hidle] at hc
        cases hc
      · exact (hapart u hu).2 h List.mem_cons_self (cover_mem_writes hc)
    exact hl.touch_alive hpos

/-- The start of an operation keeps the ledger. -/
theorem ledger_begin (hl : Ledger refs s) (hidle : s.pc t=.idle) {op : Op H}
    (hready : ready s op=true) (hapart : Undisturbed t op s) :
    Ledger refs (begin t s op) := by
  cases op with
  | makeShared h allocated =>
    cases allocated with
    | false =>
      exact ledger_construct hl hidle hready (fun u hu => (hapart u hu).1 h List.mem_cons_self)
    | true => exact ledger_allocate hl hidle hready hapart
  | construct h =>
    exact ledger_construct hl hidle hready (fun u hu => (hapart u hu).1 h List.mem_cons_self)
  | copyConstruct dst src => exact ledger_load hl hidle hready hapart
  | moveConstruct dst src => exact ledger_load hl hidle hready hapart
  | copyAssign dst src =>
    dsimp only [begin]
    by_cases he : dst=src
    · rw [if_pos he]
      exact hl
    · rw [if_neg he]
      exact ledger_assign hl hidle he hready hapart
  | moveAssign dst src =>
    dsimp only [begin]
    by_cases he : dst=src
    · rw [if_pos he]
      exact hl
    · rw [if_neg he]
      exact ledger_assign hl hidle he hready hapart
  | destroy h =>
    have htarget := coherent_of_undisturbed hl hidle hready (not_written hapart List.mem_cons_self)
    exact ledger_enter hl hidle (p := .decrement h .finish) (g := h) rfl rfl hl.sound hapart
      List.mem_cons_self ⟨htarget,trivial⟩ (idle_books hl hidle)
  | useCount h =>
    rw [begin_useCount hl hidle hready hapart]
    exact hl

/-- Every atomic step keeps the ledger. -/
theorem step_ledger {a : Action T H} (hl : ∃ refs,Ledger refs s) (hb : Bounded s)
    (h : step s a=some s') : ∃ refs,Ledger refs s' := by
  obtain ⟨refs,hl⟩ := hl
  cases a with
  | start t op =>
    simp only [step,Option.ite_none_right_eq_some,Option.some.injEq] at h
    obtain ⟨⟨hidle,hready,hapart⟩,rfl⟩ := h
    exact ⟨refs,ledger_begin hl (idle_of_isIdle hidle) hready hapart⟩
  | resume t => exact ledger_resume hl hb h

end Steps

end Kpp.SharedThreadsCorrect
