import Kpp.SocketBuffer
import Kpp.StepRun

/-!
# NetfilterHook and the reference of the packet it is shown

`hook_trampoline` wraps the packet of the netfilter core in a local `SKB`,
calls the owner's member function and lets the wrapper's destructor run on
the way out. The core's side of the contract is modelled around it: the
core walks the chain, frees dropped packets itself, keeps queued ones and
forgets only stolen ones.
-/

namespace Kpp.PacketHooks

open MoveOnlyHandle ReleaseLedger SocketBuffer StepRun

/-- `enum class NetfilterVerdict`. -/
inductive NetfilterVerdict where
  | drop
  | accept
  | stolen
  | queue
  | repeatHook
  deriving DecidableEq

/-- Kernel verdict codes, the underlying values of the enumerators. -/
abbrev nfDrop : ℕ := 0
abbrev nfAccept : ℕ := 1
abbrev nfStolen : ℕ := 2
abbrev nfQueue : ℕ := 3
abbrev nfRepeat : ℕ := 4

/-- `static_cast<unsigned int>` of a verdict. -/
def NetfilterVerdict.code : NetfilterVerdict → ℕ
  | .drop => nfDrop
  | .accept => nfAccept
  | .stolen => nfStolen
  | .queue => nfQueue
  | .repeatHook => nfRepeat

/-- Only the stolen verdict has the stolen code. -/
theorem code_eq_stolen {v : NetfilterVerdict} : v.code=nfStolen ↔ v=.stolen := by
  cases v <;> decide

variable {O P S : Type*}

/-- What a callback leaves behind. -/
structure Outcome (O : Type*) where
  /-- Verdict it returns. -/
  verdict : NetfilterVerdict
  /-- Owner object after the call. -/
  owner : O
  /-- The callback moved the wrapper out of its `SKB&` argument. -/
  movesAway : Bool

/-- Member function of the owner, which moves the wrapper away only with a
stolen verdict. -/
structure HookFunc (O P S : Type*) where
  /-- Effect of the call on the owner, the wrapper and the hook state. -/
  call : O → SKB P → S → Outcome O
  /-- The callback's side of the ownership contract. -/
  side : ∀ owner kskb state,(call owner kskb state).movesAway=true →
    (call owner kskb state).verdict=.stolen

/-- The pointer fields of a hook object that its trampoline reads. -/
structure NetfilterHook (O P S : Type*) where
  /-- `owner_ptr_`, with the object it points to. -/
  ownerPtr : Option O
  /-- `callback_ptr_`. -/
  callbackPtr : Option (HookFunc O P S)

/-- Kernel buffers, and the wrappers hook owners keep after moving them away. -/
structure World (P : Type*) where
  /-- Reference counts of the packets. -/
  buffers : Buffers P
  /-- Number of `SKB` objects that hook owners hold on each packet. -/
  stash : P → ℕ

section Trampoline
variable [DecidableEq P]

/-- A hook owner keeps a wrapper that it moved out of its argument. -/
def keep (kskb : SKB P) (stash : P → ℕ) : P → ℕ :=
  match kskb.held with
  | some skb => Function.update stash skb (stash skb+1)
  | none => stash

/-- `hook_trampoline`: verdict code, the hook object afterwards, and the
world after the local wrapper's destructor. -/
def hookTrampoline (priv : Option (NetfilterHook O P S)) (skb : P) (state : S) (w : World P) :
    ℕ×Option (NetfilterHook O P S)×World P :=
  match priv with
  | none => (nfAccept,priv,w)
  | some self =>
    match self.ownerPtr,self.callbackPtr with
    | some owner,some callback =>
      let kskb := SKB.ofSkBuff (some skb)
      let result := callback.call owner kskb state
      -- what the callback took, and what is left in the local wrapper
      let wrappers := if result.movesAway=true then SKB.moveCtor kskb else (⟨none⟩,kskb)
      (result.verdict.code,some {self with ownerPtr := some result.owner},
        ⟨SKB.destruct wrappers.2 w.buffers,keep wrappers.1 w.stash⟩)
    | _,_ => (nfAccept,priv,w)

/-- The hook calls its callback only to return the stolen verdict. -/
def OnlySteals (priv : Option (NetfilterHook O P S)) (skb : P) (state : S) : Prop :=
  ∀ self owner callback,priv=some self → self.ownerPtr=some owner →
    self.callbackPtr=some callback →
    (callback.call owner (SKB.ofSkBuff (some skb)) state).verdict=.stolen

/-- The netfilter contract for one call. A stolen packet's reference passes
from the core to the hook exactly once, by staying in a kept wrapper or by
being dropped. Under every other verdict the references stay as they were. -/
def ContractKept (verdict : ℕ) (skb : P) (w w' : World P) : Prop :=
  if verdict=nfStolen then
    (w'.buffers skb).users+1+w.stash skb=(w.buffers skb).users+w'.stash skb
  else (w'.buffers skb).users=(w.buffers skb).users ∧ w'.stash skb=w.stash skb

/-- The three ways a call can go: no dispatch, a stolen wrapper kept by the
hook, or a wrapper left to the local destructor. -/
theorem hookTrampoline_cases (priv : Option (NetfilterHook O P S)) (skb : P) (state : S)
    (w : World P) :
    (OnlySteals priv skb state ∧ hookTrampoline priv skb state w=(nfAccept,priv,w)) ∨
    ∃ self owner callback,priv=some self ∧ self.ownerPtr=some owner ∧
      self.callbackPtr=some callback ∧
      let result := callback.call owner (SKB.ofSkBuff (some skb)) state
      (OnlySteals priv skb state ↔ result.verdict=.stolen) ∧
      ((result.verdict=.stolen ∧ hookTrampoline priv skb state w=
          (nfStolen,some {self with ownerPtr := some result.owner},
            ⟨w.buffers,Function.update w.stash skb (w.stash skb+1)⟩)) ∨
        hookTrampoline priv skb state w=
          (result.verdict.code,some {self with ownerPtr := some result.owner},
            ⟨put skb w.buffers,w.stash⟩)) := by
  cases priv with
  | none => exact Or.inl ⟨nofun,rfl⟩
  | some self =>
    cases ho : self.ownerPtr with
    | none =>
      have hidle : OnlySteals (some self) skb state := by
        intro _ owner _ hs hp
        cases hs
        rw [ho] at hp
        cases hp
      exact Or.inl ⟨hidle,by simp only [hookTrampoline,ho]⟩
    | some owner =>
      cases hc : self.callbackPtr with
      | none =>
        have hidle : OnlySteals (some self) skb state := by
          intro _ _ callback hs _ hp
          cases hs
          rw [hc] at hp
          cases hp
        exact Or.inl ⟨hidle,by simp only [hookTrampoline,ho,hc]⟩
      | some callback =>
        have hsteal : OnlySteals (some self) skb state ↔
            (callback.call owner (SKB.ofSkBuff (some skb)) state).verdict=.stolen := by
          constructor
          · exact fun h => h self owner callback rfl ho hc
          · intro h _ _ _ hs ho' hc'
            cases hs
            rw [ho] at ho'
            rw [hc] at hc'
            cases ho'
            cases hc'
            exact h
        refine Or.inr ⟨self,owner,callback,rfl,ho,hc,hsteal,?_⟩
        by_cases hm : (callback.call owner (SKB.ofSkBuff (some skb)) state).movesAway=true
        · have hv := callback.side owner (SKB.ofSkBuff (some skb)) state hm
          refine Or.inl ⟨hv,?_⟩
          simp only [hookTrampoline,ho,hc,if_pos hm,hv]
          rfl
        · refine Or.inr ?_
          simp only [hookTrampoline,ho,hc,if_neg hm]
          rfl

/-- Dropping a held reference lowers its count by one. -/
theorem put_users {w : Buffers P} {skb : P} (h : 0<(w skb).users) :
    (put skb w skb).users+1=(w skb).users := by
  have hput : put skb w skb=(w skb).put := Function.update_self _ _ _
  have hcount : (w skb).put.users=(w skb).users-1 := by
    unfold Counted.put
    split <;> simp_all only [lt_self_iff_false,Nat.sub_self]
    rfl
  rw [hput,hcount]
  omega

/-- One call keeps the contract exactly when it does not run a callback that
returns another verdict than stolen. -/
theorem contractKept_iff (priv : Option (NetfilterHook O P S)) (skb : P) (state : S)
    (w : World P) (hheld : 0<(w.buffers skb).users) :
    ContractKept (hookTrampoline priv skb state w).1 skb w (hookTrampoline priv skb state w).2.2 ↔
      OnlySteals priv skb state := by
  rcases hookTrampoline_cases priv skb state w with
    ⟨hidle,hrun⟩|⟨self,owner,callback,_,_,_,hiff,hrun⟩
  · rw [hrun]
    have hkept : ContractKept nfAccept skb w w := ⟨rfl,rfl⟩
    exact iff_of_true hkept hidle
  · have hput := put_users hheld
    rcases hrun with ⟨hv,hrun⟩|hrun
    · rw [hrun,hiff]
      have hkept : ContractKept nfStolen skb w
          ⟨w.buffers,Function.update w.stash skb (w.stash skb+1)⟩ := by
        simp only [ContractKept,if_true,Function.update_self]
        omega
      exact iff_of_true hkept hv
    · rw [hrun,hiff]
      by_cases hv : (callback.call owner (SKB.ofSkBuff (some skb)) state).verdict=.stolen
      · refine iff_of_true ?_ hv
        simp only [ContractKept,if_pos (code_eq_stolen.mpr hv)]
        omega
      · refine iff_of_false ?_ hv
        simp only [ContractKept,if_neg (fun h => hv (code_eq_stolen.mp h))]
        omega

end Trampoline

/-! ## The netfilter core around the hooks -/

/-- Where the core has a packet. -/
inductive Place where
  /-- Not yet received. -/
  | unseen
  /-- About to be shown to the hook with this index. -/
  | atHook (i : ℕ)
  /-- Parked by a queue verdict of the hook with this index. -/
  | queued (i : ℕ)
  /-- Out of the core's hands. -/
  | settled
  deriving DecidableEq

/-- The core still owns a packet on its way or in a queue. -/
def Place.owned : Place → ℕ
  | .unseen => 0
  | .atHook _ => 1
  | .queued _ => 1
  | .settled => 0

/-- Registered hooks in order, the place of every packet, and the world. -/
structure Core (O P S : Type*) where
  /-- The chain. -/
  hooks : List (NetfilterHook O P S)
  /-- Position of each packet. -/
  place : P → Place
  /-- Buffers and kept wrappers. -/
  world : World P

/-- Events of the packet path, in any order and for any number of packets. -/
inductive Action (P S : Type*) where
  | receive (skb : P)
  | callHook (skb : P) (state : S)
  | deliver (skb : P)
  | reinject (skb : P)
  | discard (skb : P)
  | dropKept (skb : P)

section Steps
variable [DecidableEq P]

/-- What the core does with a packet on each verdict code: it frees dropped
packets, goes on with accepted ones, parks queued ones, asks the same hook
again on repeat, and forgets stolen ones. -/
def obey (verdict : ℕ) (skb : P) (i : ℕ) (c : Core O P S) : Core O P S :=
  if verdict=nfDrop then
    ⟨c.hooks,Function.update c.place skb .settled,⟨put skb c.world.buffers,c.world.stash⟩⟩
  else if verdict=nfStolen then {c with place := Function.update c.place skb .settled}
  else if verdict=nfQueue then {c with place := Function.update c.place skb (.queued i)}
  else if verdict=nfRepeat then c
  else {c with place := Function.update c.place skb (.atHook (i+1))}

/-- One event. Accepted packets at the end of the chain are used and freed
by the stack; queued packets are reinjected or freed; owners may destroy
wrappers they kept. -/
def step (c : Core O P S) : Action P S → Option (Core O P S)
  | .receive skb =>
    if c.place skb=.unseen ∧ c.world.buffers skb=fresh then
      some ⟨c.hooks,Function.update c.place skb (.atHook 0),
        ⟨give skb c.world.buffers,c.world.stash⟩⟩
    else none
  | .callHook skb state =>
    match c.place skb with
    | .atHook i =>
      match c.hooks[i]? with
      | some self =>
        let called := hookTrampoline (some self) skb state
          ⟨touch skb c.world.buffers,c.world.stash⟩
        some (obey called.1 skb i
          ⟨c.hooks.set i (called.2.1.getD self),c.place,called.2.2⟩)
      | none => none
    | _ => none
  | .deliver skb =>
    if c.place skb=.atHook c.hooks.length then
      some ⟨c.hooks,Function.update c.place skb .settled,
        ⟨put skb (touch skb c.world.buffers),c.world.stash⟩⟩
    else none
  | .reinject skb =>
    match c.place skb with
    | .queued i => some ⟨c.hooks,Function.update c.place skb (.atHook (i+1)),
        ⟨touch skb c.world.buffers,c.world.stash⟩⟩
    | _ => none
  | .discard skb =>
    match c.place skb with
    | .queued _ => some ⟨c.hooks,Function.update c.place skb .settled,
        ⟨put skb c.world.buffers,c.world.stash⟩⟩
    | _ => none
  | .dropKept skb =>
    if 0<c.world.stash skb then
      some ⟨c.hooks,c.place,⟨SKB.destruct ⟨some skb⟩ c.world.buffers,
        Function.update c.world.stash skb (c.world.stash skb-1)⟩⟩
    else none

end Steps

/-- Owners of a packet: the core while it has it, and kept wrappers. -/
def owners (c : Core O P S) (skb : P) : ℕ := (c.place skb).owned+c.world.stash skb

/-- A hook call in this event returns stolen if it dispatches at all. -/
def HookSteals (c : Core O P S) : Action P S → Prop
  | .callHook skb state => ∀ i self,c.place skb=.atHook i → c.hooks[i]?=some self →
      OnlySteals (some self) skb state
  | _ => True

/-- No packet in the core or in a kept wrapper. -/
def Settled (c : Core O P S) : Prop := ∀ skb,owners c skb=0

/-- A chain before any packet. -/
def start (hooks : List (NetfilterHook O P S)) : Core O P S :=
  ⟨hooks,fun _ => .unseen,⟨fun _ => fresh,fun _ => 0⟩⟩

/-- Obeying a verdict gives up the core's ownership on drop and stolen only. -/
theorem owners_obey [DecidableEq P] {c : Core O P S} {skb : P} {i : ℕ}
    (hat : c.place skb=.atHook i) (verdict : ℕ) (q : P) :
    owners (obey verdict skb i c) q+
        (if q=skb ∧ (verdict=nfDrop ∨ verdict=nfStolen) then 1 else 0)=owners c q := by
  by_cases hq : q=skb
  · subst hq
    unfold obey owners
    split_ifs <;> simp_all [Place.owned] <;> omega
  · have hplace : ∀ place : Place,Function.update c.place skb place q=c.place q :=
      fun place => Function.update_of_ne hq place c.place
    unfold obey owners
    split_ifs <;> simp_all

/-- Only a drop verdict makes the core free the packet. -/
theorem obey_buffers [DecidableEq P] (verdict : ℕ) (skb : P) (i : ℕ) (c : Core O P S) :
    (obey verdict skb i c).world.buffers=
      if verdict=nfDrop then put skb c.world.buffers else c.world.buffers := by
  unfold obey
  split_ifs <;> rfl

/-- A packet at a hook is owned by the core. -/
theorem owners_atHook {c : Core O P S} {skb : P} {i : ℕ} (hat : c.place skb=.atHook i) :
    0<owners c skb := by
  simp only [owners,hat,Place.owned]
  omega

section Ledger
variable [DecidableEq P] {c c' : Core O P S} {skb : P} {state : S}

/-- A hook call in the chain: the verdict obeyed, and what became of the
reference the local wrapper was given. -/
theorem callHook_cases (h : step c (.callHook skb state)=some c') :
    ∃ i hooks,c.place skb=.atHook i ∧
      ((HookSteals c (.callHook skb state) ∧
          c'=obey nfAccept skb i ⟨hooks,c.place,⟨touch skb c.world.buffers,c.world.stash⟩⟩) ∨
        (HookSteals c (.callHook skb state) ∧
          c'=obey nfStolen skb i ⟨hooks,c.place,⟨touch skb c.world.buffers,
            Function.update c.world.stash skb (c.world.stash skb+1)⟩⟩) ∨
        ∃ verdict,(HookSteals c (.callHook skb state) ↔ verdict=nfStolen) ∧
          c'=obey verdict skb i
            ⟨hooks,c.place,⟨put skb (touch skb c.world.buffers),c.world.stash⟩⟩) := by
  cases hplace : c.place skb with
  | unseen => simp only [step,hplace,reduceCtorEq] at h
  | queued i => simp only [step,hplace,reduceCtorEq] at h
  | settled => simp only [step,hplace,reduceCtorEq] at h
  | atHook i =>
    cases hself : c.hooks[i]? with
    | none => simp only [step,hplace,hself,reduceCtorEq] at h
    | some self =>
      have hguard : HookSteals c (.callHook skb state) ↔ OnlySteals (some self) skb state := by
        constructor
        · exact fun hg => hg i self hplace hself
        · intro hg j other hj ho
          rw [hplace] at hj
          cases hj
          rw [hself] at ho
          cases ho
          exact hg
      simp only [step,hplace,hself,Option.some.injEq] at h
      rcases hookTrampoline_cases (some self) skb state
        ⟨touch skb c.world.buffers,c.world.stash⟩ with ⟨hidle,hrun⟩|⟨_,_,_,_,_,_,hiff,hrun⟩
      · rw [hrun] at h
        exact ⟨i,_,rfl,Or.inl ⟨hguard.mpr hidle,h.symm⟩⟩
      · rcases hrun with ⟨hv,hrun⟩|hrun
        · rw [hrun] at h
          exact ⟨i,_,rfl,Or.inr (Or.inl ⟨hguard.mpr (hiff.mpr hv),h.symm⟩)⟩
        · rw [hrun] at h
          exact ⟨i,_,rfl,Or.inr (Or.inr ⟨_,hguard.trans (hiff.trans code_eq_stolen.symm),h.symm⟩)⟩

/-- Obeying anything but a stolen verdict keeps a balanced ledger balanced. -/
theorem obey_balanced {i verdict : ℕ} (hat : c.place skb=.atHook i) (hv : verdict≠nfStolen)
    (hb : Balanced (owners c) c.world.buffers) :
    Balanced (owners (obey verdict skb i c)) (obey verdict skb i c).world.buffers := by
  have hown := owners_obey hat verdict
  rw [obey_buffers]
  by_cases hd : verdict=nfDrop
  · rw [if_pos hd]
    simp only [hd,true_or,and_true] at hown ⊢
    exact hb.put hown
  · rw [if_neg hd]
    simp only [hd,hv,or_self,and_false,if_false,Nat.add_zero] at hown
    exact hb.congr hown

/-- Obeying anything but a stolen verdict leaves an overdrawn ledger overdrawn. -/
theorem obey_overdrawn {i verdict : ℕ} (hat : c.place skb=.atHook i) (hv : verdict≠nfStolen)
    (ho : Overdrawn (owners c) c.world.buffers) :
    Overdrawn (owners (obey verdict skb i c)) (obey verdict skb i c).world.buffers := by
  have hown := owners_obey hat verdict
  rw [obey_buffers]
  by_cases hd : verdict=nfDrop
  · rw [if_pos hd]
    simp only [hd,true_or,and_true] at hown ⊢
    exact ho.put (fun q => (hown q).ge)
  · rw [if_neg hd]
    simp only [hd,hv,or_self,and_false,if_false,Nat.add_zero] at hown
    exact ho.mono (fun q => (hown q).ge)

/-- After a stolen verdict the core owns the packet no more. -/
theorem owners_stolen {i : ℕ} (hat : c.place skb=.atHook i) (q : P) :
    owners (obey nfStolen skb i c) q+(if q=skb then 1 else 0)=owners c q := by
  have hown := owners_obey hat nfStolen q
  simp only [or_true,and_true] at hown
  exact hown

/-- A kept wrapper is one more owner of its packet. -/
theorem owners_keep (skb : P) (hooks : List (NetfilterHook O P S)) (place : P → Place)
    (buffers : Buffers P) (stash : P → ℕ) (q : P) :
    owners ⟨hooks,place,⟨buffers,Function.update stash skb (stash skb+1)⟩⟩ q=
      (place q).owned+stash q+if q=skb then 1 else 0 := by
  by_cases hq : q=skb
  · subst hq
    simp only [owners,Function.update_self,if_true]
    omega
  · simp only [owners,Function.update_of_ne hq,if_neg hq,Nat.add_zero]

/-- A hook that only steals keeps the ledger balanced, whether it keeps the
wrapper or lets it consume the packet. -/
theorem callHook_balanced (hb : Balanced (owners c) c.world.buffers)
    (hg : HookSteals c (.callHook skb state)) (h : step c (.callHook skb state)=some c') :
    Balanced (owners c') c'.world.buffers := by
  rcases callHook_cases h with ⟨i,hooks,hat,hcase⟩
  rw [hb.touch (owners_atHook hat)] at hcase
  rcases hcase with ⟨_,rfl⟩|⟨_,rfl⟩|⟨verdict,hiff,rfl⟩
  · exact obey_balanced hat (by decide) hb
  · have hsteal := owners_stolen (c := ⟨hooks,c.place,⟨c.world.buffers,
      Function.update c.world.stash skb (c.world.stash skb+1)⟩⟩) hat
    have hkeep := owners_keep skb hooks c.place c.world.buffers c.world.stash
    rw [obey_buffers,if_neg (by decide)]
    refine hb.congr (fun q => ?_)
    have hs := hsteal q
    have hk := hkeep q
    simp only [owners] at hs hk ⊢
    omega
  · have hv := hiff.mp hg
    subst hv
    rw [obey_buffers,if_neg (by decide)]
    exact hb.put (owners_stolen (c := ⟨hooks,c.place,⟨_,c.world.stash⟩⟩) hat)

/-- Any other verdict of a dispatched callback frees a packet the core owns. -/
theorem callHook_overdraws (hb : Balanced (owners c) c.world.buffers)
    (hg : ¬HookSteals c (.callHook skb state)) (h : step c (.callHook skb state)=some c') :
    Overdrawn (owners c') c'.world.buffers := by
  rcases callHook_cases h with ⟨i,hooks,hat,hcase⟩
  rw [hb.touch (owners_atHook hat)] at hcase
  rcases hcase with ⟨hs,_⟩|⟨hs,_⟩|⟨verdict,hiff,rfl⟩
  · exact absurd hs hg
  · exact absurd hs hg
  · have hv : verdict≠nfStolen := fun hv => hg (hiff.mpr hv)
    exact obey_overdrawn hat hv (hb.overdrawn_put (owners_atHook hat) (le_refl _))

/-- No hook settles a ledger that is already overdrawn. -/
theorem callHook_keeps_overdrawn (ho : Overdrawn (owners c) c.world.buffers)
    (h : step c (.callHook skb state)=some c') : Overdrawn (owners c') c'.world.buffers := by
  rcases callHook_cases h with ⟨i,hooks,hat,hcase⟩
  rcases hcase with ⟨_,rfl⟩|⟨_,rfl⟩|⟨verdict,_,rfl⟩
  · exact obey_overdrawn hat (by decide) ho.touch
  · have hsteal := owners_stolen (c := ⟨hooks,c.place,⟨touch skb c.world.buffers,
      Function.update c.world.stash skb (c.world.stash skb+1)⟩⟩) hat
    have hkeep := owners_keep skb hooks c.place (touch skb c.world.buffers) c.world.stash
    rw [obey_buffers,if_neg (by decide)]
    refine ho.touch.mono (fun q => ?_)
    have hs := hsteal q
    have hk := hkeep q
    simp only [owners] at hs hk ⊢
    omega
  · by_cases hv : verdict=nfStolen
    · subst hv
      rw [obey_buffers,if_neg (by decide)]
      have hsteal := owners_stolen (c := ⟨hooks,c.place,⟨put skb (touch skb c.world.buffers),
        c.world.stash⟩⟩) hat
      exact ho.touch.put (fun q => (hsteal q).ge)
    · have hput : Overdrawn (owners c) (put skb (touch skb c.world.buffers)) :=
        ho.touch.put (fun q => Nat.le_add_right _ _)
      exact obey_overdrawn hat hv hput

/-- Moving a packet between places exchanges the core's ownership of it. -/
theorem owners_place (skb : P) (hooks : List (NetfilterHook O P S)) (place : P → Place)
    (buffers : Buffers P) (stash : P → ℕ) (next : Place) (q : P) :
    owners ⟨hooks,Function.update place skb next,⟨buffers,stash⟩⟩ q+
        (if q=skb then (place skb).owned else 0)=
      (place q).owned+stash q+if q=skb then next.owned else 0 := by
  by_cases hq : q=skb
  · subst hq
    simp only [owners,Function.update_self,if_true]
    omega
  · simp only [owners,Function.update_of_ne hq,if_neg hq,Nat.add_zero]

/-- What an event other than a hook call does to owners and references: a new
packet with its owner, an owner that drops its reference, or a mere use. -/
theorem event_cases {a : Action P S} (hother : ∀ skb state,a≠.callHook skb state)
    (h : step c a=some c') :
    ∃ skb,
      (c.world.buffers skb=fresh ∧ c'.world.buffers=give skb c.world.buffers ∧
        ∀ q,owners c' q=owners c q+if q=skb then 1 else 0) ∨
      (0<owners c skb ∧ (c'.world.buffers=put skb c.world.buffers ∨
          c'.world.buffers=put skb (touch skb c.world.buffers)) ∧
        ∀ q,owners c' q+(if q=skb then 1 else 0)=owners c q) ∨
      (0<owners c skb ∧ c'.world.buffers=touch skb c.world.buffers ∧
        ∀ q,owners c' q=owners c q) := by
  cases a with
  | callHook skb state => exact absurd rfl (hother skb state)
  | receive skb =>
    simp only [step,Option.ite_none_right_eq_some,Option.some.injEq] at h
    have hplace := owners_place skb c.hooks c.place (give skb c.world.buffers)
      c.world.stash (.atHook 0)
    obtain ⟨⟨hunseen,hfresh⟩,rfl⟩ := h
    refine ⟨skb,Or.inl ⟨hfresh,rfl,fun q => ?_⟩⟩
    have hq := hplace q
    simp only [hunseen,Place.owned,ite_self,Nat.add_zero] at hq
    exact hq
  | deliver skb =>
    simp only [step,Option.ite_none_right_eq_some,Option.some.injEq] at h
    have hplace := owners_place skb c.hooks c.place
      (put skb (touch skb c.world.buffers)) c.world.stash .settled
    obtain ⟨hat,rfl⟩ := h
    refine ⟨skb,Or.inr (Or.inl ⟨owners_atHook hat,Or.inr rfl,fun q => ?_⟩)⟩
    have hq := hplace q
    simp only [hat,Place.owned,ite_self,Nat.add_zero] at hq
    exact hq
  | reinject skb =>
    cases hplace : c.place skb with
    | unseen => simp only [step,hplace,reduceCtorEq] at h
    | atHook i => simp only [step,hplace,reduceCtorEq] at h
    | settled => simp only [step,hplace,reduceCtorEq] at h
    | queued i =>
      simp only [step,hplace,Option.some.injEq] at h
      have hmoved := owners_place skb c.hooks c.place (touch skb c.world.buffers)
        c.world.stash (.atHook (i+1))
      subst h
      refine ⟨skb,Or.inr (Or.inr ⟨?_,rfl,fun q => ?_⟩)⟩
      · simp only [owners,hplace,Place.owned]
        omega
      · have hq := hmoved q
        simp only [hplace,Place.owned] at hq
        exact Nat.add_right_cancel hq
  | discard skb =>
    cases hplace : c.place skb with
    | unseen => simp only [step,hplace,reduceCtorEq] at h
    | atHook i => simp only [step,hplace,reduceCtorEq] at h
    | settled => simp only [step,hplace,reduceCtorEq] at h
    | queued i =>
      simp only [step,hplace,Option.some.injEq] at h
      have hmoved := owners_place skb c.hooks c.place (put skb c.world.buffers)
        c.world.stash .settled
      subst h
      refine ⟨skb,Or.inr (Or.inl ⟨?_,Or.inl rfl,fun q => ?_⟩)⟩
      · simp only [owners,hplace,Place.owned]
        omega
      · have hq := hmoved q
        simp only [hplace,Place.owned,ite_self,Nat.add_zero] at hq
        exact hq
  | dropKept skb =>
    simp only [step,Option.ite_none_right_eq_some,Option.some.injEq] at h
    obtain ⟨hkept,rfl⟩ := h
    refine ⟨skb,Or.inr (Or.inl ⟨Nat.add_pos_right _ hkept,Or.inl rfl,fun q => ?_⟩)⟩
    by_cases hq : q=skb
    · subst hq
      simp only [owners,Function.update_self,if_true]
      omega
    · simp only [owners,Function.update_of_ne hq,if_neg hq,Nat.add_zero]

/-- Every event that keeps to its guard preserves the balance. -/
theorem step_balanced {a : Action P S} (hb : Balanced (owners c) c.world.buffers)
    (hg : HookSteals c a) (h : step c a=some c') : Balanced (owners c') c'.world.buffers := by
  by_cases hcall : ∃ skb state,a=.callHook skb state
  · obtain ⟨skb,state,rfl⟩ := hcall
    exact callHook_balanced hb hg h
  · have hother : ∀ skb state,a≠.callHook skb state := fun skb state he => hcall ⟨skb,state,he⟩
    rcases event_cases hother h with ⟨skb,⟨hfresh,hbuf,hown⟩|⟨hpos,hbuf,hown⟩|⟨hpos,hbuf,hown⟩⟩
    · rw [hbuf]
      exact hb.give hfresh hown
    · rw [hb.touch hpos,or_self] at hbuf
      rw [hbuf]
      exact hb.put hown
    · rw [hbuf,hb.touch hpos]
      exact hb.congr hown

/-- Leaving the guard overdraws the ledger at once. -/
theorem step_overdraws {a : Action P S} (hb : Balanced (owners c) c.world.buffers)
    (hg : ¬HookSteals c a) (h : step c a=some c') : Overdrawn (owners c') c'.world.buffers := by
  cases a with
  | callHook skb state => exact callHook_overdraws hb hg h
  | receive skb => exact absurd trivial hg
  | deliver skb => exact absurd trivial hg
  | reinject skb => exact absurd trivial hg
  | discard skb => exact absurd trivial hg
  | dropKept skb => exact absurd trivial hg

/-- No event settles an overdrawn ledger. -/
theorem step_keeps_overdrawn {a : Action P S} (ho : Overdrawn (owners c) c.world.buffers)
    (h : step c a=some c') : Overdrawn (owners c') c'.world.buffers := by
  by_cases hcall : ∃ skb state,a=.callHook skb state
  · obtain ⟨skb,state,rfl⟩ := hcall
    exact callHook_keeps_overdrawn ho h
  · have hother : ∀ skb state,a≠.callHook skb state := fun skb state he => hcall ⟨skb,state,he⟩
    rcases event_cases hother h with ⟨skb,⟨hfresh,hbuf,hown⟩|⟨_,hbuf,hown⟩|⟨_,hbuf,hown⟩⟩
    · rw [hbuf]
      exact ho.give hfresh (fun q => (hown q).symm ▸ Nat.le_add_right _ _)
    · rcases hbuf with hbuf|hbuf
      · rw [hbuf]
        exact ho.put (fun q => (hown q).ge)
      · rw [hbuf]
        exact ho.touch.put (fun q => (hown q).ge)
    · rw [hbuf]
      exact ho.touch.mono (fun q => (hown q).ge)

end Ledger

/-- The chain starts balanced. -/
theorem start_balanced (hooks : List (NetfilterHook O P S)) :
    Balanced (owners (start hooks)) (start (P := P) hooks).world.buffers :=
  balanced_fresh

/-- Ownership of packets through hooks. One call keeps the netfilter contract
exactly when it does not run a callback that returns another verdict than
stolen. Along every run of packets whose hook calls all do so, no packet is
freed twice or used after it was freed. A run that ends with all packets
settled has freed each packet exactly once precisely when its hook calls did. -/
theorem hook_packet_ownership [DecidableEq P] (hooks : List (NetfilterHook O P S)) :
    (∀ (priv : Option (NetfilterHook O P S)) (skb : P) (state : S) (w : World P),
      0<(w.buffers skb).users →
      (ContractKept (hookTrampoline priv skb state w).1 skb w
        (hookTrampoline priv skb state w).2.2 ↔ OnlySteals priv skb state)) ∧
    ∀ events : List (Action P S),
      (Guarded step HookSteals (start hooks) events →
        Along step (fun c => Unharmed c.world.buffers) (start hooks) events) ∧
      ∀ c,run step (start hooks) events=some c → Settled c →
        (FreedOnce c.world.buffers ↔ Guarded step HookSteals (start hooks) events) := by
  refine ⟨fun priv skb state w => contractKept_iff priv skb state w,fun events => ⟨?_,?_⟩⟩
  · exact along_of_guarded (I := fun c => Balanced (owners c) c.world.buffers)
      (fun hb => hb.unharmed) (fun hb hg h => step_balanced hb hg h) (start_balanced hooks)
  · intro c hrun hsettled
    exact end_iff_guarded (I := fun c => Balanced (owners c) c.world.buffers)
      (B := fun c => Overdrawn (owners c) c.world.buffers)
      (Q := fun c => FreedOnce c.world.buffers) (F := Settled)
      (fun hb hg h => step_balanced hb hg h) (fun hb hg h => step_overdraws hb hg h)
      (fun ho h => step_keeps_overdrawn ho h) (fun hb hf => hb.freedOnce hf)
      (fun ho hf => ho.not_freedOnce hf) (start_balanced hooks) hrun hsettled

/-- A hook whose callback lets every packet pass and leaves the wrapper alone. -/
def passAll : NetfilterHook Unit Unit Unit :=
  ⟨some (),some ⟨fun _ _ _ => ⟨.accept,(),false⟩,fun _ _ _ h => Bool.noConfusion h⟩⟩

/-- One accepted packet: the call drops the core's only reference, and the
stack then uses and frees the freed packet again. -/
theorem passAll_frees_packet_twice :
    ¬ContractKept (hookTrampoline (some passAll) () () ⟨fun _ => ⟨1,0,false⟩,fun _ => 0⟩).1 ()
        ⟨fun _ => ⟨1,0,false⟩,fun _ => 0⟩
        (hookTrampoline (some passAll) () () ⟨fun _ => ⟨1,0,false⟩,fun _ => 0⟩).2.2 ∧
      ∃ c,run step (start [passAll]) [.receive (),.callHook () (),.deliver ()]=some c ∧
        Settled c ∧ c.world.buffers ()=⟨0,2,true⟩ ∧ ¬FreedOnce c.world.buffers := by
  constructor
  · unfold ContractKept
    decide
  · refine ⟨_,rfl,fun _ => rfl,rfl,fun hfreed => ?_⟩
    have hone := hfreed () (by decide)
    exact absurd hone.1 (by decide)

end Kpp.PacketHooks
