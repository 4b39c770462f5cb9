import Kpp.StepRun
import Mathlib.Data.Int.Notation
import Mathlib.Data.List.Sort
import Mathlib.Logic.Function.Basic

/-!
# Notifiers on the kernel's chains

A `Notifier` puts its block on a chain, and takes it off with a function of
its own. The kernel calls the blocks of a chain by priority, blocks of one
priority in the order of their registration, until one stops the event. The
priority of a block is what the object's storage has there, since the
constructor does not set it. The reference tells events to the live objects.
-/

namespace Kpp.NotifierChains

open StepRun

variable {C O D W : Type*}

/-- `NOTIFY_DONE` and the bit of results that stop an event. -/
abbrev notifyDone : BitVec 32 := 0
abbrev notifyStopMask : BitVec 32 := 0x8000

/-- `NotifierFunc`, on what the member function may change. -/
abbrev NotifierFunc (O D W : Type*) := O → ℕ → BitVec 64 → D → W → BitVec 32×W

/-- `Notifier`; its block has the number of the object. -/
structure Notifier (C O D W : Type*) where
  /-- `owner_`. -/
  owner : Option O
  /-- `callback_ptr_`. -/
  callbackPtr : Option (NotifierFunc O D W)
  /-- `unregister_ptr_`, by the chain it removes from. -/
  unregisterPtr : Option C

/-- What `notifier_trampoline` does once it has the object. -/
def Notifier.call (self : Notifier C O D W) (nb : ℕ) (action : BitVec 64) (data : D) (w : W) :
    BitVec 32×W :=
  match self.owner,self.callbackPtr with
  | some owner,some callback => callback owner nb action data w
  | _,_ => (notifyDone,w)

/-- Objects over their lives, numbered in order of construction, and the chains. -/
structure State (C O D W : Type*) where
  /-- Blocks of each chain in the order of calls. -/
  chain : C → List ℕ
  /-- Number of the next object. -/
  next : ℕ
  /-- Live objects. -/
  live : ℕ → Option (Notifier C O D W)
  /-- Chain that accepted the block, if it did. -/
  accepted : ℕ → Option C
  /-- `nb_.priority` of each object. -/
  priority : ℕ → ℤ

/-- A construction, with the outcome of `reg` and the priority that is in the
storage, or a destruction. -/
inductive Action (C O D W : Type*) where
  | construct (self : Notifier C O D W) (reg : C) (priority : ℤ) (accepted : Bool)
  | destroy (nb : ℕ)

/-- Nothing constructed yet, and all chains empty. -/
def start : State C O D W := ⟨fun _ => [],0,fun _ => none,fun _ => none,fun _ => 0⟩

/-- `notifier_trampoline`; there is no result if the object is gone. -/
def notifierTrampoline (live : ℕ → Option (Notifier C O D W)) (nb : ℕ) (action : BitVec 64)
    (data : D) (w : W) : Option (BitVec 32×W) :=
  (live nb).map (fun self => self.call nb action data w)

/-- The result stops the event. -/
def stops (done : BitVec 32×W) : Bool := done.1&&&notifyStopMask≠0

/-- `notifier_call_chain`. -/
def callChain (live : ℕ → Option (Notifier C O D W)) (action : BitVec 64) (data : D) :
    List ℕ → BitVec 32×W → Option (BitVec 32×W)
  | [],done => some done
  | nb::nbs,done =>
    (notifierTrampoline live nb action data done.2).bind (fun done =>
      if stops done=true then some done else callChain live action data nbs done)

/-- `notifier_chain_register`, which goes by the blocks of no lower priority. -/
def chainRegister (priority : ℕ → ℤ) (nb : ℕ) (nbs : List ℕ) : List ℕ :=
  nbs.orderedInsert (fun n m => priority m<priority n) nb

section Code
variable [DecidableEq C]

/-- `Notifier()`, on the chains; the result of `reg` is dropped. -/
def Notifier.construct (reg : C) (priority : ℕ → ℤ) (accepted : Bool) (nb : ℕ)
    (chain : C → List ℕ) : C → List ℕ :=
  if accepted=true then Function.update chain reg (chainRegister priority nb (chain reg)) else chain

/-- `~Notifier()`, on the chains. -/
def Notifier.destruct (self : Notifier C O D W) (nb : ℕ) (chain : C → List ℕ) : C → List ℕ :=
  match self.unregisterPtr with
  | some c => Function.update chain c ((chain c).erase nb)
  | none => chain

/-- One construction or destruction. -/
def step (s : State C O D W) : Action C O D W → Option (State C O D W)
  | .construct self reg priority accepted =>
    let priority := Function.update s.priority s.next priority
    some ⟨Notifier.construct reg priority accepted s.next s.chain,s.next+1,
      Function.update s.live s.next (some self),
      Function.update s.accepted s.next (if accepted=true then some reg else none),priority⟩
  | .destroy nb =>
    (s.live nb).map (fun self => {s with
      chain := self.destruct nb s.chain
      live := Function.update s.live nb none})

end Code

/-- Reference order: by priority, and then by age. -/
def Before (rank : ℕ → ℤ) (a b : ℕ) : Prop := rank b<rank a ∨ (rank a=rank b ∧ a≤b)

instance (rank : ℕ → ℤ) : DecidableRel (Before rank) :=
  fun _ _ => inferInstanceAs (Decidable (_ ∨ _))

/-- The object is live and its registration on this chain succeeded. -/
def State.Listens (s : State C O D W) (c : C) (nb : ℕ) : Prop :=
  (s.live nb).isSome=true ∧ s.accepted nb=some c

instance [DecidableEq C] (s : State C O D W) (c : C) : DecidablePred (s.Listens c) :=
  fun _ => inferInstanceAs (Decidable (_ ∧ _))

/-- Reference: the objects that an event on the chain is for, in order. -/
def State.audience [DecidableEq C] (s : State C O D W) (c : C) : List ℕ :=
  ((List.range s.next).filter (s.Listens c)).insertionSort (Before s.priority)

/-- Reference: results of one object after the other, if none stops. -/
def answers (live : ℕ → Option (Notifier C O D W)) (action : BitVec 64) (data : D) :
    List ℕ → W → List (BitVec 32×W)
  | [],_ => []
  | nb::nbs,w =>
    let done := (live nb).elim (notifyDone,w) (fun self => self.call nb action data w)
    done::answers live action data nbs done.2

/-- Reference: the first result that stops the event, or else the last one. -/
def announce (live : ℕ → Option (Notifier C O D W)) (action : BitVec 64) (data : D)
    (nbs : List ℕ) (w : W) : BitVec 32×W :=
  let all := answers live action data nbs w
  ((all.find? stops).or all.getLast?).getD (notifyDone,w)

/-- Chains are as the reference has them. -/
structure Delivers [DecidableEq C] (s : State C O D W) : Prop where
  /-- On a chain are the live objects it accepted, by priority and age. -/
  ordered : ∀ c,s.chain c=s.audience c
  /-- Events touch live objects only, and come out as announced to them. -/
  delivered : ∀ c action data w,callChain s.live action data (s.chain c) (notifyDone,w)=
    some (announce s.live action data (s.audience c) w)

/-- A destructor takes the block off the chain that accepted it. -/
def Withdraws (s : State C O D W) : Action C O D W → Prop
  | .construct _ _ _ _ => True
  | .destroy nb => ∀ self c,s.live nb=some self → s.accepted nb=some c → self.unregisterPtr=some c

section Order
variable {rank : ℕ → ℤ}

instance : IsTrans ℕ (Before rank) where
  trans a b c h h' := by unfold Before at *; omega

instance : Std.Total (Before rank) where
  total a b := by unfold Before; omega

instance : Std.Antisymm (Before rank) where
  antisymm a b h h' := by unfold Before at *; omega

/-- A youngest block goes behind all blocks of no lower priority. -/
theorem chainRegister_eq {nb : ℕ} {nbs : List ℕ} (h : ∀ m∈nbs,m<nb) :
    chainRegister rank nb nbs=nbs.orderedInsert (Before rank) nb := by
  unfold chainRegister
  induction nbs with
  | nil => rfl
  | cons m nbs ih =>
    have hm := h m List.mem_cons_self
    have hsame : rank m<rank nb ↔ Before rank nb m := by
      unfold Before
      omega
    rw [List.orderedInsert_cons,List.orderedInsert_cons,
      ih (fun x hx => h x (List.mem_cons_of_mem m hx))]
    exact if_congr hsame rfl rfl

/-- The order depends on the priorities of the blocks alone. -/
theorem pairwise_congr {rank' : ℕ → ℤ} {nbs : List ℕ} (h : ∀ nb∈nbs,rank' nb=rank nb)
    (hp : nbs.Pairwise (Before rank)) : nbs.Pairwise (Before rank') := by
  refine hp.imp_of_mem ?_
  intro a b ha hb hab
  unfold Before at *
  rw [h a ha,h b hb]
  exact hab

end Order

/-- The kernel's loop over live blocks gives the first result that stops, or
the last. -/
theorem callChain_eq {live : ℕ → Option (Notifier C O D W)} {action : BitVec 64} {data : D}
    {nbs : List ℕ} (h : ∀ nb∈nbs,(live nb).isSome=true) (done : BitVec 32×W) :
    callChain live action data nbs done=
      some ((((answers live action data nbs done.2).find? stops).or
        (answers live action data nbs done.2).getLast?).getD done) := by
  induction nbs generalizing done with
  | nil => rfl
  | cons nb nbs ih =>
    obtain ⟨self,hself⟩ := Option.isSome_iff_exists.mp (h nb List.mem_cons_self)
    have hrest := ih (fun x hx => h x (List.mem_cons_of_mem nb hx))
      (self.call nb action data done.2)
    simp only [callChain,notifierTrampoline,answers,hself,Option.map_some,Option.bind_some,
      Option.elim_some]
    cases hstop : stops (self.call nb action data done.2) with
    | true => simp only [List.find?_cons,hstop,if_true,Option.some_or,Option.getD_some]
    | false =>
      rw [if_neg Bool.false_ne_true,hrest]
      rw [List.find?_cons_of_neg (by rw [hstop]; exact Bool.false_ne_true),List.getLast?_cons]
      cases (answers live action data nbs (self.call nb action data done.2).2).find? stops with
      | some first => rfl
      | none => rfl

variable [DecidableEq C] {s t : State C O D W}

/-- The audience in no order: each listener once. -/
theorem mem_audience (hfresh : ∀ nb,s.next≤nb → s.live nb=none) {c : C} {nb : ℕ} :
    nb∈s.audience c ↔ s.Listens c nb := by
  unfold State.audience
  rw [List.mem_insertionSort,List.mem_filter,List.mem_range,decide_eq_true_iff]
  refine ⟨And.right,fun h => ⟨?_,h⟩⟩
  by_contra hlate
  have hnone := hfresh nb (by omega)
  rw [State.Listens,hnone] at h
  exact absurd h.1 nofun

/-- What is in order and has the listeners once each is the audience. -/
theorem audience_eq {nbs : List ℕ} {c : C} (hp : nbs.Pairwise (Before s.priority))
    (hperm : nbs.Perm ((List.range s.next).filter (s.Listens c))) : nbs=s.audience c :=
  List.Perm.eq_of_pairwise' hp (List.pairwise_insertionSort _ _)
    (hperm.trans (List.perm_insertionSort _ _).symm)

/-- Chains in order, and nothing known of objects that are still to come. -/
structure Sound (s : State C O D W) : Prop where
  /-- Chains are the audiences. -/
  ordered : ∀ c,s.chain c=s.audience c
  /-- Later objects are not there yet. -/
  fresh : ∀ nb,s.next≤nb → s.live nb=none

/-- Chains that are the audiences deliver. -/
theorem Sound.delivers (hs : Sound s) : Delivers s := by
  refine ⟨hs.ordered,?_⟩
  intro c action data w
  have hlive : ∀ nb∈s.chain c,(s.live nb).isSome=true := by
    intro nb hnb
    rw [hs.ordered c,mem_audience hs.fresh] at hnb
    exact hnb.1
  rw [callChain_eq hlive,hs.ordered c]
  rfl

/-- Blocks of a chain are those of objects constructed before. -/
theorem Sound.chain_lt (hs : Sound s) {c : C} {nb : ℕ} (h : nb∈s.chain c) : nb<s.next := by
  rw [hs.ordered c,mem_audience hs.fresh] at h
  by_contra hlate
  have hnone := hs.fresh nb (by omega)
  rw [State.Listens,hnone] at h
  exact absurd h.1 nofun

/-- A chain is in order and has its listeners once each. -/
theorem Sound.chain_spec (hs : Sound s) (c : C) : (s.chain c).Pairwise (Before s.priority) ∧
    (s.chain c).Perm ((List.range s.next).filter (s.Listens c)) := by
  rw [hs.ordered c]
  exact ⟨List.pairwise_insertionSort _ _,List.perm_insertionSort _ _⟩

/-- A chain comes out of a destructor without the block if the destructor
withdraws it, or the chain never had it. -/
theorem Sound.chain_destruct (hs : Sound s) {nb : ℕ} {self : Notifier C O D W} {c : C}
    (hw : s.accepted nb=some c → self.unregisterPtr=some c) :
    self.destruct nb s.chain c=(s.chain c).filter (· != nb) := by
  obtain ⟨_,hperm⟩ := hs.chain_spec c
  have hnodup : (s.chain c).Nodup := hperm.nodup_iff.mpr (List.nodup_range.filter _)
  rw [←hnodup.erase_eq_filter,Notifier.destruct]
  by_cases hacc : s.accepted nb=some c
  · rw [hw hacc]
    exact Function.update_self c _ s.chain
  · have hout : nb∉s.chain c := by
      rw [hs.ordered c,mem_audience hs.fresh]
      exact fun h => hacc h.2
    rw [List.erase_of_not_mem hout]
    cases self.unregisterPtr with
    | none => rfl
    | some c' =>
      by_cases hc : c=c'
      · subst hc
        exact (Function.update_self c _ s.chain).trans (List.erase_of_not_mem hout)
      · exact Function.update_of_ne hc _ s.chain

/-- Listeners after a construction are those before, and the new object if it
was accepted. -/
theorem filter_construct {self : Notifier C O D W} {reg : C} {rank : ℤ}
    {accepted : Bool} (h : step s (.construct self reg rank accepted)=some t) (c : C) :
    (List.range t.next).filter (t.Listens c)=(List.range s.next).filter (s.Listens c)++
      if accepted=true ∧ reg=c then [s.next] else [] := by
  obtain rfl := Option.some.inj h
  change (List.range (s.next+1)).filter _=_
  rw [List.range_succ,List.filter_append]
  congr 1
  · refine List.filter_congr ?_
    intro m hm
    have hne : m≠s.next := (List.mem_range.mp hm).ne
    rw [Bool.eq_iff_iff,decide_eq_true_iff,decide_eq_true_iff]
    simp only [State.Listens,Function.update_of_ne hne]
  · by_cases hnew : accepted=true ∧ reg=c
    · obtain ⟨rfl,rfl⟩ := hnew
      simp [State.Listens]
    · have hnot : ¬((if accepted=true then some reg else none)=some c) := by
        split
        · next ha => exact fun hc => hnew ⟨ha,Option.some.inj hc⟩
        · exact nofun
      simp [State.Listens,hnot,hnew]

/-- A construction keeps the chains in order, whatever its registration comes to. -/
theorem Sound.construct (hs : Sound s) {self : Notifier C O D W} {reg : C} {rank : ℤ}
    {accepted : Bool} (h : step s (.construct self reg rank accepted)=some t) : Sound t := by
  have hfilter := filter_construct h
  obtain rfl := Option.some.inj h
  refine ⟨?_,?_⟩
  · intro c
    obtain ⟨hpair,hperm⟩ := hs.chain_spec c
    have hsame : (s.chain c).Pairwise (Before (Function.update s.priority s.next rank)) :=
      pairwise_congr (fun nb hnb => Function.update_of_ne (hs.chain_lt hnb).ne _ _) hpair
    by_cases hnew : accepted=true ∧ reg=c
    · obtain ⟨rfl,rfl⟩ := hnew
      have hchain : Notifier.construct reg (Function.update s.priority s.next rank) true s.next
          s.chain reg=(s.chain reg).orderedInsert
            (Before (Function.update s.priority s.next rank)) s.next :=
        (Function.update_self reg _ s.chain).trans (chainRegister_eq (fun m hm => hs.chain_lt hm))
      refine hchain.trans (audience_eq (hsame.orderedInsert _ _) ?_)
      rw [hfilter reg,if_pos ⟨rfl,rfl⟩]
      exact (List.perm_orderedInsert _ _ _).trans
        ((hperm.cons s.next).trans (List.perm_append_singleton _ _).symm)
    · have hchain : Notifier.construct reg (Function.update s.priority s.next rank) accepted s.next
          s.chain c=s.chain c := by
        unfold Notifier.construct
        split
        · next ha => exact Function.update_of_ne (fun hc => hnew ⟨ha,hc.symm⟩) _ s.chain
        · rfl
      refine hchain.trans (audience_eq hsame ?_)
      rw [hfilter c,if_neg hnew,List.append_nil]
      exact hperm
  · intro nb hnb
    change s.next+1≤nb at hnb
    have hne : nb≠s.next := by omega
    exact (Function.update_of_ne hne _ _).trans (hs.fresh nb (by omega))

omit [DecidableEq C] in
/-- Listeners after a destruction are those before, less the object. -/
theorem listens_destroy {nb : ℕ} {chain : C → List ℕ} {c : C} {m : ℕ} :
    State.Listens {s with chain := chain,live := Function.update s.live nb none} c m ↔
      s.Listens c m ∧ m≠nb := by
  unfold State.Listens
  by_cases hm : m=nb
  · simp [hm]
  · simp [hm]

/-- A destruction brings no later object. -/
theorem Sound.fresh_destroy (hs : Sound s) (nb m : ℕ) (hm : s.next≤ m) :
    Function.update s.live nb none m=none := by
  by_cases hsame : m=nb
  · rw [hsame,Function.update_self]
  · rw [Function.update_of_ne hsame]
    exact hs.fresh m hm

/-- A destruction that withdraws the block keeps the chains in order. -/
theorem Sound.destroy (hs : Sound s) {nb : ℕ} (hw : Withdraws s (.destroy nb))
    (h : step s (.destroy nb)=some t) : Sound t := by
  obtain ⟨self,hself,rfl⟩ := Option.map_eq_some_iff.mp h
  refine ⟨?_,?_⟩
  · intro c
    obtain ⟨hpair,hperm⟩ := hs.chain_spec c
    have hchain := hs.chain_destruct (fun hacc => hw self c hself hacc)
    refine audience_eq ?_ ?_
    · change List.Pairwise (Before s.priority) (self.destruct nb s.chain c)
      rw [hchain]
      exact hpair.filter _
    · change (self.destruct nb s.chain c).Perm _
      rw [hchain]
      refine (hperm.filter _).trans (List.Perm.of_eq ?_)
      rw [List.filter_filter]
      refine List.filter_congr ?_
      intro m _
      rw [Bool.eq_iff_iff,Bool.and_eq_true,decide_eq_true_iff,decide_eq_true_iff,listens_destroy,
        bne_iff_ne,and_comm]
  · exact hs.fresh_destroy nb

/-- If the chains are right after a destruction, it withdrew the block. -/
theorem Sound.withdraws (hs : Sound s) {a : Action C O D W} (h : step s a=some t)
    (hd : Delivers t) : Withdraws s a := by
  cases a with
  | construct self reg rank accepted => trivial
  | destroy nb =>
    intro self c hself hacc
    obtain ⟨self',hself',ht⟩ := Option.map_eq_some_iff.mp h
    obtain rfl := Option.some.inj (hself.symm.trans hself')
    subst ht
    have hnew := hd.ordered c
    by_contra hother
    have hlistens : nb∈s.chain c := by
      rw [hs.ordered c,mem_audience hs.fresh]
      exact ⟨hself ▸ rfl,hacc⟩
    have hkept : nb∈self.destruct nb s.chain c := by
      unfold Notifier.destruct
      cases hu : self.unregisterPtr with
      | none => exact hlistens
      | some c' =>
        have hc : c≠c' := fun hc => hother (hc ▸ hu)
        change nb∈Function.update s.chain c' ((s.chain c').erase nb) c
        rw [Function.update_of_ne hc]
        exact hlistens
    change self.destruct nb s.chain c=_ at hnew
    rw [hnew,mem_audience (hs.fresh_destroy nb),listens_destroy] at hkept
    exact hkept.2 rfl

/-- In a run of constructions and destructions the chains deliver at every
moment exactly when each destructor takes its block off the chain that had
accepted it. -/
theorem delivers_iff_withdraws (actions : List (Action C O D W)) :
    Along step Delivers (start : State C O D W) actions ↔ Guarded step Withdraws start actions := by
  have hstart : Sound (start : State C O D W) := ⟨fun _ => rfl,fun _ _ => rfl⟩
  refine along_iff_guarded Sound.delivers ?_ (fun hs h hd => hs.withdraws h hd) hstart
  intro s a t hs hg h
  cases a with
  | construct self reg rank accepted => exact hs.construct h
  | destroy nb => exact hs.destroy hg h

/-- The second object has the higher number in its storage and is called
first; the third one is on another chain. -/
example : (run step (start : State ℕ Unit Unit Unit)
    [.construct ⟨none,none,some 1⟩ 1 0 true,.construct ⟨none,none,some 1⟩ 1 7 true,
      .construct ⟨none,none,some 2⟩ 2 3 true,.construct ⟨none,none,some 1⟩ 1 0 true,
      .destroy 0]).map (fun s => (s.chain 1,s.chain 2))=some ([1,3],[2]) := by decide

end Kpp.NotifierChains
