import Kpp.FirewallModule

/-!
# Packets through the firewall module

Over loads and unloads the netfilter core shows every packet to the hooks that
are registered when it arrives, and then the stack uses and frees it, or it is
dropped. Each hook wraps the packet in an `SKB` of its own, which the core does
not know of. What a packet meets depends on all loads before it, since an
unload unregisters nothing.
-/

namespace Kpp.FirewallTraffic

open FirewallModule MoveOnlyHandle ReleaseLedger SocketBuffer StepRun UniqueHandle
open PacketHooks (HookFunc NetfilterHook NetfilterVerdict World nfAccept nfDrop)

variable {P : Type*} {content : P → Packet}

/-- A callback of the firewall for the trampoline; it reads the packet and
leaves the `SKB` where it is. -/
def memberFunction (content : P → Packet) (callback : Firewall → Packet → NetfilterVerdict) :
    HookFunc Firewall P Unit where
  call owner kskb _ :=
    ⟨(kskb.held.map (fun skb => callback owner (content skb))).getD .accept,owner,false⟩
  side _ _ _ h := absurd h Bool.false_ne_true

/-- The hook at `priv` with what its pointers lead to, unless one of them
leads to an object that is gone. -/
def hookObject (content : P → Packet) (w : Slab Object) (priv : ℕ) :
    Option (NetfilterHook Firewall P Unit) :=
  (hookAt w priv).bind fun self =>
    match self.ownerPtr with
    | some owner => (firewallAt w owner).map
        (fun firewall => ⟨some firewall,self.callbackPtr.map (memberFunction content)⟩)
    | none => some ⟨none,self.callbackPtr.map (memberFunction content)⟩

/-- Packets so far. -/
structure Traffic (P : Type*) where
  /-- The packet arrived. -/
  arrived : P → Bool
  /-- Buffers of the packets. -/
  world : World P
  /-- A hook ran on an object that was gone. -/
  undefined : Bool

/-- Module and packets. -/
structure State (P : Type*) where
  /-- Kernel state. -/
  kernel : Kernel
  /-- `g_firewall` of a module whose init returned 0. -/
  loaded : Option UniquePtr
  /-- Packets so far. -/
  traffic : Traffic P

/-- A load with the packets that arrive during it, an unload or a packet. -/
inductive Action (P : Type*) where
  | load (o : Outcomes) (during : List P)
  | unload
  | packet (skb : P)

/-- No hook of the module, and no packet yet. -/
def start (k : Kernel) : State P :=
  ⟨{k with hooks := []},none,⟨fun _ => false,⟨fun _ => fresh,fun _ => 0⟩,false⟩⟩

section Core
variable [DecidableEq P]

/-- The way of a packet from a hook on: a dropped packet is freed, and one that
all hooks accept is used and freed by the stack. -/
def pass (content : P → Packet) (w : Slab Object) (skb : P) :
    List ℕ → World P → Option (World P)
  | [],world => some ⟨put skb (touch skb world.buffers),world.stash⟩
  | priv::hooks,world =>
    (hookObject content w priv).bind fun self =>
      let called :=
        PacketHooks.hookTrampoline (some self) skb () ⟨touch skb world.buffers,world.stash⟩
      if called.1=nfDrop then some ⟨put skb called.2.2.buffers,called.2.2.stash⟩
      else pass content w skb hooks called.2.2

/-- The core receives a packet and takes it through the hooks. -/
def receive (content : P → Packet) (k : Kernel) (t : Traffic P) (skb : P) : Traffic P :=
  if t.arrived skb=true then t
  else
    match pass content k.heap skb k.hooks ⟨give skb t.world.buffers,t.world.stash⟩ with
    | some world => ⟨Function.update t.arrived skb true,world,t.undefined⟩
    | none => ⟨Function.update t.arrived skb true,t.world,true⟩

/-- One load attempt, unload or packet. -/
def step (content : P → Packet) (s : State P) : Action P → Option (State P)
  | .load o during =>
    match s.loaded with
    | some _ => none
    | none =>
      let (code,firewall,k) := firewallDriverInit o s.kernel
      some ⟨k,if code=0 then some firewall else none,
        during.foldl (receive content (duringLoad o s.kernel)) s.traffic⟩
  | .unload =>
    s.loaded.map (fun firewall =>
      {s with kernel := (firewallDriverExit firewall s.kernel).2,loaded := none})
  | .packet skb => some {s with traffic := receive content s.kernel s.traffic skb}

end Core

/-- Every packet was freed once and not used after, and every hook ran on live
objects. -/
structure Clean (t : Traffic P) : Prop where
  /-- Packets are freed once. -/
  freed : ∀ skb,t.arrived skb=true →
    (t.world.buffers skb).frees=1 ∧ (t.world.buffers skb).stale=false
  /-- Hooks and their firewalls are alive when a packet comes. -/
  alive : t.undefined=false

/-- No new packet meets a hook: none was registered before, and none is
registered while packets come. -/
def Unfiltered (s : State P) : Action P → Prop
  | .load o during => (∀ skb∈during,s.traffic.arrived skb=true) ∨
      (s.kernel.hooks=[] ∧
        ¬(o.firewallAllocated=true ∧ o.hookAllocated=true ∧ o.registered=true))
  | .unload => True
  | .packet skb => s.traffic.arrived skb=true ∨ s.kernel.hooks=[]

/-- The hook was made by the module, and its firewall is there. -/
def Installed (w : Slab Object) (priv : ℕ) : Prop :=
  ∃ owner this,hookAt w priv=some ⟨some owner,some Firewall.hookCallback⟩ ∧
    firewallAt w owner=some this

/-- All registered hooks are installed. -/
def Intact (k : Kernel) : Prop := ∀ priv∈k.hooks,Installed k.heap priv

section Heap
variable {w : Slab Object} {priv : ℕ} {k : Kernel} {o : Outcomes}

/-- Making an object changes no older one. -/
theorem makeUnique_older (obj : Object) (allocated : Bool) {p : ℕ} (hp : p<w.next) :
    p<(makeUnique obj allocated w).2.next ∧
      (makeUnique obj allocated w).2.object p=w.object p ∧
      (makeUnique obj allocated w).2.frees=w.frees := by
  cases allocated with
  | true => exact ⟨Nat.lt_succ_of_lt hp,Function.update_of_ne (Nat.ne_of_lt hp) _ _,rfl⟩
  | false => exact ⟨hp,rfl,rfl⟩

/-- What was installed stays so while older objects do not change. -/
theorem Installed.older {w' : Slab Object} (hw : w.Sane) (hi : Installed w priv)
    (hsame : ∀ p,p<w.next → w'.object p=w.object p ∧ w'.frees=w.frees) : Installed w' priv := by
  obtain ⟨owner,this,hhook,hfirewall⟩ := hi
  have hlt : ∀ p,w.object p≠none → p<w.next := by
    intro p hp
    obtain ⟨obj,hobj⟩ := Option.ne_none_iff_exists'.mp hp
    exact hw.lt hobj
  have hpriv : w.object priv≠none := by
    intro hnone
    simp only [hookAt,hnone,reduceCtorEq] at hhook
  have howner : w.object owner≠none := by
    intro hnone
    simp only [firewallAt,hnone,reduceCtorEq] at hfirewall
  refine ⟨owner,this,?_,?_⟩
  · rw [←hhook,hookAt,hookAt,(hsame priv (hlt priv hpriv)).1,(hsame priv (hlt priv hpriv)).2]
  · rw [←hfirewall,firewallAt,firewallAt,(hsame owner (hlt owner howner)).1,
      (hsame owner (hlt owner howner)).2]

/-- A load changes no older object. -/
theorem registering_older (o : Outcomes) (k : Kernel) {p : ℕ} (hp : p<k.heap.next) :
    ((Firewall.registering o k).2.heap.object p=k.heap.object p ∧
      (Firewall.registering o k).2.heap.frees=k.heap.frees) ∧
    ((makeFirewall o k).heap.object p=k.heap.object p ∧
      (makeFirewall o k).heap.frees=k.heap.frees) := by
  have hfirst := makeUnique_older (.firewall Firewall.initial) true hp
  have hsecond := makeUnique_older (.hook ⟨some k.heap.next,some Firewall.hookCallback⟩)
    o.hookAllocated hfirst.1
  have hregistering : (Firewall.registering o k).2.heap.object p=k.heap.object p ∧
      (Firewall.registering o k).2.heap.frees=k.heap.frees :=
    ⟨hsecond.2.1.trans hfirst.2.1,hsecond.2.2.trans hfirst.2.2⟩
  refine ⟨hregistering,?_,hregistering.2⟩
  exact (Function.update_of_ne (Nat.ne_of_lt hp) _ _).trans hregistering.1

/-- Hooks are installed during a load and after it. -/
theorem Intact.load (hk : Intact k) (o : Outcomes) :
    Intact (duringLoad o k) ∧ Intact (firewallDriverInit o k).2.2 := by
  cases ho : o.firewallAllocated with
  | false =>
    simp only [duringLoad,firewallDriverInit,ho,Bool.false_eq_true,if_false]
    exact ⟨hk,hk⟩
  | true =>
    simp only [duringLoad,firewallDriverInit,ho,if_true]
    have hhooks := registering_hooks o k
    have hold : ∀ priv∈k.hooks,Installed (Firewall.registering o k).2.heap priv ∧
        Installed (makeFirewall o k).heap priv := by
      intro priv hpriv
      exact ⟨(hk priv hpriv).older k.sane (fun p hp => (registering_older o k hp).1),
        (hk priv hpriv).older k.sane (fun p hp => (registering_older o k hp).2)⟩
    by_cases hboth : o.registered=true ∧ o.hookAllocated=true
    · rw [if_pos hboth] at hhooks
      constructor
      · intro priv hpriv
        rw [hhooks] at hpriv
        rcases List.mem_cons.mp hpriv with rfl | hpriv
        · exact ⟨_,_,registering_hookAt hboth.2 k,registering_firewallAt o k⟩
        · exact (hold priv hpriv).1
      · intro priv hpriv
        change priv∈(Firewall.registering o k).2.hooks at hpriv
        rw [hhooks] at hpriv
        rcases List.mem_cons.mp hpriv with rfl | hpriv
        · exact ⟨_,_,makeFirewall_hookAt hboth.2 k,makeFirewall_firewallAt o k⟩
        · exact (hold priv hpriv).2
    · rw [if_neg hboth] at hhooks
      constructor
      · intro priv hpriv
        rw [hhooks] at hpriv
        exact (hold priv hpriv).1
      · intro priv hpriv
        change priv∈(Firewall.registering o k).2.hooks at hpriv
        rw [hhooks] at hpriv
        exact (hold priv hpriv).2

/-- The hooks that packets meet during a load. -/
theorem duringLoad_hooks : (duringLoad o k).hooks=[] ↔ k.hooks=[] ∧
    ¬(o.firewallAllocated=true ∧ o.hookAllocated=true ∧ o.registered=true) := by
  cases ho : o.firewallAllocated with
  | false => simp [duringLoad,ho]
  | true =>
    have hhooks := registering_hooks o k
    rw [duringLoad,if_pos ho,hhooks]
    by_cases hboth : o.registered=true ∧ o.hookAllocated=true
    · rw [if_pos hboth]
      exact iff_of_false (List.cons_ne_nil _ _) (fun h => h.2 ⟨rfl,hboth.2,hboth.1⟩)
    · rw [if_neg hboth]
      exact (and_iff_left (fun h => hboth ⟨h.2.2,h.2.1⟩)).symm

end Heap

section Packets
variable [DecidableEq P] {w : Slab Object} {priv : ℕ} {k : Kernel} {skb : P} {t : Traffic P}

/-- A use changes no count. -/
theorem touch_counts (skb q : P) (b : Buffers P) :
    (touch skb b q).users=(b q).users ∧ (touch skb b q).frees=(b q).frees := by
  unfold touch
  by_cases hq : q=skb
  · rw [hq,Function.update_self]
    exact ⟨rfl,rfl⟩
  · rw [Function.update_of_ne hq]
    exact ⟨rfl,rfl⟩

/-- An installed hook consumes the packet, whatever it says about it. -/
theorem hook_consumes (content : P → Packet) (skb : P) (hi : Installed w priv) (world : World P) :
    ∃ self,hookObject content w priv=some self ∧
      (PacketHooks.hookTrampoline (some self) skb () world).2.2=
        ⟨put skb world.buffers,world.stash⟩ := by
  obtain ⟨owner,this,hhook,hfirewall⟩ := hi
  refine ⟨⟨some this,some (memberFunction content Firewall.hookCallback)⟩,?_,rfl⟩
  simp only [hookObject,hhook,Option.bind_some,hfirewall,Option.map_some]

/-- A drop of a packet with one reference at most frees it, and no other packet. -/
theorem put_counts {b : Buffers P} (hone : (b skb).users≤1) :
    (put skb b skb).users=0 ∧ (put skb b skb).frees=(b skb).frees+1 ∧
      ∀ q,q≠skb → put skb b q=b q := by
  unfold put
  rw [Function.update_self]
  exact ⟨(put_sole hone).1,(put_sole hone).2,fun q hq => Function.update_of_ne hq _ _⟩

/-- So does a drop after a use. -/
theorem use_put {b : Buffers P} (hone : (b skb).users≤1) :
    (put skb (touch skb b) skb).users=0 ∧
      (put skb (touch skb b) skb).frees=(b skb).frees+1 ∧
      ∀ q,q≠skb → put skb (touch skb b) q=b q := by
  obtain ⟨husers,hfrees⟩ := touch_counts skb skb b
  obtain ⟨hnone,hcount,hother⟩ := put_counts (husers.le.trans hone)
  refine ⟨hnone,hcount.trans (by rw [hfrees]),?_⟩
  intro q hq
  exact (hother q hq).trans (Function.update_of_ne hq _ _)

/-- A packet that goes through hooks is freed by each that it meets and by the
core at the end; other packets are left alone. -/
theorem pass_spec (content : P → Packet) {hooks : List ℕ} (hi : ∀ priv∈hooks,Installed w priv)
    (world : World P) (hone : (world.buffers skb).users≤1) :
    ∃ world',pass content w skb hooks world=some world' ∧
      (∀ q,q≠skb → world'.buffers q=world.buffers q) ∧ (world'.buffers skb).users=0 ∧
      (world.buffers skb).frees+1≤(world'.buffers skb).frees ∧
      (hooks≠[] → (world.buffers skb).frees+2≤(world'.buffers skb).frees) := by
  induction hooks generalizing world with
  | nil =>
    obtain ⟨hnone,hcount,hother⟩ := use_put hone
    exact ⟨_,rfl,hother,hnone,hcount.ge,fun h => absurd rfl h⟩
  | cons priv hooks ih =>
    obtain ⟨hnone,hcount,hother⟩ := use_put hone
    obtain ⟨self,hself,hrun⟩ := hook_consumes content skb (hi priv List.mem_cons_self)
      ⟨touch skb world.buffers,world.stash⟩
    unfold pass
    rw [hself,Option.bind_some]
    dsimp only
    rw [hrun]
    split
    · -- the core frees what it drops, and the hook did before
      obtain ⟨hnone',hcount',hother'⟩ := put_counts (hnone.le.trans (Nat.zero_le 1))
      refine ⟨_,rfl,fun q hq => (hother' q hq).trans (hother q hq),hnone',?_,fun _ => ?_⟩
      · dsimp only
        omega
      · dsimp only
        omega
    · have hless : ((⟨put skb (touch skb world.buffers),world.stash⟩ : World P).buffers
          skb).users≤1 := hnone.le.trans (Nat.zero_le 1)
      obtain ⟨world',hpass,hother',hnone',hcount',_⟩ :=
        ih (fun priv hpriv => hi priv (List.mem_cons_of_mem _ hpriv)) _ hless
      refine ⟨world',hpass,fun q hq => (hother' q hq).trans (hother q hq),hnone',?_,fun _ => ?_⟩
      · dsimp only at hcount'
        omega
      · dsimp only at hcount'
        omega

/-- Some packet was freed twice. -/
def Spoiled (t : Traffic P) : Prop := ∃ q,t.arrived q=true ∧ 2≤(t.world.buffers q).frees

omit [DecidableEq P] in
/-- A packet that was freed twice was not freed once. -/
theorem Spoiled.not_clean (h : Spoiled t) : ¬Clean t := by
  obtain ⟨q,hq,htwice⟩ := h
  intro ht
  have honce := (ht.freed q hq).1
  omega

/-- A buffer is received once. -/
theorem receive_arrived (content : P → Packet) (k : Kernel) (h : t.arrived skb=true) :
    receive content k t skb=t := if_pos h

/-- What a new packet changes: itself, by what it meets. -/
theorem receive_new (content : P → Packet) (hk : Intact k) (hnew : t.arrived skb=false) :
    (receive content k t skb).arrived=Function.update t.arrived skb true ∧
      (receive content k t skb).undefined=t.undefined ∧
      (∀ q,q≠skb → (receive content k t skb).world.buffers q=t.world.buffers q) ∧
      (k.hooks=[] → (receive content k t skb).world.buffers skb=⟨0,1,false⟩) ∧
      (k.hooks≠[] → 2≤((receive content k t skb).world.buffers skb).frees) := by
  have hgive : (⟨give skb t.world.buffers,t.world.stash⟩ : World P).buffers skb=⟨1,0,false⟩ :=
    Function.update_self _ _ _
  obtain ⟨world,hpass,hother,_,_,htwice⟩ := pass_spec content hk
    ⟨give skb t.world.buffers,t.world.stash⟩ (by rw [hgive])
  unfold receive
  rw [if_neg (by rw [hnew]; exact Bool.false_ne_true),hpass]
  refine ⟨rfl,rfl,fun q hq => (hother q hq).trans (Function.update_of_ne hq _ _),?_,?_⟩
  · intro hnone
    rw [hnone] at hpass
    obtain rfl := Option.some.inj hpass
    simp only [put,touch,give,Function.update_self,Counted.put]
    rfl
  · intro hsome
    have hcount := htwice hsome
    rw [hgive] at hcount
    exact hcount

/-- A packet that meets no hook is freed once. -/
theorem Clean.receive (h : Clean t) (content : P → Packet) (hk : Intact k)
    (hfree : t.arrived skb=true ∨ k.hooks=[]) : Clean (receive content k t skb) := by
  cases harrived : t.arrived skb with
  | true =>
    rw [receive_arrived content k harrived]
    exact h
  | false =>
    have hnone : k.hooks=[] := hfree.resolve_left (by rw [harrived]; exact Bool.false_ne_true)
    obtain ⟨hnow,hundefined,hother,hfreed,_⟩ := receive_new content hk harrived
    refine ⟨?_,hundefined.trans h.alive⟩
    intro q hq
    by_cases hne : q=skb
    · rw [hne,hfreed hnone]
      exact ⟨rfl,rfl⟩
    · rw [hnow,Function.update_of_ne hne] at hq
      rw [hother q hne]
      exact h.freed q hq

/-- What was freed twice stays so. -/
theorem Spoiled.receive (h : Spoiled t) (content : P → Packet) (hk : Intact k) (skb : P) :
    Spoiled (receive content k t skb) := by
  obtain ⟨q,hq,htwice⟩ := h
  cases harrived : t.arrived skb with
  | true =>
    rw [receive_arrived content k harrived]
    exact ⟨q,hq,htwice⟩
  | false =>
    obtain ⟨hnow,_,hother,_⟩ := receive_new content hk harrived
    have hne : q≠skb := by
      intro h
      rw [h,harrived] at hq
      cases hq
    refine ⟨q,?_,?_⟩
    · rw [hnow,Function.update_of_ne hne]
      exact hq
    · rw [hother q hne]
      exact htwice

/-- A new packet that meets a hook is freed twice. -/
theorem spoiled_receive (content : P → Packet) (hk : Intact k) (hnew : t.arrived skb=false)
    (hhooks : k.hooks≠[]) : Spoiled (receive content k t skb) := by
  obtain ⟨hnow,_,_,_,htwice⟩ := receive_new content hk hnew
  refine ⟨skb,?_,htwice hhooks⟩
  rw [hnow,Function.update_self]

/-- Packets during a load, one after the other. -/
theorem receives_spec (content : P → Packet) (hk : Intact k) (during : List P) (t : Traffic P) :
    (Clean t → (∀ skb∈during,t.arrived skb=true) ∨ k.hooks=[] →
      Clean (during.foldl (receive content k) t)) ∧
    (Spoiled t ∨ (k.hooks≠[] ∧ ∃ skb∈during,t.arrived skb=false) →
      Spoiled (during.foldl (receive content k) t)) := by
  induction during generalizing t with
  | nil =>
    refine ⟨fun h _ => h,?_⟩
    rintro (h | ⟨_,skb,hskb,_⟩)
    · exact h
    · cases hskb
  | cons skb during ih =>
    obtain ⟨hclean,hspoiled⟩ := ih (receive content k t skb)
    rw [List.foldl_cons]
    refine ⟨fun h hfree => hclean (h.receive content hk ?_) ?_,fun h => hspoiled ?_⟩
    · exact hfree.imp_left (fun hall => hall skb List.mem_cons_self)
    · refine hfree.imp_left (fun hall skb' hskb' => ?_)
      rw [receive_arrived content k (hall skb List.mem_cons_self)]
      exact hall skb' (List.mem_cons_of_mem skb hskb')
    · rcases h with h | ⟨hhooks,skb',hskb',hnew⟩
      · exact Or.inl (h.receive content hk skb)
      · cases harrived : t.arrived skb with
        | false => exact Or.inl (spoiled_receive content hk harrived hhooks)
        | true =>
          rw [receive_arrived content k harrived]
          refine Or.inr ⟨hhooks,skb',?_,hnew⟩
          refine (List.mem_cons.mp hskb').resolve_left ?_
          intro h
          rw [h,harrived] at hnew
          cases hnew

/-- States of a run in which everything was fine so far. -/
structure Sound (s : State P) : Prop where
  /-- Every registered hook is installed. -/
  intact : Intact s.kernel
  /-- Packets so far were freed once. -/
  clean : Clean s.traffic

variable {s s' : State P}

/-- What a load does: hooks stay installed, and the packets come to what is
registered meanwhile. -/
theorem load_cases {o : Outcomes} {during : List P}
    (h : step content s (.load o during)=some s') :
    s'.kernel=(firewallDriverInit o s.kernel).2.2 ∧
      s'.traffic=during.foldl (receive content (duringLoad o s.kernel)) s.traffic := by
  simp only [step] at h
  split at h
  · cases h
  · obtain rfl := Option.some.inj h
    exact ⟨rfl,rfl⟩

/-- Steps whose packets meet no hook keep everything fine. -/
theorem step_sound (hs : Sound s) {a : Action P} (hg : Unfiltered s a)
    (h : step content s a=some s') : Sound s' := by
  cases a with
  | load o during =>
    obtain ⟨hduring,hafter⟩ := hs.intact.load o
    obtain ⟨hclean,_⟩ := receives_spec content hduring during s.traffic
    obtain ⟨hkernel,htraffic⟩ := load_cases h
    refine ⟨hkernel ▸ hafter,htraffic ▸ hclean hs.clean ?_⟩
    exact hg.imp_right duringLoad_hooks.mpr
  | unload =>
    obtain ⟨firewall,_,rfl⟩ := Option.map_eq_some_iff.mp h
    exact ⟨hs.intact,hs.clean⟩
  | packet skb =>
    obtain rfl := Option.some.inj h
    exact ⟨hs.intact,hs.clean.receive content hs.intact hg⟩

/-- A step after which all is clean showed no new packet to a hook. -/
theorem Sound.unfiltered (hs : Sound s) {a : Action P} (h : step content s a=some s')
    (hc : Clean s'.traffic) : Unfiltered s a := by
  cases a with
  | load o during =>
    obtain ⟨_,hspoiled⟩ := receives_spec content (hs.intact.load o).1 during s.traffic
    obtain ⟨_,htraffic⟩ := load_cases h
    by_contra hmeets
    obtain ⟨hnew,hhooks⟩ := not_or.mp hmeets
    rw [←duringLoad_hooks] at hhooks
    have hsome : ∃ skb∈during,s.traffic.arrived skb=false := by
      by_contra hall
      refine hnew (fun skb hskb => ?_)
      by_contra hskb'
      exact hall ⟨skb,hskb,Bool.eq_false_iff.mpr hskb'⟩
    exact (hspoiled (Or.inr ⟨hhooks,hsome⟩)).not_clean (htraffic ▸ hc)
  | unload => trivial
  | packet skb =>
    obtain rfl := Option.some.inj h
    by_contra hmeets
    obtain ⟨hnew,hhooks⟩ := not_or.mp hmeets
    exact (spoiled_receive content hs.intact (Bool.eq_false_iff.mpr hnew) hhooks).not_clean hc

end Packets

/-- Packets through the firewall module, over any loads and unloads. Every
packet is freed once and no hook runs on an object that is gone, exactly when
no packet arrives after a load that registered its hook, be the module still
loaded or not, or during such a load. -/
theorem packets_clean_iff_unfiltered [DecidableEq P] (content : P → Packet) (k : Kernel)
    (actions : List (Action P)) :
    Along (step content) (fun s => Clean s.traffic) (start k) actions ↔
      Guarded (step content) Unfiltered (start k) actions := by
  have hstart : Sound (start (P := P) k) := ⟨nofun,⟨nofun,rfl⟩⟩
  exact along_iff_guarded Sound.clean (fun hs hg h => step_sound hs hg h)
    (fun hs h hc => hs.unfiltered h hc) hstart

/-- A packet that arrives after the unload is dropped for its port and freed
by the hook and by the core. -/
example : (run (step (fun _ => ⟨some 6,some (0,80)⟩)) (start (P := Unit) Kernel.empty)
    [.load ⟨true,true,true⟩ [],.unload,.packet ()]).map
      (fun s => s.traffic.world.buffers ())=some ⟨0,2,true⟩ := by rfl

end Kpp.FirewallTraffic
