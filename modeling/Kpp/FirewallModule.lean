import Kpp.PacketHooks
import Kpp.UniqueHandle

/-!
# The firewall module over its loads, packets and unloads

The constructor of `Firewall` makes a `NetfilterHook`, whose constructor
registers the hook and keeps no note of the result. `firewall_driver_init`
looks only at the allocation of the Firewall. `firewall_driver_exit` calls
`release()`, so that no destructor on the way to the hook ever runs.
-/

namespace Kpp.FirewallModule

open MoveOnlyHandle StepRun UniqueHandle
open PacketHooks (NetfilterVerdict nfAccept)

/-- What the callback reads of a packet. -/
structure Packet where
  /-- `ip_header()`: the protocol, or null. -/
  protocol : Option UInt8
  /-- `tcp_header()`: the two bytes of the destination port as sent, or null. -/
  dest : Option (UInt8×UInt8)

/-- `IPPROTO_TCP`. -/
abbrev ipprotoTcp : UInt8 := 6

/-- `ntohs` of a port as sent, the more significant byte first. -/
def ntohs (port : UInt8×UInt8) : ℕ := port.1.toNat*256+port.2.toNat

/-- `Firewall`. -/
structure Firewall where
  /-- `hook_`. -/
  hook : UniquePtr
  /-- `port_to_block_`. -/
  portToBlock : ℕ

/-- `Firewall::hook_callback`. -/
def Firewall.hookCallback (this : Firewall) (kskb : Packet) : NetfilterVerdict :=
  match kskb.protocol,kskb.dest with
  | some protocol,some dest =>
    if protocol≠ipprotoTcp then .accept
    else if ntohs dest=this.portToBlock then .drop
    else .accept
  | _,_ => .accept

/-- The callback drops TCP packets for its port, and nothing else. -/
theorem Firewall.hookCallback_eq (this : Firewall) (kskb : Packet) :
    this.hookCallback kskb=
      if kskb.protocol=some ipprotoTcp ∧ kskb.dest.map ntohs=some this.portToBlock then .drop
      else .accept := by
  obtain ⟨protocol,dest⟩ := kskb
  cases protocol with
  | none => rfl
  | some protocol =>
    cases dest with
    | none =>
      simp only [hookCallback,Option.map_none,reduceCtorEq,and_false,if_false]
    | some dest =>
      simp only [hookCallback,Option.map_some,Option.some.injEq]
      by_cases hp : protocol=ipprotoTcp
      · simp only [hp,ne_eq,not_true_eq_false,if_false,true_and]
      · simp only [hp,ne_eq,not_false_eq_true,if_true,false_and,if_false]

/-- `NetfilterHook<Firewall>`, by what its trampoline reads. -/
structure Hook where
  /-- `owner_ptr_`. -/
  ownerPtr : Option ℕ
  /-- `callback_ptr_`. -/
  callbackPtr : Option (Firewall → Packet → NetfilterVerdict)

/-- Objects that the module allocates. -/
inductive Object where
  | firewall (this : Firewall)
  | hook (this : Hook)

/-- Kernel state the module works with. -/
structure Kernel where
  /-- Heap blocks. -/
  heap : Slab Object
  /-- The allocator's own bookkeeping is in order. -/
  sane : heap.Sane
  /-- `priv` of each hook of this module that is registered. -/
  hooks : List ℕ

/-- What each step of a load comes back with. -/
structure Outcomes where
  /-- `make_unique<Firewall>` gets its block. -/
  firewallAllocated : Bool
  /-- `make_unique<NetfilterHook>` gets its block. -/
  hookAllocated : Bool
  /-- `nf_register_net_hook` succeeds. -/
  registered : Bool

/-- The firewall object at an address, if there is a live one. -/
def firewallAt (w : Slab Object) (p : ℕ) : Option Firewall :=
  match w.object p with
  | some (.firewall this) => if w.frees p=0 then some this else none
  | _ => none

/-- The hook object at an address, if there is a live one. -/
def hookAt (w : Slab Object) (p : ℕ) : Option Hook :=
  match w.object p with
  | some (.hook this) => if w.frees p=0 then some this else none
  | _ => none

/-- `hook_trampoline`: the verdict code, or `none` when the hook or the
firewall it points to is not alive. -/
def hookTrampoline (priv : ℕ) (skb : Packet) (w : Slab Object) : Option ℕ :=
  (hookAt w priv).bind fun self =>
    match self.ownerPtr,self.callbackPtr with
    | some owner,some callback =>
      (firewallAt w owner).map (fun firewall => (callback firewall skb).code)
    | _,_ => some nfAccept

/-- Default value of `port_to_block_`. -/
abbrev blockedPort : ℕ := 80

/-- The members of `Firewall` before its constructor's body. -/
def Firewall.initial : Firewall := ⟨⟨none⟩,blockedPort⟩

/-- `make_unique` of the hook, with the fields its constructor sets. -/
def makeHook (owner : ℕ) (allocated : Bool) (w : Slab Object) : UniquePtr×Slab Object :=
  makeUnique (.hook ⟨some owner,some Firewall.hookCallback⟩) allocated w

/-- Result code of a failed allocation. -/
abbrev eNoMem : ℤ := 12

/-- `Firewall()` on a new block up to the end of the hook's constructor, which
registers the hook and does not look at the result. `hook_` is still null. -/
def Firewall.registering (o : Outcomes) (k : Kernel) : UniquePtr×Kernel :=
  let made := makeUnique (.firewall Firewall.initial) true k.heap
  let hook := makeHook k.heap.next o.hookAllocated made.2
  (hook.1,⟨hook.2,(k.sane.makeUnique _ true).makeUnique _ o.hookAllocated,
    if o.registered=true then hook.1.held.toList++k.hooks else k.hooks⟩)

/-- The firewall's block is there when its hook is made. -/
theorem Firewall.registering_lt (o : Outcomes) (k : Kernel) :
    k.heap.next<(Firewall.registering o k).2.heap.next := by
  have hfirewall := (k.sane.live_new (.firewall Firewall.initial)).1
  exact (hfirewall.makeUnique _ o.hookAllocated).1

/-- A successful `make_unique<Firewall>`: the hook's pointer goes to `hook_`. -/
def makeFirewall (o : Outcomes) (k : Kernel) : Kernel :=
  let hook := Firewall.registering o k
  ⟨hook.2.heap.write k.heap.next (.firewall {Firewall.initial with hook := hook.1}),
    hook.2.sane.write (Firewall.registering_lt o k) _,hook.2.hooks⟩

/-- `firewall_driver_init`: return code, `g_firewall` and the kernel. -/
def firewallDriverInit (o : Outcomes) (k : Kernel) : ℤ×UniquePtr×Kernel :=
  if o.firewallAllocated=true then (0,⟨some k.heap.next⟩,makeFirewall o k)
  else (-eNoMem,⟨none⟩,k)

/-- `firewall_driver_exit`; the pointer that `release()` returns is dropped. -/
def firewallDriverExit (firewall : UniquePtr) (k : Kernel) : UniquePtr×Kernel :=
  (firewall.release.2,k)

/-- A packet goes through every registered hook. -/
def Kernel.deliver (skb : Packet) (k : Kernel) : List (Option ℕ) :=
  k.hooks.map (fun priv => hookTrampoline priv skb k.heap)

/-- The kernel that packets meet during a load, from the registration of the
hook on. -/
def duringLoad (o : Outcomes) (k : Kernel) : Kernel :=
  if o.firewallAllocated=true then (Firewall.registering o k).2 else k

/-- Loads with the packets that arrive meanwhile, unloads, and packets in between. -/
inductive Action where
  | load (o : Outcomes) (during : List Packet)
  | unload
  | packet (skb : Packet)

/-- The module over its runs. -/
structure State where
  /-- Kernel state. -/
  kernel : Kernel
  /-- `g_firewall` of a module whose init returned 0. -/
  loaded : Option UniquePtr
  /-- Kernel state before the latest load. -/
  before : Kernel
  /-- Results of all trampoline invocations. -/
  verdicts : List (Option ℕ)

/-- One load attempt with the packets that arrive during it, unload or packet. -/
def step (t : State) : Action → Option State
  | .load o during =>
    match t.loaded with
    | some _ => none
    | none =>
      let (code,firewall,k) := firewallDriverInit o t.kernel
      let verdicts := during.flatMap (fun skb => (duringLoad o t.kernel).deliver skb)
      some ⟨k,if code=0 then some firewall else none,t.kernel,verdicts++t.verdicts⟩
  | .unload =>
    match t.loaded with
    | some firewall =>
      some {t with kernel := (firewallDriverExit firewall t.kernel).2,loaded := none}
    | none => none
  | .packet skb => some {t with verdicts := t.kernel.deliver skb++t.verdicts}

/-- The hook of the loaded firewall is registered. -/
def Registered (k : Kernel) (firewall : UniquePtr) : Prop :=
  ∃ p this h,firewall.held=some p ∧ firewallAt k.heap p=some this ∧
    this.hook.held=some h ∧ h∈k.hooks

/-- A loaded module has its hook registered, a module that is not loaded left
nothing, and the trampoline only ever met live objects. -/
structure Sound (t : State) : Prop where
  /-- Registered from a return code 0 until the unload. -/
  registered : ∀ firewall,t.loaded=some firewall → Registered t.kernel firewall
  /-- No hook without the module. -/
  unhooked : t.loaded=none → t.kernel.hooks=[]
  /-- Nor any block of it. -/
  freed : t.loaded=none → ∀ p,t.before.heap.Live p ↔ t.kernel.heap.Live p
  /-- The hook and its firewall are alive whenever the trampoline runs. -/
  alive : ∀ v∈t.verdicts,v≠none

/-- Loads fail at their first step or not at all, and there is no unload. -/
def NothingToUndo : Action → Prop
  | .load o _ => o.firewallAllocated=false ∨
      (o.firewallAllocated=true ∧ o.hookAllocated=true ∧ o.registered=true)
  | .unload => False
  | .packet _ => True

/-- A kernel without hooks of this module, and the module not loaded. -/
def start (k : Kernel) : State := ⟨{k with hooks := []},none,{k with hooks := []},[]⟩

/-- A registered hook and the firewall it points to are alive. -/
def HookAlive (w : Slab Object) (priv : ℕ) : Prop :=
  ∃ self owner this,hookAt w priv=some self ∧ self.ownerPtr=some owner ∧
    firewallAt w owner=some this

/-- Sound states in which registered hooks are alive. -/
structure Kept (t : State) : Prop extends Sound t where
  /-- Every registered hook can be called. -/
  hooks : ∀ priv∈t.kernel.hooks,HookAlive t.kernel.heap priv

/-- The trampoline of a hook that is alive gives a verdict. -/
theorem hookTrampoline_ne_none {w : Slab Object} {priv : ℕ} (h : HookAlive w priv)
    (skb : Packet) : hookTrampoline priv skb w≠none := by
  obtain ⟨self,owner,this,hself,howner,hthis⟩ := h
  cases hcallback : self.callbackPtr with
  | none =>
    simp only [hookTrampoline,hself,Option.bind_some,howner,hcallback]
    exact nofun
  | some callback =>
    simp only [hookTrampoline,hself,Option.bind_some,howner,hcallback,hthis,Option.map_some]
    exact nofun

/-- Packets that meet only live hooks get their verdicts. -/
theorem deliver_ne_none {k : Kernel} (hk : ∀ priv∈k.hooks,HookAlive k.heap priv) {skb : Packet}
    {v : Option ℕ} (hv : v∈k.deliver skb) : v≠none := by
  obtain ⟨priv,hpriv,rfl⟩ := List.mem_map.mp hv
  exact hookTrampoline_ne_none (hk priv hpriv) skb

/-- Packets during a load that meet only live hooks add only verdicts. -/
theorem verdicts_ne_none {k : Kernel} (hk : ∀ priv∈k.hooks,HookAlive k.heap priv)
    {during : List Packet} {verdicts : List (Option ℕ)} (hverdicts : ∀ v∈verdicts,v≠none) :
    ∀ v∈during.flatMap (fun skb => k.deliver skb)++verdicts,v≠none := by
  intro v hv
  rcases List.mem_append.mp hv with hnew|hold
  · obtain ⟨skb,_,hskb⟩ := List.mem_flatMap.mp hnew
    exact deliver_ne_none hk hskb
  · exact hverdicts v hold

/-- The firewall that is still to get its hook. -/
theorem registering_firewallAt (o : Outcomes) (k : Kernel) :
    firewallAt (Firewall.registering o k).2.heap k.heap.next=some Firewall.initial := by
  have hfrees := (k.sane.unmade k.heap.next (le_refl _)).2
  have hne : k.heap.next≠k.heap.next+1 := (Nat.succ_ne_self _).symm
  cases ho : o.hookAllocated with
  | true =>
    simp only [Firewall.registering,makeHook,makeUnique,Slab.construct,ho,if_true,firewallAt,
      Function.update_of_ne hne,Function.update_self,hfrees]
  | false =>
    simp only [Firewall.registering,makeHook,makeUnique,Slab.construct,ho,if_true,
      Bool.false_eq_true,if_false,firewallAt,Function.update_self,hfrees]

/-- The hook of a firewall that got one, before and after the firewall has it. -/
theorem registering_hookAt {o : Outcomes} (ho : o.hookAllocated=true) (k : Kernel) :
    hookAt (Firewall.registering o k).2.heap (k.heap.next+1)=
      some ⟨some k.heap.next,some Firewall.hookCallback⟩ := by
  have hfrees := (k.sane.unmade (k.heap.next+1) (Nat.le_succ _)).2
  simp only [Firewall.registering,makeHook,makeUnique,Slab.construct,ho,if_true,hookAt,
    Function.update_self,hfrees]

/-- The hooks registered during and after a load. -/
theorem registering_hooks (o : Outcomes) (k : Kernel) :
    (Firewall.registering o k).2.hooks=
      if o.registered=true ∧ o.hookAllocated=true then (k.heap.next+1)::k.hooks else k.hooks := by
  cases hr : o.registered with
  | false => simp only [Firewall.registering,hr,Bool.false_eq_true,if_false,false_and]
  | true =>
    cases ho : o.hookAllocated with
    | true => simp only [Firewall.registering,makeHook,hr,ho,if_true,and_self]; rfl
    | false =>
      simp only [Firewall.registering,makeHook,hr,ho,if_true,Bool.false_eq_true,and_false,if_false]
      rfl

/-- The completed firewall, with the hook it made. -/
theorem makeFirewall_firewallAt (o : Outcomes) (k : Kernel) :
    firewallAt (makeFirewall o k).heap k.heap.next=
      some {Firewall.initial with
        hook := ⟨if o.hookAllocated=true then some (k.heap.next+1) else none⟩} := by
  have hfrees := (k.sane.unmade k.heap.next (le_refl _)).2
  cases ho : o.hookAllocated with
  | true =>
    simp only [makeFirewall,Firewall.registering,makeHook,makeUnique,Slab.construct,Slab.write,ho,
      if_true,firewallAt,Function.update_self,hfrees]
  | false =>
    simp only [makeFirewall,Firewall.registering,makeHook,makeUnique,Slab.construct,Slab.write,ho,
      if_true,Bool.false_eq_true,if_false,firewallAt,Function.update_self,hfrees]

/-- The hook is the same when the firewall is complete. -/
theorem makeFirewall_hookAt {o : Outcomes} (ho : o.hookAllocated=true) (k : Kernel) :
    hookAt (makeFirewall o k).heap (k.heap.next+1)=
      some ⟨some k.heap.next,some Firewall.hookCallback⟩ := by
  have hne : k.heap.next+1≠k.heap.next := Nat.succ_ne_self _
  rw [←registering_hookAt ho k]
  simp only [makeFirewall,Slab.write,hookAt,Function.update_of_ne hne]
  rfl

/-- The hook of a completed firewall drops TCP packets for the blocked port,
and nothing else. -/
theorem makeFirewall_verdict {o : Outcomes} (ho : o.hookAllocated=true) (k : Kernel)
    (skb : Packet) :
    hookTrampoline (k.heap.next+1) skb (makeFirewall o k).heap=
      some (if skb.protocol=some ipprotoTcp ∧ skb.dest.map ntohs=some blockedPort then
        NetfilterVerdict.drop else NetfilterVerdict.accept).code := by
  have hself := makeFirewall_hookAt ho k
  have hthis := makeFirewall_firewallAt o k
  simp only [hookTrampoline,hself,Option.bind_some,hthis,Option.map_some,
    Firewall.hookCallback_eq]
  rfl

/-- What a load does to the state. -/
theorem load_cases {o : Outcomes} {during : List Packet} {t t' : State}
    (h : step t (.load o during)=some t') :
    t.loaded=none ∧
    ((o.firewallAllocated=false ∧
        t'=⟨t.kernel,none,t.kernel,
          during.flatMap (fun skb => t.kernel.deliver skb)++t.verdicts⟩) ∨
      (o.firewallAllocated=true ∧
        t'=⟨makeFirewall o t.kernel,some ⟨some t.kernel.heap.next⟩,t.kernel,
          during.flatMap (fun skb => (Firewall.registering o t.kernel).2.deliver skb)++
            t.verdicts⟩)) := by
  simp only [step] at h
  split at h
  · cases h
  · next hloaded =>
    refine ⟨hloaded,?_⟩
    cases ho : o.firewallAllocated with
    | false =>
      simp only [firewallDriverInit,duringLoad,ho,Bool.false_eq_true,if_false] at h
      cases h
      exact Or.inl ⟨rfl,rfl⟩
    | true =>
      simp only [firewallDriverInit,duringLoad,ho,if_true] at h
      cases h
      exact Or.inr ⟨rfl,rfl⟩

/-- The one hook of a load that succeeds is alive, during the load and after. -/
theorem registering_alive {o : Outcomes} (ho : o.hookAllocated=true ∧ o.registered=true)
    {k : Kernel} (hk : k.hooks=[]) :
    (Firewall.registering o k).2.hooks=[k.heap.next+1] ∧
      HookAlive (Firewall.registering o k).2.heap (k.heap.next+1) ∧
      HookAlive (makeFirewall o k).heap (k.heap.next+1) := by
  refine ⟨?_,?_,?_⟩
  · rw [registering_hooks,if_pos ⟨ho.2,ho.1⟩,hk]
  · exact ⟨_,_,_,registering_hookAt ho.1 k,rfl,registering_firewallAt o k⟩
  · exact ⟨_,_,_,makeFirewall_hookAt ho.1 k,rfl,makeFirewall_firewallAt o k⟩

/-- Steps within the condition keep the state. -/
theorem step_kept {a : Action} {t t' : State} (hk : Kept t) (hg : NothingToUndo a)
    (h : step t a=some t') : Kept t' := by
  cases a with
  | unload => exact hg.elim
  | packet skb =>
    cases h
    refine ⟨⟨hk.registered,hk.unhooked,hk.freed,fun v hv => ?_⟩,hk.hooks⟩
    rcases List.mem_append.mp hv with hnew|hold
    · exact deliver_ne_none hk.hooks hnew
    · exact hk.alive v hold
  | load o during =>
    obtain ⟨hloaded,⟨_,rfl⟩|⟨hfirewall,rfl⟩⟩ := load_cases h
    · exact ⟨⟨nofun,fun _ => hk.unhooked hloaded,fun _ _ => Iff.rfl,
        verdicts_ne_none hk.hooks hk.alive⟩,hk.hooks⟩
    · have hall : o.hookAllocated=true ∧ o.registered=true := by
        rcases hg with hfalse|hall
        · rw [hfirewall] at hfalse
          cases hfalse
        · exact hall.2
      obtain ⟨hhooks,hduring,hafter⟩ := registering_alive hall (hk.unhooked hloaded)
      have hthis := makeFirewall_firewallAt o t.kernel
      rw [if_pos hall.1] at hthis
      refine ⟨⟨?_,nofun,nofun,verdicts_ne_none ?_ hk.alive⟩,?_⟩
      · rintro _ ⟨⟩
        refine ⟨_,_,_,rfl,hthis,rfl,?_⟩
        dsimp only [makeFirewall]
        rw [hhooks]
        exact List.mem_cons_self
      · intro priv hpriv
        rw [hhooks,List.mem_singleton] at hpriv
        subst hpriv
        exact hduring
      · intro priv hpriv
        dsimp only [makeFirewall] at hpriv
        rw [hhooks,List.mem_singleton] at hpriv
        subst hpriv
        exact hafter

/-- If all is sound after a step, it was within the condition. -/
theorem step_exact {a : Action} {t t' : State} (hk : Kept t) (h : step t a=some t')
    (hs : Sound t') : NothingToUndo a := by
  cases a with
  | packet skb => trivial
  | unload =>
    simp only [step] at h
    split at h
    · next firewall hloaded =>
      cases h
      obtain ⟨_,_,priv,_,_,_,hpriv⟩ := hk.registered firewall hloaded
      have hnone : t.kernel.hooks=[] := hs.unhooked rfl
      rw [hnone] at hpriv
      cases hpriv
    · cases h
  | load o during =>
    obtain ⟨hloaded,⟨hfirewall,rfl⟩|⟨hfirewall,rfl⟩⟩ := load_cases h
    · exact Or.inl hfirewall
    · obtain ⟨_,_,priv,_,_,_,hpriv⟩ := hs.registered _ rfl
      dsimp only [makeFirewall] at hpriv
      rw [registering_hooks,hk.unhooked hloaded] at hpriv
      split at hpriv
      · next hboth => exact Or.inr ⟨hfirewall,hboth.2,hboth.1⟩
      · cases hpriv

/-- Firewall module run. A loaded module has its hook registered, nothing is
left of a module that is not loaded, and hooks only run on live objects, if
and only if there never is anything to undo. -/
theorem firewall_sound_iff (k : Kernel) (actions : List Action) :
    Along step Sound (start k) actions ↔
      Guarded step (fun _ => NothingToUndo) (start k) actions := by
  have hstart : Kept (start k) :=
    ⟨⟨nofun,fun _ => rfl,fun _ _ => Iff.rfl,nofun⟩,nofun⟩
  exact along_iff_guarded (I := Kept) (fun hk => hk.toSound)
    (fun hk hg h => step_kept hk hg h) (fun hk h hs => step_exact hk h hs) hstart

/-- A kernel with nothing in it. -/
def Kernel.empty : Kernel := ⟨Slab.empty,Slab.empty_sane,[]⟩

/-- A load whose registration fails returns 0 without a hook. After a load
with no failure and an unload the hook is still registered, and a packet
still reaches it. -/
theorem unloaded_hook_runs :
    (∃ t,run step (start Kernel.empty) [.load ⟨true,true,false⟩ []]=some t ∧
      t.loaded=some ⟨some 0⟩ ∧ t.kernel.hooks=[] ∧ ¬Sound t) ∧
    ∃ t,run step (start Kernel.empty)
        [.load ⟨true,true,true⟩ [],.unload,.packet ⟨some 6,some (0,80)⟩]=some t ∧
      t.loaded=none ∧ t.kernel.hooks=[1] ∧ t.verdicts=[some 0] ∧ ¬Sound t := by
  refine ⟨⟨_,rfl,rfl,rfl,fun hs => ?_⟩,_,rfl,rfl,rfl,rfl,fun hs => ?_⟩
  · obtain ⟨_,_,_,_,_,_,hpriv⟩ := hs.registered _ rfl
    cases hpriv
  · cases hs.unhooked rfl

end Kpp.FirewallModule
