import Kpp.SocketBuffer
import Kpp.StepRun

/-!
# NetlinkSocket and the buffers handed to the kernel

`unicast` and `broadcast` pass the raw pointer of an `SKB` to the kernel,
which consumes the buffer whatever it returns, and leave the pointer in the
wrapper. The model runs any sequence of `SKB` operations and netlink calls.
-/

namespace Kpp.NetlinkHandoff

open MoveOnlyHandle ReleaseLedger SocketBuffer StepRun

variable {H P : Type*} [DecidableEq P]

/-- `-EINVAL`. -/
abbrev einval : ℤ := -22

/-- `NetlinkSocket`, its `sock_` pointer null when the kernel refused to create one. -/
structure NetlinkSocket where
  /-- Kernel socket, if any. -/
  sock : Option ℕ

/-- Kernel `netlink_unicast` and `netlink_broadcast` consume the buffer they
are given, whatever result they return. -/
def netlinkSend (skb : Option P) (result : ℤ) (w : Buffers P) : ℤ×Buffers P :=
  match skb with
  | some p => (result,consumeSkb p w)
  | none => (result,w)

/-- A call on the socket: the raw pointer goes to the kernel on a valid
socket, and the call fails on a null one. -/
def netlinkCall (this : NetlinkSocket) (skb : SKB P) (result : ℤ) (w : Buffers P) : ℤ×Buffers P :=
  match this.sock with
  | some _ => netlinkSend skb.nativeHandle result w
  | none => (einval,w)

/-- `NetlinkSocket::unicast` with the kernel's result. -/
def unicast (this : NetlinkSocket) (skb : SKB P) (_portid : UInt32) (result : ℤ) (w : Buffers P) :
    ℤ×Buffers P :=
  netlinkCall this skb result w

/-- `NetlinkSocket::broadcast` with the kernel's result. -/
def broadcast (this : NetlinkSocket) (skb : SKB P) (_portid _group _allocation : UInt32)
    (result : ℤ) (w : Buffers P) : ℤ×Buffers P :=
  netlinkCall this skb result w

/-- Operations on `SKB` objects and netlink calls with them. -/
inductive Action (H P : Type*) where
  | adopt (h : H) (skb : P)
  | adoptNull (h : H)
  | moveConstruct (dst src : H)
  | moveAssign (dst src : H)
  | destroy (h : H)
  | unicast (socket : NetlinkSocket) (h : H) (portid : UInt32) (result : ℤ)
  | broadcast (socket : NetlinkSocket) (h : H) (portid group allocation : UInt32) (result : ℤ)

/-- `SKB` objects in storage cells over the kernel's buffers. -/
abbrev State (H P : Type*) := Table H P (Buffers P)

/-- A netlink call on the wrapper in a cell; only the buffers change. -/
def sendFrom (call : SKB P → Buffers P → ℤ×Buffers P) (h : H) (t : State H P) :
    Option (State H P) :=
  match t.slots h with
  | some skb => some {t with world := (call skb t.world).2}
  | none => none

section Steps
variable [DecidableEq H]

/-- One operation. Adopted buffers are distinct: each enters once, with the
single reference its wrapper takes over. -/
def step (t : State H P) : Action H P → Option (State H P)
  | .adopt h skb =>
    if t.world skb=fresh then
      construct h (SKB.ofSkBuff (some skb)) {t with world := give skb t.world}
    else none
  | .adoptNull h => construct h (SKB.ofSkBuff none) t
  | .moveConstruct dst src => moveConstruct dst src t
  | .moveAssign dst src => moveAssign consumeSkb dst src t
  | .destroy h => destroy consumeSkb h t
  | .unicast socket h portid result =>
    sendFrom (fun skb w => unicast socket skb portid result w) h t
  | .broadcast socket h portid group allocation result =>
    sendFrom (fun skb w => broadcast socket skb portid group allocation result w) h t

end Steps

/-- The socket and the wrapper in the cell give a buffer to the kernel. -/
def Gives (t : State H P) (socket : NetlinkSocket) (h : H) : Prop :=
  socket.sock≠none ∧ ∃ skb,t.slots h=some ⟨some skb⟩

/-- The operation gives no buffer to the kernel: it is no netlink call, its
socket is null or its wrapper is empty. -/
def SendsNothing (t : State H P) : Action H P → Prop
  | .unicast socket h _ _ => ¬Gives t socket h
  | .broadcast socket h _ _ _ _ => ¬Gives t socket h
  | _ => True

/-- No wrapper and no buffer yet. -/
def start : State H P := ⟨fun _ => none,fun _ => fresh⟩

/-- All wrappers are destroyed. -/
def AllDestroyed (t : State H P) : Prop := ∀ h,t.slots h=none

/-- A netlink call that gives nothing changes nothing; otherwise it gives the
buffer of its wrapper to the kernel while the wrapper keeps the pointer. -/
theorem sendFrom_cases {t t' : State H P} {socket : NetlinkSocket} {h : H} {result : ℤ}
    (hsend : sendFrom (fun skb w => netlinkCall socket skb result w) h t=some t') :
    (¬Gives t socket h ∧ t'=t) ∨
      ∃ skb,t.slots h=some ⟨some skb⟩ ∧ Gives t socket h ∧ t'=⟨t.slots,put skb t.world⟩ := by
  cases hs : t.slots h with
  | none => simp only [sendFrom,hs,reduceCtorEq] at hsend
  | some this =>
    simp only [sendFrom,hs,Option.some.injEq] at hsend
    cases this with
    | mk held =>
      cases hk : socket.sock with
      | none =>
        simp only [netlinkCall,hk] at hsend
        exact Or.inl ⟨fun hgives => hgives.1 hk,hsend.symm⟩
      | some sk =>
        cases held with
        | none =>
          simp only [netlinkCall,hk,netlinkSend,SKB.nativeHandle] at hsend
          have hnone : ¬Gives t socket h := by
            rintro ⟨_,skb,hskb⟩
            rw [hs] at hskb
            cases hskb
          exact Or.inl ⟨hnone,hsend.symm⟩
        | some skb =>
          simp only [netlinkCall,hk,netlinkSend,SKB.nativeHandle] at hsend
          have hgives : Gives t socket h := ⟨by rw [hk]; exact nofun,skb,hs⟩
          exact Or.inr ⟨skb,rfl,hgives,hsend.symm⟩

/-- Releasing what a cell holds, with the cell's owner count given up, keeps
a balanced ledger balanced. -/
theorem destruct_balanced {own own' : P → ℕ} {w : Buffers P} (this : SKB P)
    (hb : Balanced own w)
    (hown : ∀ q,own' q+(if Holds q (some this) then 1 else 0)=own q) :
    Balanced own' (MoveOnlyHandle.destruct consumeSkb this w) := by
  cases this with
  | mk held =>
    cases held with
    | none =>
      refine hb.congr (fun q => ?_)
      have hq := hown q
      simpa [Holds] using hq
    | some skb =>
      refine hb.put (p := skb) (fun q => ?_)
      have hq := hown q
      simpa [Holds,eq_comm] using hq

/-- The same release leaves an overdrawn ledger overdrawn. -/
theorem destruct_overdrawn {own own' : P → ℕ} {w : Buffers P} (this : SKB P)
    (ho : Overdrawn own w)
    (hown : ∀ q,own' q+(if Holds q (some this) then 1 else 0)=own q) :
    Overdrawn own' (MoveOnlyHandle.destruct consumeSkb this w) := by
  cases this with
  | mk held =>
    cases held with
    | none =>
      refine ho.mono (fun q => ?_)
      have hq := hown q
      simp only [Holds,Option.some.injEq,Owner.mk.injEq,reduceCtorEq,if_false] at hq
      exact hq.ge
    | some skb =>
      refine ho.put (p := skb) (fun q => ?_)
      have hq := hown q
      simp only [Holds,Option.some.injEq,Owner.mk.injEq,eq_comm] at hq ⊢
      omega

section Ledger
variable [Fintype H] [DecidableEq H] {t t' : State H P}

/-- What an operation does to holders and buffers: a buffer adopted with its
holder, a wrapper that releases what it holds, or a buffer given to the
kernel while its wrapper keeps the pointer. -/
theorem step_cases {a : Action H P} (h : step t a=some t') :
    (∃ skb,t.world skb=fresh ∧ t'.world=give skb t.world ∧
      ∀ q,holders t'.slots q=holders t.slots q+if q=skb then 1 else 0) ∨
    (∃ this,t'.world=MoveOnlyHandle.destruct consumeSkb this t.world ∧
      ∀ q,holders t'.slots q+(if Holds q (some this) then 1 else 0)=holders t.slots q) ∨
    (∃ skb,¬SendsNothing t a ∧ 0<holders t.slots skb ∧ t'.world=put skb t.world ∧
      ∀ q,holders t'.slots q=holders t.slots q) := by
  have hempty : ∀ q : P,¬Holds q (some (⟨none⟩ : Owner P)) := by
    intro q
    simp only [Holds,Option.some.injEq,Owner.mk.injEq,reduceCtorEq,not_false_eq_true]
  have hidle : ∀ u : State H P,u.world=t.world → (∀ q,holders u.slots q=holders t.slots q) →
      ∃ this,u.world=MoveOnlyHandle.destruct consumeSkb this t.world ∧
        ∀ q,holders u.slots q+(if Holds q (some this) then 1 else 0)=holders t.slots q := by
    intro u hw hq
    refine ⟨⟨none⟩,hw,fun q => ?_⟩
    rw [if_neg (hempty q)]
    exact hq q
  cases a with
  | adopt cell skb =>
    simp only [step,Option.ite_none_right_eq_some] at h
    obtain ⟨hfresh,hc⟩ := h
    obtain ⟨hraw,rfl⟩ := construct_cases hc
    refine Or.inl ⟨skb,hfresh,rfl,fun q => ?_⟩
    rw [holders_construct hraw]
    simp only [SKB.ofSkBuff,Option.some.injEq,eq_comm]
  | adoptNull cell =>
    obtain ⟨hraw,rfl⟩ := construct_cases h
    refine Or.inr (Or.inl (hidle _ rfl (fun q => ?_)))
    rw [holders_construct hraw]
    simp only [SKB.ofSkBuff,reduceCtorEq,if_false,Nat.add_zero]
  | moveConstruct dst src =>
    obtain ⟨other,hraw,hs,hne,rfl⟩ := moveConstruct_cases h
    refine Or.inr (Or.inl (hidle _ rfl (fun q => ?_)))
    have hq := holders_move hne hs q
    rw [hraw,if_neg nofun] at hq
    exact hq
  | moveAssign dst src =>
    obtain ⟨this,other,hd,hs,⟨_,rfl⟩|⟨hne,rfl⟩⟩ := moveAssign_cases h
    · exact Or.inr (Or.inl (hidle _ rfl (fun q => rfl)))
    · refine Or.inr (Or.inl ⟨this,rfl,fun q => ?_⟩)
      have hq := holders_move hne hs q
      rw [hd] at hq
      exact hq
  | destroy cell =>
    obtain ⟨this,hs,rfl⟩ := destroy_cases h
    refine Or.inr (Or.inl ⟨this,rfl,fun q => ?_⟩)
    have hq := holders_destroy t.slots cell q
    rw [hs] at hq
    exact hq
  | unicast socket cell portid result =>
    rcases sendFrom_cases h with ⟨_,rfl⟩|⟨skb,hs,hgives,rfl⟩
    · exact Or.inr (Or.inl (hidle _ rfl (fun q => rfl)))
    · exact Or.inr (Or.inr ⟨skb,not_not_intro hgives,holders_pos hs,rfl,fun q => rfl⟩)
  | broadcast socket cell portid group allocation result =>
    rcases sendFrom_cases h with ⟨_,rfl⟩|⟨skb,hs,hgives,rfl⟩
    · exact Or.inr (Or.inl (hidle _ rfl (fun q => rfl)))
    · exact Or.inr (Or.inr ⟨skb,not_not_intro hgives,holders_pos hs,rfl,fun q => rfl⟩)

/-- Operations that give nothing away keep the ledger balanced. -/
theorem step_balanced {a : Action H P} (hb : Balanced (holders t.slots) t.world)
    (hg : SendsNothing t a) (h : step t a=some t') : Balanced (holders t'.slots) t'.world := by
  rcases step_cases h with ⟨skb,hfresh,hw,hq⟩|⟨this,hw,hq⟩|⟨skb,hn,_,_,_⟩
  · rw [hw]
    exact hb.give hfresh hq
  · rw [hw]
    exact destruct_balanced this hb hq
  · exact absurd hg hn

/-- A buffer given to the kernel is freed under its wrapper. -/
theorem step_overdraws {a : Action H P} (hb : Balanced (holders t.slots) t.world)
    (hg : ¬SendsNothing t a) (h : step t a=some t') : Overdrawn (holders t'.slots) t'.world := by
  have hsend : ∀ (socket : NetlinkSocket) (cell : H) (result : ℤ),Gives t socket cell →
      sendFrom (fun skb w => netlinkCall socket skb result w) cell t=some t' →
      Overdrawn (holders t'.slots) t'.world := by
    intro socket cell result hgives hs
    rcases sendFrom_cases hs with ⟨hn,_⟩|⟨skb,hskb,_,rfl⟩
    · exact absurd hgives hn
    · exact hb.overdrawn_put (holders_pos hskb) (le_refl _)
  cases a with
  | unicast socket cell portid result => exact hsend socket cell result (not_not.mp hg) h
  | broadcast socket cell portid group allocation result =>
    exact hsend socket cell result (not_not.mp hg) h
  | adopt cell skb => exact absurd trivial hg
  | adoptNull cell => exact absurd trivial hg
  | moveConstruct dst src => exact absurd trivial hg
  | moveAssign dst src => exact absurd trivial hg
  | destroy cell => exact absurd trivial hg

/-- No operation settles an overdrawn ledger. -/
theorem step_keeps_overdrawn {a : Action H P} (ho : Overdrawn (holders t.slots) t.world)
    (h : step t a=some t') : Overdrawn (holders t'.slots) t'.world := by
  rcases step_cases h with ⟨skb,hfresh,hw,hq⟩|⟨this,hw,hq⟩|⟨skb,_,_,hw,hq⟩
  · rw [hw]
    exact ho.give hfresh (fun q => (hq q).symm ▸ Nat.le_add_right _ _)
  · rw [hw]
    exact destruct_overdrawn this ho hq
  · rw [hw]
    exact ho.put (fun q => (hq q).symm ▸ Nat.le_add_right _ _)

/-- Buffers handed to netlink. Along every run that gives no buffer of a
wrapper to a valid socket, no buffer is freed twice or dropped after it was
freed. A run that ends with all wrappers destroyed has released every adopted
buffer exactly once precisely when it gave none away. -/
theorem netlink_handoff_ownership (actions : List (Action H P)) :
    (Guarded step SendsNothing (start : State H P) actions →
      Along step (fun t => Unharmed t.world) (start : State H P) actions) ∧
    ∀ t,run step (start : State H P) actions=some t → AllDestroyed t →
      (FreedOnce t.world ↔ Guarded step SendsNothing (start : State H P) actions) := by
  have hstart : Balanced (holders (start : State H P).slots) (start : State H P).world :=
    balanced_fresh.congr (fun q => holders_raw (fun _ => rfl) q)
  constructor
  · exact along_of_guarded (I := fun t : State H P => Balanced (holders t.slots) t.world)
      (fun hb => hb.unharmed) (fun hb hg h => step_balanced hb hg h) hstart
  · intro t hrun hend
    exact end_iff_guarded (I := fun t : State H P => Balanced (holders t.slots) t.world)
      (B := fun t : State H P => Overdrawn (holders t.slots) t.world)
      (Q := fun t : State H P => FreedOnce t.world) (F := AllDestroyed)
      (fun hb hg h => step_balanced hb hg h) (fun hb hg h => step_overdraws hb hg h)
      (fun ho h => step_keeps_overdrawn ho h) (fun hb hf => hb.freedOnce (holders_raw hf))
      (fun ho hf => ho.not_freedOnce (holders_raw hf)) hstart hrun hend

end Ledger

/-- One buffer adopted, sent on a valid socket and dropped with its wrapper:
the kernel frees it, and the destructor frees it again. -/
theorem unicast_frees_buffer_twice :
    ∃ t,run step (start : State Unit Unit)
        [.adopt () (),.unicast ⟨some 0⟩ () 7 0,.destroy ()]=some t ∧
      AllDestroyed t ∧ t.world ()=⟨0,2,true⟩ ∧ ¬FreedOnce t.world := by
  refine ⟨_,rfl,fun _ => rfl,rfl,fun hfreed => ?_⟩
  have hone := hfreed () (by decide)
  exact absurd hone.1 (by decide)

end Kpp.NetlinkHandoff
