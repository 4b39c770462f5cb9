import Kpp.FirewallModule

/-!
# What the firewall reads of a packet

`ip_header` and `tcp_header` are addresses computed from offsets in the
`sk_buff`. They are null only without a packet, so the null checks of
`hook_callback` say nothing about where the packet's linear data end. Memory
is addressed from the start of the linear data, which is the IP header.
-/

namespace Kpp.FirewallPackets

open FirewallModule
open PacketHooks (NetfilterVerdict)

/-- The offsets of a `sk_buff`. -/
structure SkBuff where
  /-- `network_header`. -/
  networkHeader : ℕ
  /-- `transport_header`. -/
  transportHeader : ℕ

/-- `SKB`. -/
structure SKB where
  /-- `skb_`. -/
  skb : Option SkBuff

/-- `SKB::ip_header`. -/
def SKB.ipHeader (this : SKB) : Option ℕ := this.skb.map SkBuff.networkHeader

/-- `SKB::tcp_header`. -/
def SKB.tcpHeader (this : SKB) : Option ℕ := this.skb.map SkBuff.transportHeader

/-- Places of `protocol` in `struct iphdr` and of `dest` in `struct tcphdr`. -/
abbrev protocolAt : ℕ := 9
abbrev destAt : ℕ := 2

/-- `Firewall::hook_callback`: its verdict, and the places that it read. -/
def hookCallback (this : Firewall) (kskb : SKB) (memory : ℕ → UInt8) : NetfilterVerdict×List ℕ :=
  match kskb.ipHeader with
  | none => (.accept,[])
  | some iph =>
    let seen := [iph+protocolAt]
    if memory (iph+protocolAt)≠ipprotoTcp then (.accept,seen)
    else
      match kskb.tcpHeader with
      | none => (.accept,seen)
      | some tcph =>
        let dest := (memory (tcph+destAt),memory (tcph+destAt+1))
        let seen := seen++[tcph+destAt,tcph+destAt+1]
        if ntohs dest=this.portToBlock then (.drop,seen) else (.accept,seen)

/-- A packet from the IPv4 receive path, whose IP header is in its linear data. -/
structure Received where
  /-- Linear data from the IP header on. -/
  linear : List UInt8
  /-- Words of the IP header. -/
  ihl : ℕ
  /-- The header length is one that the receive path lets through. -/
  ihl_bounds : 5≤ ihl ∧ ihl≤15
  /-- The whole IP header is there. -/
  header : 4*ihl≤linear.length
  /-- The length stands in the header. -/
  ihl_byte : (linear.getD 0 0).toNat%16=ihl

/-- The packet's buffer, with the transport header where the IP header ends. -/
def Received.skb (p : Received) : SKB := ⟨some ⟨0,4*p.ihl⟩⟩

/-- Memory with the packet in it, and something behind the linear data. -/
def Received.memory (p : Received) (behind : ℕ → UInt8) : ℕ → UInt8 :=
  fun a => p.linear.getD a (behind a)

/-- `protocol`. -/
def Received.protocol (p : Received) : UInt8 := p.linear.getD protocolAt 0

/-- The fragment offset: thirteen bits of the header's bytes 6 and 7. -/
def Received.fragmentOffset (p : Received) : ℕ :=
  (p.linear.getD 6 0).toNat%32*256+(p.linear.getD 7 0).toNat

/-- Bytes 2 and 3 behind the IP header, in network order. -/
def Received.port (p : Received) : ℕ :=
  ntohs (p.linear.getD (4*p.ihl+destAt) 0,p.linear.getD (4*p.ihl+destAt+1) 0)

/-- The callback reads linear data only, so that its verdict does not depend
on the memory behind. -/
structure Contained (this : Firewall) (p : Received) : Prop where
  /-- Every place that is read is in the linear data. -/
  inside : ∀ behind,∀ a∈(hookCallback this p.skb (p.memory behind)).2,a<p.linear.length
  /-- The memory behind makes no difference. -/
  independent : ∀ behind behind',
    (hookCallback this p.skb (p.memory behind)).1=(hookCallback this p.skb (p.memory behind')).1

/-- A packet with at least a TCP header's length of linear data behind the IP
header. -/
structure Whole extends Received where
  /-- Twenty bytes of payload. -/
  payload : 4*ihl+20≤linear.length

/-- The packet is dropped exactly when it carries a TCP header for the port. -/
def Classified (this : Firewall) (p : Whole) : Prop :=
  ∀ behind,(hookCallback this p.skb (p.memory behind)).1=
    if p.protocol=ipprotoTcp ∧ p.fragmentOffset=0 ∧ p.port=this.portToBlock then .drop
    else .accept

variable {this : Firewall} {p : Received} {behind : ℕ → UInt8}

/-- Where the callback is shown a packet it decides like the callback on what
the two headers hold. -/
theorem hookCallback_verdict (this : Firewall) (skb : SkBuff) (memory : ℕ → UInt8) :
    (hookCallback this ⟨some skb⟩ memory).1=this.hookCallback
      ⟨some (memory (skb.networkHeader+protocolAt)),
        some (memory (skb.transportHeader+destAt),memory (skb.transportHeader+destAt+1))⟩ := by
  simp only [hookCallback,SKB.ipHeader,SKB.tcpHeader,Option.map_some,Firewall.hookCallback]
  split
  · rfl
  · split <;> rfl

/-- The callback sees nothing but what it reads. -/
theorem hookCallback_congr {kskb : SKB} {memory memory' : ℕ → UInt8}
    (h : ∀ a∈(hookCallback this kskb memory).2,memory' a=memory a) :
    hookCallback this kskb memory'=hookCallback this kskb memory := by
  unfold hookCallback at h ⊢
  cases hi : kskb.ipHeader with
  | none => rfl
  | some iph =>
    simp only [hi] at h ⊢
    by_cases hp : memory (iph+protocolAt)≠ipprotoTcp
    · have hsame := h (iph+protocolAt) (by simp only [if_pos hp,List.mem_singleton])
      rw [hsame,if_pos hp,if_pos hp]
    · cases ht : kskb.tcpHeader with
      | none =>
        have hsame := h (iph+protocolAt) (by simp [ht])
        rw [hsame]
      | some tcph =>
        simp only [if_neg hp,ht] at h
        have hall : ∀ a∈[iph+protocolAt,tcph+destAt,tcph+destAt+1],memory' a=memory a := by
          split at h <;> exact h
        simp only [List.forall_mem_cons] at hall
        dsimp only
        rw [hall.1,hall.2.1,hall.2.2.1]

/-- In the linear data memory is the packet. -/
theorem memory_linear (p : Received) {a : ℕ} (ha : a<p.linear.length) (behind : ℕ → UInt8)
    (d : UInt8) : p.memory behind a=p.linear.getD a d := by
  unfold Received.memory
  rw [List.getD_eq_getElem?_getD,List.getD_eq_getElem?_getD,List.getElem?_eq_getElem ha]
  rfl

/-- The protocol is always in the linear data. -/
theorem memory_protocol (p : Received) (behind : ℕ → UInt8) :
    protocolAt<p.linear.length ∧ p.memory behind protocolAt=p.protocol := by
  have hin : protocolAt<p.linear.length := by
    have hwords := p.ihl_bounds
    have hheader := p.header
    change 9<p.linear.length
    omega
  exact ⟨hin,memory_linear p hin behind 0⟩

/-- What a received packet makes the callback read. -/
theorem hookCallback_reads (this : Firewall) (p : Received) (behind : ℕ → UInt8) :
    (hookCallback this p.skb (p.memory behind)).2=
      if p.protocol=ipprotoTcp then [protocolAt,4*p.ihl+destAt,4*p.ihl+destAt+1]
      else [protocolAt] := by
  have hprotocol := (memory_protocol p behind).2
  simp only [hookCallback,Received.skb,SKB.ipHeader,SKB.tcpHeader,Option.map_some,Nat.zero_add,
    hprotocol]
  by_cases hp : p.protocol=ipprotoTcp
  · rw [if_neg (not_not.mpr hp),if_pos hp]
    split <;> rfl
  · rw [if_pos hp,if_neg hp]

/-- The callback's reads stay inside the linear data, and its verdict with
them, exactly when the packet is not TCP or four bytes of linear data stand
behind its IP header. -/
theorem contained_iff (this : Firewall) (p : Received) :
    Contained this p ↔ p.protocol≠ipprotoTcp ∨ 4*p.ihl+4≤p.linear.length := by
  have hprotocol := (memory_protocol p (fun _ => 0)).1
  constructor
  · intro h
    by_cases hp : p.protocol=ipprotoTcp
    · have hinside := h.inside (fun _ => 0)
      rw [hookCallback_reads,if_pos hp] at hinside
      have hlast := hinside (4*p.ihl+destAt+1) (by simp)
      exact Or.inr hlast
    · exact Or.inl hp
  · intro h
    have hinside : ∀ behind,∀ a∈(hookCallback this p.skb (p.memory behind)).2,
        a<p.linear.length := by
      intro behind a ha
      rw [hookCallback_reads] at ha
      split at ha
      · next hp =>
        have hbytes := h.resolve_left (not_not.mpr hp)
        simp only [List.mem_cons,List.not_mem_nil,or_false] at ha
        change a=9 ∨ a=4*p.ihl+2 ∨ a=4*p.ihl+2+1 at ha
        change 9<p.linear.length at hprotocol
        omega
      · rw [List.mem_singleton.mp ha]
        exact hprotocol
    refine ⟨hinside,fun behind behind' => ?_⟩
    refine congrArg Prod.fst (hookCallback_congr ?_)
    intro a ha
    have hin := hinside behind' a ha
    rw [memory_linear p hin behind 0,memory_linear p hin behind' 0]

/-- A packet with all the linear data is dropped exactly when it is TCP and
its bytes 2 and 3 behind the IP header are the port, whatever its fragment
offset. -/
theorem whole_verdict (this : Firewall) (p : Whole) (behind : ℕ → UInt8) :
    (hookCallback this p.skb (p.memory behind)).1=
      if p.protocol=ipprotoTcp ∧ p.port=this.portToBlock then .drop else .accept := by
  have hpayload := p.payload
  have hfirst := memory_linear p.toReceived (a := 4*p.ihl+destAt)
    (by change 4*p.ihl+2<p.linear.length; omega) behind 0
  have hsecond := memory_linear p.toReceived (a := 4*p.ihl+destAt+1)
    (by change 4*p.ihl+2+1<p.linear.length; omega) behind 0
  refine (hookCallback_verdict this _ _).trans ?_
  dsimp only
  rw [Nat.zero_add,(memory_protocol p.toReceived behind).2,hfirst,hsecond,
    Firewall.hookCallback_eq]
  simp only [Option.some.injEq,Option.map_some]
  rfl

/-- The verdict is the right one exactly when the packet is not a later
fragment of TCP whose payload has the port where a header would have it. -/
theorem classified_iff (this : Firewall) (p : Whole) :
    Classified this p ↔
      ¬(p.protocol=ipprotoTcp ∧ p.fragmentOffset≠0 ∧ p.port=this.portToBlock) := by
  constructor
  · rintro h ⟨htcp,hfragment,hport⟩
    have hverdict := h (fun _ => 0)
    rw [whole_verdict,if_pos ⟨htcp,hport⟩,if_neg (fun hall => hfragment hall.2.1)] at hverdict
    cases hverdict
  · intro h behind
    rw [whole_verdict]
    by_cases hall : p.protocol=ipprotoTcp ∧ p.port=this.portToBlock
    · have hfirst : p.fragmentOffset=0 := by
        by_contra hlater
        exact h ⟨hall.1,hlater,hall.2⟩
      rw [if_pos hall,if_pos ⟨hall.1,hfirst,hall.2⟩]
    · rw [if_neg hall,if_neg (fun hmore => hall ⟨hmore.1,hmore.2.2⟩)]

/-- An IP header alone, of protocol TCP. -/
def bareHeader : Received where
  linear := [69,0,0,60,0,0,0,0,64,6,0,0,10,0,0,1,10,0,0,2]
  ihl := 5
  ihl_bounds := by decide
  header := by decide
  ihl_byte := by decide

/-- Without linear data behind the IP header, the memory there decides. -/
theorem bareHeader_leaks : ¬Contained ⟨⟨none⟩,80⟩ bareHeader ∧
    (hookCallback ⟨⟨none⟩,80⟩ bareHeader.skb (bareHeader.memory (fun _ => 0))).1=.accept ∧
    (hookCallback ⟨⟨none⟩,80⟩ bareHeader.skb
      (bareHeader.memory (fun a => if a=23 then 80 else 0))).1=.drop := by
  refine ⟨?_,by decide,by decide⟩
  intro h
  exact absurd (h.independent (fun _ => 0) (fun a => if a=23 then 80 else 0)) (by decide)

/-- A later fragment of TCP, with the blocked port in its payload's bytes 2 and 3. -/
def laterFragment : Whole where
  linear := [69,0,0,40,0,0,0,185,64,6,0,0,10,0,0,1,10,0,0,2]++
    [0,0,0,80,0,0,0,0,0,0,0,0,0,0,0,0,0,0,0,0]
  ihl := 5
  ihl_bounds := by decide
  header := by decide
  ihl_byte := by decide
  payload := by decide

/-- It is dropped, though it carries no TCP header. -/
theorem laterFragment_dropped :
    laterFragment.fragmentOffset=185 ∧ ¬Classified ⟨⟨none⟩,80⟩ laterFragment ∧
      (hookCallback ⟨⟨none⟩,80⟩ laterFragment.skb (laterFragment.memory (fun _ => 0))).1=.drop := by
  refine ⟨by decide,?_,by decide⟩
  intro h
  exact absurd (h (fun _ => 0)) (by decide)

end Kpp.FirewallPackets
