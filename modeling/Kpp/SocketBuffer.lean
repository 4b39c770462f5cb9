import Kpp.MoveOnlyHandle
import Kpp.ReleaseLedger

/-!
# SKB, the owning wrapper of a socket buffer

`SKB` is a move-only handle whose destructor and move assignment call
`consume_skb`, which drops one reference of the buffer and frees it with
the last one. The kernel's buffers are reference counts with their history.
-/

namespace Kpp.SocketBuffer

open MoveOnlyHandle ReleaseLedger

variable {P : Type*} [DecidableEq P]

/-- Socket buffers of the kernel by pointer. -/
abbrev Buffers (P : Type*) := P → Counted

/-- Kernel `consume_skb`: drop one reference of the buffer. -/
def consumeSkb (skb : P) (w : Buffers P) : Buffers P := put skb w

/-- The wrapper's only field is the buffer pointer `skb_`. -/
abbrev SKB (P : Type*) := Owner P

/-- `explicit SKB(struct sk_buff*)`. -/
def SKB.ofSkBuff (skb : Option P) : SKB P := ⟨skb⟩

/-- `~SKB()`. -/
def SKB.destruct (this : SKB P) (w : Buffers P) : Buffers P :=
  MoveOnlyHandle.destruct consumeSkb this w

/-- `SKB(SKB&&)`: the new wrapper and the emptied source. -/
def SKB.moveCtor (other : SKB P) : SKB P×SKB P := moveFrom other

/-- `native_handle()`. -/
def SKB.nativeHandle (this : SKB P) : Option P := this.held

/-- Destroying an empty wrapper does nothing. -/
@[simp] theorem SKB.destruct_empty (w : Buffers P) :
    SKB.destruct (⟨none⟩ : SKB P) w=w := rfl

/-- Destroying an owning wrapper consumes its buffer. -/
@[simp] theorem SKB.destruct_owning (skb : P) (w : Buffers P) :
    SKB.destruct ⟨some skb⟩ w=put skb w := rfl

end Kpp.SocketBuffer
