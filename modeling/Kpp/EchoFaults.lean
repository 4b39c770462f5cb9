import Kpp.EchoStream

/-!
# Calls of the echo driver that fail partway

The copy from the user goes straight into the buffer that holds the current
message. When it faults, the bytes moved so far have replaced the front of
the buffer and zeros the rest of what was asked for, while the length and the
offset are still the old ones.
-/

namespace Kpp.EchoFaults

open StepRun EchoCalls EchoStream

/-- A call with its offset; a copy that faults comes with the bytes it moved. -/
inductive Request where
  | read (size : ℕ) (moved : Option ℕ) (offset : BitVec 64)
  | write (message : List UInt8) (moved : Option ℕ) (offset : BitVec 64)

/-- What a faulting copy of `count` bytes leaves at its destination. -/
def partialCopy (message : List UInt8) (count moved : ℕ) : List UInt8 :=
  message.take moved++List.replicate (count-moved) 0

/-- The call of the driver. -/
def Request.call : Request → Call
  | .read size moved _ => .read size moved
  | .write message moved _ =>
    .write message (moved.map (partialCopy message (writeCount message.length)))

/-- Its offset. -/
def Request.offset : Request → BitVec 64
  | .read _ _ offset => offset
  | .write _ _ offset => offset

/-- A write that faults has not moved all of its bytes. -/
def Request.possible : Request → Bool
  | .write message (some moved) _ => decide (moved<writeCount message.length)
  | _ => true

/-- Result, driver and offset after the call. -/
def Request.serve (c : Request) (d : EchoDriver) : Result×EchoDriver×BitVec 64 :=
  c.call.serve d c.offset

/-- One call. -/
def step (d : EchoDriver) (c : Request) : Option EchoDriver :=
  if c.possible=true then some (c.serve d).2.1 else none

/-- The stored message is the same before and after. -/
structure Unchanged (d e : EchoDriver) (before after : BitVec 64) : Prop where
  /-- `buffer_len_`. -/
  length : e.bufferLen=d.bufferLen
  /-- `*offset`. -/
  offset : after=before
  /-- The byte behind the message. -/
  terminator : e.buffer[(e.bufferLen : ℕ)]?=d.buffer[(d.bufferLen : ℕ)]?
  /-- Whatever a read returns. -/
  reads : ∀ size fault o,(e.read size fault o).1=(d.read size fault o).1

/-- A call that returns `-EFAULT` leaves the stored message as it was. -/
def Atomic (d : EchoDriver) (c : Request) : Prop :=
  (c.serve d).1.ret= -EFAULT → Unchanged d (c.serve d).2.1 c.offset (c.serve d).2.2

/-- In the message and its terminator, a faulting write moves the bytes that
are there, and there are zeros where it moved nothing. -/
def Harmless (d : EchoDriver) : Request → Prop
  | .write message (some moved) _ =>
    ∀ i,i≤(d.bufferLen : ℕ) → (i< moved → message[i]?=d.buffer[i]?) ∧
      (moved≤ i → i<writeCount message.length → d.buffer[i]?=some 0)
  | _ => True

variable {d e : EchoDriver}

/-- What a read returns depends on the message alone. -/
theorem read_congr (hlen : e.bufferLen=d.bufferLen) (hcontent : e.content=d.content) (size : ℕ)
    (fault : Option ℕ) (o : BitVec 64) : (e.read size fault o).1=(d.read size fault o).1 := by
  have hslice : ∀ f : EchoDriver,(f.buffer.drop o.toNat).take (min size (f.bufferLen-o.toNat))=
      (f.content.drop o.toNat).take size := by
    intro f
    rw [EchoDriver.content,List.drop_take,List.take_take]
  unfold EchoDriver.read EchoDriver.copyOut
  rw [hslice e,hslice d,hcontent,hlen]
  split
  · rfl
  · cases fault <;> rfl

/-- Messages of the same length are the same exactly when the buffers agree up
to the terminator. -/
theorem unchanged_iff (hlen : e.bufferLen=d.bufferLen) (o : BitVec 64) :
    Unchanged d e o o ↔ ∀ i,i≤(d.bufferLen : ℕ) → e.buffer[i]?=d.buffer[i]? := by
  constructor
  · intro h i hi
    by_cases hlast : i=(d.bufferLen : ℕ)
    · have hterm := h.terminator
      rw [hlen] at hterm
      rw [hlast]
      exact hterm
    · -- a read of everything delivers the message
      have hall := congrArg Result.delivered (h.reads d.bufferLen none 0)
      have hzero : (0 : BitVec 64).toNat=0 := rfl
      have hpos : ¬(d.bufferLen : ℕ)≤0 := by omega
      simp only [EchoDriver.read,EchoDriver.copyOut,hzero,hlen,if_neg hpos,List.drop_zero,
        Nat.sub_zero,Nat.min_self] at hall
      have hbyte := congrArg (fun bytes => bytes[i]?) hall
      have hlt : i<(d.bufferLen : ℕ) := by omega
      simpa only [List.getElem?_take,if_pos hlt] using hbyte
  · intro h
    have hcontent : e.content=d.content := by
      unfold EchoDriver.content
      rw [hlen]
      apply List.ext_getElem?
      intro i
      rw [List.getElem?_take,List.getElem?_take]
      split
      · next hi => exact h i (Nat.le_of_lt hi)
      · rfl
    refine ⟨hlen,rfl,?_,fun size fault o => read_congr hlen hcontent size fault o⟩
    rw [hlen]
    exact h d.bufferLen (Nat.le_refl _)

/-- Bytes left by a faulting copy. -/
theorem partialCopy_getElem? {message : List UInt8} {count moved : ℕ} (hmoved : moved<count)
    (hcount : count≤ message.length) {i : ℕ} (hi : i<count) :
    (partialCopy message count moved)[i]?=if i< moved then message[i]? else some 0 := by
  have hfront : (message.take moved).length=moved := by
    rw [List.length_take]
    omega
  unfold partialCopy
  rw [List.getElem?_append,hfront]
  split
  · next h => rw [List.getElem?_take,if_pos h]
  · rw [List.getElem?_replicate,if_pos (by omega)]

/-- A faulting copy covers all the bytes it was asked for. -/
theorem partialCopy_length {message : List UInt8} {count moved : ℕ} (hmoved : moved<count)
    (hcount : count≤ message.length) : (partialCopy message count moved).length=count := by
  unfold partialCopy
  rw [List.length_append,List.length_take,List.length_replicate]
  omega

/-- A faulting write leaves the stored message exactly when it is harmless. -/
theorem write_fault_iff (d : EchoDriver) {message : List UInt8} {moved : ℕ} (offset : BitVec 64)
    (hmoved : moved<writeCount message.length) :
    Atomic d (.write message (some moved) offset) ↔
      Harmless d (.write message (some moved) offset) := by
  have hcount : (writeCount message.length : ℕ)≤ message.length := Nat.min_le_left _ _
  have hsize : (writeCount message.length : ℕ)<bufferSize := (writeCount message.length).isLt
  have hlength := partialCopy_length hmoved hcount
  have hserve : (Request.write message (some moved) offset).serve d=(⟨-EFAULT,[],none⟩,
      d.copyIn (partialCopy message (writeCount message.length) moved),offset) := by
    have htake : (partialCopy message (writeCount message.length) moved).take
        (writeCount message.length)=partialCopy message (writeCount message.length) moved :=
      List.take_of_length_le (Nat.le_of_eq hlength)
    simp only [Request.serve,Request.call,Request.offset,Call.serve,EchoDriver.write,
      Option.map_some,htake]
  have hbyte := copyIn_getElem? d (Nat.le_of_lt (lt_of_eq_of_lt hlength hsize))
  rw [hlength] at hbyte
  have hsame : (d.copyIn (partialCopy message (writeCount message.length) moved)).bufferLen=
      d.bufferLen := rfl
  unfold Atomic Harmless
  rw [hserve]
  dsimp only [Request.offset]
  rw [unchanged_iff hsame]
  simp only [forall_const]
  refine forall_congr' fun i => forall_congr' fun _ => ?_
  rw [hbyte i]
  by_cases hi : i<(writeCount message.length : ℕ)
  · rw [if_pos hi,partialCopy_getElem? hmoved hcount hi]
    by_cases hfront : i< moved
    · simp only [hfront,if_true,forall_const,Nat.not_le_of_lt hfront,false_imp_iff,and_true]
    · simp only [hfront,if_false,false_imp_iff,Nat.le_of_not_lt hfront,hi,forall_const,true_and]
      exact eq_comm
  · have hfront : ¬i< moved := by omega
    simp only [hi,if_false,hfront,false_imp_iff,implies_true,and_self]

/-- Reads never change what is stored, and writes that succeed do not report
a fault. -/
theorem atomic_of_no_write_fault (d : EchoDriver) {c : Request}
    (hc : ∀ message moved offset,c≠.write message (some moved) offset) : Atomic d c := by
  intro hret
  cases c with
  | read size moved offset =>
    change (d.read size moved offset).1.ret= -EFAULT at hret
    change Unchanged d (d.read size moved offset).2.1 offset (d.read size moved offset).2.2
    by_cases hend : (d.bufferLen : ℕ)≤offset.toNat
    · rw [EchoDriver.read,if_pos hend] at hret
      cases hret
    · simp only [EchoDriver.read,if_neg hend,EchoDriver.copyOut] at hret ⊢
      cases moved with
      | none =>
        change ((min size (d.bufferLen-offset.toNat) : ℕ) : ℤ)= -14 at hret
        omega
      | some moved => exact ⟨rfl,rfl,rfl,fun _ _ _ => rfl⟩
  | write message moved offset =>
    cases moved with
    | none =>
      change ((writeCount message.length : ℕ) : ℤ)= -14 at hret
      omega
    | some moved => exact absurd rfl (hc message moved offset)

/-- A possible call is atomic exactly when it is harmless. -/
theorem atomic_iff_harmless (d : EchoDriver) {c : Request} (hc : c.possible=true) :
    Atomic d c ↔ Harmless d c := by
  cases c with
  | read size moved offset =>
    exact iff_of_true (atomic_of_no_write_fault d nofun) trivial
  | write message moved offset =>
    cases moved with
    | none => exact iff_of_true (atomic_of_no_write_fault d nofun) trivial
    | some moved => exact write_fault_iff d offset (of_decide_eq_true hc)

/-- In every run of calls from the new driver, all calls that fail leave the
stored message as it was exactly when all writes that fault are harmless. -/
theorem failed_calls_atomic_iff (calls : List Request) :
    Guarded step Atomic EchoDriver.new calls ↔ Guarded step Harmless EchoDriver.new calls := by
  refine guarded_congr (I := fun _ => True) (fun _ _ => trivial) ?_ trivial
  intro d c e _ hstep
  refine atomic_iff_harmless d ?_
  by_contra hc
  rw [step,if_neg hc] at hstep
  cases hstep

/-- A one-byte write follows a stored message and faults at once: a zero has
replaced the first byte, and the length is the old one. -/
theorem faulting_write_clobbers :
    ¬Guarded step Atomic EchoDriver.new [.write [104,105] none 0,.write [120] (some 0) 0] := by
  intro h
  have hatomic := ((h _ rfl).2 _ rfl).1
  exact absurd ((hatomic rfl).reads 1 none 0) (by decide)

end Kpp.EchoFaults
