import Kpp.EchoStream
import Kpp.SerialObjects

/-!
# The echo device as a message board

What the device is for: a board with one message of at most 255 bytes, and a
position in it for each open file. The driver with its buffer, its length word
and its 64-bit offsets implements the board, faulting copies included, under
every interleaving.
-/

namespace Kpp.EchoBoard

open StepRun CriticalSections SerialObjects EchoCalls EchoStream

/-- The message on the board. -/
structure Board where
  /-- Its bytes. -/
  message : List UInt8
  /-- The terminator fits behind them. -/
  short : message.length<bufferSize

/-- A new message, cut off at the board's size. -/
def Board.post (message : List UInt8) : Board where
  message := message.take (bufferSize-1)
  short := by
    rw [List.length_take]
    exact Nat.lt_of_le_of_lt (Nat.min_le_left _ _) (Nat.lt_succ_self 255)

/-- Bytes left over the front of the message, which keeps its length. -/
def Board.smear (b : Board) (left : List UInt8) : Board where
  message := (left++b.message.drop left.length).take b.message.length
  short := by
    have h := b.short
    rw [List.length_take]
    omega

/-- A read gives the next bytes behind the position, a write posts its message
and goes back to the start. A faulting read stays where it is, and a faulting
write leaves bytes over the front of the old message. -/
def Board.call : Call → Board → ℕ → Result×Board×ℕ
  | .read size fault,b,position =>
    let bytes := (b.message.drop position).take size
    if b.message.length≤position then (answer [],b,position)
    else match fault with
      | none => (answer bytes,b,position+bytes.length)
      | some moved => (⟨-EFAULT,bytes.take moved,none⟩,b,position)
  | .write message fault,b,position =>
    match fault with
    | none =>
      let posted := Board.post message
      (⟨posted.message.length,[],some posted.message⟩,posted,0)
    | some garbage =>
      (⟨-EFAULT,[],none⟩,b.smear (garbage.take (writeCount message.length)),position)

/-- The board. -/
def board : Object Board ℕ Call Result := ⟨Board.call⟩

/-- The message that the driver has on the board. -/
def onBoard (d : EchoDriver) : Board where
  message := d.content
  short := by
    rw [content_length]
    exact d.bufferLen.isLt

/-- The board behind buffer and length, and the position behind an offset. -/
def view : View EchoDriver (BitVec 64) Board ℕ := ⟨onBoard,BitVec.toNat⟩

/-- Boards with the same message are the same. -/
theorem board_ext {b c : Board} (h : b.message=c.message) : b=c := by
  cases b
  cases c
  cases h
  rfl

/-- A read on the driver is a read on the board. -/
theorem read_board (d : EchoDriver) (size : ℕ) (fault : Option ℕ) (offset : BitVec 64) :
    Board.call (.read size fault) (onBoard d) offset.toNat=
      ((d.read size fault offset).1,onBoard (d.read size fault offset).2.1,
        (d.read size fault offset).2.2.toNat) := by
  have hlength : (onBoard d).message.length=d.bufferLen := content_length d
  have hslice : (d.buffer.drop offset.toNat).take (min size (d.bufferLen-offset.toNat))=
      ((onBoard d).message.drop offset.toNat).take size := by
    show _=((d.buffer.take d.bufferLen).drop offset.toNat).take size
    rw [List.drop_take,List.take_take]
  simp only [Board.call,EchoDriver.read,EchoDriver.copyOut,hlength,hslice]
  by_cases hend : (d.bufferLen : ℕ)≤offset.toNat
  · simp only [if_pos hend]
    rfl
  · have hcount : (((onBoard d).message.drop offset.toNat).take size).length=
        min size (d.bufferLen-offset.toNat) := by
      rw [List.length_take,List.length_drop,hlength]
    have hnext : (offset+BitVec.ofNat 64 (min size (d.bufferLen-offset.toNat))).toNat=
        offset.toNat+min size (d.bufferLen-offset.toNat) := by
      have hsmall : (d.bufferLen : ℕ)<256 := d.bufferLen.isLt
      rw [BitVec.toNat_add,BitVec.toNat_ofNat]
      omega
    simp only [if_neg hend]
    cases fault with
    | none => simp only [answer,hcount,hnext]
    | some moved => rfl

/-- A faulting write leaves its bytes over the front of the board's message. -/
theorem copyIn_board (d : EchoDriver) (left : List UInt8) :
    onBoard (d.copyIn left)=(onBoard d).smear left := by
  refine board_ext ?_
  show ((left++d.buffer.drop left.length).take bufferSize).take d.bufferLen=
    (left++d.content.drop left.length).take d.content.length
  have hsmall : (d.bufferLen : ℕ)≤bufferSize := Nat.le_of_lt d.bufferLen.isLt
  rw [content_length,List.take_take,Nat.min_eq_left hsmall,List.take_append,List.take_append,
    EchoDriver.content,List.drop_take,List.take_take,Nat.min_self]

/-- A write on the driver is a write on the board. -/
theorem write_board (d : EchoDriver) (message : List UInt8) (fault : Option (List UInt8))
    (offset : BitVec 64) :
    Board.call (.write message fault) (onBoard d) offset.toNat=
      ((d.write message fault offset).1,onBoard (d.write message fault offset).2.1,
        (d.write message fault offset).2.2.toNat) := by
  cases fault with
  | some garbage =>
    have hleft := copyIn_board d (garbage.take (writeCount message.length))
    simp only [Board.call,EchoDriver.write,hleft]
  | none =>
    have hcontent := (write_content d message offset).1
    have hboard : onBoard (d.write message none offset).2.1=Board.post message :=
      board_ext hcontent
    have hcount : ((Board.post message).message.length : ℤ)=(writeCount message.length : ℕ) := by
      rw [Board.post,List.length_take,Nat.min_comm]
      rfl
    rw [hboard]
    simp only [Board.call,hcount]
    have hlogged : (d.write message none offset).1.logged=some (Board.post message).message :=
      congrArg some hcontent
    rw [←hlogged]
    rfl

/-- The driver implements the board. -/
theorem echo_implements : Implements echo board view := by
  intro c d offset
  cases c with
  | read size fault => exact read_board d size fault offset
  | write message fault => exact write_board d message fault offset

/-- Any number of threads that call the driver, in every interleaving of the
steps and with any faults: the board linearises them. -/
theorem echo_linearised {T : Type*} [DecidableEq T] (driver : EchoDriver)
    (offsets : T → BitVec 64) (actions : List (Action T Call)) :
    Along (step echo) (Linearised echo board view driver offsets) (start driver offsets) actions :=
  echo_implements.along_linearised driver offsets actions

/-- A call that is no faulting write. -/
def Call.whole : Call → Bool
  | .write _ (some _) => false
  | _ => true

/-- The first message, and those of the writes among the calls. -/
def messages {T : Type*} (first : List UInt8) (calls : List (T×Call)) : List (List UInt8) :=
  first::calls.filterMap (fun call => match call.2 with
    | .write message none => some (Board.post message).message
    | _ => none)

/-- While no call was a faulting write, the bytes of each read so far are a
part of one message that was on the board. -/
def Untorn {T : Type*} (first : List UInt8)
    (s : State T EchoDriver (BitVec 64) Call Result Point) : Prop :=
  (∀ t,∀ c∈s.invoked t,Call.whole c=true) →
    ∀ t,∀ r∈s.results t,∃ message∈messages first s.log,r.delivered<:+:message

section Reads
variable {T : Type*} [DecidableEq T] {sources : List (List UInt8)}

/-- The message on the board is a source, and so are those that reads are from. -/
structure Sourced (sources : List (List UInt8)) (x : Serial T Board ℕ Result) : Prop where
  /-- The message. -/
  message : x.shared.message∈sources
  /-- The reads. -/
  reads : ∀ t,∀ r∈x.results t,∃ message∈sources,r.delivered<:+:message

/-- The bytes of a call are a part of the message on the board, and a call
that is no faulting write leaves that message or its own. -/
theorem call_sourced (b : Board) (position : ℕ) {c : Call} (hc : Call.whole c=true) :
    (Board.call c b position).1.delivered<:+:b.message ∧
      ((Board.call c b position).2.1=b ∨
        ∃ message,c=.write message none ∧ (Board.call c b position).2.1=Board.post message) := by
  have hslice : ∀ size,(b.message.drop position).take size<:+:b.message := by
    intro size
    exact (List.take_prefix size _).isInfix.trans (List.drop_suffix position _).isInfix
  cases c with
  | read size fault =>
    simp only [Board.call]
    by_cases hend : b.message.length≤position
    · simp only [if_pos hend]
      exact ⟨List.nil_infix,Or.inl trivial⟩
    · simp only [if_neg hend]
      cases fault with
      | none => exact ⟨hslice size,Or.inl rfl⟩
      | some moved =>
        exact ⟨(List.take_prefix moved _).isInfix.trans (hslice size),Or.inl rfl⟩
  | write message fault =>
    cases fault with
    | none => exact ⟨List.nil_infix,Or.inr ⟨message,rfl,rfl⟩⟩
    | some garbage => cases hc

/-- A call keeps the sources. -/
theorem Sourced.serve {x : Serial T Board ℕ Result} (hx : Sourced sources x) {call : T×Call}
    (hwhole : Call.whole call.2=true)
    (hpost : ∀ message,call.2=.write message none → (Board.post message).message∈sources) :
    Sourced sources (board.serve x call) := by
  obtain ⟨hread,hleft⟩ := call_sourced x.shared (x.locals call.1) hwhole
  constructor
  · show (Board.call call.2 x.shared (x.locals call.1)).2.1.message∈sources
    rcases hleft with hsame | ⟨message,hwrite,hnew⟩
    · rw [hsame]
      exact hx.message
    · rw [hnew]
      exact hpost message hwrite
  · intro t r hr
    simp only [Object.serve,board] at hr
    by_cases ht : t=call.1
    · subst ht
      rw [Function.update_self] at hr
      rcases List.mem_append.mp hr with hold | hnew
      · exact hx.reads call.1 r hold
      · obtain rfl := List.mem_singleton.mp hnew
        exact ⟨x.shared.message,hx.message,hread⟩
    · rw [Function.update_of_ne ht] at hr
      exact hx.reads t r hr

/-- In every interleaving without faulting writes each read delivers a part of
one message: no read mixes two. -/
theorem reads_untorn (driver : EchoDriver) (offsets : T → BitVec 64)
    (actions : List (Action T Call)) :
    Along (step echo) (Untorn driver.content) (start driver offsets) actions := by
  refine along_of_along (I := fun _ => True) ?_ (fun _ _ _ => trivial) trivial
    (echo_implements.along_linearised driver offsets actions)
  intro s _ hs hwhole t r hr
  let x : Serial T Board ℕ Result := view.serial (Serial.start driver offsets)
  have hstart : Sourced (messages driver.content s.log) x := ⟨List.mem_cons_self,nofun⟩
  have hcalls : ∀ call∈s.log,Call.whole call.2=true ∧
      ∀ message,call.2=.write message none →
        (Board.post message).message∈messages driver.content s.log := by
    intro call hcall
    constructor
    · have hmine : call.2∈callsOf call.1 s.log :=
        List.mem_map.mpr ⟨call,List.mem_filter.mpr ⟨hcall,decide_eq_true rfl⟩,rfl⟩
      refine hwhole call.1 call.2 ?_
      rw [hs.calls call.1]
      exact List.mem_append_left _ hmine
    · intro message hwrite
      refine List.mem_cons_of_mem _ (List.mem_filterMap.mpr ⟨call,hcall,?_⟩)
      rw [hwrite]
  have hend : Sourced (messages driver.content s.log) (board.run x s.log) :=
    board.run_invariant (fun hx hcall => hx.serve hcall.1 hcall.2) hstart hcalls
  obtain ⟨rest,-,hresults⟩ := hs.results t
  refine hend.reads t r ?_
  rw [hresults]
  exact List.mem_append_left rest hr

end Reads

end Kpp.EchoBoard
