import Kpp.CriticalSections
import Mathlib.Data.Int.Notation

/-!
# The echo driver's read and write

`EchoDriver` keeps one message of at most 255 bytes behind a mutex. The offset
is a signed word that the code compares and adds as an unsigned one. The
copies to and from the user, whose three-argument forms are not in the
repository, are an input of each call: they move every byte or fail partway.
`ScopedLock` takes the mutex first and releases it after the return value is
known, on every path; the calls are steps in between.
-/

namespace Kpp.EchoCalls

open StepRun CriticalSections

/-- `BUFFER_SIZE`. -/
abbrev bufferSize : ℕ := 256

/-- Errno of a failed copy. -/
abbrev EFAULT : ℤ := 14

/-- The driver's state behind the mutex. -/
structure EchoDriver where
  /-- `buffer_`. -/
  buffer : List UInt8
  /-- `buffer_len_`; the terminator always fits behind it. -/
  bufferLen : Fin bufferSize
  /-- The array has its declared size. -/
  sized : buffer.length=bufferSize

/-- A new driver: zeros, and nothing to read. -/
def EchoDriver.new : EchoDriver := ⟨List.replicate bufferSize 0,0,List.length_replicate⟩

/-- The copy from the user overwrites the front of the buffer. -/
def EchoDriver.copyIn (d : EchoDriver) (bytes : List UInt8) : EchoDriver where
  buffer := (bytes++d.buffer.drop bytes.length).take bufferSize
  bufferLen := d.bufferLen
  sized := by
    have h := d.sized
    simp only [List.length_take,List.length_append,List.length_drop]
    omega

/-- `buffer_len_ = count`. -/
def EchoDriver.setLen (d : EchoDriver) (count : Fin bufferSize) : EchoDriver :=
  {d with bufferLen := count}

/-- `buffer_[buffer_len_] = 0`. -/
def EchoDriver.terminate (d : EchoDriver) : EchoDriver where
  buffer := d.buffer.set d.bufferLen 0
  bufferLen := d.bufferLen
  sized := by rw [List.length_set,d.sized]

/-- `StringView(buffer_, buffer_len_)`. -/
def EchoDriver.content (d : EchoDriver) : List UInt8 := d.buffer.take d.bufferLen

/-- A call with what the user passes and how its copy ends. -/
inductive Call where
  /-- A read of so many bytes; a failing copy delivers a number of bytes first. -/
  | read (size : ℕ) (fault : Option ℕ)
  /-- A write; a failing copy leaves bytes at the front of the buffer. -/
  | write (message : List UInt8) (fault : Option (List UInt8))

/-- What a call returns and leaves outside the driver. -/
structure Result where
  /-- The returned `ssize_t`. -/
  ret : ℤ
  /-- Bytes that reached the user. -/
  delivered : List UInt8
  /-- Text of the log line. -/
  logged : Option (List UInt8)
  deriving DecidableEq

/-- `min(size, BUFFER_SIZE - 1)`. -/
def writeCount (size : ℕ) : Fin bufferSize :=
  ⟨min size (bufferSize-1),Nat.lt_of_le_of_lt (Nat.min_le_right _ _) (Nat.lt_succ_self 255)⟩

/-- The end of `EchoDriver::read`: copy to the user and advance the offset. -/
def EchoDriver.copyOut (d : EchoDriver) (count : ℕ) (fault : Option ℕ) (offset : BitVec 64) :
    Result×EchoDriver×BitVec 64 :=
  let bytes := (d.buffer.drop offset.toNat).take count
  match fault with
  | some moved => (⟨-EFAULT,bytes.take moved,none⟩,d,offset)
  | none => (⟨count,bytes,none⟩,d,offset+BitVec.ofNat 64 count)

/-- `EchoDriver::read`. -/
def EchoDriver.read (d : EchoDriver) (size : ℕ) (fault : Option ℕ) (offset : BitVec 64) :
    Result×EchoDriver×BitVec 64 :=
  if (d.bufferLen : ℕ)≤offset.toNat then (⟨0,[],none⟩,d,offset)
  else d.copyOut (min size (d.bufferLen-offset.toNat)) fault offset

/-- `EchoDriver::write`. -/
def EchoDriver.write (d : EchoDriver) (message : List UInt8) (fault : Option (List UInt8))
    (offset : BitVec 64) : Result×EchoDriver×BitVec 64 :=
  let count := writeCount message.length
  match fault with
  | some garbage => (⟨-EFAULT,[],none⟩,d.copyIn (garbage.take count),offset)
  | none =>
    let e := ((d.copyIn (message.take count)).setLen count).terminate
    (⟨(count : ℕ),[],some e.content⟩,e,0)

/-- One call of the driver. -/
def Call.serve : Call → EchoDriver → BitVec 64 → Result×EchoDriver×BitVec 64
  | .read size fault,d,offset => d.read size fault offset
  | .write message fault,d,offset => d.write message fault offset

/-- Points between the steps of a call. -/
inductive Point where
  /-- `read` is about to compare the offset with `buffer_len_`. -/
  | testing (size : ℕ) (fault : Option ℕ)
  /-- `read` is about to compute the count from `buffer_len_`. -/
  | counting (size : ℕ) (fault : Option ℕ)
  /-- `read` is about to copy from the buffer. -/
  | copyingOut (count : ℕ) (fault : Option ℕ)
  /-- `read` is about to advance the offset. -/
  | advancing (count : ℕ) (bytes : List UInt8)
  /-- `write` is about to copy into the buffer. -/
  | copyingIn (message : List UInt8) (fault : Option (List UInt8))
  /-- `write` is about to set `buffer_len_`. -/
  | sizing (count : Fin bufferSize)
  /-- `write` is about to terminate the buffer. -/
  | terminating (count : Fin bufferSize)
  /-- `write` is about to reset the offset. -/
  | rewinding (count : Fin bufferSize)
  /-- `write` is about to log the message. -/
  | logging (count : Fin bufferSize)

/-- First point of a call that has the mutex. -/
def Call.enter : Call → Point
  | .read size fault => .testing size fault
  | .write message fault => .copyingIn message fault

/-- One step of a call. -/
def Point.micro : Point → EchoDriver → BitVec 64 → (Point ⊕ Result)×EchoDriver×BitVec 64
  | .testing size fault,d,offset =>
    if (d.bufferLen : ℕ)≤offset.toNat then (.inr ⟨0,[],none⟩,d,offset)
    else (.inl (.counting size fault),d,offset)
  | .counting size fault,d,offset =>
    (.inl (.copyingOut (min size (d.bufferLen-offset.toNat)) fault),d,offset)
  | .copyingOut count fault,d,offset =>
    let bytes := (d.buffer.drop offset.toNat).take count
    match fault with
    | some moved => (.inr ⟨-EFAULT,bytes.take moved,none⟩,d,offset)
    | none => (.inl (.advancing count bytes),d,offset)
  | .advancing count bytes,d,offset =>
    (.inr ⟨count,bytes,none⟩,d,offset+BitVec.ofNat 64 count)
  | .copyingIn message fault,d,offset =>
    let count := writeCount message.length
    match fault with
    | some garbage => (.inr ⟨-EFAULT,[],none⟩,d.copyIn (garbage.take count),offset)
    | none => (.inl (.sizing count),d.copyIn (message.take count),offset)
  | .sizing count,d,offset => (.inl (.terminating count),d.setLen count,offset)
  | .terminating count,d,offset => (.inl (.rewinding count),d.terminate,offset)
  | .rewinding count,d,_ => (.inl (.logging count),d,0)
  | .logging count,d,offset => (.inr ⟨(count : ℕ),[],some d.content⟩,d,offset)

/-- The rest of a call from a point. -/
def Point.finish : Point → EchoDriver → BitVec 64 → Result×EchoDriver×BitVec 64
  | .testing size fault,d,offset => d.read size fault offset
  | .counting size fault,d,offset => d.copyOut (min size (d.bufferLen-offset.toNat)) fault offset
  | .copyingOut count fault,d,offset => d.copyOut count fault offset
  | .advancing count bytes,d,offset => (⟨count,bytes,none⟩,d,offset+BitVec.ofNat 64 count)
  | .copyingIn message fault,d,offset => d.write message fault offset
  | .sizing count,d,_ =>
    let e := (d.setLen count).terminate
    (⟨(count : ℕ),[],some e.content⟩,e,0)
  | .terminating count,d,_ => (⟨(count : ℕ),[],some d.terminate.content⟩,d.terminate,0)
  | .rewinding count,d,_ => (⟨(count : ℕ),[],some d.content⟩,d,0)
  | .logging count,d,offset => (⟨(count : ℕ),[],some d.content⟩,d,offset)

/-- A step does the first part of the rest of its call. -/
theorem Point.finish_micro (p : Point) (d : EchoDriver) (offset : BitVec 64) :
    p.finish d offset=(match p.micro d offset with
      | (.inl q,e,next) => q.finish e next
      | (.inr r,e,next) => (r,e,next)) := by
  cases p with
  | testing size fault =>
    by_cases h : (d.bufferLen : ℕ)≤offset.toNat
    · simp only [finish,micro,EchoDriver.read,h,if_true]
    · simp only [finish,micro,EchoDriver.read,h,if_false]
  | copyingOut count fault => cases fault <;> rfl
  | copyingIn message fault => cases fault <;> rfl
  | counting size fault => rfl
  | advancing count bytes => rfl
  | sizing count => rfl
  | terminating count => rfl
  | rewinding count => rfl
  | logging count => rfl

/-- The driver's calls as critical sections on the driver and the offset. -/
def echo : Code EchoDriver (BitVec 64) Call Result Point where
  whole := Call.serve
  enter := Call.enter
  micro := Point.micro
  finish := Point.finish
  finish_enter := by
    intro c d offset
    cases c <;> rfl
  finish_next := by
    intro p q d e offset next h
    rw [Point.finish_micro,h]
  finish_done := by
    intro p r d e offset next h
    rw [Point.finish_micro,h]

/-- Any number of threads that call the driver have, in every interleaving,
the results and final state of the calls run one after another. -/
theorem calls_serialised {T : Type*} [DecidableEq T] (driver : EchoDriver)
    (offsets : T → BitVec 64) (actions : List (Action T Call)) :
    Along (step echo) (Serialised echo driver offsets) (start driver offsets) actions :=
  along_serialised echo driver offsets actions

end Kpp.EchoCalls
