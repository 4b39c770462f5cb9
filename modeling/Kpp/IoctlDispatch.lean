import Kpp.HashBuckets
import Kpp.WordMemory

/-!
# IoctlHandler over its list of commands

`handle` runs `process_command` for every `Command` of the template's list,
one after another, on a shared result and a shared flag. Each step may copy
the argument in, call the owner's handler and copy the argument out. The
intended behaviour is that of one dispatch to the first command with the
number. Data types are known by their bytes.
-/

namespace Kpp.IoctlDispatch

open HashBuckets (Error)
open WordMemory

/-- `IoctlDirection`. -/
inductive IoctlDirection where
  | none
  | read
  | write
  | readWrite
  deriving DecidableEq

/-- The argument is copied in before the handler. -/
def IoctlDirection.copiesIn (d : IoctlDirection) : Bool := d==.write || d==.readWrite

/-- The argument is copied out after the handler. -/
def IoctlDirection.copiesOut (d : IoctlDirection) : Bool := d==.read || d==.readWrite

/-- Bytes of an object of this size. -/
abbrev Bytes (size : ℕ) := Fin size → UInt8

/-- User memory, by address. -/
abbrev UserMemory := Memory UInt8

/-- `IoctlCommand`, with the overload of `handle_ioctl` that it selects. -/
structure IoctlCommand (Owner : Type*) where
  /-- `Cmd`. -/
  cmd : BitVec 32
  /-- `sizeof(Type)`. -/
  size : ℕ
  /-- `DataType data{}`. -/
  initial : Bytes size
  /-- `Direction`. -/
  direction : IoctlDirection
  /-- The owner's handler: result, data, owner and user memory afterwards. -/
  handleIoctl : Bytes size → Owner → UserMemory → ℤ×Bytes size×Owner×UserMemory

variable {Owner : Type*}

/-- A handler call: the command, and the data the handler was given. -/
structure Invocation (Owner : Type*) where
  /-- Command whose handler was called. -/
  command : IoctlCommand Owner
  /-- Data at the call. -/
  data : Bytes command.size

/-- What an ioctl works on. -/
structure World (Owner : Type*) where
  /-- The owner. -/
  owner : Owner
  /-- User memory. -/
  user : UserMemory
  /-- Number of user copies made so far. -/
  copies : ℕ
  /-- Handler calls made so far, in order. -/
  calls : List (Invocation Owner)

/-- Error codes. -/
abbrev enotty : ℤ := 25
abbrev efault : ℤ := 14

/-- `Error::is_error`. -/
def isError (e : Error) : Bool := decide (e.code<0)

/-- Outcome of each user copy: the bytes moved before it faults, if it does. -/
abbrev Faults := ℕ → Option ℕ

/-- `kpp::copy_from_user`; after a fault the destination is zero behind the
bytes moved. -/
def copyFromUser (faults : Faults) {size : ℕ} (addr : ℕ) (w : World Owner) :
    Error×Bytes size×World Owner :=
  match faults w.copies with
  | none => (⟨0⟩,fun i => w.user (addr+i),{w with copies := w.copies+1})
  | some moved =>
    (⟨-efault⟩,fun i => if i< moved then w.user (addr+i) else 0,{w with copies := w.copies+1})

/-- The first bytes of an object written to user memory. -/
def store (addr moved : ℕ) {size : ℕ} (data : Bytes size) (user : UserMemory) : UserMemory :=
  fun a =>
    if h : addr≤a ∧ a<addr+moved ∧ a-addr< size then data ⟨a-addr,h.2.2⟩ else user a

/-- `kpp::copy_to_user`. -/
def copyToUser (faults : Faults) {size : ℕ} (addr : ℕ) (data : Bytes size) (w : World Owner) :
    Error×World Owner :=
  match faults w.copies with
  | none => (⟨0⟩,{w with user := store addr size data w.user,copies := w.copies+1})
  | some moved => (⟨-efault⟩,{w with user := store addr moved data w.user,copies := w.copies+1})

/-- `owner->handle_ioctl(file, Command{}, data)`. -/
def World.call (c : IoctlCommand Owner) (data : Bytes c.size) (w : World Owner) :
    ℤ×Bytes c.size×World Owner :=
  let done := c.handleIoctl data w.owner w.user
  (done.1,done.2.1,⟨done.2.2.1,done.2.2.2,w.copies,w.calls++[⟨c,data⟩]⟩)

/-- The variables that all steps of `handle` share. -/
structure Progress (Owner : Type*) where
  /-- `ret`. -/
  ret : ℤ
  /-- `handled`. -/
  handled : Bool
  /-- Owner, user memory and what happened so far. -/
  world : World Owner

/-- `process_command` from the call of the handler on. -/
def finishCommand (faults : Faults) (arg : ℕ) (c : IoctlCommand Owner) (data : Bytes c.size)
    (w : World Owner) : Progress Owner :=
  let (ret,data,w) := w.call c data
  if c.direction=.read ∨ c.direction=.readWrite then
    if ret=0 then
      let (error,w) := copyToUser faults arg data w
      if isError error=true then ⟨-efault,true,w⟩ else ⟨ret,true,w⟩
    else ⟨ret,true,w⟩
  else ⟨ret,true,w⟩

/-- `process_command`. -/
def processCommand (faults : Faults) (cmd : BitVec 32) (arg : ℕ) (p : Progress Owner)
    (c : IoctlCommand Owner) : Progress Owner :=
  if p.handled=true ∨ cmd≠c.cmd then p
  else if c.direction=.write ∨ c.direction=.readWrite then
    let (error,data,w) := copyFromUser faults arg p.world
    if isError error=true then ⟨-efault,true,w⟩ else finishCommand faults arg c data w
  else finishCommand faults arg c c.initial p.world

/-- `IoctlHandler::handle`. -/
def handle (faults : Faults) (commands : List (IoctlCommand Owner)) (cmd : BitVec 32) (arg : ℕ)
    (w : World Owner) : ℤ×World Owner :=
  let p := commands.foldl (processCommand faults cmd arg) ⟨-enotty,false,w⟩
  (p.ret,p.world)

/-- Reference: the data for the handler of a command, or none after a fault.
Only commands that copy in look at user memory. -/
def argument (faults : Faults) (arg : ℕ) (c : IoctlCommand Owner) (w : World Owner) :
    Option (Bytes c.size)×World Owner :=
  if c.direction.copiesIn=true then
    (if faults w.copies=none then some (fun i => w.user (arg+i)) else none,
      {w with copies := w.copies+1})
  else (some c.initial,w)

/-- Reference: the answer of one command, from one call of its handler. -/
def answer (faults : Faults) (arg : ℕ) (c : IoctlCommand Owner) (w : World Owner) :
    ℤ×World Owner :=
  match argument faults arg c w with
  | (none,w) => (-efault,w)
  | (some data,w) =>
    let (ret,out,w) := w.call c data
    if c.direction.copiesOut=true ∧ ret=0 then
      match faults w.copies with
      | none => (ret,{w with user := store arg c.size out w.user,copies := w.copies+1})
      | some moved => (-efault,{w with user := store arg moved out w.user,copies := w.copies+1})
    else (ret,w)

/-- Reference dispatcher: the first command with the number answers. -/
def dispatch (faults : Faults) (commands : List (IoctlCommand Owner)) (cmd : BitVec 32) (arg : ℕ)
    (w : World Owner) : ℤ×World Owner :=
  match commands.find? (fun c => c.cmd==cmd) with
  | none => (-enotty,w)
  | some c => answer faults arg c w

/-- Results of the copies that are errors and that are none. -/
@[simp] theorem isError_efault : isError ⟨-efault⟩=true := by decide
@[simp] theorem isError_zero : isError ⟨0⟩=false := by decide

/-- The directions that copy in. -/
theorem copiesIn_iff (d : IoctlDirection) : d.copiesIn=true ↔ d=.write ∨ d=.readWrite := by
  cases d <;> simp [IoctlDirection.copiesIn]

/-- The directions that copy out. -/
theorem copiesOut_iff (d : IoctlDirection) : d.copiesOut=true ↔ d=.read ∨ d=.readWrite := by
  cases d <;> simp [IoctlDirection.copiesOut]

/-- Looking for the argument calls no handler. -/
theorem argument_calls (faults : Faults) (arg : ℕ) (c : IoctlCommand Owner) (w : World Owner) :
    (argument faults arg c w).2.calls=w.calls := by
  unfold argument
  split <;> rfl

/-- The reference calls the handler of its command once, on the argument, and
not at all without one. -/
theorem answer_calls (faults : Faults) (arg : ℕ) (c : IoctlCommand Owner) (w : World Owner) :
    (answer faults arg c w).2.calls=
      w.calls++(argument faults arg c w).1.toList.map (fun data => ⟨c,data⟩) := by
  have hsame := argument_calls faults arg c w
  unfold answer
  cases ha : argument faults arg c w with
  | mk found w' =>
    rw [ha] at hsame
    cases found with
    | none => exact hsame.trans (List.append_nil _).symm
    | some data =>
      have hcall : (w'.call c data).2.2.calls=w.calls++[⟨c,data⟩] := by
        rw [←hsame]
        rfl
      dsimp only
      split
      · split <;> exact hcall
      · exact hcall

/-- From the handler on a command does what the reference does with its data. -/
theorem finishCommand_eq (faults : Faults) (arg : ℕ) (c : IoctlCommand Owner)
    {data : Bytes c.size} {w w' : World Owner} (h : argument faults arg c w=(some data,w')) :
    finishCommand faults arg c data w'=
      ⟨(answer faults arg c w).1,true,(answer faults arg c w).2⟩ := by
  unfold finishCommand answer
  rw [h]
  dsimp only
  by_cases hout : c.direction=.read ∨ c.direction=.readWrite
  · have hcopies := (copiesOut_iff c.direction).mpr hout
    by_cases hret : (w'.call c data).1=0
    · simp only [if_pos hout,hcopies,hret,and_self,if_true,copyToUser]
      cases faults (w'.call c data).2.2.copies with
      | none => simp
      | some moved => simp
    · simp only [if_pos hout,hret,and_false,if_false]
  · have hcopies : c.direction.copiesOut=false :=
      Bool.eq_false_iff.mpr fun he => hout ((copiesOut_iff _).mp he)
    simp only [if_neg hout,hcopies,Bool.false_eq_true,false_and,if_false]

/-- The command that is to handle the ioctl gives the reference's answer. -/
theorem processCommand_answer (faults : Faults) (arg : ℕ) (c : IoctlCommand Owner)
    {p : Progress Owner} (hp : p.handled=false) :
    processCommand faults c.cmd arg p c=
      ⟨(answer faults arg c p.world).1,true,(answer faults arg c p.world).2⟩ := by
  unfold processCommand
  rw [if_neg (by simp [hp])]
  by_cases hin : c.direction=.write ∨ c.direction=.readWrite
  · have hcopies := (copiesIn_iff c.direction).mpr hin
    rw [if_pos hin]
    cases hf : faults p.world.copies with
    | none =>
      have harg : argument faults arg c p.world=
          ((some fun i => p.world.user (arg+i) : Option (Bytes c.size)),
            ({p.world with copies := p.world.copies+1} : World Owner)) := by
        simp [argument,hcopies,hf]
      simp only [copyFromUser,hf,isError_zero,Bool.false_eq_true,if_false]
      exact finishCommand_eq faults arg c harg
    | some moved =>
      have harg : argument faults arg c p.world=
          (none,({p.world with copies := p.world.copies+1} : World Owner)) := by
        simp [argument,hcopies,hf]
      simp only [copyFromUser,hf,isError_efault,if_true,answer,harg]
  · have hcopies : ¬c.direction.copiesIn=true := fun he => hin ((copiesIn_iff _).mp he)
    have harg : argument faults arg c p.world=(some c.initial,p.world) := by
      simp [argument,hcopies]
    rw [if_neg hin]
    exact finishCommand_eq faults arg c harg

/-- Once the ioctl is handled the other commands do nothing. -/
theorem foldl_handled (faults : Faults) (cmd : BitVec 32) (arg : ℕ)
    (commands : List (IoctlCommand Owner)) {p : Progress Owner} (hp : p.handled=true) :
    commands.foldl (processCommand faults cmd arg) p=p := by
  induction commands with
  | nil => rfl
  | cons c commands ih =>
    have hstep : processCommand faults cmd arg p c=p := by
      unfold processCommand
      rw [if_pos (Or.inl hp)]
    rw [List.foldl_cons,hstep,ih]

/-- For every list of commands, `handle` is the reference dispatcher. -/
theorem handle_eq_dispatch (faults : Faults) (commands : List (IoctlCommand Owner))
    (cmd : BitVec 32) (arg : ℕ) (w : World Owner) :
    handle faults commands cmd arg w=dispatch faults commands cmd arg w := by
  unfold handle dispatch
  induction commands with
  | nil => rfl
  | cons c commands ih =>
    by_cases hc : c.cmd=cmd
    · subst hc
      have hfirst : (c::commands).find? (fun d => d.cmd==c.cmd)=some c :=
        List.find?_cons_of_pos BEq.rfl
      rw [List.foldl_cons,processCommand_answer faults arg c rfl,foldl_handled _ _ _ _ rfl,hfirst]
    · have hother : (c::commands).find? (fun d => d.cmd==cmd)=
          commands.find? (fun d => d.cmd==cmd) := List.find?_cons_of_neg (by simpa using hc)
      have hstep : processCommand faults cmd arg ⟨-enotty,false,w⟩ c=⟨-enotty,false,w⟩ := by
        unfold processCommand
        rw [if_pos (Or.inr (Ne.symm hc))]
      rw [List.foldl_cons,hstep,hother]
      exact ih

end Kpp.IoctlDispatch
