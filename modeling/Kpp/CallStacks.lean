import Mathlib.Data.Nat.Notation
import Mathlib.Tactic.Common

/-!
# Functions that call each other on a stack

A function is primitive, or its body is a list of calls that pass on the
function's own argument. A machine works through the body on top of its stack
and records the primitive calls. Functions whose bodies begin with a call of
such a function again never return.
-/

namespace Kpp.CallStacks

variable {Call Callee Arg : Type*}

/-- A program: the function that a call means, and the bodies of functions. -/
structure Code (Call Callee : Type*) where
  /-- Function of a call; there is none for an ill-formed one. -/
  target : Call → Option Callee
  /-- Body of a function; primitive functions have none. -/
  body : Callee → Option (List Call)

/-- A function in execution. -/
structure Frame (Call Arg : Type*) where
  /-- Calls still to be made. -/
  calls : List Call
  /-- The argument, which all of them pass on. -/
  arg : Arg

/-- A stack of functions, the running one first, and the primitive calls. -/
structure Machine (Call Callee Arg : Type*) where
  /-- Functions that have not returned. -/
  stack : List (Frame Call Arg)
  /-- Primitive calls made so far, oldest first. -/
  primitives : List (Callee×Arg)

/-- One step: return, call a primitive function or enter another one. -/
def step (code : Code Call Callee) (m : Machine Call Callee Arg) :
    Option (Machine Call Callee Arg) :=
  match m.stack with
  | [] => some m
  | ⟨[],_⟩::rest => some {m with stack := rest}
  | ⟨call::calls,arg⟩::rest =>
    (code.target call).map (fun callee =>
      match code.body callee with
      | none => ⟨⟨calls,arg⟩::rest,m.primitives++[(callee,arg)]⟩
      | some body => {m with stack := ⟨body,arg⟩::⟨calls,arg⟩::rest})

/-- That many steps. -/
def runFor (code : Code Call Callee) :
    ℕ → Machine Call Callee Arg → Option (Machine Call Callee Arg)
  | 0,m => some m
  | n+1,m => (step code m).bind (runFor code n)

/-- The machine at a call, with nothing to return to. -/
def enter (call : Call) (arg : Arg) : Machine Call Callee Arg := ⟨[⟨[call],arg⟩],[]⟩

/-- The next call is one of a function in the set. -/
def Calls (code : Code Call Callee) (S : Callee → Prop) (m : Machine Call Callee Arg) : Prop :=
  ∃ call calls arg rest callee,m.stack=⟨call::calls,arg⟩::rest ∧
    code.target call=some callee ∧ S callee

/-- The body of each function in the set begins with a call of one of them. -/
def SelfCalling (code : Code Call Callee) (S : Callee → Prop) : Prop :=
  ∀ callee,S callee → ∃ call calls next,code.body callee=some (call::calls) ∧
    code.target call=some next ∧ S next

variable {code : Code Call Callee} {S : Callee → Prop} {m : Machine Call Callee Arg}

/-- The next step enters such a function again, and calls nothing primitive. -/
theorem Calls.step (hm : Calls code S m) (hself : SelfCalling code S) :
    ∃ t,step code m=some t ∧ Calls code S t ∧ t.primitives=m.primitives := by
  obtain ⟨call,calls,arg,rest,callee,hstack,htarget,hcallee⟩ := hm
  obtain ⟨first,others,next,hbody,hnext,hS⟩ := hself callee hcallee
  refine ⟨⟨⟨first::others,arg⟩::⟨calls,arg⟩::rest,m.primitives⟩,?_,
    ⟨first,others,arg,_,next,rfl,hnext,hS⟩,rfl⟩
  simp only [CallStacks.step,hstack,htarget,hbody,Option.map_some]

/-- No number of steps returns from such a call or makes a primitive one. -/
theorem Calls.runFor (hm : Calls code S m) (hself : SelfCalling code S) (n : ℕ) :
    ∃ t,runFor code n m=some t ∧ t.stack≠[] ∧ t.primitives=m.primitives := by
  induction n generalizing m with
  | zero =>
    obtain ⟨call,calls,arg,rest,callee,hstack,_⟩ := hm
    exact ⟨m,rfl,by rw [hstack]; exact List.cons_ne_nil _ _,rfl⟩
  | succ n ih =>
    obtain ⟨u,hu,hcalls,hsame⟩ := hm.step hself
    obtain ⟨t,ht,hstack,hprimitives⟩ := ih hcalls
    refine ⟨t,?_,hstack,hprimitives.trans hsame⟩
    rw [CallStacks.runFor,hu]
    exact ht

end Kpp.CallStacks
