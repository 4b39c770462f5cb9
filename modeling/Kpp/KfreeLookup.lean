import Kpp.CallStacks
import Kpp.NameLookup

/-!
# Which kfree a call of kfree means

`kpp::kfree` is a template in namespace `kpp` that casts its pointer to
`const void*` and calls `kfree`. The template is declared before its own body
and hides the kernel's function there. Other modules take the template to
reach the allocator; here its calls are resolved by the rules of the language.
-/

namespace Kpp.KfreeLookup

open CallStacks NameLookup

/-- Namespaces. -/
inductive Namespace where
  | global
  | kpp
  | detail
  | other (n : ℕ)
  deriving DecidableEq

/-- Scopes of a lookup; blocks and the classes of the library declare no
function of the name in question. -/
inductive Scope where
  | block
  | classBody
  | space (n : Namespace)
  deriving DecidableEq

/-- The name that both the kernel and the library declare. -/
inductive Name where
  | kfree
  deriving DecidableEq

/-- `kfree` of the kernel, and the template of the library. -/
inductive Decl where
  | kernelKfree
  | kppKfree
  deriving DecidableEq

/-- Types. -/
inductive CType where
  | void
  | scalar (n : ℕ)
  | record (space : Namespace) (n : ℕ)
  | controlBlock
  | work (functor : CType)
  | const (type : CType)
  | pointer (type : CType)
  deriving DecidableEq

/-- What the scopes declare where the library's headers are read. -/
def declared : Scope → Name → List Decl
  | .space .global,.kfree => [.kernelKfree]
  | .space .kpp,.kfree => [.kppKfree]
  | _,_ => []

/-- Namespaces that a type belongs to, those of template arguments included. -/
def associated : CType → List Namespace
  | .void => []
  | .scalar _ => []
  | .record space _ => [space]
  | .controlBlock => [.detail]
  | .work functor => .kpp::associated functor
  | .const type => associated type
  | .pointer type => associated type

/-- The function called: the kernel's, or an instance of the template. -/
inductive Callee where
  | kernelKfree
  | kppKfree (type : CType)
  deriving DecidableEq

/-- Functions that accept one argument of the type: `void kfree(const void*)`
takes any pointer, and `void kfree(T*)` has `T` deduced. -/
def accepts : Decl → CType → Option Callee
  | .kernelKfree,.pointer _ => some .kernelKfree
  | .kppKfree,.pointer type => some (.kppKfree type)
  | _,_ => none

/-- A call of a function with one argument. -/
structure CallExpr where
  /-- The namespace before `::`, if the name is qualified. -/
  qualifier : Option Namespace
  /-- The name. -/
  name : Name
  /-- The scopes around the call, innermost first. -/
  scopes : List Scope
  /-- Type of the argument. -/
  arg : CType

/-- Declarations that a call finds. -/
def CallExpr.found (call : CallExpr) : List Decl :=
  match call.qualifier with
  | some space => declared (.space space) call.name
  | none => candidates declared call.name call.scopes ((associated call.arg).map .space)

/-- The function that a call means. -/
def CallExpr.target (call : CallExpr) : Option Callee := overload accepts call.arg call.found

/-- `kfree(static_cast<const void*>(ptr))` in the body of `kpp::kfree`. -/
def innerKfree : CallExpr :=
  ⟨none,.kfree,[.block,.space .kpp,.space .global],.pointer (.const .void)⟩

/-- Bodies of the functions; the allocator's own is not looked into. -/
def body : Callee → Option (List CallExpr)
  | .kernelKfree => none
  | .kppKfree _ => some [innerKfree]

/-- The calls of `kfree` in the library, on the pointer that each frees. -/
def code : Code CallExpr Callee := ⟨CallExpr.target,body⟩

/-- Where the library frees a pointer. -/
inductive Caller where
  | kfree (type : CType)
  | defaultDeleter (type : CType)
  | release
  | workCallback (functor : CType)

/-- The call of each: `kpp::kfree<T>(p)`, `kpp::kfree(ptr)` in
`DefaultDeleter`, `kfree(cb_)` in `SharedPtr` and `kpp::kfree(self)` in `Work`. -/
def Caller.call : Caller → CallExpr
  | .kfree type => ⟨some .kpp,.kfree,[],.pointer type⟩
  | .defaultDeleter type =>
    ⟨some .kpp,.kfree,[.block,.classBody,.space .kpp,.space .global],.pointer type⟩
  | .release =>
    ⟨none,.kfree,[.block,.classBody,.space .kpp,.space .global],.pointer .controlBlock⟩
  | .workCallback functor =>
    ⟨some .kpp,.kfree,[.block,.classBody,.space .kpp,.space .global],.pointer (.work functor)⟩

/-- The call returns and has passed the pointer to the kernel's `kfree` once. -/
def ReachesAllocator (caller : Caller) (p : ℕ) : Prop :=
  ∃ n t,runFor code n (enter caller.call p)=some t ∧ t.stack=[] ∧
    t.primitives=[(Callee.kernelKfree,p)]

/-- Instances of the template. -/
def IsTemplate (callee : Callee) : Prop := ∃ type,callee=.kppKfree type

/-- Inside the namespace, and with an argument of no other namespace that
declares the name, `kfree` means the template. -/
theorem target_kpp (inner : List Scope) {type : CType}
    (hinner : ∀ s∈inner,declared s .kfree=[])
    (harg : ∀ s∈(associated type).map Scope.space,declared s .kfree=[]) :
    CallExpr.target ⟨none,.kfree,inner++[.space .kpp,.space .global],.pointer type⟩=
      some (.kppKfree type) := by
  have hfound : ordinary declared .kfree (inner++[.space .kpp,.space .global])=[.kppKfree] :=
    ordinary_first hinner rfl _
  have hall : CallExpr.found ⟨none,.kfree,inner++[.space .kpp,.space .global],.pointer type⟩=
      [.kppKfree] := by
    unfold CallExpr.found
    exact (candidates_of_associated harg).trans (by rw [hfound]; rfl)
  unfold CallExpr.target
  rw [hall]
  rfl

/-- The template calls itself. -/
theorem innerKfree_target : innerKfree.target=some (.kppKfree (.const .void)) :=
  target_kpp [.block] (by decide) (by decide)

/-- Every caller calls the template. -/
theorem caller_target (caller : Caller) : ∃ type,caller.call.target=some (.kppKfree type) := by
  cases caller with
  | kfree type => exact ⟨type,rfl⟩
  | defaultDeleter type => exact ⟨type,rfl⟩
  | release => exact ⟨_,target_kpp [.block,.classBody] (by decide) (by decide)⟩
  | workCallback functor => exact ⟨.work functor,rfl⟩

/-- The body of the template begins with a call of the template. -/
theorem template_selfCalling : SelfCalling code IsTemplate := by
  rintro _ ⟨type,rfl⟩
  exact ⟨innerKfree,[],_,rfl,innerKfree_target,_,rfl⟩

/-- No number of steps ends a free or passes its pointer on. -/
theorem free_runs_on (caller : Caller) (p n : ℕ) :
    ∃ t,runFor code n (enter caller.call p)=some t ∧ t.stack≠[] ∧ t.primitives=[] := by
  obtain ⟨type,htarget⟩ := caller_target caller
  have hcalls : Calls code IsTemplate (enter caller.call p) :=
    ⟨caller.call,[],p,[],_,rfl,htarget,type,rfl⟩
  exact hcalls.runFor template_selfCalling n

/-- No free passes its pointer on and returns. -/
theorem not_reachesAllocator (caller : Caller) (p : ℕ) : ¬ReachesAllocator caller p := by
  rintro ⟨n,t,ht,hempty,_⟩
  obtain ⟨u,hu,hstack,_⟩ := free_runs_on caller p n
  obtain rfl := Option.some.inj (ht.symm.trans hu)
  exact hstack hempty

/-- Frees through the library. For every type and pointer the call of
`kpp::kfree`, and each call of it in the library, goes on forever and passes
nothing to the kernel's `kfree`. -/
theorem free_never_reaches_allocator (caller : Caller) (p : ℕ) :
    (∀ n,∃ t,runFor code n (enter caller.call p)=some t ∧ t.stack≠[] ∧ t.primitives=[]) ∧
      ¬ReachesAllocator caller p :=
  ⟨free_runs_on caller p,not_reachesAllocator caller p⟩

/-- A call of the kernel's function by its qualified name frees and returns. -/
example : (runFor code 2 (enter ⟨some .global,.kfree,[],.pointer (.const .void)⟩ 8)).map
    (fun t => (t.stack.length,t.primitives))=some (0,[(Callee.kernelKfree,8)]) := by decide

/-- Freeing an `int`: three steps later three calls of the template are open. -/
theorem kfree_int_calls_itself :
    (runFor code 3 (enter (Caller.kfree (.scalar 0)).call 8)).map (fun t => t.stack.length)=some 4 ∧
      innerKfree.target=some (.kppKfree (.const .void)) ∧
      ¬ReachesAllocator (.kfree (.scalar 0)) 8 :=
  ⟨by decide,innerKfree_target,not_reachesAllocator (.kfree (.scalar 0)) 8⟩

end Kpp.KfreeLookup
