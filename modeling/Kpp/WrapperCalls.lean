import Kpp.CallResolution

/-!
# Wrappers with the names of the kernel functions they call

Several functions of the library have the name of the kernel function that
they are to call, and call it without a qualifier. Whether the call means the
kernel's function depends on where the wrapper stands and on the types of the
arguments.
-/

namespace Kpp.WrapperCalls

open CallResolution NameLookup

/-- Namespaces. -/
inductive Namespace where
  | global
  | kpp
  | other (n : ℕ)
  deriving DecidableEq

/-- Types. A class belongs to its own namespace and to those of its bases and
template arguments. -/
inductive CType where
  | scalar (n : ℕ)
  | record (spaces : List Namespace) (n : ℕ)
  | const (type : CType)
  | pointer (type : CType)
  deriving DecidableEq

/-- Names of kernel functions, of which `kmalloc` is one in the kernels before it
became a macro; `plain` are those that nothing else is called. -/
inductive Name where
  | kmalloc
  | copyToUser
  | copyFromUser
  | scheduleWork
  | complete
  | completeAll
  | down
  | downInterruptible
  | downKillable
  | downTimeout
  | up
  | plain (n : ℕ)
  deriving DecidableEq

/-- Scopes around a call. -/
inductive Scope where
  | block
  | classBody
  | completion
  | semaphore
  | space (n : Namespace)
  deriving DecidableEq

/-- A kernel function, a function template of the library, a member function. -/
inductive Decl where
  | kernel (name : Name)
  | template (name : Name)
  | member (name : Name)
  deriving DecidableEq

/-- What the scopes declare. -/
def declared : Scope → Name → List Decl
  | .space .global,name => [.kernel name]
  | .space .kpp,.kmalloc => [.template .kmalloc]
  | .space .kpp,.copyToUser => [.template .copyToUser]
  | .space .kpp,.copyFromUser => [.template .copyFromUser]
  | .space .kpp,.scheduleWork => [.template .scheduleWork]
  | .completion,.complete => [.member .complete]
  | .completion,.completeAll => [.member .completeAll]
  | .semaphore,.down => [.member .down]
  | .semaphore,.downInterruptible => [.member .downInterruptible]
  | .semaphore,.downKillable => [.member .downKillable]
  | .semaphore,.downTimeout => [.member .downTimeout]
  | .semaphore,.up => [.member .up]
  | _,_ => []

/-- Namespaces that a type belongs to. -/
def associated : CType → List Namespace
  | .scalar _ => []
  | .record spaces _ => spaces
  | .const type => associated type
  | .pointer type => associated type

/-- The type is const. -/
def CType.isConst : CType → Bool
  | .const _ => true
  | _ => false

/-- The type without `const`. -/
def CType.unconst : CType → CType
  | .const type => type
  | type => type

/-- `const T`, which is `T` for types that are const. -/
def CType.addConst (type : CType) : CType := .const type.unconst

/-- `struct work_struct`. -/
def workStruct : CType := .record [.global] 0

/-- `struct completion`. -/
def completionStruct : CType := .record [.global] 1

/-- `struct semaphore`. -/
def semaphoreStruct : CType := .record [.global] 2

/-- Arguments that a kernel function takes. The copies take their destination
as `void*` and their source as `const void*`. -/
def kernelTakes : Name → List CType → Bool
  | .kmalloc,[.scalar _,.scalar _] => true
  | .copyToUser,[.pointer dest,.pointer _,.scalar _] => !dest.isConst
  | .copyFromUser,[.pointer dest,.pointer _,.scalar _] => !dest.isConst
  | .scheduleWork,[.pointer type] => type==workStruct
  | .complete,[.pointer type] => type==completionStruct
  | .completeAll,[.pointer type] => type==completionStruct
  | .down,[.pointer type] => type==semaphoreStruct
  | .downInterruptible,[.pointer type] => type==semaphoreStruct
  | .downKillable,[.pointer type] => type==semaphoreStruct
  | .downTimeout,[.pointer type,.scalar _] => type==semaphoreStruct
  | .up,[.pointer type] => type==semaphoreStruct
  | .plain _,_ => true
  | _,_ => false

/-- Arguments from which the parameter of a template is deduced; that of `kmalloc`
is in none of its arguments. -/
def templateTakes : Name → List CType → Bool
  | .copyToUser,[.pointer dest,.pointer source] => dest==source.unconst
  | .copyFromUser,[.pointer dest,.pointer source] => dest==source.unconst
  | .scheduleWork,[_] => true
  | _,_ => false

/-- Arguments that a member function takes. -/
def memberTakes : Name → List CType → Bool
  | .downTimeout,[.scalar _] => true
  | .downTimeout,_ => false
  | _,args => args.isEmpty

/-- The arguments a declaration takes. -/
def Decl.takes : Decl → List CType → Bool
  | .kernel name => kernelTakes name
  | .template name => templateTakes name
  | .member name => memberTakes name

/-- The rules for the library's headers; a function is known by its declaration. -/
def headers : Program Scope Name Decl CType Decl where
  declared := declared
  isMember d := match d with
    | .member _ => true
    | _ => false
  isTemplate d := match d with
    | .template _ => true
    | _ => false
  accepts d args := if d.takes args=true then some d else none

/-- An unqualified call. -/
structure CallExpr where
  /-- The name. -/
  name : Name
  /-- Scopes around the call, innermost first. -/
  scopes : List Scope
  /-- Types of the arguments. -/
  args : List CType

/-- The function that a call means, if it means one. -/
def CallExpr.target (call : CallExpr) : Option Decl :=
  resolve headers call.name call.scopes ((call.args.flatMap associated).map .space) call.args

/-- Scopes of namespace `kpp`. -/
def inKpp : List Scope := [.space .kpp,.space .global]

/-- The calls in wrappers that have the kernel function's name, and all calls
of functions that only the kernel declares. -/
inductive Wrapper where
  | kmalloc
  | copyToUser (type : CType)
  | copyFromUser (type : CType)
  | scheduleWork
  | complete
  | completeAll
  | down
  | downInterruptible
  | downKillable
  | downTimeout
  | up
  | plain (n : ℕ) (inner : List Scope) (args : List CType)

/-- `copy_to_user(to, from, sizeof(T))` and `copy_from_user(to, from, sizeof(T))`. -/
def copyCall (name : Name) (dest source : CType) : CallExpr :=
  ⟨name,.block::inKpp,[.pointer dest,.pointer source,.scalar 0]⟩

/-- A call on the structure that a member function wraps. -/
def memberCall (name : Name) (body : Scope) (type : CType) (more : List CType) : CallExpr :=
  ⟨name,.block::body::inKpp,.pointer type::more⟩

/-- The call in each wrapper; that of `kmalloc` is also in `make_unique` and
`make_shared`. -/
def Wrapper.call : Wrapper → CallExpr
  | .kmalloc => ⟨.kmalloc,.block::inKpp,[.scalar 0,.scalar 1]⟩
  | .copyToUser type => copyCall .copyToUser type type.addConst
  | .copyFromUser type => copyCall .copyFromUser type type.addConst
  | .scheduleWork => ⟨.scheduleWork,.block::inKpp,[.pointer workStruct]⟩
  | .complete => memberCall .complete .completion completionStruct []
  | .completeAll => memberCall .completeAll .completion completionStruct []
  | .down => memberCall .down .semaphore semaphoreStruct []
  | .downInterruptible => memberCall .downInterruptible .semaphore semaphoreStruct []
  | .downKillable => memberCall .downKillable .semaphore semaphoreStruct []
  | .downTimeout => memberCall .downTimeout .semaphore semaphoreStruct [.scalar 0]
  | .up => memberCall .up .semaphore semaphoreStruct []
  | .plain n inner args => ⟨.plain n,inner++inKpp,args⟩

variable {name : Name} {scopes spaces : List Scope} {args : List CType}

/-- Copies of a plain structure, of a const one, of a scalar, and of a class with
a base in the global namespace. -/
example : [CType.record [.global] 3,.const (.record [.global] 3),.scalar 1,
    .record [.other 0,.global] 4].map (fun type => (Wrapper.copyToUser type).call.target)=
    [some (.kernel .copyToUser),none,none,some (.kernel .copyToUser)] := by decide

end Kpp.WrapperCalls
