import Kpp.NameLookup

/-!
# Resolution of calls with class scopes and templates

A name that ordinary lookup finds in a class is taken from there alone: the
namespaces of the arguments are not asked. Of the declarations found, those
that accept the arguments are viable. When they accept them equally well, a
plain function is preferred to instances of templates, and a call with two
equal candidates means none.
-/

namespace Kpp.CallResolution

open NameLookup

/-- The rules of one program. -/
structure Program (Scope Name Decl Arg Target : Type*) where
  /-- Declarations of a name in a scope. -/
  declared : Scope → Name → List Decl
  /-- The declaration is a member of a class. -/
  isMember : Decl → Bool
  /-- The declaration is a template. -/
  isTemplate : Decl → Bool
  /-- The function that a declaration is for the arguments. -/
  accepts : Decl → List Arg → Option Target

variable {Scope Name Decl Arg Target : Type*} [DecidableEq Decl]
  (program : Program Scope Name Decl Arg Target)

/-- Declarations that a call finds. -/
def found (name : Name) (scopes associated : List Scope) : List Decl :=
  if (ordinary program.declared name scopes).any program.isMember=true then
    (ordinary program.declared name scopes).dedup
  else candidates program.declared name scopes associated

/-- The function that a call means. -/
def resolve (name : Name) (scopes associated : List Scope) (args : List Arg) : Option Target :=
  let viable := (found program name scopes associated).filter
    (fun d => (program.accepts d args).isSome)
  let plain := viable.filter (fun d => !program.isTemplate d)
  match plain with
  | [] => overload program.accepts args viable
  | _ => overload program.accepts args plain

variable {program} {name : Name} {scopes associated : List Scope} {args : List Arg}

end Kpp.CallResolution
