import Mathlib.Data.List.Dedup
import Mathlib.Tactic.Common

/-!
# Names of functions in nested scopes

An unqualified name is looked up from the innermost scope outwards, and the
first scope that declares it hides all scopes around it. A call with an
argument adds the declarations of the namespaces that its type belongs to. It
is resolved if exactly one of the declarations accepts the argument.
-/

namespace Kpp.NameLookup

variable {Scope Name Decl Arg Target : Type*} (declared : Scope → Name → List Decl)

/-- Declarations of the innermost scope that has any. -/
def ordinary (name : Name) : List Scope → List Decl
  | [] => []
  | scope::outer =>
    match declared scope name with
    | [] => ordinary name outer
    | d::ds => d::ds

/-- Declarations found for a call, each once. -/
def candidates [DecidableEq Decl] (name : Name) (scopes associated : List Scope) : List Decl :=
  (ordinary declared name scopes++associated.flatMap (fun scope => declared scope name)).dedup

/-- The only declaration that accepts the argument, as the function it makes. -/
def overload (accepts : Decl → Arg → Option Target) (arg : Arg) (found : List Decl) :
    Option Target :=
  match found.filterMap (fun d => accepts d arg) with
  | [target] => some target
  | _ => none

variable {declared} {name : Name}

/-- A scope without declarations of the name is passed over. -/
theorem ordinary_skip {scope : Scope} (h : declared scope name=[]) (outer : List Scope) :
    ordinary declared name (scope::outer)=ordinary declared name outer := by
  simp only [ordinary,h]

/-- A scope that declares the name hides what is outside of it. -/
theorem ordinary_hides {scope : Scope} {d : Decl} {ds : List Decl} (h : declared scope name=d::ds)
    (outer : List Scope) : ordinary declared name (scope::outer)=d::ds := by
  simp only [ordinary,h]

/-- Behind scopes that do not declare it, a name means what the first scope
that declares it says. -/
theorem ordinary_first {inner : List Scope} {scope : Scope} {d : Decl} {ds : List Decl}
    (hinner : ∀ s∈inner,declared s name=[]) (h : declared scope name=d::ds) (outer : List Scope) :
    ordinary declared name (inner++scope::outer)=d::ds := by
  induction inner with
  | nil => exact ordinary_hides h outer
  | cons s inner ih =>
    rw [List.cons_append,ordinary_skip (hinner s List.mem_cons_self)]
    exact ih (fun other hother => hinner other (List.mem_cons_of_mem s hother))

/-- Namespaces without declarations of the name add nothing to a call. -/
theorem candidates_of_associated [DecidableEq Decl] {scopes associated : List Scope}
    (h : ∀ s∈associated,declared s name=[]) :
    candidates declared name scopes associated=(ordinary declared name scopes).dedup := by
  unfold candidates
  rw [List.flatMap_eq_nil_iff.mpr h,List.append_nil]

end Kpp.NameLookup
