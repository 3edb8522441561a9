import JavaTypes.Ty.Basic

/-!
Replacing type variables by the values bindings give them. A variable takes the value of the first
binding with its id, and that value is taken as it is, so all bindings act at once. Everything
that can hold variables is rebuilt; nothing else changes.
-/
namespace JavaTypes

/-- What substitution makes of a class without arguments. -/
inductive RawClasses where
  /-- A class stays what it is. -/
  | kept
  /-- A class with variables counts as applied to them and becomes applied where one of them has a
  binding. -/
  | filled
  deriving DecidableEq

/-- The value of the first binding for a variable, if it has one. -/
def valueFor? (u : Universe) (bindings : List TyVar) (v : VarRef) : Option Ty :=
  (bindings.find? fun b => b.key u == u.varKey v).bind TyVar.value?

def rebindFree (u : Universe) (bindings : List TyVar) (v : VarRef) : TyVar :=
  (TyVar.free v).bindTo u ((valueFor? u bindings v).getD (.variable (.free v)))

mutual

def Ty.subst (u : Universe) (raw : RawClasses) (bindings : List TyVar) : Ty → Ty
  | .ofClass c =>
    match raw with
    | .kept => .ofClass c
    | .filled =>
      let rebound := (u.classVariables c).map fun v => rebindFree u bindings v.ref
      if rebound.any TyVar.isBound then .applied c rebound else .ofClass c
  | .applied c vars => .applied c (rebindAll u raw bindings vars)
  | .variable (.free v) => (valueFor? u bindings v).getD (.variable (.free v))
  | .variable (.bound v t) => (valueFor? u bindings v).getD (t.subst u raw bindings)
  | .wildcard upper lower =>
    .wildcard (substAll u raw bindings upper) (substAll u raw bindings lower)
  | .array element => .array (element.subst u raw bindings)

def substAll (u : Universe) (raw : RawClasses) (bindings : List TyVar) : List Ty → List Ty
  | [] => []
  | t :: rest => t.subst u raw bindings :: substAll u raw bindings rest

/-- Substitutes in the value of each variable, or for the variable itself where it is free, and
binds the variable to the result. -/
def rebindAll (u : Universe) (raw : RawClasses) (bindings : List TyVar) : List TyVar → List TyVar
  | [] => []
  | .free v :: rest => rebindFree u bindings v :: rebindAll u raw bindings rest
  | .bound v t :: rest =>
    (TyVar.free v).bindTo u (t.subst u raw bindings) :: rebindAll u raw bindings rest

end

namespace Ty

/-- Substitution that also applies generic classes written without arguments. Super types are
seen through it. -/
def substitute (u : Universe) (t : Ty) (bindings : List TyVar) : Ty := t.subst u .filled bindings

/-- Substitution of the variables in scope at a member into the type it declares. A class written
without arguments stays without them. -/
def resolveInScope (u : Universe) (t : Ty) (scope : List TyVar) : Ty := t.subst u .kept scope

end Ty

end JavaTypes
