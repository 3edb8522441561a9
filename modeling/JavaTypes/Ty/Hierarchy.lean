import JavaTypes.Ty.Resolution
import JavaTypes.Ty.Substitution

/-!
Super types, bounds and erasure. An applied type sees the clauses of its class with its bindings
filled in; a bound variable is seen through its value; other types have no super types.
-/
namespace JavaTypes

def substituteEach (u : Universe) (types : List Ty) (bindings : List TyVar) : List Ty :=
  types.map fun t => t.substitute u bindings

/-- A class or applied type, which has clauses and members to show. -/
inductive Declarer where
  | ofClass (c : ClassId)
  | applied (c : ClassId) (bindings : List TyVar)
  deriving Inhabited

namespace Declarer

def classId : Declarer → ClassId
  | ofClass c => c
  | applied c _ => c

def toTy : Declarer → Ty
  | ofClass c => .ofClass c
  | applied c bindings => .applied c bindings

def typeVariables (u : Universe) (d : Declarer) : List TyVar := d.toTy.typeVariables u

def superType (u : Universe) : Declarer → Except ReflectionError (Option Ty)
  | ofClass c => u.classSuperType c
  | applied c bindings => do
    let s ← u.classSuperType c
    return s.map fun t => t.substitute u bindings

def interfaces (u : Universe) : Declarer → Except ReflectionError (List Ty)
  | ofClass c => u.classInterfaces c
  | applied c bindings => do
    let types ← u.classInterfaces c
    return substituteEach u types bindings

end Declarer

namespace Universe

/-- Two more than the forms in all super type clauses. -/
def clauseSize (u : Universe) : Nat :=
  u.classes.toList.foldl (fun n d => n + declSizes d.clauses) 2

/-- More steps than a walk from a type to super types takes, if it ends at all. Each class on the
way leads to the end or to one of its arguments, by way of its clauses, which mention other classes;
an argument is a part of the type. -/
def walkLimit (u : Universe) (t : Ty) : Nat := (t.size + 1) * Nat.pow u.clauseSize (u.size + 1)

end Universe

namespace Ty

def declarer? (t : Ty) : Option Declarer :=
  match t.structural with
  | .ofClass c => some (.ofClass c)
  | .applied c bindings => some (.applied c bindings)
  | _ => none

def superType (u : Universe) (t : Ty) : Except ReflectionError (Option Ty) :=
  match t.declarer? with
  | some d => d.superType u
  | none => .ok none

def interfaces (u : Universe) (t : Ty) : Except ReflectionError (List Ty) :=
  match t.declarer? with
  | some d => d.interfaces u
  | none => .ok []

def upperBounds (u : Universe) : Ty → Except ReflectionError (List Ty)
  | .variable v => u.varBounds v.ref
  | .wildcard upper _ => .ok upper
  | _ => .ok []

def lowerBounds : Ty → List Ty
  | .wildcard _ lower => lower
  | _ => []

/-- The class a type erases to, where `ofFree` answers for free variables. A variable stands for
its value and a wildcard for its first upper bound; an array has no class here. -/
def eraseWith (ofFree : VarRef → Except ReflectionError (Option ClassId)) :
    Ty → Except ReflectionError (Option ClassId)
  | .ofClass c => .ok (some c)
  | .applied c _ => .ok (some c)
  | .variable (.free v) => ofFree v
  | .variable (.bound _ t) => t.eraseWith ofFree
  | .wildcard (bound :: _) _ => bound.eraseWith ofFree
  | .wildcard [] _ => .ok (some Universe.object)
  | .array _ => .ok none

end Ty

/-- A free variable erases to its first bound. A chain of bounds meets each type parameter at most
once, so `limit` need not exceed their number. -/
def Universe.eraseVar (u : Universe) : Nat → VarRef → Except ReflectionError (Option ClassId)
  | 0, _ => .ok (some object)
  | limit + 1, v => do
    match ← u.varBounds v with
    | [] => return some object
    | bound :: _ => bound.eraseWith (u.eraseVar limit)

def Ty.erasure (u : Universe) (t : Ty) : Except ReflectionError (Option ClassId) :=
  t.eraseWith (u.eraseVar (u.paramCount + 1))

end JavaTypes
