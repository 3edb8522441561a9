import JavaTypes.Error
import JavaTypes.Ty.Basic

/-!
Resolving declared types. Resolution fails at the first form that no type stands for; a bound that
is the root class says nothing and is dropped.
-/
namespace JavaTypes

/-- The bound every type has anyway. -/
def DeclType.isRoot : DeclType → Bool
  | .ofClass c => c = Universe.object
  | _ => false

mutual

/-- The type a declared type stands for. Arguments are resolved before surplus ones are dropped. -/
def DeclType.resolve (u : Universe) : DeclType → Except ReflectionError Ty
  | .ofClass c => .ok (.ofClass c)
  | .applied c args => do
    let args ← resolveAll u args
    return .apply u c args
  | .variable v => .ok (.variable (.free v))
  | .wildcard upper lower => do
    let upper ← resolveBounds u upper
    let lower ← resolveBounds u lower
    return .wildcard upper lower
  | .array element => do
    let element ← element.resolve u
    return .array element
  | .other shape => .error (.unsupported shape)

def resolveAll (u : Universe) : List DeclType → Except ReflectionError (List Ty)
  | [] => .ok []
  | t :: rest => do
    let t ← t.resolve u
    let rest ← resolveAll u rest
    return t :: rest

def resolveBounds (u : Universe) : List DeclType → Except ReflectionError (List Ty)
  | [] => .ok []
  | t :: rest =>
    if t.isRoot then resolveBounds u rest
    else do
      let t ← t.resolve u
      let rest ← resolveBounds u rest
      return t :: rest

end

namespace Universe

def resolveName (u : Universe) (name : String) : Except ReflectionError Ty :=
  match u.classId? name with
  | some c => .ok (.ofClass c)
  | none => .error (.notFound name)

/-- The declared bounds of a type variable, without the root class. -/
def varBounds (u : Universe) (v : VarRef) : Except ReflectionError (List Ty) :=
  match u.typeParam? v with
  | some p => resolveBounds u p.bounds
  | none => .ok []

def classSuperType (u : Universe) (c : ClassId) : Except ReflectionError (Option Ty) :=
  match (u.decl c).superClass with
  | some t => do
    let t ← t.resolve u
    return some t
  | none => .ok none

def classInterfaces (u : Universe) (c : ClassId) : Except ReflectionError (List Ty) :=
  resolveAll u (u.decl c).interfaces

end Universe

end JavaTypes
