import JavaTypes.Rendering
import JavaTypes.Ty.Hierarchy

/-!
What the members of one class or applied type share: its id, its variables, and the variables its
own text defines, which member texts therefore write bare.
-/
namespace JavaTypes

structure Scope where
  declaring : Declarer
  /-- The id of the declaring type. -/
  declaringKey : String
  /-- Variables defined by writing the declaring type, in ascending order. -/
  primed : List String
  /-- Whether a class on the way to the declaring type keeps it. A class keeps what is found
  through it; an applied type lasts only as long as the type it was reached from. -/
  anchored : Bool
  deriving Inhabited

namespace Scope

/-- The scope of a declaring type. A type that cannot be written has no members to show. -/
def of (u : Universe) (anchored : Bool) (d : Declarer) : Except ReflectionError Scope :=
  let (text, ctx) := d.toTy.render u {} true
  match text with
  | .ok _ =>
    .ok { declaring := d, declaringKey := d.toTy.key u, primed := ctx.definedIds, anchored }
  | .error e => .error e

def classId (s : Scope) : ClassId := s.declaring.classId

def classDecl (u : Universe) (s : Scope) : ClassDecl := u.decl s.classId

def typeVariables (u : Universe) (s : Scope) : List TyVar := s.declaring.typeVariables u

/-- The variables a member can mention: those of the declaring type, unless the member is static,
and then its own. -/
def effective (u : Universe) (s : Scope) (m : Modifiers) (own : List TyVar) : List TyVar :=
  (if m.isStatic then [] else s.typeVariables u) ++ own

def resolve (u : Universe) (vars : List TyVar) (t : DeclType) : Except ReflectionError Ty := do
  let t ← t.resolve u
  return t.resolveInScope u vars

/-- Runs a pass in which the variables of the declaring type are defined. -/
def write (s : Scope) (pass : Naming → Rendering String) : Except ReflectionError String :=
  ((RenderContext.primed s.primed).run pass).1

/-- The declaring type after the type that was asked for members is gone. -/
def keptDeclaring? (s : Scope) : Option Ty :=
  if s.anchored then some s.declaring.toTy else none

end Scope

end JavaTypes
