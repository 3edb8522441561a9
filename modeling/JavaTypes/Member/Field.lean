import JavaTypes.Member.Scope

/-!
Fields as seen through their declaring type.
-/
namespace JavaTypes

structure Field where
  scope : Scope
  decl : FieldDecl
  type : Ty
  /-- Variables the type can mention. -/
  typeVariables : List TyVar
  deriving Inhabited

namespace Field

def ofDecl (u : Universe) (scope : Scope) (decl : FieldDecl) : Except ReflectionError Field := do
  let typeVariables := scope.effective u decl.modifiers []
  let type ← Scope.resolve u typeVariables decl.type
  return { scope, decl, type, typeVariables }

def name (f : Field) : String := f.decl.name

def modifiers (f : Field) : Modifiers := f.decl.modifiers

def isStatic (f : Field) : Bool := f.modifiers.isStatic

def key (f : Field) : String := f.scope.declaringKey ++ "|Field:" ++ f.name

def display (u : Universe) (f : Field) : Except ReflectionError String :=
  f.scope.write fun naming => do
    let type ← Rendering.type u naming true f.type
    return f.modifiers.lead ++ type ++ " " ++ f.name

def text (u : Universe) (f : Field) : String :=
  match f.display u with
  | .ok text => text
  | .error _ => f.key

/-- Static fields come first, then names decide. -/
def displayOrder (a b : Field) : Ordering :=
  (compare b.isStatic a.isStatic).then (compare a.name b.name)

end Field

end JavaTypes
