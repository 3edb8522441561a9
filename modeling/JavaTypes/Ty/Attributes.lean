import JavaTypes.Ty.Basic

/-!
Names, flags and annotations of types. They come from the declaration of the class behind a type;
a question that makes no sense for a type has an empty answer.
-/
namespace JavaTypes.Ty

def classDecl? (u : Universe) (t : Ty) : Option ClassDecl := t.rawClass?.map u.decl

def binaryName (u : Universe) (t : Ty) : String :=
  ((t.classDecl? u).map (·.binaryName)).getD ""

/-- Names of arrays are those of their elements with brackets. -/
def canonicalName? (u : Universe) : Ty → Option String
  | .ofClass c => (u.decl c).canonicalName
  | .applied c _ => (u.decl c).canonicalName
  | .variable (.free _) => none
  | .variable (.bound _ t) => t.canonicalName? u
  | .wildcard _ _ => none
  | .array element => (element.canonicalName? u).map (· ++ "[]")

def simpleName (u : Universe) : Ty → String
  | .ofClass c => (u.decl c).simpleName
  | .applied c _ => (u.decl c).simpleName
  | .variable (.free _) => ""
  | .variable (.bound _ t) => t.simpleName u
  | .wildcard _ _ => ""
  | .array element => element.simpleName u ++ "[]"

def packageName (u : Universe) (t : Ty) : String := ((t.classDecl? u).map (·.package)).getD ""

def modifiers (u : Universe) (t : Ty) : Modifiers :=
  ((t.classDecl? u).map (·.modifiers)).getD .empty

def hasClass (u : Universe) (p : ClassDecl → Bool) (t : Ty) : Bool := (t.classDecl? u).any p

def isPrimitive (u : Universe) (t : Ty) : Bool := t.hasClass u fun d => d.kind = .primitive

/-- Array classes and arrays of generic elements. -/
def isArray (u : Universe) (t : Ty) : Bool :=
  match t.structural with
  | .array _ => true
  | _ => t.hasClass u fun d => d.kind = .array

def elementType? (u : Universe) (t : Ty) : Option Ty :=
  match t.structural with
  | .array element => some element
  | _ => ((t.classDecl? u).bind (·.component)).map .ofClass

def isEnum (u : Universe) (t : Ty) : Bool := t.hasClass u fun d => d.kind = .enumeration

def enumValues (u : Universe) (t : Ty) : List String :=
  ((t.classDecl? u).map (·.enumConstants)).getD []

def isInterface (u : Universe) (t : Ty) : Bool := t.hasClass u (·.isInterface)

def isAnnotationType (u : Universe) (t : Ty) : Bool :=
  t.hasClass u fun d => d.kind = .annotationType

def isAnonymous (u : Universe) (t : Ty) : Bool :=
  t.hasClass u fun d => match d.nesting with
    | .anonymous _ => true
    | _ => false

def isMember (u : Universe) (t : Ty) : Bool :=
  t.hasClass u fun d => match d.nesting with
    | .member _ => true
    | _ => false

def isLocal (u : Universe) (t : Ty) : Bool :=
  t.hasClass u fun d => match d.nesting with
    | .localClass _ => true
    | _ => false

def isSynthetic (u : Universe) (t : Ty) : Bool := t.hasClass u (·.synthetic)

def isVariable (t : Ty) : Bool := t.kind = .variable

def isWildcard (t : Ty) : Bool := t.kind = .wildcard

def asVariable? : Ty → Option TyVar
  | .variable v => some v
  | _ => none

/-- Annotations of the class or the type parameter a type is written with. A bound variable keeps
the annotations of its own declaration. -/
def annotations (u : Universe) : Ty → List Annotation
  | .ofClass c => (u.decl c).annotations
  | .applied c _ => (u.decl c).annotations
  | .variable v => ((u.typeParam? v.ref).map (·.annotations)).getD []
  | _ => []

/-- Types are the same if their ids agree. -/
def same (u : Universe) (a b : Ty) : Bool := a.key u == b.key u

end JavaTypes.Ty
