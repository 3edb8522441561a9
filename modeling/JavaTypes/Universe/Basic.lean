import JavaTypes.BaseType

/-!
A universe of classes: declarations numbered in the order they were made, a table that finds them
by binary name, and a table that finds the array class over a component.
-/
namespace JavaTypes

/-- Classes with their name and array tables. In both tables the newest entry comes first and is
the one that is found. -/
structure Universe where
  classes : Array ClassDecl
  names : List (String × ClassId)
  arrays : List (ClassId × ClassId)
  deriving Inhabited

namespace Universe

def object : ClassId := ⟨0⟩

def objectName : String := "java.lang.Object"

def empty : Universe := ⟨#[], [], []⟩

def size (u : Universe) : Nat := u.classes.size

def decl (u : Universe) (c : ClassId) : ClassDecl := u.classes.getD c.index default

def classId? (u : Universe) (name : String) : Option ClassId := u.names.lookup name

def ids (u : Universe) : List ClassId := (List.range u.size).map ClassId.mk

/-- Adds a class under the next id and lets its name refer to it. -/
def insert (u : Universe) (d : ClassDecl) : ClassId × Universe :=
  let c : ClassId := ⟨u.size⟩
  (c, { u with classes := u.classes.push d, names := (d.binaryName, c) :: u.names })

def setDecl (u : Universe) (c : ClassId) (d : ClassDecl) : Universe :=
  { u with classes := u.classes.setIfInBounds c.index d }

/-- The class of a base type, as a universe first declares it. -/
def baseDecl (base : BaseType) : ClassDecl :=
  { ClassDecl.named base.keyword with
    kind := .primitive
    modifiers := .ofFlags [.isPublic, .isAbstract, .isFinal] }

def initial : Universe :=
  BaseType.all.foldl (fun u base => (u.insert (baseDecl base)).2)
    (empty.insert (ClassDecl.named objectName)).2

/-- The class of a binary name. A name not known yet gets a new top-level class below the root
class, without members. -/
def declare (u : Universe) (name : String) : ClassId × Universe :=
  match u.classId? name with
  | some c => (c, u)
  | none => u.insert { ClassDecl.named name with superClass := some (.ofClass object) }

def primitive? (u : Universe) (keyword : String) : Option ClassId :=
  (BaseType.ofKeyword? keyword).bind fun base => u.classId? base.keyword

/-- The interfaces arrays implement, as far as the universe knows them. -/
def arrayInterfaces (u : Universe) : List DeclType :=
  (["java.lang.Cloneable", "java.io.Serializable"].filterMap u.classId?).map .ofClass

def arrayDecl (u : Universe) (component : ClassId) : ClassDecl :=
  let d := u.decl component
  { binaryName := d.arrayName
    canonicalName := d.canonicalName.map (· ++ "[]")
    simpleName := d.simpleName ++ "[]"
    package := ""
    modifiers := d.modifiers.access ||| .ofFlags [.isAbstract, .isFinal]
    kind := .array
    component := some component
    superClass := some (.ofClass object)
    interfaces := u.arrayInterfaces }

/-- The array class over a component; it is made when first asked for. -/
def arrayOf (u : Universe) (component : ClassId) : ClassId × Universe :=
  match u.arrays.lookup component with
  | some a => (a, u)
  | none =>
    let (a, v) := u.insert (u.arrayDecl component)
    (a, { v with arrays := (component, a) :: v.arrays })

def typeParams (u : Universe) (owner : VarOwner) : List TypeParam :=
  (u.decl owner.classId).typeParamsOf owner

def typeParam? (u : Universe) (v : VarRef) : Option TypeParam := (u.typeParams v.owner)[v.index]?

end Universe

end JavaTypes
