import JavaTypes.Annotation
import JavaTypes.DeclType
import JavaTypes.Modifiers
import JavaTypes.QualifiedName

/-!
Class declarations: names, kind and nesting of a class, its type parameters, its super type
clauses and its members, all in the order they were declared.
-/
namespace JavaTypes

/-- A type parameter. An empty list of bounds, or `Object` alone, means unbounded. -/
structure TypeParam where
  name : String
  bounds : List DeclType := []
  annotations : List Annotation := []
  deriving Inhabited

inductive ClassKind where
  | regular
  | interface
  | enumeration
  | annotationType
  | primitive
  | array
  deriving DecidableEq, Inhabited

inductive Nesting where
  | topLevel
  | member (enclosing : ClassId)
  | localClass (enclosing : ClassId)
  | anonymous (enclosing : ClassId)
  deriving DecidableEq, Inhabited

def Nesting.enclosing? : Nesting → Option ClassId
  | .topLevel => none
  | .member c => some c
  | .localClass c => some c
  | .anonymous c => some c

structure FieldDecl where
  name : String
  modifiers : Modifiers
  type : DeclType
  annotations : List Annotation := []
  deriving Inhabited

structure ParamDecl where
  name : String
  type : DeclType
  annotations : List Annotation := []
  deriving Inhabited

structure ExecutableDecl where
  modifiers : Modifiers
  typeParams : List TypeParam := []
  params : List ParamDecl := []
  exceptions : List DeclType := []
  annotations : List Annotation := []
  deriving Inhabited

structure MethodDecl extends ExecutableDecl where
  name : String
  returnType : DeclType
  /-- Made by the compiler to connect an override with an erased signature. -/
  bridge : Bool := false
  deriving Inhabited

structure ClassDecl where
  binaryName : String
  /-- Absent for local and anonymous classes. -/
  canonicalName : Option String
  simpleName : String
  /-- Empty for the default package, primitives and arrays. -/
  package : String
  modifiers : Modifiers
  kind : ClassKind := .regular
  nesting : Nesting := .topLevel
  synthetic : Bool := false
  /-- The component class of an array class. -/
  component : Option ClassId := none
  typeParams : List TypeParam := []
  /-- Absent for the root class, interfaces and primitives. -/
  superClass : Option DeclType := none
  interfaces : List DeclType := []
  fields : List FieldDecl := []
  constructors : List ExecutableDecl := []
  methods : List MethodDecl := []
  enumConstants : List String := []
  annotations : List Annotation := []

namespace ClassDecl

/-- A public top-level class without members; all its names follow from the binary name. -/
def named (binaryName : String) : ClassDecl where
  binaryName := binaryName
  canonicalName := some (QualifiedName.canonical binaryName)
  simpleName := QualifiedName.simple binaryName
  package := QualifiedName.package binaryName
  modifiers := Modifiers.Flag.isPublic.set

instance : Inhabited ClassDecl := ⟨named ""⟩

/-- Annotation types are interfaces too. -/
def isInterface (d : ClassDecl) : Bool := d.kind = .interface || d.kind = .annotationType

/-- The super type clauses: that of the super class, then those of the interfaces. -/
def clauses (d : ClassDecl) : List DeclType := d.superClass.toList ++ d.interfaces

/-- The type parameters of the class itself, of its methods and of its constructors. -/
def allTypeParams (d : ClassDecl) : List TypeParam :=
  d.typeParams ++ d.methods.flatMap (·.typeParams) ++ d.constructors.flatMap (·.typeParams)

def typeParamsOf (d : ClassDecl) : VarOwner → List TypeParam
  | .ofClass _ => d.typeParams
  | .method _ i => (d.methods[i]?.map (·.typeParams)).getD []
  | .constructor _ i => (d.constructors[i]?.map (·.typeParams)).getD []

end ClassDecl

end JavaTypes
