import JavaTypes.Member.Listing
import JavaTypes.Ty.Attributes

/-!
Reflected elements, the common face of types and members, and selectors, which lead from one
element to another. A selector that makes no sense for an element leads nowhere.
-/
namespace JavaTypes

inductive Element where
  | type (t : Ty)
  | field (f : Field)
  | method (m : Method)
  | constructor (c : Constructor)
  | parameter (p : Parameter)

/-- A way from an element to another; numbers count from zero. -/
inductive Selector where
  | superType
  | interface (index : Nat)
  | typeVariable (index : Nat)
  | ownVariable (index : Nat)
  | value
  | elementType
  | upperBound (index : Nat)
  | lowerBound (index : Nat)
  | erasure
  | rawClass
  | declaredField (index : Nat)
  | publicField (index : Nat)
  | fieldNamed (name : String)
  | declaredConstructor (index : Nat)
  | publicConstructor (index : Nat)
  | declaredMethod (index : Nat)
  | publicMethod (index : Nat)
  /-- The first public method of a name. -/
  | methodNamed (name : String)
  | type
  | declaringType
  | returnType
  | parameter (index : Nat)
  | exception (index : Nat)

namespace Ty

def select (u : Universe) (skipBridges : Bool) (t : Ty) :
    Selector → Except ReflectionError (Option Element)
  | .superType => do return (← t.superType u).map .type
  | .interface i => do return (← t.interfaces u)[i]?.map .type
  | .typeVariable i => .ok ((t.typeVariables u)[i]?.map fun v => .type (.variable v))
  | .value => .ok ((t.asVariable?.bind TyVar.value?).map .type)
  | .elementType => .ok ((t.elementType? u).map .type)
  | .upperBound i => do return (← t.upperBounds u)[i]?.map .type
  | .lowerBound i => .ok (t.lowerBounds[i]?.map .type)
  | .erasure => do return (← t.erasure u).map fun c => .type (.ofClass c)
  | .rawClass =>
    match t with
    | .applied c _ => .ok (some (.type (.ofClass c)))
    | _ => .ok none
  | .declaredField i => do return (← t.declaredFields u)[i]?.map .field
  | .publicField i => do return (← t.publicFields u)[i]?.map .field
  | .fieldNamed name => do return (← t.publicField? u name).map .field
  | .declaredConstructor i => do return (← t.declaredConstructors u)[i]?.map .constructor
  | .publicConstructor i => do return (← t.publicConstructors u)[i]?.map .constructor
  | .declaredMethod i => do return (← t.declaredMethods u skipBridges)[i]?.map .method
  | .publicMethod i => do return (← t.publicMethods u skipBridges)[i]?.map .method
  | .methodNamed name => do
    let methods ← t.publicMethods u skipBridges
    return (methods.find? fun m => m.name == name).map .method
  | _ => .ok none

end Ty

def Field.select (f : Field) : Selector → Option Element
  | .type => some (.type f.type)
  | .declaringType => some (.type f.scope.declaring.toTy)
  | .typeVariable i => f.typeVariables[i]?.map fun v => .type (.variable v)
  | _ => none

def Executable.select (e : Executable) : Selector → Option Element
  | .parameter i => e.parameters[i]?.map .parameter
  | .exception i => e.exceptions[i]?.map .type
  | .declaringType => some (.type e.scope.declaring.toTy)
  | .typeVariable i => e.typeVariables[i]?.map fun v => .type (.variable v)
  | .ownVariable i => e.ownVariables[i]?.map fun v => .type (.variable v)
  | _ => none

def Method.select (m : Method) : Selector → Option Element
  | .returnType => some (.type m.returnType)
  | s => m.executable.select s

def Parameter.select (p : Parameter) : Selector → Option Element
  | .type => some (.type p.type)
  | _ => none

namespace Element

def select (u : Universe) (skipBridges : Bool) (e : Element) (s : Selector) :
    Except ReflectionError (Option Element) :=
  match e with
  | type t => t.select u skipBridges s
  | field f => .ok (f.select s)
  | method m => .ok (m.select s)
  | constructor c => .ok (c.executable.select s)
  | parameter p => .ok (p.select s)

def annotations (u : Universe) : Element → List Annotation
  | type t => t.annotations u
  | field f => f.decl.annotations
  | method m => m.executable.annotations
  | constructor c => c.executable.annotations
  | parameter p => p.annotations

/-- What members share with their declaring type. -/
def scope? : Element → Option Scope
  | field f => some f.scope
  | method m => some m.scope
  | constructor c => some c.executable.scope
  | _ => none

/-- Variables in scope: inherited ones first. -/
def typeVariables (u : Universe) : Element → List TyVar
  | type t => t.typeVariables u
  | field f => f.typeVariables
  | method m => m.executable.typeVariables
  | constructor c => c.executable.typeVariables
  | parameter _ => []

def ownVariables (u : Universe) : Element → List TyVar
  | type t => t.typeVariables u
  | field _ => []
  | method m => m.executable.ownVariables
  | constructor c => c.executable.ownVariables
  | parameter _ => []

end Element

structure Overview where
  superTypes : List String
  display : String
  /-- Written under the imports of the settings. -/
  imported : String
  interfaces : List String
  fields : List String
  constructors : List String
  methods : List String
  typeVariables : List String

/-- The display texts of the super type, its super type and so on; `limit` bounds their number. -/
def Ty.superTypeTexts (u : Universe) : Nat → Ty → Except ReflectionError (List String)
  | 0, _ => .ok []
  | limit + 1, t => do
    match ← t.superType u with
    | none => return []
    | some s =>
      let text ← s.display u
      let rest ← superTypeTexts u limit s
      return text :: rest

/-- The overview of a type, under some imports. The parts are made in the order they are listed, and
the first failure is the answer. -/
def Ty.overview (u : Universe) (skipBridges : Bool) (imports : Imports) (t : Ty) :
    Except ReflectionError Overview := do
  let superTypes ← t.superTypeTexts u (u.walkLimit t)
  let display ← t.display u
  let imported ← (t.render u (.importing imports) true).1
  let interfaces ← (← t.interfaces u).mapM (·.display u)
  let fields ← (← t.publicFields u).mapM (·.display u)
  let constructors ← (← t.publicConstructors u).mapM (·.display u)
  let methods ← (← t.publicMethods u skipBridges).mapM (·.display u)
  let typeVariables ← (t.typeVariables u).mapM fun v => Ty.display u (.variable v)
  return { superTypes, display, imported, interfaces, fields, constructors, methods,
           typeVariables }

end JavaTypes
