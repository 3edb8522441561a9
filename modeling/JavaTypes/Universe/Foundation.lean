import JavaTypes.Universe.Edit

/-!
The foundation universe: the members of the root class, boxed numbers, the exceptions of the root
class, and the collection interfaces that generic code mentions all the time.
-/
namespace JavaTypes

namespace Foundation

open Modifiers (Flag)

def type (u : Universe) (name : String) : DeclType :=
  match u.classId? name with
  | some c => .ofClass c
  | none => .other name

def generic (u : Universe) (name : String) (args : List DeclType) : DeclType :=
  match u.classId? name with
  | some c => .applied c args
  | none => .other name

def typeVar (c : ClassId) (index : Nat) : DeclType := .variable ⟨.ofClass c, index⟩

/-- Parameters are named by their position. -/
def params (types : List DeclType) : List ParamDecl :=
  types.mapIdx fun i t => { name := "arg" ++ toString i, type := t }

/-- A method; without a return type it returns nothing. -/
def method (name : String) (flags : List Flag) (returns : Option DeclType)
    (paramTypes : List DeclType) (exceptions : List DeclType) : ClassEdit :=
  .method name (.ofFlags flags) <|
    returns.toList.map .returns ++
    (params paramTypes).map (fun p => .executable (.param p)) ++
    exceptions.map (fun t => .executable (.throws t))

def plain (name : String) (returns : DeclType) (paramTypes : List DeclType) : ClassEdit :=
  method name [.isPublic] (some returns) paramTypes []

def required (name : String) (returns : DeclType) (paramTypes : List DeclType) : ClassEdit :=
  method name [.isPublic, .isAbstract] (some returns) paramTypes []

def fixed (name : String) (returns : DeclType) (paramTypes : List DeclType) : ClassEdit :=
  method name [.isPublic, .isFinal] (some returns) paramTypes []

def shared (name : String) (returns : DeclType) (paramTypes : List DeclType) : ClassEdit :=
  method name [.isPublic, .isStatic] (some returns) paramTypes []

def constructor (flag : Flag) (paramTypes : List DeclType) : ClassEdit :=
  .constructor flag.set ((params paramTypes).map .param)

def constant (name : String) (t : DeclType) : ClassEdit :=
  .field { name, modifiers := .ofFlags [.isPublic, .isStatic, .isFinal], type := t }

def flags (list : List Flag) : ClassEdit := .modifiers (.ofFlags list)

/-- The edits of a class, given the universe it is defined in and its id. -/
abbrev Definition := Universe → ClassId → List ClassEdit

def objectClass : Definition := fun u _ =>
  let interrupted := type u "java.lang.InterruptedException"
  [constructor .isPublic [],
    plain "equals" (type u "boolean") [type u Universe.objectName],
    method "getClass" [.isPublic, .isFinal, .isNative]
      (some (generic u "java.lang.Class" [.wildcard [] []])) [] [],
    method "hashCode" [.isPublic, .isNative] (some (type u "int")) [] [],
    method "notify" [.isPublic, .isFinal, .isNative] none [] [],
    method "notifyAll" [.isPublic, .isFinal, .isNative] none [] [],
    plain "toString" (type u "java.lang.String") [],
    method "wait" [.isPublic, .isFinal] none [] [interrupted],
    method "wait" [.isPublic, .isFinal, .isNative] none [type u "long"] [interrupted],
    method "wait" [.isPublic, .isFinal] none [type u "long", type u "int"] [interrupted],
    method "clone" [.isProtected, .isNative] (some (type u Universe.objectName)) []
      [type u "java.lang.CloneNotSupportedException"],
    method "finalize" [.isProtected] none [] [type u "java.lang.Throwable"]]

def markerInterface : Definition := fun _ _ => [.kind .interface]

def comparable : Definition := fun u c =>
  [.kind .interface, .typeParam "T" [], required "compareTo" (type u "int") [typeVar c 0]]

def stringClass : Definition := fun u c =>
  let string : DeclType := .ofClass c
  let int := type u "int"
  let boolean := type u "boolean"
  let object := type u Universe.objectName
  [flags [.isPublic, .isFinal],
    .interface (type u "java.io.Serializable"),
    .interface (generic u "java.lang.Comparable" [string]),
    constructor .isPublic [],
    constructor .isPublic [string],
    plain "length" int [],
    plain "isEmpty" boolean [],
    plain "compareTo" int [string],
    plain "equals" boolean [object],
    plain "hashCode" int [],
    plain "toString" string [],
    shared "valueOf" string [object]]

def classClass : Definition := fun u _ =>
  let string := type u "java.lang.String"
  [flags [.isPublic, .isFinal], .typeParam "T" [],
    plain "getName" string [], plain "getSimpleName" string []]

def number : Definition := fun u _ =>
  [flags [.isPublic, .isAbstract],
    .interface (type u "java.io.Serializable"),
    constructor .isPublic [],
    required "intValue" (type u "int") [],
    required "longValue" (type u "long") [],
    required "doubleValue" (type u "double") []]

def boxed (keyword : String) : Definition := fun u c =>
  let this : DeclType := .ofClass c
  let value := type u keyword
  [flags [.isPublic, .isFinal],
    .superclass (type u "java.lang.Number"),
    .interface (generic u "java.lang.Comparable" [this]),
    constant "MAX_VALUE" value,
    constant "MIN_VALUE" value,
    constructor .isPublic [value],
    plain "compareTo" (type u "int") [this],
    shared "valueOf" this [value],
    plain "intValue" (type u "int") [],
    plain "longValue" (type u "long") [],
    plain "doubleValue" (type u "double") [],
    plain "toString" (type u "java.lang.String") []]

def booleanClass : Definition := fun u c =>
  let this : DeclType := .ofClass c
  [flags [.isPublic, .isFinal],
    .interface (type u "java.io.Serializable"),
    .interface (generic u "java.lang.Comparable" [this]),
    constant "TRUE" this,
    constant "FALSE" this,
    plain "booleanValue" (type u "boolean") []]

def throwable : Definition := fun u _ =>
  let string := type u "java.lang.String"
  [.interface (type u "java.io.Serializable"),
    constructor .isPublic [],
    constructor .isPublic [string],
    plain "getMessage" string []]

def exceptionBelow (parent : String) : Definition := fun u _ =>
  [.superclass (type u parent),
    constructor .isPublic [],
    constructor .isPublic [type u "java.lang.String"]]

def enumeration : Definition := fun u c =>
  let element := typeVar c 0
  let int := type u "int"
  [flags [.isPublic, .isAbstract],
    .typeParam "E" [.applied c [element]],
    .interface (generic u "java.lang.Comparable" [element]),
    .interface (type u "java.io.Serializable"),
    constructor .isProtected [type u "java.lang.String", int],
    fixed "name" (type u "java.lang.String") [],
    fixed "ordinal" int [],
    fixed "compareTo" int [element]]

def iterator : Definition := fun u c =>
  [.kind .interface, .typeParam "E" [],
    required "hasNext" (type u "boolean") [],
    required "next" (typeVar c 0) []]

def iterable : Definition := fun u c =>
  [.kind .interface, .typeParam "T" [],
    required "iterator" (generic u "java.util.Iterator" [typeVar c 0]) []]

def collectionMethods (u : Universe) (element : DeclType) : List ClassEdit :=
  let boolean := type u "boolean"
  [required "size" (type u "int") [],
    required "isEmpty" boolean [],
    required "contains" boolean [type u Universe.objectName],
    required "add" boolean [element],
    required "iterator" (generic u "java.util.Iterator" [element]) []]

def collectionBelow (parent : String) : Definition := fun u c =>
  let element := typeVar c 0
  [.kind .interface, .typeParam "E" [], .interface (generic u parent [element])] ++
    collectionMethods u element

def list : Definition := fun u c =>
  let element := typeVar c 0
  let int := type u "int"
  collectionBelow "java.util.Collection" u c ++
    [required "get" element [int], required "set" element [int, element]]

def mapEntry : Definition := fun u c =>
  let value := typeVar c 1
  let nesting := match u.classId? "java.util.Map" with
    | some map => Nesting.member map
    | none => .topLevel
  [.kind .interface, .nesting nesting, flags [.isPublic, .isStatic],
    .typeParam "K" [], .typeParam "V" [],
    required "getKey" (typeVar c 0) [],
    required "getValue" value [],
    required "setValue" value [value]]

def map : Definition := fun u c =>
  let key := typeVar c 0
  let value := typeVar c 1
  [.kind .interface, .typeParam "K" [], .typeParam "V" [],
    required "size" (type u "int") [],
    required "get" value [type u Universe.objectName],
    required "put" value [key, value],
    required "keySet" (generic u "java.util.Set" [key]) [],
    required "entrySet"
      (generic u "java.util.Set" [generic u "java.util.Map$Entry" [key, value]]) []]

/-- Names that are declared before any class is defined, so that definitions may mention each
other in any order. -/
def declared : List String :=
  ["java.lang.String", "java.lang.Class", "java.lang.Comparable", "java.lang.Cloneable",
    "java.io.Serializable", "java.lang.Number", "java.lang.Throwable", "java.lang.Exception",
    "java.lang.InterruptedException", "java.lang.CloneNotSupportedException", "java.lang.Enum",
    "java.lang.Iterable", "java.util.Iterator", "java.util.Collection", "java.util.List",
    "java.util.Set", "java.util.Map", "java.util.Map$Entry"]

def definitions : List (String × Definition) :=
  [(Universe.objectName, objectClass),
    ("java.lang.Cloneable", markerInterface),
    ("java.io.Serializable", markerInterface),
    ("java.lang.Comparable", comparable),
    ("java.lang.String", stringClass),
    ("java.lang.Class", classClass),
    ("java.lang.Number", number),
    ("java.lang.Integer", boxed "int"),
    ("java.lang.Long", boxed "long"),
    ("java.lang.Short", boxed "short"),
    ("java.lang.Double", boxed "double"),
    ("java.lang.Boolean", booleanClass),
    ("java.lang.Throwable", throwable),
    ("java.lang.Exception", exceptionBelow "java.lang.Throwable"),
    ("java.lang.InterruptedException", exceptionBelow "java.lang.Exception"),
    ("java.lang.CloneNotSupportedException", exceptionBelow "java.lang.Exception"),
    ("java.lang.Enum", enumeration),
    ("java.util.Iterator", iterator),
    ("java.lang.Iterable", iterable),
    ("java.util.Collection", collectionBelow "java.lang.Iterable"),
    ("java.util.List", list),
    ("java.util.Set", collectionBelow "java.util.Collection"),
    ("java.util.Map$Entry", mapEntry),
    ("java.util.Map", map)]

def define (u : Universe) (name : String) (definition : Definition) : Universe :=
  let (c, v) := u.declare name
  v.define c (definition v c)

end Foundation

def Universe.foundation : Universe :=
  let known := Foundation.declared.foldl (fun u name => (u.declare name).2) .initial
  Foundation.definitions.foldl (fun u entry => Foundation.define u entry.1 entry.2) known

end JavaTypes
