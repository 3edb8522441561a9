import JavaTypes.Universe.Basic

/-!
Reflected types. A type variable may carry a value; its identity comes from the declaration alone
and is the same with and without a value. Equality of types is equality of their ids.
-/
namespace JavaTypes

mutual

inductive Ty where
  /-- A class, interface, primitive or array class without arguments. -/
  | ofClass (c : ClassId)
  /-- A class whose variables are bound to arguments. -/
  | applied (c : ClassId) (bindings : List TyVar)
  | variable (v : TyVar)
  | wildcard (upper lower : List Ty)
  /-- An array of a generic element. -/
  | array (element : Ty)

inductive TyVar where
  | free (ref : VarRef)
  | bound (ref : VarRef) (value : Ty)

end

instance : Inhabited Ty := ⟨.ofClass default⟩

instance : Inhabited TyVar := ⟨.free default⟩

inductive TyKind where
  | ofClass
  | applied
  | variable
  | wildcard
  | array
  deriving DecidableEq

def Ty.kind : Ty → TyKind
  | .ofClass _ => .ofClass
  | .applied _ _ => .applied
  | .variable _ => .variable
  | .wildcard _ _ => .wildcard
  | .array _ => .array

mutual

/-- The number of forms that make up a type, values of variables included. -/
def Ty.size : Ty → Nat
  | .ofClass _ => 1
  | .applied _ bindings => 1 + bindingSizes bindings
  | .variable (.free _) => 1
  | .variable (.bound _ t) => 1 + t.size
  | .wildcard upper lower => 1 + typeSizes upper + typeSizes lower
  | .array element => 1 + element.size

def typeSizes : List Ty → Nat
  | [] => 0
  | t :: rest => t.size + typeSizes rest

def bindingSizes : List TyVar → Nat
  | [] => 0
  | .free _ :: rest => 1 + bindingSizes rest
  | .bound _ t :: rest => 1 + t.size + bindingSizes rest

end

namespace Universe

def classKey (u : Universe) (c : ClassId) : String := "Class:" ++ (u.decl c).binaryName

/-- A number for the `position`-th of `count` declarations that nothing else tells apart. -/
def overloadMark (count position : Nat) : String :=
  if count > 1 then "#" ++ toString position else ""

/-- The id of a declaration with type parameters. Methods of one name are counted, and so are
constructors, where there is more than one. -/
def ownerKey (u : Universe) (owner : VarOwner) : String :=
  let d := u.decl owner.classId
  let start := u.classKey owner.classId
  match owner with
  | .ofClass _ => start
  | .method _ i =>
    let name := (d.methods[i]?.map (·.name)).getD ""
    let count := (d.methods.filter (·.name == name)).length
    let position := ((d.methods.take i).filter (·.name == name)).length
    start ++ "|Method:" ++ name ++ overloadMark count position
  | .constructor _ i => start ++ "|Constructor" ++ overloadMark d.constructors.length i

def varName (u : Universe) (v : VarRef) : String := ((u.typeParam? v).map (·.name)).getD ""

def varKey (u : Universe) (v : VarRef) : String :=
  u.ownerKey v.owner ++ "|TypeVariable:" ++ u.varName v

/-- The free variables for the type parameters of a declaration. -/
def variablesOf (u : Universe) (owner : VarOwner) : List TyVar :=
  (List.range (u.typeParams owner).length).map fun i => .free ⟨owner, i⟩

def classVariables (u : Universe) (c : ClassId) : List TyVar := u.variablesOf (.ofClass c)

def paramCount (u : Universe) : Nat := (u.classes.toList.flatMap (·.allTypeParams)).length

end Universe

namespace TyVar

def ref : TyVar → VarRef
  | .free r => r
  | .bound r _ => r

def value? : TyVar → Option Ty
  | .free _ => none
  | .bound _ t => some t

def isBound (v : TyVar) : Bool := v.value?.isSome

def unbound (v : TyVar) : TyVar := .free v.ref

def key (u : Universe) (v : TyVar) : String := u.varKey v.ref

/-- The variable bound to a value. Binding a variable to its own free self leaves it free. -/
def bindTo (u : Universe) (v : TyVar) (value : Ty) : TyVar :=
  match value with
  | .variable (.free r) => if u.varKey r = v.key u then v.unbound else .bound v.ref value
  | _ => .bound v.ref value

end TyVar

/-- Bounds behind their keyword; nothing where there are none. -/
def boundClause (keyword : String) (bounds : List String) : String :=
  if bounds.isEmpty then "" else keyword ++ " & ".intercalate bounds

mutual

/-- The id of a type: equal ids mean the same type. -/
def Ty.key (u : Universe) : Ty → String
  | .ofClass c => u.classKey c
  | .applied c bindings =>
    "ParameterizedType:" ++ (u.decl c).binaryName ++ "<" ++
      ", ".intercalate (argumentKeys u bindings) ++ ">"
  | .variable v => v.key u
  | .wildcard upper lower =>
    "WildcardType:?" ++ boundClause " super " (typeKeys u lower) ++
      boundClause " extends " (typeKeys u upper)
  | .array element => element.key u ++ "[]"

/-- A bound variable shows its value and a free one itself. -/
def argumentKeys (u : Universe) : List TyVar → List String
  | [] => []
  | .free r :: rest => u.varKey r :: argumentKeys u rest
  | .bound _ t :: rest => t.key u :: argumentKeys u rest

def typeKeys (u : Universe) : List Ty → List String
  | [] => []
  | t :: rest => t.key u :: typeKeys u rest

end

namespace Ty

/-- A class applied to arguments, in the order of its variables. Surplus arguments are dropped. -/
def apply (u : Universe) (c : ClassId) (args : List Ty) : Ty :=
  .applied c ((u.classVariables c).zipWith (TyVar.bindTo u) args)

/-- The value of a bound variable, through variables bound to variables, or the type itself. -/
def structural : Ty → Ty
  | .variable (.bound _ t) => t.structural
  | t => t

def rawClass? (t : Ty) : Option ClassId :=
  match t.structural with
  | .ofClass c => some c
  | .applied c _ => some c
  | _ => none

def typeVariables (u : Universe) : Ty → List TyVar
  | .ofClass c => u.classVariables c
  | .applied _ bindings => bindings
  | _ => []

end Ty

end JavaTypes
