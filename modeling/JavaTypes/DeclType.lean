/-!
Types as declarations write them. Classes are named by their id and type variables by the
parameter they refer to, so a bound may mention its own variable without making a type cyclic.
-/
namespace JavaTypes

/-- The place of a class in its universe. -/
structure ClassId where
  index : Nat
  deriving DecidableEq, Inhabited

/-- The declaration a type parameter belongs to. Methods and constructors are counted in the order
their class declares them. -/
inductive VarOwner where
  | ofClass (c : ClassId)
  | method (c : ClassId) (index : Nat)
  | constructor (c : ClassId) (index : Nat)
  deriving DecidableEq, Inhabited

def VarOwner.classId : VarOwner → ClassId
  | .ofClass c => c
  | .method c _ => c
  | .constructor c _ => c

structure VarRef where
  owner : VarOwner
  index : Nat
  deriving DecidableEq, Inhabited

inductive DeclType where
  /-- A class without arguments, a primitive class or an array class. -/
  | ofClass (c : ClassId)
  /-- A class with type arguments. -/
  | applied (c : ClassId) (args : List DeclType)
  | variable (v : VarRef)
  /-- `? extends upper` and `? super lower`; an unbounded wildcard has no bounds. -/
  | wildcard (upper lower : List DeclType)
  /-- An array of a generic element, such as `T[]`. -/
  | array (element : DeclType)
  /-- A form this library has no types for. -/
  | other (shape : String)
  deriving Inhabited

def DeclType.shape : DeclType → String
  | .ofClass _ => "Class"
  | .applied _ _ => "ParameterizedType"
  | .variable _ => "TypeVariable"
  | .wildcard _ _ => "WildcardType"
  | .array _ => "GenericArrayType"
  | .other shape => shape

mutual

def DeclType.size : DeclType → Nat
  | .ofClass _ => 1
  | .applied _ args => 1 + declSizes args
  | .variable _ => 1
  | .wildcard upper lower => 1 + declSizes upper + declSizes lower
  | .array element => 1 + element.size
  | .other _ => 1

def declSizes : List DeclType → Nat
  | [] => 0
  | t :: rest => t.size + declSizes rest

end

end JavaTypes
