import JavaTypes.ClassDecl

/-!
Base types with their keywords and descriptor letters, and the binary names of array classes,
which are written with those letters.
-/
namespace JavaTypes

inductive BaseType where
  | byte
  | char
  | double
  | float
  | int
  | long
  | short
  | boolean
  | void
  deriving DecidableEq, Inhabited

namespace BaseType

/-- In the order a universe declares their classes. -/
def all : List BaseType := [byte, char, double, float, int, long, short, boolean, void]

def keyword : BaseType → String
  | byte => "byte"
  | char => "char"
  | double => "double"
  | float => "float"
  | int => "int"
  | long => "long"
  | short => "short"
  | boolean => "boolean"
  | void => "void"

/-- The letter that stands for the type in descriptors. -/
def letter : BaseType → Char
  | byte => 'B'
  | char => 'C'
  | double => 'D'
  | float => 'F'
  | int => 'I'
  | long => 'J'
  | short => 'S'
  | boolean => 'Z'
  | void => 'V'

def ofKeyword? (word : String) : Option BaseType := all.find? fun b => b.keyword == word

end BaseType

/-- The binary name of the array class over a component: a bracket before the descriptor of the
component, where an array is its own descriptor. -/
def ClassDecl.arrayName (component : ClassDecl) : String :=
  let reference := "[L" ++ component.binaryName ++ ";"
  match component.kind with
  | .array => "[" ++ component.binaryName
  | .primitive =>
    match BaseType.ofKeyword? component.binaryName with
    | some base => "[" ++ base.letter.toString
    | none => reference
  | _ => reference

end JavaTypes
