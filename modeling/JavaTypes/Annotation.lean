/-!
Annotations as attached to classes, type parameters, members and parameters. Values are carried
as they are; nothing in the library interprets them, so the floating-point kinds hold their bits.
-/
namespace JavaTypes

mutual

inductive ElementValue where
  | byte (value : Int8)
  | short (value : Int16)
  | int (value : Int32)
  | long (value : Int64)
  | char (value : Char)
  | float (bits : UInt32)
  | double (bits : UInt64)
  | boolean (value : Bool)
  | string (value : String)
  | enumConstant (typeName constant : String)
  | classLiteral (name : String)
  | nested (value : Annotation)
  | array (values : List ElementValue)

/-- An annotation type with its element values, in the order given; a name may occur twice. -/
structure Annotation where
  typeName : String
  elements : List (String × ElementValue)

end

/-- The first value given for an element name. -/
def Annotation.element? (a : Annotation) (name : String) : Option ElementValue :=
  (a.elements.find? fun entry => entry.1 == name).map (·.2)

def Annotation.ofType? (annotations : List Annotation) (typeName : String) : Option Annotation :=
  annotations.find? fun a => a.typeName == typeName

end JavaTypes
