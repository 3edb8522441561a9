import JavaTypes.Member.Listing
import JavaTypes.MemoCell
import JavaTypes.Quoted
import JavaTypes.Settings
import JavaTypes.Ty.Attributes

/-!
Inspection texts: short forms for looking at values while developing, which name the kind of a
value and what identifies it.
-/
namespace JavaTypes.Inspection

def tuple (kind value : String) : String := kind ++ "(" ++ value ++ ")"

def record (kind : String) (fields : List (String × String)) : String :=
  kind ++ " \x7b " ++ ", ".intercalate (fields.map fun f => f.1 ++ ": " ++ f.2) ++ " \x7d"

def modifiers (m : Modifiers) : String :=
  tuple "Modifiers" ("0x" ++ Quoted.hexPadded 4 m.bits.toNat ++ " " ++ Quoted.quote m.keywords)

def classId (c : ClassId) : String := tuple "RawClassId" (toString c.index)

def baseType : BaseType → String
  | .byte => "Byte"
  | .char => "Char"
  | .double => "Double"
  | .float => "Float"
  | .int => "Int"
  | .long => "Long"
  | .short => "Short"
  | .boolean => "Boolean"
  | .void => "Void"

def typeVariable (u : Universe) (v : TyVar) : String :=
  record "TypeVariableNode" <|
    ("id", Quoted.quote (v.key u)) ::
      (v.value?.map fun t => ("value", Quoted.quote (t.key u))).toList

def type (u : Universe) (t : Ty) : String :=
  let id := Quoted.quote (t.key u)
  match t with
  | .ofClass _ => tuple "ClassNode" id
  | .applied _ _ => tuple "ParameterizedNode" id
  | .variable v => typeVariable u v
  | .wildcard _ _ => tuple "WildcardNode" id
  | .array _ => tuple "GenericArrayNode" id

def flags (u : Universe) (t : Ty) : List String :=
  let generic := !(t.typeVariables u).isEmpty
  ([("primitive", t.isPrimitive u), ("array", t.isArray u), ("enum", t.isEnum u),
    ("interface", t.isInterface u), ("annotation", t.isAnnotationType u),
    ("anonymous", t.isAnonymous u), ("member", t.isMember u), ("local", t.isLocal u),
    ("synthetic", t.isSynthetic u), ("type_variable", t.isVariable), ("wildcard", t.isWildcard),
    ("has_vars", generic), ("has_declared_vars", generic)].filter (·.2)).map (·.1)

def field (u : Universe) (f : Field) : String :=
  record "FieldNode" [("id", Quoted.quote f.key), ("type", Quoted.quote (f.type.key u))]

def method (m : Method) : String :=
  record "MethodNode" [("id", Quoted.quote m.key), ("signature", Quoted.quote m.signature)]

def constructor (c : Constructor) : String :=
  record "ConstructorNode" [("id", Quoted.quote c.key), ("signature", Quoted.quote c.signature)]

def settings (s : Settings) : String :=
  let imports := "[" ++ ", ".intercalate (s.implicitImports.map Quoted.quote) ++ "]"
  record "ReflectConfig"
    [("skip_bridge_methods", toString s.skipBridgeMethods), ("implicit_imports", imports)]

/-- Settings with the number of classes that were looked at; there is more that is not shown. -/
def reflection (s : Settings) (interned : Nat) : String :=
  "Reflector \x7b config: " ++ settings s ++ ", interned: " ++ toString interned ++ ", .. \x7d"

def optional {α : Type} (showValue : α → String) : Option α → String
  | some a => tuple "Some" (showValue a)
  | none => "None"

def memoCell {α : Type} (showValue : α → String) (cell : MemoCell α) : String :=
  match cell.value? with
  | some a => tuple "AttrCache" (showValue a)
  | none => "AttrCache(<uncomputed>)"

end JavaTypes.Inspection
