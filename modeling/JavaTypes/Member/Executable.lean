import JavaTypes.Member.Scope

/-!
Methods and constructors as seen through their declaring type, with the texts they are compared
and shown by: the signature, the override key and the display text.
-/
namespace JavaTypes

structure Parameter where
  name : String
  type : Ty
  annotations : List Annotation
  deriving Inhabited

structure Executable where
  scope : Scope
  modifiers : Modifiers
  /-- The variables it declares, all free. -/
  ownVariables : List TyVar
  /-- Variables its types can mention. -/
  typeVariables : List TyVar
  parameters : List Parameter
  /-- Thrown types, as declared. -/
  exceptions : List Ty
  annotations : List Annotation
  deriving Inhabited

namespace Executable

def resolveParams (u : Universe) (vars : List TyVar) :
    List ParamDecl → Except ReflectionError (List Parameter)
  | [] => .ok []
  | p :: rest => do
    let type ← Scope.resolve u vars p.type
    let others ← resolveParams u vars rest
    return { name := p.name, type, annotations := p.annotations } :: others

def ofDecl (u : Universe) (scope : Scope) (owner : VarOwner) (decl : ExecutableDecl) :
    Except ReflectionError Executable := do
  let ownVariables := u.variablesOf owner
  let typeVariables := scope.effective u decl.modifiers ownVariables
  let parameters ← resolveParams u typeVariables decl.params
  let exceptions ← resolveAll u decl.exceptions
  return { scope, modifiers := decl.modifiers, ownVariables, typeVariables, parameters,
           exceptions, annotations := decl.annotations }

/-- The variables it declares, with a blank behind them. -/
def writeOwn (u : Universe) (e : Executable) (naming : Naming) : Rendering String := do
  let vars ← Rendering.vars u naming e.ownVariables
  return if vars.isEmpty then "" else angled vars ++ " "

/-- The return type with a blank behind it; constructors have none. -/
def writeReturn (u : Universe) (naming : Naming) : Option Ty → Rendering String
  | some t => do
    let text ← Rendering.type u naming true t
    return text ++ " "
  | none => return ""

def writeParameters (u : Universe) (e : Executable) (naming : Naming) : Rendering (List String) :=
  Rendering.types u naming (e.parameters.map (·.type))

def inParentheses (texts : List String) : String := "(" ++ ", ".intercalate texts ++ ")"

def signature (u : Universe) (e : Executable) (returns : Option Ty) (name : String) :
    Except ReflectionError String :=
  let pass := fun naming => do
    let own ← e.writeOwn u naming
    let returned ← writeReturn u naming returns
    let parameters ← e.writeParameters u naming
    return own ++ returned ++ name ++ inParentheses parameters
  (RenderContext.run {} pass).1

/-- The naming of override keys: no bounds, and own variables by position, so that neither the
order of writing nor the names an override picks make a difference. Of two variables with one id
the later position counts. -/
def keyNaming (u : Universe) (own : List TyVar) : Naming where
  aliases := (own.mapIdx fun i v => (v.key u, "#" ++ toString i)).reverse
  bare := true

/-- Name and parameter types, equal for a method and its overrides. -/
def overrideKey (u : Universe) (e : Executable) (name : String) : Except ReflectionError String :=
  let pass := fun naming => do
    let parameters ← e.writeParameters u naming
    return name ++ inParentheses parameters
  (RenderContext.run { naming := keyNaming u e.ownVariables } pass).1

def display (u : Universe) (e : Executable) (returns : Option Ty) (name : String) :
    Except ReflectionError String :=
  e.scope.write fun naming => do
    let own ← e.writeOwn u naming
    let returned ← writeReturn u naming returns
    let types ← e.writeParameters u naming
    let parameters := types.zipWith (fun type p => type ++ " " ++ p.name) e.parameters
    let exceptions ← Rendering.types u naming e.exceptions
    let throws := if exceptions.isEmpty then "" else " throws " ++ ", ".intercalate exceptions
    return e.modifiers.lead ++ own ++ returned ++ name ++ inParentheses parameters ++ throws

end Executable

structure Method where
  executable : Executable
  decl : MethodDecl
  returnType : Ty
  signature : String
  overrideKey : String
  deriving Inhabited

namespace Method

def ofDecl (u : Universe) (scope : Scope) (index : Nat) (decl : MethodDecl) :
    Except ReflectionError Method := do
  let executable ← Executable.ofDecl u scope (.method scope.classId index) decl.toExecutableDecl
  let returnType ← Scope.resolve u executable.typeVariables decl.returnType
  let signature ← executable.signature u (some returnType) decl.name
  let overrideKey ← executable.overrideKey u decl.name
  return { executable, decl, returnType, signature, overrideKey }

def scope (m : Method) : Scope := m.executable.scope

def name (m : Method) : String := m.decl.name

def modifiers (m : Method) : Modifiers := m.executable.modifiers

def isPublic (m : Method) : Bool := m.modifiers.isPublic

def isStatic (m : Method) : Bool := m.modifiers.isStatic

/-- Overloads share an id and differ in their signatures. -/
def key (m : Method) : String := m.scope.declaringKey ++ "|Method:" ++ m.name

def display (u : Universe) (m : Method) : Except ReflectionError String :=
  m.executable.display u (some m.returnType) m.name

def text (u : Universe) (m : Method) : String :=
  match m.display u with
  | .ok text => text
  | .error _ => m.signature

def same (a b : Method) : Bool := a.key == b.key && a.signature == b.signature

/-- Static methods come first, then names decide, then signatures. -/
def displayOrder (a b : Method) : Ordering :=
  (compare b.isStatic a.isStatic).then
    ((compare a.name b.name).then (compare a.signature b.signature))

end Method

/-- A constructor; its name is the simple name of the declaring class. -/
structure Constructor where
  executable : Executable
  name : String
  signature : String
  deriving Inhabited

namespace Constructor

def ofDecl (u : Universe) (scope : Scope) (index : Nat) (decl : ExecutableDecl) :
    Except ReflectionError Constructor := do
  let executable ← Executable.ofDecl u scope (.constructor scope.classId index) decl
  let name := (scope.classDecl u).simpleName
  let signature ← executable.signature u none name
  return { executable, name, signature }

def scope (c : Constructor) : Scope := c.executable.scope

def modifiers (c : Constructor) : Modifiers := c.executable.modifiers

def key (c : Constructor) : String := c.scope.declaringKey ++ "|Constructor"

def display (u : Universe) (c : Constructor) : Except ReflectionError String :=
  c.executable.display u none c.name

def text (u : Universe) (c : Constructor) : String :=
  match c.display u with
  | .ok text => text
  | .error _ => c.signature

def displayOrder (a b : Constructor) : Ordering := compare a.signature b.signature

end Constructor

end JavaTypes
