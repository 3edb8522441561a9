import JavaTypes.Imports
import JavaTypes.Ty.Resolution

/-!
Types written as source text. One pass keeps a set of defined variables: a free variable is
written with its bounds where it is met first and bare from then on, so a bound that mentions its
own variable ends. A variable is defined before its bounds are resolved and stays defined when
that fails.
-/
namespace JavaTypes

/-- What a pass does not change: how names are written and which variables need no bounds. -/
structure Naming where
  imports : Imports := {}
  /-- Texts for free variables by id, written in place of their names. -/
  aliases : List (String × String) := []
  /-- All variables count as defined, and none is ever added. -/
  bare : Bool := false
  deriving Inhabited

structure RenderContext where
  naming : Naming := {}
  defined : List String := []
  deriving Inhabited

/-- A pass over the set of defined variables, which outlives a failure. -/
abbrev Rendering := ExceptT ReflectionError (StateM (List String))

namespace Rendering

def ofExcept {α : Type} (result : Except ReflectionError α) : Rendering α :=
  ExceptT.mk (pure result)

end Rendering

namespace RenderContext

def primed (ids : List String) : RenderContext := { defined := ids }

def importing (imports : Imports) : RenderContext := { naming := { imports } }

def isDefined (ctx : RenderContext) (id : String) : Bool :=
  ctx.naming.bare || ctx.defined.contains id

def define (ctx : RenderContext) (id : String) : RenderContext :=
  if ctx.isDefined id then ctx else { ctx with defined := id :: ctx.defined }

/-- The defined variables in ascending order, each once. -/
def definedIds (ctx : RenderContext) : List String :=
  ctx.defined.eraseDups.mergeSort fun a b => !(b < a)

def run {α : Type} (ctx : RenderContext) (pass : Naming → Rendering α) :
    Except ReflectionError α × RenderContext :=
  let (result, defined) := StateT.run (ExceptT.run (pass ctx.naming)) ctx.defined
  (result, { ctx with defined })

end RenderContext

namespace Universe

/-- The class at the bottom of an array class and the number of brackets above it. Array classes
come after their components, so no chain is longer than the number of the class it starts from. -/
def innermost (u : Universe) : Nat → ClassId → ClassId × Nat
  | 0, c => (c, 0)
  | limit + 1, c =>
    match (u.decl c).component with
    | some element =>
      let (bottom, depth) := u.innermost limit element
      (bottom, depth + 1)
    | none => (c, 0)

def className (u : Universe) (imports : Imports) (c : ClassId) : String :=
  let d := u.decl c
  match d.canonicalName with
  | some canonical => imports.write d.package canonical
  | none => d.binaryName

end Universe

def angled (texts : List String) : String :=
  if texts.isEmpty then "" else "<" ++ ", ".intercalate texts ++ ">"

def brackets (depth : Nat) : String := String.join (List.replicate depth "[]")

/-- A free variable; `bounds` writes the clause that follows its first mention. -/
def writeFree (u : Universe) (naming : Naming) (bounds : VarRef → Rendering String)
    (v : VarRef) : Rendering String := do
  let id := u.varKey v
  let text := (naming.aliases.lookup id).getD (u.varName v)
  if naming.bare then
    return text
  if (← get).contains id then
    return text
  modify (id :: ·)
  let clause ← bounds v
  return text ++ clause

def writeDeclared (u : Universe) (naming : Naming) (bounds : VarRef → Rendering String) :
    List TyVar → Rendering (List String)
  | [] => return []
  | v :: rest => do
    let text ← writeFree u naming bounds v.ref
    let texts ← writeDeclared u naming bounds rest
    return text :: texts

mutual

def Ty.write (u : Universe) (naming : Naming) (withVars : Bool)
    (bounds : VarRef → Rendering String) : Ty → Rendering String
  | .ofClass c => do
    let (bottom, depth) := u.innermost c.index c
    let name := u.className naming.imports bottom
    if withVars then
      let vars ← writeDeclared u naming bounds (u.classVariables bottom)
      return name ++ angled vars ++ brackets depth
    else
      return name ++ brackets depth
  | .applied c bindings => do
    let name := u.className naming.imports c
    if withVars then
      let vars ← writeVars u naming withVars bounds bindings
      return name ++ angled vars
    else
      return name
  | .variable (.free v) => writeFree u naming bounds v
  | .variable (.bound _ t) => t.write u naming withVars bounds
  | .wildcard upper lower => do
    let lower ← writeAll u naming withVars bounds lower
    let upper ← writeAll u naming withVars bounds upper
    return "?" ++ boundClause " super " lower ++ boundClause " extends " upper
  | .array element => do
    let text ← element.write u naming withVars bounds
    return text ++ "[]"

def writeAll (u : Universe) (naming : Naming) (withVars : Bool)
    (bounds : VarRef → Rendering String) : List Ty → Rendering (List String)
  | [] => return []
  | t :: rest => do
    let text ← t.write u naming withVars bounds
    let texts ← writeAll u naming withVars bounds rest
    return text :: texts

def writeVars (u : Universe) (naming : Naming) (withVars : Bool)
    (bounds : VarRef → Rendering String) : List TyVar → Rendering (List String)
  | [] => return []
  | .free v :: rest => do
    let text ← writeFree u naming bounds v
    let texts ← writeVars u naming withVars bounds rest
    return text :: texts
  | .bound _ t :: rest => do
    let text ← t.write u naming withVars bounds
    let texts ← writeVars u naming withVars bounds rest
    return text :: texts

end

/-- The bound clause of a free variable. Every clause inside another belongs to a variable that was
not defined before, so clauses nest no deeper than there are type parameters. -/
def writeBounds (u : Universe) (naming : Naming) (withVars : Bool) : Nat → VarRef → Rendering String
  | 0, _ => return ""
  | limit + 1, v => do
    let bounds ← Rendering.ofExcept (u.varBounds v)
    let texts ← writeAll u naming withVars (writeBounds u naming withVars limit) bounds
    return boundClause " extends " texts

namespace Rendering

def type (u : Universe) (naming : Naming) (withVars : Bool) (t : Ty) : Rendering String :=
  t.write u naming withVars (writeBounds u naming withVars u.paramCount)

def types (u : Universe) (naming : Naming) (types : List Ty) : Rendering (List String) :=
  writeAll u naming true (writeBounds u naming true u.paramCount) types

def vars (u : Universe) (naming : Naming) (vars : List TyVar) : Rendering (List String) :=
  writeVars u naming true (writeBounds u naming true u.paramCount) vars

end Rendering

namespace Ty

def render (u : Universe) (ctx : RenderContext) (t : Ty) (withVars : Bool) :
    Except ReflectionError String × RenderContext :=
  ctx.run fun naming => Rendering.type u naming withVars t

/-- A type with full names and variables, on its own. -/
def display (u : Universe) (t : Ty) : Except ReflectionError String :=
  (t.render u {} true).1

/-- The display text, or the id of a type that cannot be written. -/
def text (u : Universe) (t : Ty) : String :=
  match t.display u with
  | .ok text => text
  | .error _ => t.key u

end Ty

end JavaTypes
