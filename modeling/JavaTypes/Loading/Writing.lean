import JavaTypes.Loading.Basic
import JavaTypes.Rendering

/-!
What writing types loads: the components of array classes, the variables of classes, and the
bounds of the variables a pass defines.
-/
namespace JavaTypes.Loading

abbrev Writing := StateT (List String) Loading

/-- The components below an array class. -/
def components (u : Universe) : Nat → ClassId → Loading Unit
  | 0, _ => pure ()
  | limit + 1, c =>
    match (u.decl c).component with
    | some element => do
      load element
      components u limit element
    | none => pure ()

/-- A free variable; `bounds` is what its first mention loads. -/
def writeFree (u : Universe) (naming : Naming) (bounds : VarRef → Writing Unit) (v : VarRef) :
    Writing Unit := do
  let id := u.varKey v
  if naming.bare || (← get).contains id then
    return
  modify (id :: ·)
  bounds v

def writeDeclared (u : Universe) (naming : Naming) (bounds : VarRef → Writing Unit) :
    List TyVar → Writing Unit
  | [] => return
  | v :: rest => do
    writeFree u naming bounds v.ref
    writeDeclared u naming bounds rest

mutual

/-- A class is asked for its variables even if they are not written. -/
def write (u : Universe) (naming : Naming) (withVars : Bool) (bounds : VarRef → Writing Unit) :
    Ty → Writing Unit
  | .ofClass c => do
    components u c.index c
    let bottom := (u.innermost c.index c).1
    classVariables u bottom
    if withVars then
      writeDeclared u naming bounds (u.classVariables bottom)
  | .applied _ bindings =>
    if withVars then writeVars u naming withVars bounds bindings else return
  | .variable (.free v) => writeFree u naming bounds v
  | .variable (.bound _ t) => write u naming withVars bounds t
  | .wildcard upper lower => do
    writeEach u naming withVars bounds lower
    writeEach u naming withVars bounds upper
  | .array element => write u naming withVars bounds element

def writeEach (u : Universe) (naming : Naming) (withVars : Bool) (bounds : VarRef → Writing Unit) :
    List Ty → Writing Unit
  | [] => return
  | t :: rest => do
    write u naming withVars bounds t
    writeEach u naming withVars bounds rest

def writeVars (u : Universe) (naming : Naming) (withVars : Bool) (bounds : VarRef → Writing Unit) :
    List TyVar → Writing Unit
  | [] => return
  | .free v :: rest => do
    writeFree u naming bounds v
    writeVars u naming withVars bounds rest
  | .bound _ t :: rest => do
    write u naming withVars bounds t
    writeVars u naming withVars bounds rest

end

/-- The bound clause of a free variable, nested no deeper than there are type parameters. -/
def writeBounds (u : Universe) (naming : Naming) (withVars : Bool) : Nat → VarRef → Writing Unit
  | 0, _ => return
  | limit + 1, v => do
    varBounds u v
    let bounds ← ofExcept (u.varBounds v)
    writeEach u naming withVars (writeBounds u naming withVars limit) bounds

namespace Writing

def types (u : Universe) (naming : Naming) (withVars : Bool) (types : List Ty) : Writing Unit :=
  writeEach u naming withVars (writeBounds u naming withVars u.paramCount) types

def vars (u : Universe) (naming : Naming) (vars : List TyVar) : Writing Unit :=
  writeVars u naming true (writeBounds u naming true u.paramCount) vars

def run (ctx : RenderContext) (pass : Naming → Writing Unit) : Loading Unit := do
  let _ ← StateT.run (pass ctx.naming) ctx.defined

end Writing

def render (u : Universe) (ctx : RenderContext) (withVars : Bool) (t : Ty) : Loading Unit :=
  Writing.run ctx fun naming => Writing.types u naming withVars [t]

def display (u : Universe) (t : Ty) : Loading Unit := render u {} true t

end JavaTypes.Loading
