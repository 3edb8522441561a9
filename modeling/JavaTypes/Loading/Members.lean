import JavaTypes.Loading.Writing
import JavaTypes.Member.Listing

/-!
What members load: the text of their declaring type, the types they mention, and their own texts.
-/
namespace JavaTypes.Loading

def scope (u : Universe) (d : Declarer) : Loading Unit := do
  display u d.toTy
  typeVariables u d.toTy

def memberType (u : Universe) (vars : List TyVar) (t : DeclType) : Loading Unit := do
  resolve u t
  substitute u vars (← ofExcept (t.resolve u))

def field (u : Universe) (s : Scope) (decl : FieldDecl) : Loading Unit :=
  memberType u (s.effective u decl.modifiers []) decl.type

def executable (u : Universe) (s : Scope) (owner : VarOwner) (decl : ExecutableDecl) :
    Loading Executable := do
  let own := u.variablesOf owner
  makeVariables own
  decl.params.forM fun p => memberType u (s.effective u decl.modifiers own) p.type
  resolveEach u decl.exceptions
  ofExcept (Executable.ofDecl u s owner decl)

def parameterTypes (e : Executable) : List Ty := e.parameters.map (·.type)

/-- Own variables, return type and parameter types in one pass; constructors have no return
type. -/
def signature (u : Universe) (e : Executable) (returns : Option Ty) : Loading Unit :=
  Writing.run {} fun naming => do
    Writing.vars u naming e.ownVariables
    Writing.types u naming true (returns.toList ++ parameterTypes e)

def overrideKey (u : Universe) (e : Executable) : Loading Unit :=
  Writing.run { naming := Executable.keyNaming u e.ownVariables } fun naming =>
    Writing.types u naming true (parameterTypes e)

def method (u : Universe) (s : Scope) (index : Nat) (decl : MethodDecl) : Loading Unit := do
  let e ← executable u s (.method s.classId index) decl.toExecutableDecl
  memberType u e.typeVariables decl.returnType
  let returned ← ofExcept (Scope.resolve u e.typeVariables decl.returnType)
  signature u e (some returned)
  overrideKey u e

def constructor (u : Universe) (s : Scope) (index : Nat) (decl : ExecutableDecl) :
    Loading Unit := do
  let e ← executable u s (.constructor s.classId index) decl
  signature u e none

def each {α : Type} (make : Nat → α → Loading Unit) : Nat → List α → Loading Unit
  | _, [] => pure ()
  | i, d :: rest => do
    make i d
    each make (i + 1) rest

def declared (u : Universe) (d : Declarer) (members : Scope → Loading Unit) : Loading Unit := do
  scope u d
  members (← ofExcept (Scope.of u d.anchors d))

def declaredFields (u : Universe) (d : Declarer) : Loading Unit :=
  declared u d fun s => (u.decl d.classId).fields.forM (field u s)

def declaredConstructors (u : Universe) (d : Declarer) : Loading Unit :=
  declared u d fun s => each (constructor u s) 0 (u.decl d.classId).constructors

/-- Methods that are left out load nothing. -/
def declaredMethods (u : Universe) (skipBridges : Bool) (d : Declarer) : Loading Unit :=
  declared u d fun s =>
    each (fun i decl => if skipBridges && decl.bridge then pure () else method u s i decl) 0
      (u.decl d.classId).methods

/-- The fields of the super type come first; `limit` bounds the walk. -/
def publicFieldsWithin (u : Universe) : Nat → Ty → Loading Unit
  | 0, _ => pure ()
  | limit + 1, t =>
    match t.declarer? with
    | none => pure ()
    | some d => do
      superType u d
      match ← ofExcept (d.superType u) with
      | some s => publicFieldsWithin u limit s
      | none => pure ()
      declaredFields u d

def publicFields (u : Universe) (t : Ty) : Loading Unit := publicFieldsWithin u (u.walkLimit t) t

/-- Whether the public methods of a declarer were listed. Only classes without arguments are kept
in mind. -/
def wasListed : Declarer → Loading Bool
  | .ofClass c => return (← get).listed.contains c
  | .applied _ _ => return false

def keepListed : Declarer → Loading Unit
  | .ofClass c => modify fun s => { s with listed := c :: s.listed }
  | .applied _ _ => pure ()

/-- The methods of the interfaces come first, then those of the super type; `limit` bounds the
walk. -/
def publicMethodsWithin (u : Universe) (skipBridges : Bool) : Nat → Ty → Loading Unit
  | 0, _ => pure ()
  | limit + 1, t => do
    let d := t.methodDeclarer
    if ← wasListed d then
      return
    interfaces u d
    (← ofExcept (d.interfaces u)).forM (publicMethodsWithin u skipBridges limit)
    superType u d
    (← ofExcept (d.superType u)).toList.forM (publicMethodsWithin u skipBridges limit)
    declaredMethods u skipBridges d
    keepListed d

def publicMethods (u : Universe) (skipBridges : Bool) (t : Ty) : Loading Unit :=
  publicMethodsWithin u skipBridges (u.walkLimit t) t

def displayIn (s : Scope) (pass : Naming → Writing Unit) : Loading Unit :=
  Writing.run (.primed s.primed) pass

def displayField (u : Universe) (f : Field) : Loading Unit :=
  displayIn f.scope fun naming => Writing.types u naming true [f.type]

/-- Thrown types are part of the display text only. -/
def displayExecutable (u : Universe) (e : Executable) (returns : Option Ty) : Loading Unit :=
  displayIn e.scope fun naming => do
    Writing.vars u naming e.ownVariables
    Writing.types u naming true (returns.toList ++ parameterTypes e ++ e.exceptions)

def displayMethod (u : Universe) (m : Method) : Loading Unit :=
  displayExecutable u m.executable (some m.returnType)

def displayConstructor (u : Universe) (c : Constructor) : Loading Unit :=
  displayExecutable u c.executable none

end JavaTypes.Loading
