import JavaTypes.Keyed
import JavaTypes.Member.Executable
import JavaTypes.Member.Field

/-!
Member listings. Declared members come in the order of declaration; public members include those
inherited from super types, where a field hides an inherited one of its name and a method replaces
inherited ones of its override key.
-/
namespace JavaTypes

/-- Goes through declarations with their numbers and stops at the first failure. -/
def listEach {α β : Type} (make : Nat → α → Except ReflectionError β) :
    Nat → List α → Except ReflectionError (List β)
  | _, [] => .ok []
  | i, d :: rest => do
    let b ← make i d
    let others ← listEach make (i + 1) rest
    return b :: others

namespace Declarer

/-- Whether members of the type outlive the type itself: a class is never lost. -/
def anchors : Declarer → Bool
  | ofClass _ => true
  | applied _ _ => false

def declaredFields (u : Universe) (anchored : Bool) (d : Declarer) :
    Except ReflectionError (List Field) := do
  let scope ← Scope.of u anchored d
  listEach (fun _ decl => Field.ofDecl u scope decl) 0 (scope.classDecl u).fields

def declaredConstructors (u : Universe) (anchored : Bool) (d : Declarer) :
    Except ReflectionError (List Constructor) := do
  let scope ← Scope.of u anchored d
  listEach (Constructor.ofDecl u scope) 0 (scope.classDecl u).constructors

/-- Methods that are left out do not fail either. -/
def methodsFrom (u : Universe) (skipBridges : Bool) (scope : Scope) :
    Nat → List MethodDecl → Except ReflectionError (List Method)
  | _, [] => .ok []
  | i, decl :: rest =>
    if skipBridges && decl.bridge then methodsFrom u skipBridges scope (i + 1) rest
    else do
      let m ← Method.ofDecl u scope i decl
      let others ← methodsFrom u skipBridges scope (i + 1) rest
      return m :: others

def declaredMethods (u : Universe) (skipBridges anchored : Bool) (d : Declarer) :
    Except ReflectionError (List Method) := do
  let scope ← Scope.of u anchored d
  methodsFrom u skipBridges scope 0 (scope.classDecl u).methods

end Declarer

/-- Public fields by name: those of the super type, then the type's own; `limit` bounds the walk to
super types. -/
def publicFieldsWithin (u : Universe) : Nat → Bool → Ty → Except ReflectionError (List Field)
  | 0, _, _ => .ok []
  | limit + 1, anchored, t =>
    match t.declarer? with
    | none => .ok []
    | some d => do
      let anchored := anchored || d.anchors
      let inherited ← match ← d.superType u with
        | some s => publicFieldsWithin u limit anchored s
        | none => .ok []
      let own ← d.declaredFields u anchored
      let table := Keyed.insertAll Field.name inherited []
      let table := Keyed.insertAll Field.name (own.filter (·.modifiers.isPublic)) table
      return table.map (·.2)

/-- Ascending by signature; methods of one signature keep their order. -/
def sortBySignature (methods : List Method) : List Method :=
  methods.mergeSort fun a b => !(b.signature < a.signature)

/-- Adds what super types hand on to a table of methods, where `methodsOf` lists the public methods
of a super type. Static methods are not inherited. -/
def inheritMethods (methodsOf : Ty → Except ReflectionError (List Method)) :
    List Ty → List (String × Method) → Except ReflectionError (List (String × Method))
  | [], table => .ok table
  | t :: rest, table => do
    let methods ← methodsOf t
    let handedOn := methods.filter fun m => !m.isStatic
    inheritMethods methodsOf rest (Keyed.insertAll Method.overrideKey handedOn table)

/-- Public methods by override key: those of the interfaces, then of the super type, then the
declarer's own, where `methodsOf` lists the public methods of a super type. -/
def Declarer.publicMethods (u : Universe) (skipBridges anchored : Bool)
    (methodsOf : Ty → Except ReflectionError (List Method)) (d : Declarer) :
    Except ReflectionError (List Method) := do
  let interfaces ← d.interfaces u
  let table ← inheritMethods methodsOf interfaces []
  let superType ← d.superType u
  let table ← inheritMethods methodsOf superType.toList table
  let own ← d.declaredMethods u skipBridges anchored
  let table := Keyed.insertAll Method.overrideKey (own.filter (·.isPublic)) table
  return sortBySignature (table.map (·.2))

/-- Who answers for the methods of a type: what is no class answers like the root class. -/
def Ty.methodDeclarer (t : Ty) : Declarer := t.declarer?.getD (.ofClass Universe.object)

/-- The public methods of all types. Those of a class without arguments are made once, however
many ways lead to it. -/
structure MethodTable where
  ofClasses : Array (Thunk (Except ReflectionError (List Method)))
  ofType : Bool → Ty → Except ReflectionError (List Method)

namespace MethodTable

def within (u : Universe) (skipBridges : Bool) : Nat → MethodTable
  | 0 => { ofClasses := #[], ofType := fun _ _ => .ok [] }
  | limit + 1 =>
    let inner : Thunk MethodTable := Thunk.mk fun _ => within u skipBridges limit
    let list (anchored : Bool) (d : Declarer) : Except ReflectionError (List Method) :=
      d.publicMethods u skipBridges anchored (fun t => inner.get.ofType anchored t)
    let ofClasses := (Array.range u.size).map fun i => Thunk.mk fun _ => list true (.ofClass ⟨i⟩)
    { ofClasses
      ofType := fun anchored t =>
        match t.methodDeclarer with
        | .ofClass c =>
          match ofClasses[c.index]? with
          | some methods => methods.get
          | none => list true (.ofClass c)
        | .applied c bindings => list anchored (.applied c bindings) }

end MethodTable

def publicMethodsWithin (u : Universe) (skipBridges : Bool) (limit : Nat) (anchored : Bool) (t : Ty) :
    Except ReflectionError (List Method) :=
  (MethodTable.within u skipBridges limit).ofType anchored t

/-- What is made once is what each walk would make. -/
theorem publicMethodsWithin_succ (u : Universe) (skipBridges anchored : Bool) (limit : Nat)
    (t : Ty) :
    publicMethodsWithin u skipBridges (limit + 1) anchored t =
      t.methodDeclarer.publicMethods u skipBridges (anchored || t.methodDeclarer.anchors)
        (publicMethodsWithin u skipBridges limit (anchored || t.methodDeclarer.anchors)) := by
  simp only [publicMethodsWithin, MethodTable.within]
  cases h : t.methodDeclarer with
  | applied c bindings => simp [Declarer.anchors, Thunk.get]; rfl
  | ofClass c =>
    by_cases bound : c.index < u.size
    · simp [bound, Declarer.anchors, Thunk.get]; rfl
    · simp [bound, Declarer.anchors, Thunk.get]; rfl

namespace Ty

def declaredFields (u : Universe) (t : Ty) : Except ReflectionError (List Field) :=
  match t.declarer? with
  | some d => d.declaredFields u d.anchors
  | none => .ok []

def publicFields (u : Universe) (t : Ty) : Except ReflectionError (List Field) :=
  publicFieldsWithin u (u.walkLimit t) false t

def publicField? (u : Universe) (t : Ty) (name : String) :
    Except ReflectionError (Option Field) := do
  let fields ← t.publicFields u
  return fields.find? fun f => f.name == name

def declaredConstructors (u : Universe) (t : Ty) : Except ReflectionError (List Constructor) :=
  match t.declarer? with
  | some d => d.declaredConstructors u d.anchors
  | none => .ok []

/-- Constructors are not inherited. -/
def publicConstructors (u : Universe) (t : Ty) : Except ReflectionError (List Constructor) := do
  let constructors ← t.declaredConstructors u
  return constructors.filter (·.modifiers.isPublic)

def declaredMethods (u : Universe) (skipBridges : Bool) (t : Ty) :
    Except ReflectionError (List Method) :=
  t.methodDeclarer.declaredMethods u skipBridges t.methodDeclarer.anchors

def publicMethods (u : Universe) (skipBridges : Bool) (t : Ty) :
    Except ReflectionError (List Method) :=
  publicMethodsWithin u skipBridges (u.walkLimit t) false t

end Ty

end JavaTypes
