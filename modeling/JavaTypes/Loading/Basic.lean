import JavaTypes.Ty.Hierarchy

/-!
Loading: a class is loaded once it first becomes a type, and stays loaded. What an answer loads
is what comes up on the way to it; a failure ends the way and keeps what was loaded before.
-/
namespace JavaTypes

/-- What is loaded so far, each class once. -/
structure Loaded where
  classes : List ClassId := []
  /-- Classes whose public methods were listed. Listing them again loads nothing new. -/
  listed : List ClassId := []

/-- A way to an answer, which loads classes and may fail. -/
abbrev Loading := ExceptT ReflectionError (StateM Loaded)

namespace Loading

def load (c : ClassId) : Loading Unit :=
  modify fun s => { s with classes := s.classes.insert c }

def loadRoot : Loading Unit := load Universe.object

def ofExcept {α : Type} (result : Except ReflectionError α) : Loading α := ExceptT.mk (pure result)

/-- Goes on whether or not a way fails. -/
def attempt (way : Loading Unit) : Loading Unit := tryCatch way fun _ => pure ()

def answer {α : Type} (way : Loading Unit) (result : Except ReflectionError α) : Loading α := do
  attempt way
  ofExcept result

def resolveName (u : Universe) (name : String) : Loading Ty := do
  (u.classId? name).toList.forM load
  ofExcept (u.resolveName name)

/-- Making the variables of a declaration, each of which has the root class behind it. -/
def makeVariables (vars : List TyVar) : Loading Unit := if vars.isEmpty then pure () else loadRoot

def classVariables (u : Universe) (c : ClassId) : Loading Unit := makeVariables (u.classVariables c)

def typeVariables (u : Universe) : Ty → Loading Unit
  | .ofClass c => classVariables u c
  | _ => pure ()

mutual

def resolve (u : Universe) : DeclType → Loading Unit
  | .ofClass c => load c
  | .applied c args => do
    load c
    resolveEach u args
    classVariables u c
  | .variable _ => loadRoot
  | .wildcard upper lower => do
    bounds u upper
    bounds u lower
    loadRoot
  | .array element => do
    resolve u element
    loadRoot
  | .other shape => throw (.unsupported shape)

def resolveEach (u : Universe) : List DeclType → Loading Unit
  | [] => pure ()
  | t :: rest => do
    resolve u t
    resolveEach u rest

/-- A bound that is dropped is not loaded. -/
def bounds (u : Universe) : List DeclType → Loading Unit
  | [] => pure ()
  | t :: rest =>
    if t.isRoot then bounds u rest
    else do
      resolve u t
      bounds u rest

end

mutual

/-- Substitution asks the classes in a type for their variables; where a variable takes a value
from the bindings, it does not look further. -/
def substitute (u : Universe) (bindings : List TyVar) : Ty → Loading Unit
  | .ofClass c => classVariables u c
  | .applied _ vars => rebind u bindings vars
  | .variable (.free _) => pure ()
  | .variable (.bound v t) =>
    if (valueFor? u bindings v).isSome then pure () else substitute u bindings t
  | .wildcard upper lower => do
    substituteEach u bindings upper
    substituteEach u bindings lower
  | .array element => substitute u bindings element

def substituteEach (u : Universe) (bindings : List TyVar) : List Ty → Loading Unit
  | [] => pure ()
  | t :: rest => do
    substitute u bindings t
    substituteEach u bindings rest

def rebind (u : Universe) (bindings : List TyVar) : List TyVar → Loading Unit
  | [] => pure ()
  | .free _ :: rest => rebind u bindings rest
  | .bound _ t :: rest => do
    substitute u bindings t
    rebind u bindings rest

end

def varBounds (u : Universe) (v : VarRef) : Loading Unit :=
  match u.typeParam? v with
  | some p => bounds u p.bounds
  | none => pure ()

def clauses (u : Universe) (d : Declarer) (declared : List DeclType) : Loading Unit := do
  resolveEach u declared
  match d with
  | .ofClass _ => pure ()
  | .applied _ bindings => do
    let types ← ofExcept (resolveAll u declared)
    substituteEach u bindings types

def superType (u : Universe) (d : Declarer) : Loading Unit :=
  clauses u d (u.decl d.classId).superClass.toList

def interfaces (u : Universe) (d : Declarer) : Loading Unit :=
  clauses u d (u.decl d.classId).interfaces

def upperBounds (u : Universe) (t : Ty) : Loading Unit :=
  match t with
  | .variable v => varBounds u v.ref
  | _ => pure ()

def component (u : Universe) (c : ClassId) : Loading Unit :=
  match (u.decl c).component with
  | some element => load element
  | none => pure ()

def elementType (u : Universe) (t : Ty) : Loading Unit :=
  match t.rawClass? with
  | some c => component u c
  | none => pure ()

/-- Erasing, where `ofFree` is the way through a free variable. -/
def eraseWith (ofFree : VarRef → Loading Unit) : Ty → Loading Unit
  | .variable (.free v) => ofFree v
  | .variable (.bound _ t) => eraseWith ofFree t
  | .wildcard (bound :: _) _ => eraseWith ofFree bound
  | _ => pure ()

/-- All bounds of a variable are resolved, though only the first one counts. -/
def eraseVar (u : Universe) : Nat → VarRef → Loading Unit
  | 0, _ => pure ()
  | limit + 1, v => do
    varBounds u v
    match ← ofExcept (u.varBounds v) with
    | [] => pure ()
    | bound :: _ => eraseWith (eraseVar u limit) bound

def erasure (u : Universe) (t : Ty) : Loading Unit := eraseWith (eraseVar u (u.paramCount + 1)) t

end Loading

end JavaTypes
