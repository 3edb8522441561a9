import JavaTypes.Element
import JavaTypes.Loading.Members

/-!
What the questions about elements load: following a selector, display texts, the attributes of a
type and its overview.
-/
namespace JavaTypes.Loading

/-- Something that only a class or applied type has. -/
def ofDeclarer (t : Ty) (way : Declarer → Loading Unit) : Loading Unit :=
  match t.declarer? with
  | some d => way d
  | none => pure ()

def wayOf (u : Universe) (skipBridges : Bool) (t : Ty) : Selector → Loading Unit
  | .superType => ofDeclarer t (superType u)
  | .interface _ => ofDeclarer t (interfaces u)
  | .typeVariable _ => typeVariables u t
  | .elementType => elementType u t
  | .upperBound _ => upperBounds u t
  | .erasure => erasure u t
  | .declaredField _ => ofDeclarer t (declaredFields u)
  | .publicField _ | .fieldNamed _ => publicFields u t
  | .declaredConstructor _ | .publicConstructor _ => ofDeclarer t (declaredConstructors u)
  | .declaredMethod _ => declaredMethods u skipBridges t.methodDeclarer
  | .publicMethod _ | .methodNamed _ => publicMethods u skipBridges t
  | _ => pure ()

/-- Where a selector leads. Members and parameters have all they lead to. -/
def select (u : Universe) (skipBridges : Bool) (e : Element) (s : Selector) :
    Loading (Option Element) :=
  match e with
  | .type t => answer (wayOf u skipBridges t s) (t.select u skipBridges s)
  | e => ofExcept (e.select u skipBridges s)

/-- The display text of an element; a parameter has none. -/
def displayElement (u : Universe) : Element → Loading Unit
  | .type t => display u t
  | .field f => displayField u f
  | .method m => displayMethod u m
  | .constructor c => displayConstructor u c
  | .parameter _ => pure ()

def displayEach (u : Universe) (l : List Element) : Loading Unit :=
  l.forM fun e => attempt (displayElement u e)

/-- The attributes of an element, which do not depend on each other and none of which needs
members. -/
def inspect (u : Universe) (e : Element) : Loading Unit := do
  attempt (displayElement u e)
  match e with
  | .type t =>
    [.superType, .interface 0, .typeVariable 0, .elementType, .upperBound 0, .erasure].forM fun s =>
      attempt (wayOf u false t s)
  | _ => pure ()

def superTypeTexts (u : Universe) : Nat → Ty → Loading Unit
  | 0, _ => pure ()
  | limit + 1, t => do
    ofDeclarer t (superType u)
    match ← ofExcept (t.superType u) with
    | some s => do
      display u s
      superTypeTexts u limit s
    | none => pure ()

def overview (u : Universe) (skipBridges : Bool) (imports : Imports) (t : Ty) : Loading Unit := do
  superTypeTexts u (u.walkLimit t) t
  display u t
  render u (.importing imports) true t
  ofDeclarer t (interfaces u)
  (← ofExcept (t.interfaces u)).forM (display u)
  publicFields u t
  (← ofExcept (t.publicFields u)).forM (displayField u)
  ofDeclarer t (declaredConstructors u)
  (← ofExcept (t.publicConstructors u)).forM (displayConstructor u)
  publicMethods u skipBridges t
  (← ofExcept (t.publicMethods u skipBridges)).forM (displayMethod u)
  typeVariables u t
  (t.typeVariables u).forM fun v => display u (.variable v)

end JavaTypes.Loading
