import JavaTypes.Universe.Basic

/-!
Defining classes. An edit changes the draft of one class; the universe keeps the version before
the definition until all edits are made, so an array of the class itself made meanwhile takes its
names from that version. Array classes that a type needs are made by an edit of their own before
the type is used.
-/
namespace JavaTypes

inductive ExecutableEdit where
  | typeParam (name : String) (bounds : List DeclType)
  | param (p : ParamDecl)
  | throws (t : DeclType)
  | annotate (a : Annotation)

inductive MethodEdit where
  | executable (e : ExecutableEdit)
  | returns (t : DeclType)
  | bridge

inductive ClassEdit where
  | kind (k : ClassKind)
  | modifiers (m : Modifiers)
  | nesting (n : Nesting)
  | synthetic
  | typeParam (name : String) (bounds : List DeclType)
  | superclass (t : DeclType)
  | interface (t : DeclType)
  | field (f : FieldDecl)
  | method (name : String) (m : Modifiers) (edits : List MethodEdit)
  | constructor (m : Modifiers) (edits : List ExecutableEdit)
  | enumConstant (name : String)
  | annotate (a : Annotation)
  | arrayOf (component : ClassId)

/-- Parameters and exceptions are added at the end. -/
def ExecutableDecl.edit (d : ExecutableDecl) : ExecutableEdit → ExecutableDecl
  | .typeParam name bounds => { d with typeParams := d.typeParams ++ [{ name, bounds }] }
  | .param p => { d with params := d.params ++ [p] }
  | .throws t => { d with exceptions := d.exceptions ++ [t] }
  | .annotate a => { d with annotations := d.annotations ++ [a] }

def MethodDecl.edit (d : MethodDecl) : MethodEdit → MethodDecl
  | .executable e => { d with toExecutableDecl := d.toExecutableDecl.edit e }
  | .returns t => { d with returnType := t }
  | .bridge => { d with bridge := true }

/-- A class under definition in its universe. -/
structure Draft where
  within : Universe
  self : ClassId
  decl : ClassDecl

namespace Draft

/-- The variable of the type parameter that is declared next. -/
def nextTypeVar (d : Draft) : VarRef := ⟨.ofClass d.self, d.decl.typeParams.length⟩

def nextMethod (d : Draft) : VarOwner := .method d.self d.decl.methods.length

def nextConstructor (d : Draft) : VarOwner := .constructor d.self d.decl.constructors.length

/-- Interfaces are abstract and have no super class. Enumerations extend the class of all
enumerations over themselves, where the universe knows it. -/
def setKind (d : Draft) (k : ClassKind) : ClassDecl :=
  let decl := { d.decl with kind := k }
  match k with
  | .interface | .annotationType =>
    { decl with
      modifiers := decl.modifiers ||| .ofFlags [.isInterface, .isAbstract]
      superClass := none }
  | .enumeration =>
    match d.within.classId? "java.lang.Enum" with
    | some e => { decl with superClass := some (.applied e [.ofClass d.self]) }
    | none => decl
  | _ => decl

/-- Interfaces keep being interfaces and abstract, if they were. -/
def setModifiers (decl : ClassDecl) (m : Modifiers) : ClassDecl :=
  let kept := decl.modifiers &&& .ofFlags [.isInterface, .isAbstract]
  { decl with modifiers := if decl.isInterface then m ||| kept else m }

/-- Local and anonymous classes lose their canonical name, and their simple name drops the number
the compiler gave them. -/
def setNesting (decl : ClassDecl) (n : Nesting) : ClassDecl :=
  let decl := { decl with nesting := n }
  let unnamed := { decl with
    canonicalName := none
    simpleName := QualifiedName.simpleOfLocal decl.binaryName }
  match n with
  | .topLevel | .member _ => decl
  | .localClass _ | .anonymous _ => unnamed

/-- What a method returns until told otherwise. -/
def voidType (u : Universe) : DeclType :=
  match u.primitive? "void" with
  | some c => .ofClass c
  | none => .other "void"

/-- A method is complete when it is added, so its own edits see nothing of the class. -/
def method (d : Draft) (name : String) (m : Modifiers) (edits : List MethodEdit) : MethodDecl :=
  edits.foldl .edit { modifiers := m, name := name, returnType := voidType d.within }

def editDecl (d : Draft) : ClassEdit → ClassDecl
  | .kind k => d.setKind k
  | .modifiers m => setModifiers d.decl m
  | .nesting n => setNesting d.decl n
  | .synthetic => { d.decl with synthetic := true }
  | .typeParam name bounds =>
    { d.decl with typeParams := d.decl.typeParams ++ [{ name, bounds }] }
  | .superclass t => { d.decl with superClass := some t }
  | .interface t => { d.decl with interfaces := d.decl.interfaces ++ [t] }
  | .field f => { d.decl with fields := d.decl.fields ++ [f] }
  | .method name m edits => { d.decl with methods := d.decl.methods ++ [d.method name m edits] }
  | .constructor m edits =>
    { d.decl with constructors := d.decl.constructors ++ [edits.foldl .edit { modifiers := m }] }
  | .enumConstant name => { d.decl with enumConstants := d.decl.enumConstants ++ [name] }
  | .annotate a => { d.decl with annotations := d.decl.annotations ++ [a] }
  | .arrayOf _ => d.decl

/-- Only making an array class touches the universe. -/
def edit (d : Draft) (e : ClassEdit) : Draft :=
  let u := match e with
    | .arrayOf component => (d.within.arrayOf component).2
    | _ => d.within
  { d with within := u, decl := d.editDecl e }

def finish (d : Draft) : Universe := d.within.setDecl d.self d.decl

end Draft

namespace Universe

def draft (u : Universe) (c : ClassId) : Draft := ⟨u, c, u.decl c⟩

def define (u : Universe) (c : ClassId) (edits : List ClassEdit) : Universe :=
  (edits.foldl .edit (u.draft c)).finish

/-- Declares a class, if it is new, and defines it. -/
def defineClass (u : Universe) (name : String) (edits : List ClassEdit) : ClassId × Universe :=
  let (c, v) := u.declare name
  (c, v.define c edits)

def annotateTypeParam (u : Universe) (c : ClassId) (index : Nat) (a : Annotation) : Universe :=
  let d := u.decl c
  let params := d.typeParams.modify index fun p => { p with annotations := p.annotations ++ [a] }
  u.setDecl c { d with typeParams := params }

end Universe

end JavaTypes
