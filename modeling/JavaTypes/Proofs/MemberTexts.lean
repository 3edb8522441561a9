import JavaTypes.Proofs.AppliedMembers
import JavaTypes.Proofs.RepeatedPasses

/-!
Texts of members. A member is written in a pass that starts with the variables the text of its
declaring type defines, so no bound clause in it repeats one of those. Where nothing else is shown, the
text has no bound clause at all; at a class applied to arguments this is so for every member over
variables that have an argument, as the arguments are written in the text of the declaring type.
-/
namespace JavaTypes

variable {u : Universe} {naming : Naming}

section defined

variable {bounds : VarRef → Rendering String} {before : List String}

theorem runFrom_writeAll_of_defined {types : List Ty} (each : ∀ t ∈ types,
      (t.write u naming true bounds).runFrom before = (.ok (t.bareText u naming), before)) :
    (writeAll u naming true bounds types).runFrom before =
      (.ok (types.map (Ty.bareText u naming)), before) := by
  induction types with
  | nil => rfl
  | cons t rest ih =>
    obtain ⟨first, others⟩ := List.forall_mem_cons.1 each
    simp [writeAll, Rendering.runFrom_bind, Rendering.runFrom_map, first, ih others, Except.map]

/-- A type that shows defined variables only is written like in a bare pass. -/
theorem Ty.runFrom_write_of_defined (layered : u.Layered) (defines : naming.bare = false) {t : Ty}
    (known : ∀ w, t.Shows u true w → u.varKey w ∈ before) :
    (t.write u naming true bounds).runFrom before = (.ok (t.bareText u naming), before) := by
  have settles : Settles u (t.Shows u true) (t.write u naming true bounds)
      (t.write u naming.asBare true bounds) := settles_write defines layered t
  obtain ⟨text, ran, bare⟩ := settles before known
  rw [Ty.write_bare rfl] at bare
  exact ran.trans bare.symm

end defined

section shown

/-- A type shows its free variables and those of its classes without arguments. -/
theorem Ty.shows_iff {t : Ty} {w : VarRef} : t.Shows u true w ↔
    (∃ c ∈ t.rawClasses, (Ty.ofClass c).Shows u true w) ∨ w ∈ t.freeVars := by
  induction t using Ty.inductionOn with
  | ofClass c => simp [Ty.rawClasses, Ty.freeVars]
  | free v => simp [Ty.rawClasses, Ty.freeVars]
  | bound v t ih => simpa [Ty.rawClasses, Ty.freeVars] using ih
  | array t ih => simpa [Ty.rawClasses, Ty.freeVars] using ih
  | applied c bindings ih =>
    have each : ∀ b ∈ bindings, b.shown.Shows u true w ↔
        (∃ d ∈ (Ty.variable b).rawClasses, (Ty.ofClass d).Shows u true w) ∨
          w ∈ (Ty.variable b).freeVars := by
      intro b member
      cases b with
      | free v => simp [Ty.rawClasses, Ty.freeVars]
      | bound v t => simpa [Ty.rawClasses, Ty.freeVars] using ih v t member
    simp only [Ty.shows_applied, Ty.rawClasses, Ty.freeVars, Ty.gather_applied, Ty.gather_variable,
      List.mem_flatMap] at each ⊢
    grind
  | wildcard upper lower ihUpper ihLower =>
    simp only [Ty.shows_wildcard, Ty.rawClasses, Ty.freeVars, Ty.gather_wildcard, List.mem_append,
      List.mem_flatMap] at ihUpper ihLower ⊢
    grind

/-- The variables that occur free in a resolved type are written, by id. -/
theorem DeclType.mem_vars_of_freeIds {t : DeclType} {r : Ty} (resolved : t.resolve u = .ok r) :
    ∀ id ∈ r.freeIds u, ∃ v ∈ t.vars, u.varKey v = id := by
  refine resolve_induction ?ofClass ?applied ?free ?wildcard ?array t r resolved
  case ofClass => simp [Ty.freeIds]
  case free => simp [Ty.freeIds]
  case array => exact fun _ _ _ inner => by simpa [Ty.freeIds] using inner
  case wildcard =>
    intro upper lower uppers lowers eachUpper eachLower id occurs
    simp only [Ty.freeIds, Ty.gather_wildcard, List.mem_append, List.mem_flatMap] at occurs
    simp only [vars_wildcard, List.mem_append, List.mem_flatMap]
    rcases occurs with ⟨r, member, occurs⟩ | ⟨r, member, occurs⟩
    · obtain ⟨t, inside, -, inner⟩ := exists_left_of_mem eachUpper member
      obtain ⟨v, written, same⟩ := inner id occurs
      exact ⟨v, .inl ⟨t, List.mem_of_mem_filter inside, written⟩, same⟩
    · obtain ⟨t, inside, -, inner⟩ := exists_left_of_mem eachLower member
      obtain ⟨v, written, same⟩ := inner id occurs
      exact ⟨v, .inr ⟨t, List.mem_of_mem_filter inside, written⟩, same⟩
  case applied =>
    intro c args types each id occurs
    simp only [Ty.freeIds, Ty.apply, Ty.gather_applied, List.mem_flatMap] at occurs
    simp only [vars_applied, List.mem_flatMap]
    obtain ⟨b, member, occurs⟩ := occurs
    obtain ⟨w, -, -, a, arg, rfl⟩ := mem_bindings_apply member
    rw [TyVar.gather_bindTo (fun _ => rfl) fun r _ key => by simp [key]] at occurs
    obtain ⟨t, inside, -, inner⟩ := exists_left_of_mem each arg
    obtain ⟨v, written, same⟩ := inner id occurs
    exact ⟨v, ⟨t, inside, written⟩, same⟩

/-- What is shown after substitution in scope is shown by the classes written without arguments or, by
id, by the values of free variables. -/
theorem Ty.Settled.shows_resolveInScope {t : Ty} (settled : t.Settled) {bindings : List TyVar}
    {w : VarRef} (shows : (t.resolveInScope u bindings).Shows u true w) :
    (∃ c ∈ t.rawClasses, (Ty.ofClass c).Shows u true w) ∨
      ∃ v ∈ t.freeVars, ∃ x, (valueOrSelf u bindings v).Shows u true x ∧
        u.varKey x = u.varKey w := by
  rcases Ty.shows_iff.1 shows with ⟨c, raw, shows⟩ | free
  · rcases (Ty.mem_rawClasses_subst settled).1 raw with ⟨d, raw, same⟩ | ⟨v, free, raw⟩
    · cases List.mem_singleton.1 same
      exact .inl ⟨c, raw, shows⟩
    · exact .inr ⟨v, free, w, Ty.shows_iff.2 (.inl ⟨c, raw, shows⟩), rfl⟩
  · have occurs : u.varKey w ∈ (t.resolveInScope u bindings).freeIds u :=
      Ty.mem_freeIds.2 ⟨w, free, rfl⟩
    obtain ⟨v, free, occurs⟩ := (Ty.mem_freeIds_resolveInScope settled).1 occurs
    obtain ⟨x, free', key⟩ := Ty.mem_freeIds.1 occurs
    exact .inr ⟨v, free, x, Ty.shows_iff.2 (.inr free'), key⟩

/-- A variable with a binding takes a value that the binding shows, or it stays free like the variable
of the binding. -/
theorem shows_valueOrSelf_of_mem {bindings : List TyVar} {v : VarRef} {b : TyVar}
    (member : b ∈ bindings) (key : b.key u = u.varKey v) {x : VarRef}
    (shows : (valueOrSelf u bindings v).Shows u true x) :
    ∃ b' ∈ bindings, ∃ y, b'.shown.Shows u true y ∧ u.varKey y = u.varKey x := by
  induction bindings with
  | nil => cases member
  | cons first rest ih =>
    by_cases same : first.key u = u.varKey v
    · refine ⟨first, List.mem_cons_self, ?_⟩
      cases first with
      | free w =>
        have stays : valueOrSelf u (.free w :: rest) v = .variable (.free v) :=
          valueOrSelf_of_none (by rw [valueFor?_cons, if_pos same]; rfl)
        rw [stays, Ty.shows_free] at shows
        exact ⟨w, .free w, same.trans (congrArg u.varKey shows).symm⟩
      | bound w s =>
        have takes : valueOrSelf u (.bound w s :: rest) v = s :=
          valueOrSelf_of_some (by rw [valueFor?_cons, if_pos same]; rfl)
        rw [takes] at shows
        exact ⟨x, shows, rfl⟩
    · have skipped : valueOrSelf u (first :: rest) v = valueOrSelf u rest v := by
        simp only [valueOrSelf, valueFor?_cons, if_neg same]
      have later : b ∈ rest := (List.mem_cons.1 member).resolve_left fun here =>
        same (here ▸ key)
      obtain ⟨b', inside, found⟩ := ih later (skipped ▸ shows)
      exact ⟨b', List.mem_cons_of_mem _ inside, found⟩

end shown

inductive Member where
  | field (f : Field)
  | method (m : Method)
  | constructor (k : Constructor)

namespace Executable

/-- The text of a method or constructor without variables of its own, where all variables count as
defined. -/
def plainText (u : Universe) (e : Executable) (returns : Option Ty) (name : String) : String :=
  let text := Ty.bareText u {}
  let parameters := e.parameters.map fun p => text p.type ++ " " ++ p.name
  let throws := if e.exceptions.isEmpty then "" else
    " throws " ++ ", ".intercalate (e.exceptions.map text)
  e.modifiers.lead ++ (returns.elim "" fun t => text t ++ " ") ++ name ++ inParentheses parameters ++
    throws

def writeNamed (u : Universe) (parameters : List Parameter) (naming : Naming) :
    Rendering (List String) :=
  (List.zipWith (fun type p => type ++ " " ++ p.name) · parameters) <$>
    Rendering.types u naming (parameters.map (·.type))

def writeThrows (u : Universe) (e : Executable) (naming : Naming) : Rendering String :=
  (fun texts => if texts.isEmpty then "" else " throws " ++ ", ".intercalate texts) <$>
    Rendering.types u naming e.exceptions

def write (u : Universe) (e : Executable) (returns : Option Ty) (name : String) (naming : Naming) :
    Rendering String := do
  let own ← e.writeOwn u naming
  let returned ← writeReturn u naming returns
  let parameters ← writeNamed u e.parameters naming
  let throws ← e.writeThrows u naming
  return e.modifiers.lead ++ own ++ returned ++ name ++ inParentheses parameters ++ throws

theorem display_eq_write (e : Executable) (returns : Option Ty) (name : String) :
    e.display u returns name = e.scope.write (e.write u returns name) := by
  unfold display
  congr 1
  funext naming
  simp only [write, writeNamed, writeThrows, bind_map_left]
  rfl

def layOwn (u : Universe) (e : Executable) (naming : Naming) : Rendering Layout := do
  let vars ← Rendering.layVariables u naming e.ownVariables
  return if vars.isEmpty then .text "" else .angled vars ++ .text " "

def layReturn (u : Universe) (naming : Naming) : Option Ty → Rendering Layout
  | some t => do
    let layout ← Rendering.layType u naming t
    return layout ++ .text " "
  | none => return .text ""

def layParameters (u : Universe) (naming : Naming) : List Parameter → Rendering (List Layout)
  | [] => return []
  | p :: rest => do
    let layout ← Rendering.layType u naming p.type
    let layouts ← layParameters u naming rest
    return (layout ++ .text " " ++ .text p.name) :: layouts

def layThrows (u : Universe) (e : Executable) (naming : Naming) : Rendering Layout := do
  let exceptions ← Rendering.layTypes u naming e.exceptions
  return if exceptions.isEmpty then .text "" else .text " throws " ++ .separated ", " exceptions

def lay (u : Universe) (e : Executable) (returns : Option Ty) (name : String) (naming : Naming) :
    Rendering Layout := do
  let own ← e.layOwn u naming
  let returned ← layReturn u naming returns
  let parameters ← layParameters u naming e.parameters
  let throws ← e.layThrows u naming
  return .text e.modifiers.lead ++ own ++ returned ++ .text name ++ .text "(" ++
    .separated ", " parameters ++ .text ")" ++ throws

end Executable

namespace Member

def scope : Member → Scope
  | field f => f.scope
  | method m => m.scope
  | constructor k => k.scope

def modifiers : Member → Modifiers
  | field f => f.modifiers
  | method m => m.modifiers
  | constructor k => k.modifiers

def ownVariables : Member → List TyVar
  | field _ => []
  | method m => m.executable.ownVariables
  | constructor k => k.executable.ownVariables

/-- The types of a member but for those it throws. -/
def types : Member → List Ty
  | field f => [f.type]
  | method m => m.returnType :: m.paramTypes
  | constructor k => k.executable.paramTypes

def exceptions : Member → List Ty
  | field _ => []
  | method m => m.executable.exceptions
  | constructor k => k.executable.exceptions

def display (u : Universe) : Member → Except ReflectionError String
  | field f => f.display u
  | method m => m.display u
  | constructor k => k.display u

def write (u : Universe) (m : Member) (naming : Naming) : Rendering String :=
  match m with
  | field f => do
    let type ← Rendering.type u naming true f.type
    return f.modifiers.lead ++ type ++ " " ++ f.name
  | method m => m.executable.write u (some m.returnType) m.name naming
  | constructor k => k.executable.write u none k.name naming

theorem display_eq_write (m : Member) : m.display u = m.scope.write (m.write u) := by
  cases m with
  | field f => rfl
  | method m => exact m.executable.display_eq_write _ _
  | constructor k => exact k.executable.display_eq_write _ _

/-- The text of a member without variables of its own, where all variables count as defined. -/
def plainText (u : Universe) : Member → String
  | field f => f.modifiers.lead ++ f.type.bareText u {} ++ " " ++ f.name
  | method m => m.executable.plainText u (some m.returnType) m.name
  | constructor k => k.executable.plainText u none k.name

def lay (u : Universe) (m : Member) (naming : Naming) : Rendering Layout :=
  match m with
  | field f => do
    let layout ← Rendering.layType u naming f.type
    return .text f.modifiers.lead ++ layout ++ .text " " ++ .text f.name
  | method m => m.executable.lay u (some m.returnType) m.name naming
  | constructor k => k.executable.lay u none k.name naming

/-- The display text of a member with its bound clauses marked. -/
def layout (u : Universe) (m : Member) : Except ReflectionError Layout :=
  ((RenderContext.primed m.scope.primed).run (m.lay u)).1

end Member

namespace Executable

theorem erases_layOwn (e : Executable) :
    Erases Layout.toText (e.layOwn u naming) (e.writeOwn u naming) :=
  (Rendering.erases_layVariables _).bind fun vars => .pure (by cases vars <;> simp)

theorem erases_layReturn (returns : Option Ty) :
    Erases Layout.toText (layReturn u naming returns) (writeReturn u naming returns) := by
  cases returns with
  | none => exact .pure rfl
  | some t => exact (Rendering.erases_layType t).bind fun _ => .pure rfl

theorem erases_layParameters (parameters : List Parameter) : Erases (List.map Layout.toText)
    (layParameters u naming parameters) (writeNamed u parameters naming) := by
  induction parameters with
  | nil => exact .pure rfl
  | cons p rest ih =>
    have split : writeNamed u (p :: rest) naming = do
        let text ← Rendering.type u naming true p.type
        let texts ← writeNamed u rest naming
        return (text ++ " " ++ p.name) :: texts := by
      simp only [writeNamed, Rendering.types, List.map_cons, writeAll, map_bind, bind_map_left, map_pure,
        List.zipWith_cons_cons]
      rfl
    rw [split]
    exact (Rendering.erases_layType p.type).bind fun _ => ih.bind fun _ => .pure rfl

theorem erases_layThrows (e : Executable) :
    Erases Layout.toText (e.layThrows u naming) (e.writeThrows u naming) := by
  rw [writeThrows, map_eq_pure_bind]
  exact (Rendering.erases_layTypes _).bind fun layouts => .pure (by cases layouts <;> simp)

theorem erases_lay (e : Executable) (returns : Option Ty) (name : String) :
    Erases Layout.toText (e.lay u returns name naming) (e.write u returns name naming) :=
  e.erases_layOwn.bind fun _ => (erases_layReturn returns).bind fun _ =>
    (erases_layParameters e.parameters).bind fun _ => e.erases_layThrows.bind fun _ =>
      .pure (by simp [inParentheses, String.append_assoc])

section marks

variable (defines : naming.bare = false) (layered : u.Layered)

include defines layered

theorem marks_layOwn (e : Executable) :
    Marks u Layout.clauses [] (fun _ => False) (e.layOwn u naming) :=
  ((Rendering.marks_layVariables defines layered _).map fun vars => by cases vars <;> simp).mono
    fun _ => False.elim

theorem marks_layReturn (returns : Option Ty) :
    Marks u Layout.clauses [] (fun _ => False) (layReturn u naming returns) := by
  cases returns with
  | none => exact .pure rfl
  | some t =>
    exact ((Rendering.marks_layType defines layered t).map fun _ => by simp).mono fun _ => False.elim

theorem marks_layParameters (parameters : List Parameter) :
    Marks u (List.flatMap Layout.clauses) [] (fun _ => False)
      (layParameters u naming parameters) := by
  induction parameters with
  | nil => exact .pure rfl
  | cons p rest ih =>
    exact ((Rendering.marks_layType defines layered p.type).bind fun _ =>
      ih.bind fun _ => .pure (by simp)).mono fun _ => False.elim

theorem marks_layThrows (e : Executable) :
    Marks u Layout.clauses [] (fun _ => False) (e.layThrows u naming) :=
  ((Rendering.marks_layTypes defines layered _).map fun layouts => by cases layouts <;> simp).mono
    fun _ => False.elim

theorem marks_lay (e : Executable) (returns : Option Ty) (name : String) :
    Marks u Layout.clauses [] (fun _ => False) (e.lay u returns name naming) :=
  ((marks_layOwn defines layered e).bind fun _ => (marks_layReturn defines layered returns).bind
    fun _ => (marks_layParameters defines layered e.parameters).bind fun _ =>
      (marks_layThrows defines layered e).bind fun _ => .pure (by simp)).mono fun _ => False.elim

end marks

end Executable

section plain

variable {before : List String} (layered : u.Layered)

include layered

theorem Rendering.runFrom_type_of_defined {t : Ty}
    (known : ∀ w, t.Shows u true w → u.varKey w ∈ before) :
    (Rendering.type u {} true t).runFrom before = (.ok (t.bareText u {}), before) :=
  t.runFrom_write_of_defined layered rfl known

theorem Rendering.runFrom_types_of_defined {types : List Ty}
    (known : ∀ t ∈ types, ∀ w, t.Shows u true w → u.varKey w ∈ before) :
    (Rendering.types u {} types).runFrom before = (.ok (types.map (Ty.bareText u {})), before) :=
  runFrom_writeAll_of_defined fun t member => t.runFrom_write_of_defined layered rfl (known t member)

/-- An executable that declares no variables and shows defined ones only is written plain. -/
theorem Executable.runFrom_write_of_defined {e : Executable} (own : e.ownVariables = [])
    (returns : Option Ty) (name : String) (known : ∀ t ∈ returns.toList ++ e.paramTypes ++
      e.exceptions, ∀ w, t.Shows u true w → u.varKey w ∈ before) :
    (e.write u returns name {}).runFrom before = (.ok (e.plainText u returns name), before) := by
  simp only [List.mem_append, or_imp, forall_and] at known
  obtain ⟨⟨knownReturn, knownParams⟩, knownThrows⟩ := known
  have ownText : (e.writeOwn u {}).runFrom before = (.ok "", before) := by
    rw [writeOwn, own]
    rfl
  have returned : (writeReturn u {} returns).runFrom before =
      (.ok (returns.elim "" fun t => t.bareText u {} ++ " "), before) := by
    cases returns with
    | none => rfl
    | some t =>
      have text := Rendering.runFrom_type_of_defined layered (knownReturn t (by simp))
      simp only [writeReturn, Rendering.runFrom_bind, text]
      rfl
  have parameters : (writeNamed u e.parameters {}).runFrom before =
      (.ok (e.parameters.map fun p => p.type.bareText u {} ++ " " ++ p.name), before) := by
    have texts := Rendering.runFrom_types_of_defined layered knownParams
    rw [paramTypes] at texts
    rw [writeNamed, Rendering.runFrom_map, texts]
    simp [Except.map, List.zipWith_map_left, List.zipWith_self]
  have throws : (e.writeThrows u {}).runFrom before =
      (.ok (if e.exceptions.isEmpty then "" else
        " throws " ++ ", ".intercalate (e.exceptions.map (Ty.bareText u {}))), before) := by
    rw [writeThrows, Rendering.runFrom_map, Rendering.runFrom_types_of_defined layered knownThrows]
    simp [Except.map]
  simp only [write, Rendering.runFrom_bind, ownText, returned, parameters, throws,
    Rendering.runFrom_pure]
  simp [plainText]

end plain

namespace Member

theorem erases_lay (m : Member) :
    Erases Layout.toText (m.lay u naming) (m.write u naming) := by
  cases m with
  | field f => exact (Rendering.erases_layType f.type).bind fun _ => .pure rfl
  | method m => exact m.executable.erases_lay _ _
  | constructor k => exact k.executable.erases_lay _ _

theorem display_eq_layout (m : Member) : m.display u = (m.layout u).map Layout.toText :=
  m.display_eq_write.trans (congrArg Prod.fst (m.erases_lay.run_eq (.primed m.scope.primed)))

section texts

variable (layered : u.Layered)

include layered

theorem marks_lay (m : Member) :
    Marks u Layout.clauses [] (fun _ => False) (m.lay u {}) := by
  cases m with
  | field f =>
    exact ((Rendering.marks_layType rfl layered f.type).map fun _ => by simp).mono fun _ => False.elim
  | method m => exact Executable.marks_lay rfl layered m.executable _ _
  | constructor k => exact Executable.marks_lay rfl layered k.executable _ _

/-- Each clause in the text of a member belongs to a variable its scope does not define, and no two
belong to variables of one id. -/
theorem clauses_layout {m : Member} {layout : Layout} (laid : m.layout u = .ok layout) :
    (layout.clauses.map u.varKey).Nodup ∧ ∀ v ∈ layout.clauses, u.varKey v ∉ m.scope.primed := by
  obtain ⟨vars, marked, opened, -⟩ := m.marks_lay layered m.scope.primed layout _ (Prod.ext laid rfl)
  rw [marked]
  exact ⟨opened.apart, opened.new⟩

theorem display_eq_plainText {m : Member} (own : m.ownVariables = [])
    (known : ∀ t ∈ m.types ++ m.exceptions, ∀ w, t.Shows u true w → u.varKey w ∈ m.scope.primed) :
    m.display u = .ok (m.plainText u) := by
  have ran : (m.write u {}).runFrom m.scope.primed = (.ok (m.plainText u), m.scope.primed) := by
    cases m with
    | field f =>
      have text : (Rendering.type u {} true f.type).runFrom f.scope.primed =
          (.ok (f.type.bareText u {}), f.scope.primed) :=
        Rendering.runFrom_type_of_defined layered (known f.type (List.mem_singleton.2 rfl))
      simp only [write, scope, Rendering.runFrom_bind, text, Rendering.runFrom_pure, plainText]
    | method m => exact Executable.runFrom_write_of_defined layered own (some m.returnType) m.name known
    | constructor k => exact Executable.runFrom_write_of_defined layered own none k.name known
  exact m.display_eq_write.trans (congrArg Prod.fst ran)

end texts

end Member

/-- A class or applied type declares a member, which is written with some types and is declared to
throw others. -/
inductive Declarer.HasMember (u : Universe) (d : Declarer) :
    Member → List DeclType → List DeclType → Prop where
  | field {i : Nat} {f : Field} : d.DeclaresField u i f → d.HasMember u (.field f) [f.decl.type] []
  | method {i : Nat} {m : Method} : d.Declares u i m →
      d.HasMember u (.method m) (m.decl.returnType :: m.decl.params.map (·.type)) m.decl.exceptions
  | constructor {i : Nat} {k : Constructor} {decl : ExecutableDecl} : d.DeclaresConstructor u i k →
      (u.decl d.classId).constructors[i]? = some decl →
        d.HasMember u (.constructor k) (decl.params.map (·.type)) decl.exceptions

theorem listEach_origin {α β : Type} {make : Nat → α → Except ReflectionError β} {start : Nat}
    {decls : List α} {made : List β} (listed : listEach make start decls = .ok made) :
    ∀ b ∈ made, ∃ i d, decls[i]? = some d ∧ make (start + i) d = .ok b := by
  induction decls generalizing start made with
  | nil =>
    cases listed
    exact nofun
  | cons d rest ih =>
    obtain ⟨first, here, listed⟩ := bind_eq_ok.1 listed
    obtain ⟨others, tail, same⟩ := bind_eq_ok.1 listed
    cases same
    intro b member
    rcases List.mem_cons.1 member with rfl | member
    · exact ⟨0, d, rfl, here⟩
    · obtain ⟨i, e, found, there⟩ := ih tail b member
      refine ⟨i + 1, e, found, ?_⟩
      rw [← there]
      congr 1
      omega

namespace Declarer

variable {d : Declarer} {anchored : Bool}

/-! What a class or applied type lists as declared are members of it. -/

theorem hasMember_of_declaredFields {fields : List Field}
    (listed : d.declaredFields u anchored = .ok fields) :
    ∀ f ∈ fields, d.HasMember u (.field f) [f.decl.type] [] := by
  obtain ⟨scope, inScope, listed⟩ := bind_eq_ok.1 listed
  intro f member
  obtain ⟨i, decl, found, made⟩ := listEach_origin listed f member
  rw [Scope.classDecl, Scope.classId, declaring_of_scope inScope] at found
  exact .field ⟨anchored, scope, decl, inScope, found, made⟩

theorem hasMember_of_declaredMethods {skipBridges : Bool} {methods : List Method}
    (listed : d.declaredMethods u skipBridges anchored = .ok methods) :
    ∀ m ∈ methods,
      d.HasMember u (.method m) (m.decl.returnType :: m.decl.params.map (·.type)) m.decl.exceptions :=
  fun m member =>
    let ⟨_, declares⟩ := declaredMethods_origin listed m member
    .method declares

theorem hasMember_of_declaredConstructors {constructors : List Constructor}
    (listed : d.declaredConstructors u anchored = .ok constructors) :
    ∀ k ∈ constructors, ∃ decl ∈ (u.decl d.classId).constructors,
      d.HasMember u (.constructor k) (decl.params.map (·.type)) decl.exceptions := by
  obtain ⟨scope, inScope, listed⟩ := bind_eq_ok.1 listed
  intro k member
  obtain ⟨i, decl, found, made⟩ := listEach_origin listed k member
  rw [Nat.zero_add] at made
  rw [Scope.classDecl, Scope.classId, declaring_of_scope inScope] at found
  exact ⟨decl, List.mem_of_getElem? found,
    .constructor ⟨anchored, scope, decl, inScope, found, made⟩ found⟩

end Declarer

def Member.ShowsOnly (u : Universe) (m : Member) (defined : List String) : Prop :=
  ∀ t ∈ m.types ++ m.exceptions, ∀ w, t.Shows u true w → u.varKey w ∈ defined

/-- The declaring type of a scope has been written, and the scope defines what this has defined. -/
theorem Scope.primed_of {anchored : Bool} {d : Declarer} {scope : Scope}
    (found : Scope.of u anchored d = .ok scope) :
    (∃ text, (d.toTy.render u {} true).1 = .ok text) ∧
      ∀ id, id ∈ scope.primed ↔ id ∈ (d.toTy.render u {} true).2.defined := by
  unfold Scope.of at found
  rcases outcome : d.toTy.render u {} true with ⟨e | text, ctx⟩
  · rw [outcome] at found
    cases found
  · rw [outcome] at found
    cases found
    refine ⟨⟨text, rfl⟩, fun id => ?_⟩
    rw [RenderContext.definedIds, List.mem_mergeSort, List.mem_eraseDups]

/-- What is known of a member of a class or applied type. -/
structure Member.SeenFrom (u : Universe) (d : Declarer) (raws thrown : List DeclType) (m : Member) :
    Prop where
  scope : ∃ anchored, Scope.of u anchored d = .ok m.scope
  types : List.Forall₂ (fun t s => ∃ r, t.resolve u = .ok r ∧ s = r.resolveInScope u
    ((if m.modifiers.isStatic then [] else d.typeVariables u) ++ m.ownVariables)) raws m.types
  exceptions : List.Forall₂ (fun t s => t.resolve u = .ok s) thrown m.exceptions

namespace Declarer.HasMember

variable {d : Declarer} {m : Member} {raws thrown : List DeclType}

theorem seenFrom (has : d.HasMember u m raws thrown) : m.SeenFrom u d raws thrown := by
  have effective {anchored : Bool} {scope : Scope} (inScope : Scope.of u anchored d = .ok scope)
      (modifiers : Modifiers) (own : List TyVar) : scope.effective u modifiers own =
        (if modifiers.isStatic then [] else d.typeVariables u) ++ own := by
    rw [Scope.effective, Scope.typeVariables, declaring_of_scope inScope]
  cases has with
  | @field i f declares =>
    obtain ⟨anchored, scope, decl, inScope, -, made⟩ := declares
    obtain ⟨s, seen, made⟩ := bind_eq_ok.1 made
    obtain ⟨r, resolved, seen⟩ := bind_eq_ok.1 seen
    cases seen
    cases made
    rw [effective inScope]
    exact ⟨⟨anchored, inScope⟩, .cons ⟨r, resolved, rfl⟩ .nil, .nil⟩
  | @method i m declares =>
    obtain ⟨anchored, scope, decl, inScope, -, made⟩ := declares
    obtain ⟨e, executable, made⟩ := bind_eq_ok.1 made
    obtain ⟨returnType, returned, made⟩ := bind_eq_ok.1 made
    obtain ⟨signature, -, made⟩ := bind_eq_ok.1 made
    obtain ⟨key, -, made⟩ := bind_eq_ok.1 made
    obtain ⟨parameters, exceptions, resolved, thrown, rfl⟩ := Executable.ofDecl_eq_ok.1 executable
    obtain ⟨r, found, seen⟩ := bind_eq_ok.1 returned
    cases seen
    cases made
    have params := Executable.paramTypes_of_resolveParams resolved
    rw [effective inScope] at params
    refine ⟨⟨anchored, inScope⟩, .cons ⟨r, found, ?_⟩ (List.forall₂_map_left_iff.2 params),
      resolveAll_eq_ok.1 thrown⟩
    exact congrArg (r.resolveInScope u) (effective inScope _ _)
  | @constructor i k decl declares found =>
    obtain ⟨anchored, scope, decl', inScope, found', made⟩ := declares
    cases found'.symm.trans found
    obtain ⟨e, executable, made⟩ := bind_eq_ok.1 made
    obtain ⟨signature, -, made⟩ := bind_eq_ok.1 made
    obtain ⟨parameters, exceptions, resolved, thrown, rfl⟩ := Executable.ofDecl_eq_ok.1 executable
    cases made
    have params := Executable.paramTypes_of_resolveParams resolved
    rw [effective inScope] at params
    exact ⟨⟨anchored, inScope⟩, List.forall₂_map_left_iff.2 params, resolveAll_eq_ok.1 thrown⟩

/-- A member over variables that have an argument shows what the arguments show. -/
theorem showsOnly_applied (layered : u.Layered) {c : ClassId} {args : List Ty}
    (has : (Declarer.applied c (u.bindVars (.ofClass c) args)).HasMember u m raws thrown)
    (instance_ : m.modifiers.isStatic = false) (own : m.ownVariables = [])
    (vars : ∀ t ∈ raws, ∀ v ∈ t.vars,
      v ∈ u.declaredVars ∧ v.owner = .ofClass c ∧ v.index < args.length)
    (plain : ∀ t ∈ thrown, t.vars = [])
    (raw : ∀ t ∈ raws ++ thrown, ∀ e ∈ t.rawClasses, ∀ w, ¬(Ty.ofClass e).Shows u true w) :
    m.ShowsOnly u ((Ty.apply u c args).render u {} true).2.defined := by
  obtain ⟨⟨anchored, inScope⟩, types, exceptions⟩ := has.seenFrom
  obtain ⟨⟨text, written⟩, -⟩ := Scope.primed_of inScope
  rw [instance_, own] at types
  intro s member w shows
  rcases List.mem_append.1 member with member | member
  · obtain ⟨t, inside, r, resolved, rfl⟩ := exists_left_of_mem types member
    have settled := DeclType.settled_of_resolve resolved
    rcases settled.shows_resolveInScope shows with ⟨e, bare, shows⟩ | ⟨v, free, x, shows, key⟩
    · have bare := DeclType.rawClasses_of_resolve resolved e bare
      exact absurd shows (raw t (List.mem_append_left _ inside) e bare w)
    · -- The variable is written by some variable of its id, and that one has a binding.
      obtain ⟨v', used, same⟩ :=
        DeclType.mem_vars_of_freeIds resolved _ (Ty.mem_freeIds.2 ⟨v, free, rfl⟩)
      obtain ⟨declared, owner, given⟩ := vars t inside v' used
      obtain ⟨_, i⟩ := v'
      cases owner
      have binding := List.mem_of_getElem? (getElem?_bindVars declared (List.getElem?_eq_getElem given))
      have bound : ((TyVar.free ⟨.ofClass c, i⟩).bindTo u args[i]).key u = u.varKey v := by
        rw [TyVar.key_bindTo]
        exact same
      obtain ⟨b, member, y, shows, key'⟩ :=
        shows_valueOrSelf_of_mem (List.mem_append_left [] binding) bound shows
      rw [← key, ← key']
      rw [List.append_nil] at member
      exact layered.mem_defined rfl written (.binding rfl member shows)
  · obtain ⟨t, inside, resolved⟩ := exists_left_of_mem exceptions member
    rcases Ty.shows_iff.1 shows with ⟨e, bare, shows⟩ | free
    · have bare := DeclType.rawClasses_of_resolve resolved e bare
      exact absurd shows (raw t (List.mem_append_right _ inside) e bare w)
    · obtain ⟨v, used, -⟩ :=
        DeclType.mem_vars_of_freeIds resolved _ (Ty.mem_freeIds.2 ⟨w, free, rfl⟩)
      rw [plain t inside] at used
      cases used

/-- The text of a member never repeats the bounds in the text of its declaring type: each bound clause
in it belongs to a variable that is not defined there, and no two belong to variables of one id. Where
a member declares no variables and shows only those defined there, its text is plain. At a class
applied to arguments that is so of a member that is not static and declares no variables, if it is
written with variables that have an argument, throws types without variables, and no class without
arguments in these shows variables. -/
theorem bounds_displayed_once (layered : u.Layered) (has : d.HasMember u m raws thrown) :
    (∀ text, m.display u = .ok text → ∃ layout, m.layout u = .ok layout ∧ layout.toText = text ∧
      (layout.clauses.map u.varKey).Nodup ∧
      ∀ v ∈ layout.clauses, u.varKey v ∉ (d.toTy.render u {} true).2.defined) ∧
    (m.ownVariables = [] → m.ShowsOnly u (d.toTy.render u {} true).2.defined →
      m.display u = .ok (m.plainText u)) ∧
    ∀ c args, d = .applied c (u.bindVars (.ofClass c) args) → m.modifiers.isStatic = false →
      m.ownVariables = [] →
      (∀ t ∈ raws, ∀ v ∈ t.vars,
        v ∈ u.declaredVars ∧ v.owner = .ofClass c ∧ v.index < args.length) →
      (∀ t ∈ thrown, t.vars = []) →
      (∀ t ∈ raws ++ thrown, ∀ e ∈ t.rawClasses, ∀ w, ¬(Ty.ofClass e).Shows u true w) →
      m.ShowsOnly u (d.toTy.render u {} true).2.defined := by
  obtain ⟨anchored, inScope⟩ := has.seenFrom.scope
  have primed := (Scope.primed_of inScope).2
  refine ⟨?_, ?_, ?_⟩
  · intro text displayed
    rw [m.display_eq_layout] at displayed
    cases laid : m.layout u with
    | error e =>
      rw [laid] at displayed
      cases displayed
    | ok layout =>
      rw [laid] at displayed
      obtain ⟨apart, new⟩ := Member.clauses_layout layered laid
      exact ⟨layout, rfl, Except.ok.inj displayed, apart,
        fun v inside known => new v inside ((primed _).2 known)⟩
  · exact fun own known => Member.display_eq_plainText layered own fun t member w shows =>
      (primed _).2 (known t member w shows)
  · rintro c args rfl instance_ own vars plain raw
    exact has.showsOnly_applied layered instance_ own vars plain raw

end Declarer.HasMember

namespace Shelves

def top : ClassId := ⟨10⟩
def box : ClassId := ⟨11⟩
def shelf : ClassId := ⟨12⟩
def varA : DeclType := .variable ⟨.ofClass shelf, 0⟩
def varB : DeclType := .variable ⟨.ofClass shelf, 1⟩

/-- `class Top`, `class Box<E extends Top>` and `class Shelf<A, B extends Top>` with `B swap(A)`. -/
def classes : Universe :=
  (((Universe.initial.declare "Top").2.declare "Box").2.declare "Shelf").2
    |>.define box [.typeParam "E" [.ofClass top]]
    |>.define shelf [.typeParam "A" [], .typeParam "B" [.ofClass top],
      .method "swap" Modifiers.Flag.isPublic.set
        [.executable (.param { name := "first", type := varA }), .returns varB]]

def object : Ty := .ofClass Universe.object
def freeE : Ty := .variable (.free ⟨.ofClass box, 0⟩)

def shelfOf (args : List Ty) : Declarer := .applied shelf (classes.bindVars (.ofClass shelf) args)

def swapOf (args : List Ty) : Member := .method (((shelfOf args).methodAt? classes 0).getD default)

theorem made : classes.Made :=
  .define (.define (.declare _ (.declare _ (.declare _ .initial))) (by decide) trivial)
    (by decide) trivial

/-- `B` is `E` in `Shelf<Object, E>`, the text of which has the bound of `E`. -/
theorem display_swap_of_box :
    ((shelfOf [object, freeE]).toTy.render classes {} true).1 =
        .ok "Shelf<java.lang.Object, E extends Top>" ∧
      (swapOf [object, freeE]).ShowsOnly classes
        ((shelfOf [object, freeE]).toTy.render classes {} true).2.defined ∧
      (swapOf [object, freeE]).display classes = .ok "public E swap(java.lang.Object first)" ∧
      ∃ layout, (swapOf [object, freeE]).layout classes = .ok layout ∧
        layout.toText = "public E swap(java.lang.Object first)" ∧
        (layout.clauses.map classes.varKey).Nodup ∧ ∀ v ∈ layout.clauses, classes.varKey v ∉
          ((shelfOf [object, freeE]).toTy.render classes {} true).2.defined := by
  have has : (shelfOf [object, freeE]).HasMember classes (swapOf [object, freeE]) [varB, varA] [] :=
    .method (i := 0) (Declarer.declares_of_methodAt? rfl)
  obtain ⟨once, plain, premise⟩ := has.bounds_displayed_once made.layered
  have written : ∀ t ∈ [varB, varA], ∀ v ∈ t.vars,
      (classes.typeParam? v).isSome ∧ v.owner = .ofClass shelf ∧ v.index < 2 := by decide
  have bare : ∀ t ∈ [varB, varA], t.rawClasses = [] := by decide
  have only := premise shelf [object, freeE] rfl rfl rfl written nofun fun t member e raw => by
    rw [List.append_nil] at member
    rw [bare t member] at raw
    cases raw
  have text : (swapOf [object, freeE]).plainText classes = "public E swap(java.lang.Object first)" := by
    decide +kernel
  have shown := (plain rfl only).trans (congrArg Except.ok text)
  exact ⟨toOption_eq_some.1 (by decide +kernel), only, shown, once _ shown⟩

/-- Without an argument for `B`, the text of the method shows its bound. -/
theorem display_swap : (shelfOf [object]).HasMember classes (swapOf [object]) [varB, varA] [] ∧
    (swapOf [object]).modifiers.isStatic = false ∧ (swapOf [object]).ownVariables = [] ∧
    (∀ t ∈ [varB, varA], t.rawClasses = [] ∧ ∀ v ∈ t.vars, v.owner = .ofClass shelf) ∧
    ((shelfOf [object]).toTy.render classes {} true).1 = .ok "Shelf<java.lang.Object>" ∧
    (swapOf [object]).plainText classes = "public B swap(java.lang.Object first)" ∧
    (swapOf [object]).display classes = .ok "public B extends Top swap(java.lang.Object first)" ∧
    ¬(swapOf [object]).ShowsOnly classes
      ((shelfOf [object]).toTy.render classes {} true).2.defined := by
  have has : (shelfOf [object]).HasMember classes (swapOf [object]) [varB, varA] [] :=
    .method (i := 0) (Declarer.declares_of_methodAt? rfl)
  have shown : (swapOf [object]).display classes =
      .ok "public B extends Top swap(java.lang.Object first)" :=
    toOption_eq_some.1 (by decide +kernel)
  refine ⟨has, rfl, rfl, by decide, toOption_eq_some.1 (by decide +kernel), by decide +kernel, shown,
    fun only => ?_⟩
  have undefined : classes.varKey ⟨.ofClass shelf, 1⟩ ∉
      ((shelfOf [object]).toTy.render classes {} true).2.defined := by decide +kernel
  exact undefined (only (.variable (.free ⟨.ofClass shelf, 1⟩)) (.head _) _ (.free _))

end Shelves

end JavaTypes
