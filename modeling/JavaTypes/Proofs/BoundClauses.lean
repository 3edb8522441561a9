import JavaTypes.Proofs.RenderedVars

/-!
Where bound clauses stand in a text. A layout is a text in which each bound clause is marked with the
variable it belongs to. A pass that makes layouts goes through a type like the one that makes texts;
as a variable is defined when its clause begins, one pass writes no clause for a variable that is
defined before and no two clauses for variables of one id.
-/
namespace JavaTypes

variable {u : Universe} {naming : Naming} {withVars : Bool}

/-- A text with its bound clauses marked. -/
inductive Layout where
  | text (content : String)
  | clause (v : VarRef) (body : Layout)
  | append (first second : Layout)

namespace Layout

instance : Append Layout := ⟨.append⟩

def toText : Layout → String
  | .text content => content
  | .clause _ body => body.toText
  | .append first second => first.toText ++ second.toText

/-- The variables of all bound clauses in the text, in the order in which the clauses begin. -/
def clauses : Layout → List VarRef
  | .text _ => []
  | .clause v body => v :: body.clauses
  | .append first second => first.clauses ++ second.clauses

def separated (separator : String) : List Layout → Layout
  | [] => .text ""
  | [only] => only
  | first :: second :: rest => first ++ .text separator ++ separated separator (second :: rest)

def angled (layouts : List Layout) : Layout :=
  if layouts.isEmpty then .text "" else .text "<" ++ separated ", " layouts ++ .text ">"

def bounded (keyword : String) (bounds : List Layout) : Layout :=
  if bounds.isEmpty then .text "" else .text keyword ++ separated " & " bounds

@[simp] theorem toText_text (content : String) : (text content).toText = content := rfl

@[simp] theorem toText_clause (v : VarRef) (body : Layout) : (clause v body).toText = body.toText := rfl

@[simp] theorem toText_append (a b : Layout) : (a ++ b).toText = a.toText ++ b.toText := rfl

@[simp] theorem clauses_text (content : String) : (text content).clauses = [] := rfl

@[simp] theorem clauses_clause (v : VarRef) (body : Layout) :
    (clause v body).clauses = v :: body.clauses := rfl

@[simp] theorem clauses_append (a b : Layout) : (a ++ b).clauses = a.clauses ++ b.clauses := rfl

@[simp] theorem toText_separated (separator : String) (layouts : List Layout) :
    (separated separator layouts).toText = separator.intercalate (layouts.map toText) := by
  induction layouts with
  | nil => rfl
  | cons first rest ih =>
    cases rest with
    | nil => simp [separated]
    | cons second rest => simp [separated, ih, String.intercalate_cons_cons]

@[simp] theorem clauses_separated (separator : String) (layouts : List Layout) :
    (separated separator layouts).clauses = layouts.flatMap clauses := by
  induction layouts with
  | nil => rfl
  | cons first rest ih =>
    cases rest with
    | nil => simp [separated]
    | cons second rest => simp [separated, ih]

@[simp] theorem toText_angled (layouts : List Layout) :
    (angled layouts).toText = JavaTypes.angled (layouts.map toText) := by
  cases layouts <;> simp [angled, JavaTypes.angled]

@[simp] theorem clauses_angled (layouts : List Layout) :
    (angled layouts).clauses = layouts.flatMap clauses := by
  cases layouts <;> simp [angled]

@[simp] theorem toText_bounded (keyword : String) (bounds : List Layout) :
    (bounded keyword bounds).toText = boundClause keyword (bounds.map toText) := by
  cases bounds <;> simp [bounded, boundClause]

@[simp] theorem clauses_bounded (keyword : String) (bounds : List Layout) :
    (bounded keyword bounds).clauses = bounds.flatMap clauses := by
  cases bounds <;> simp [bounded]

end Layout

section passes

variable (u : Universe) (naming : Naming) (withVars : Bool) (bounds : VarRef → Rendering Layout)

/-- A free variable, with a mark at the clause that follows its first mention. -/
def layFree (v : VarRef) : Rendering Layout := do
  let id := u.varKey v
  let text := .text ((naming.aliases.lookup id).getD (u.varName v))
  if naming.bare then
    return text
  if (← get).contains id then
    return text
  modify (id :: ·)
  let clause ← bounds v
  return text ++ .clause v clause

def layDeclared : List TyVar → Rendering (List Layout)
  | [] => return []
  | v :: rest => do
    let layout ← layFree u naming bounds v.ref
    let layouts ← layDeclared rest
    return layout :: layouts

mutual

def Ty.lay : Ty → Rendering Layout
  | .ofClass c => do
    let (bottom, depth) := u.innermost c.index c
    let name := u.className naming.imports bottom
    if withVars then
      let vars ← layDeclared u naming bounds (u.classVariables bottom)
      return .text name ++ .angled vars ++ .text (brackets depth)
    else
      return .text (name ++ brackets depth)
  | .applied c bindings => do
    let name := u.className naming.imports c
    if withVars then
      let vars ← layVars bindings
      return .text name ++ .angled vars
    else
      return .text name
  | .variable (.free v) => layFree u naming bounds v
  | .variable (.bound _ t) => t.lay
  | .wildcard upper lower => do
    let lower ← layAll lower
    let upper ← layAll upper
    return .text "?" ++ .bounded " super " lower ++ .bounded " extends " upper
  | .array element => do
    let layout ← element.lay
    return layout ++ .text "[]"

def layAll : List Ty → Rendering (List Layout)
  | [] => return []
  | t :: rest => do
    let layout ← t.lay
    let layouts ← layAll rest
    return layout :: layouts

def layVars : List TyVar → Rendering (List Layout)
  | [] => return []
  | .free v :: rest => do
    let layout ← layFree u naming bounds v
    let layouts ← layVars rest
    return layout :: layouts
  | .bound _ t :: rest => do
    let layout ← t.lay
    let layouts ← layVars rest
    return layout :: layouts

end

end passes

def layBounds (u : Universe) (naming : Naming) (withVars : Bool) : Nat → VarRef → Rendering Layout
  | 0, _ => return .text ""
  | limit + 1, v => do
    let bounds ← Rendering.ofExcept (u.varBounds v)
    let layouts ← layAll u naming withVars (layBounds u naming withVars limit) bounds
    return .bounded " extends " layouts

namespace Rendering

def layType (u : Universe) (naming : Naming) (t : Ty) : Rendering Layout :=
  t.lay u naming true (layBounds u naming true u.paramCount)

def layTypes (u : Universe) (naming : Naming) (types : List Ty) : Rendering (List Layout) :=
  layAll u naming true (layBounds u naming true u.paramCount) types

def layVariables (u : Universe) (naming : Naming) (vars : List TyVar) : Rendering (List Layout) :=
  layVars u naming true (layBounds u naming true u.paramCount) vars

end Rendering

/-- A pass does what another one does, but for what `view` leaves out of its result. -/
def Erases {α β : Type} (view : α → β) (laid : Rendering α) (pass : Rendering β) : Prop :=
  view <$> laid = pass

namespace Erases

variable {α α' β β' : Type} {view : α → β} {view' : α' → β'}

theorem pure {a : α} {b : β} (same : view a = b) : Erases view (pure a) (pure b) := by
  rw [Erases, map_pure, same]

theorem refl (pass : Rendering α) : Erases id pass pass := id_map pass

theorem bind {laid : Rendering α} {pass : Rendering β} {next : α → Rendering α'}
    {next' : β → Rendering β'} (first : Erases view laid pass)
    (second : ∀ a, Erases view' (next a) (next' (view a))) :
    Erases view' (laid >>= next) (pass >>= next') := by
  unfold Erases at first second ⊢
  rw [← first, map_bind, bind_map_left]
  exact bind_congr second

theorem cons {first : Rendering α} {first' : Rendering β} {rest : Rendering (List α)}
    {rest' : Rendering (List β)} (head : Erases view first first')
    (tail : Erases (List.map view) rest rest') :
    Erases (List.map view) (do return (← first) :: (← rest))
      (do return (← first') :: (← rest')) :=
  head.bind fun _ => tail.bind fun _ => .pure rfl

end Erases

section erasure

variable {laid : VarRef → Rendering Layout} {bounds : VarRef → Rendering String}
  (clauses : ∀ v, Erases Layout.toText (laid v) (bounds v))

include clauses

theorem erases_layFree (v : VarRef) :
    Erases Layout.toText (layFree u naming laid v) (writeFree u naming bounds v) := by
  unfold layFree writeFree
  cases naming.bare with
  | true => exact .pure rfl
  | false =>
    refine Erases.bind (Erases.refl get) fun defined => ?_
    by_cases known : defined.contains (u.varKey v) = true
    · simp only [id_eq, known, if_true]
      exact .pure rfl
    · simp only [id_eq, known]
      exact (Erases.refl _).bind fun _ => (clauses v).bind fun clause => .pure rfl

theorem erases_layDeclared (vars : List TyVar) : Erases (List.map Layout.toText)
    (layDeclared u naming laid vars) (writeDeclared u naming bounds vars) := by
  induction vars with
  | nil => exact .pure rfl
  | cons v rest ih => exact (erases_layFree clauses v.ref).cons ih

omit clauses in
theorem erases_layAll {types : List Ty} (each : ∀ t ∈ types,
      Erases Layout.toText (t.lay u naming withVars laid) (t.write u naming withVars bounds)) :
    Erases (List.map Layout.toText) (layAll u naming withVars laid types)
      (writeAll u naming withVars bounds types) := by
  induction types with
  | nil => exact .pure rfl
  | cons t rest ih =>
    obtain ⟨first, others⟩ := List.forall_mem_cons.1 each
    exact first.cons (ih others)

theorem erases_layVars {bindings : List TyVar} (each : ∀ v t, .bound v t ∈ bindings →
      Erases Layout.toText (t.lay u naming withVars laid) (t.write u naming withVars bounds)) :
    Erases (List.map Layout.toText) (layVars u naming withVars laid bindings)
      (writeVars u naming withVars bounds bindings) := by
  induction bindings with
  | nil => exact .pure rfl
  | cons b rest ih =>
    have others := ih fun v t member => each v t (List.mem_cons_of_mem b member)
    cases b with
    | free v => exact (erases_layFree clauses v).cons others
    | bound v t => exact (each v t List.mem_cons_self).cons others

theorem Ty.erases_lay (t : Ty) :
    Erases Layout.toText (t.lay u naming withVars laid) (t.write u naming withVars bounds) := by
  induction t using Ty.inductionOn with
  | ofClass c =>
    cases withVars with
    | true => exact (erases_layDeclared clauses _).bind fun vars => .pure (by simp)
    | false => exact .pure rfl
  | free v => exact erases_layFree clauses v
  | bound v t ih => exact ih
  | array t ih => exact ih.bind fun _ => .pure rfl
  | applied c bindings ih =>
    cases withVars with
    | true => exact (erases_layVars clauses ih).bind fun vars => .pure (by simp)
    | false => exact .pure rfl
  | wildcard upper lower ihUpper ihLower =>
    exact (erases_layAll ihLower).bind fun _ => (erases_layAll ihUpper).bind fun _ => .pure (by simp)

end erasure

theorem erases_layBounds (limit : Nat) (v : VarRef) : Erases Layout.toText
    (layBounds u naming withVars limit v) (writeBounds u naming withVars limit v) := by
  induction limit generalizing v with
  | zero => exact .pure rfl
  | succ limit ih =>
    exact (Erases.refl _).bind fun _ =>
      (erases_layAll fun t _ => t.erases_lay ih).bind fun _ => .pure (by simp)

theorem Rendering.runFrom_map {α β : Type} (f : α → β) (pass : Rendering α) (before : List String) :
    (f <$> pass).runFrom before = ((pass.runFrom before).1.map f, (pass.runFrom before).2) := by
  rw [map_eq_pure_bind, Rendering.runFrom_bind]
  rcases pass.runFrom before with ⟨_ | _, _⟩ <;> rfl

/-- A set of defined variables after clauses of some variables have been written: all of them were
new and are defined now, and no two have one id. -/
structure Introduces (u : Universe) (before : List String) (vars : List VarRef) (after : List String) :
    Prop where
  defines : after = (vars.map u.varKey).reverse ++ before
  apart : (vars.map u.varKey).Nodup
  new : ∀ v ∈ vars, u.varKey v ∉ before

namespace Introduces

variable {before mid after : List String} {vars vars' : List VarRef}

theorem refl (before : List String) : Introduces u before [] before := ⟨rfl, .nil, nofun⟩

theorem subset (introduces : Introduces u before vars after) : before ⊆ after := by
  rw [introduces.defines]
  exact List.subset_append_right _ _

theorem trans (first : Introduces u before vars mid) (second : Introduces u mid vars' after) :
    Introduces u before (vars ++ vars') after where
  defines := by rw [second.defines, first.defines, List.map_append, List.reverse_append,
    List.append_assoc]
  apart := by
    rw [List.map_append]
    refine List.nodup_append.2 ⟨first.apart, second.apart, fun id old id' new same => ?_⟩
    obtain ⟨v, member, rfl⟩ := List.mem_map.1 new
    refine second.new v member ?_
    rw [first.defines, ← same]
    exact List.mem_append_left _ (List.mem_reverse.2 old)
  new v member := by
    rcases List.mem_append.1 member with member | member
    · exact first.new v member
    · exact fun known => second.new v member (first.subset known)

/-- A variable is defined before its clause, so the clause holds no other one for it. -/
theorem define {v : VarRef} (new : u.varKey v ∉ before)
    (inner : Introduces u (u.varKey v :: before) vars after) :
    Introduces u before (v :: vars) after := by
  have first : Introduces u before [v] (u.varKey v :: before) :=
    ⟨rfl, by simp, List.forall_mem_singleton.2 new⟩
  exact first.trans inner

end Introduces

/-- A pass that has ended well has marked clauses behind those seen before, just where it has defined
a variable, and has defined what is shown. -/
def Marks (u : Universe) {α : Type} (clauses : α → List VarRef) (seen : List VarRef)
    (shown : VarRef → Prop) (laid : Rendering α) : Prop :=
  ∀ before a after, laid.runFrom before = (.ok a, after) →
    ∃ vars, clauses a = seen ++ vars ∧ Introduces u before vars after ∧
      ∀ v, shown v → u.varKey v ∈ after

namespace Marks

variable {α β : Type} {clauses : α → List VarRef} {clauses' : β → List VarRef}
  {seen : List VarRef} {shown shown' : VarRef → Prop}

theorem pure {a : α} (same : clauses a = seen) : Marks u clauses seen (fun _ => False) (pure a) := by
  intro before b after ran
  cases ran
  exact ⟨[], by rw [same, List.append_nil], .refl before, fun _ => False.elim⟩

theorem bind {laid : Rendering α} {next : α → Rendering β} (first : Marks u clauses [] shown laid)
    (second : ∀ a, Marks u clauses' (seen ++ clauses a) shown' (next a)) :
    Marks u clauses' seen (fun v => shown v ∨ shown' v) (laid >>= next) := by
  intro before b after ran
  rw [Rendering.runFrom_bind] at ran
  rcases outcome : laid.runFrom before with ⟨e | a, mid⟩
  · rw [outcome] at ran
    cases ran
  · rw [outcome] at ran
    obtain ⟨vars, marked, opened, shows⟩ := first before a mid outcome
    obtain ⟨vars', marked', opened', shows'⟩ := second a mid b after ran
    refine ⟨vars ++ vars', ?_, opened.trans opened', fun v here => ?_⟩
    · rw [marked', marked, List.nil_append, List.append_assoc]
    · exact here.elim (fun here => opened'.subset (shows v here)) (shows' v)

theorem mono {laid : Rendering α} (marks : Marks u clauses seen shown laid)
    (fewer : ∀ v, shown' v → shown v) : Marks u clauses seen shown' laid := fun before a after ran =>
  let ⟨vars, marked, opened, shows⟩ := marks before a after ran
  ⟨vars, marked, opened, fun v here => shows v (fewer v here)⟩

theorem map {f : α → β} {laid : Rendering α} (marks : Marks u clauses [] shown laid)
    (same : ∀ a, clauses' (f a) = clauses a) :
    Marks u clauses' [] shown (do return f (← laid)) :=
  (marks.bind fun a => .pure (same a)).mono fun _ => .inl

theorem cons {first : Rendering Layout} {rest : Rendering (List Layout)}
    (head : Marks u Layout.clauses [] shown first)
    (tail : Marks u (List.flatMap Layout.clauses) [] shown' rest) :
    Marks u (List.flatMap Layout.clauses) [] (fun v => shown v ∨ shown' v)
      (do return (← first) :: (← rest)) :=
  (head.bind fun _ => tail.bind fun _ => .pure rfl).mono fun _ here => here.imp_right .inl

end Marks

section marks

variable {bounds : VarRef → Rendering Layout}

theorem runFrom_layFree (defines : naming.bare = false) (v : VarRef) (before : List String) :
    (layFree u naming bounds v).runFrom before =
      if u.varKey v ∈ before then (.ok (.text (nameOf u naming v)), before)
      else Rendering.runFrom (do return .text (nameOf u naming v) ++ .clause v (← bounds v))
        (u.varKey v :: before) := by
  have look : (layFree u naming bounds v).runFrom before =
      (if before.contains (u.varKey v) then pure (.text (nameOf u naming v))
        else do
          modify (u.varKey v :: ·)
          return .text (nameOf u naming v) ++ .clause v (← bounds v) :
        Rendering Layout).runFrom before := by
    simp only [layFree, defines]
    rfl
  rw [look]
  by_cases known : u.varKey v ∈ before
  · simp [known]
  · simp only [List.contains_eq_mem, known, decide_false, if_false]
    rfl

section write

variable (defines : naming.bare = false)
  (inner : ∀ v, Marks u Layout.clauses [] (fun _ => False) (bounds v))

include defines inner

theorem marks_layFree (v : VarRef) :
    Marks u Layout.clauses [] (· = v) (layFree u naming bounds v) := by
  intro before layout after ran
  rw [runFrom_layFree defines] at ran
  by_cases known : u.varKey v ∈ before
  · rw [if_pos known] at ran
    cases ran
    exact ⟨[], rfl, .refl before, fun _ same => same ▸ known⟩
  · rw [if_neg known, Rendering.runFrom_bind] at ran
    rcases outcome : (bounds v).runFrom (u.varKey v :: before) with ⟨e | body, mid⟩
    · rw [outcome] at ran
      cases ran
    · rw [outcome] at ran
      cases ran
      obtain ⟨vars, marked, opened, -⟩ := inner v _ _ _ outcome
      exact ⟨v :: vars, congrArg (List.cons v) marked, opened.define known,
        fun _ same => same ▸ opened.subset List.mem_cons_self⟩

theorem marks_layDeclared (vars : List TyVar) :
    Marks u (List.flatMap Layout.clauses) [] (fun v => ∃ b ∈ vars, b.ref = v)
      (layDeclared u naming bounds vars) := by
  induction vars with
  | nil => exact (Marks.pure rfl).mono (by simp)
  | cons b rest ih => exact ((marks_layFree defines inner b.ref).cons ih).mono (by simp [eq_comm])

omit defines inner in
theorem marks_layAll {types : List Ty} (each : ∀ t ∈ types,
      Marks u Layout.clauses [] (t.Shows u withVars) (t.lay u naming withVars bounds)) :
    Marks u (List.flatMap Layout.clauses) [] (fun v => ∃ t ∈ types, t.Shows u withVars v)
      (layAll u naming withVars bounds types) := by
  induction types with
  | nil => exact (Marks.pure rfl).mono (by simp)
  | cons t rest ih =>
    obtain ⟨first, others⟩ := List.forall_mem_cons.1 each
    exact (first.cons (ih others)).mono (by simp)

theorem marks_layVars {bindings : List TyVar} (each : ∀ v t, .bound v t ∈ bindings →
      Marks u Layout.clauses [] (t.Shows u withVars) (t.lay u naming withVars bounds)) :
    Marks u (List.flatMap Layout.clauses) [] (fun v => ∃ b ∈ bindings, b.shown.Shows u withVars v)
      (layVars u naming withVars bounds bindings) := by
  induction bindings with
  | nil => exact (Marks.pure rfl).mono (by simp)
  | cons b rest ih =>
    have others := ih fun v t member => each v t (List.mem_cons_of_mem b member)
    cases b with
    | free v => exact ((marks_layFree defines inner v).cons others).mono (by simp)
    | bound v t => exact ((each v t List.mem_cons_self).cons others).mono (by simp)

/-- The layout of a type marks clauses where variables are defined, and what the type shows is defined
then. -/
theorem Ty.marks_lay (layered : u.Layered) (t : Ty) :
    Marks u Layout.clauses [] (t.Shows u withVars) (t.lay u naming withVars bounds) := by
  induction t using Ty.inductionOn with
  | ofClass c =>
    cases withVars with
    | true =>
      refine ((marks_layDeclared defines inner _).map fun vars => ?_).mono fun v shows => ?_
      · simp
      · exact ((layered.shows_ofClass le_rfl).1 shows).2
    | false => exact (Marks.pure rfl).mono fun v shows => by simp [layered.shows_ofClass le_rfl] at shows
  | free v => exact (marks_layFree defines inner v).mono (by simp)
  | bound v t ih => exact ih.mono (by simp)
  | array t ih => exact (ih.map fun _ => by simp).mono (by simp)
  | applied c bindings ih =>
    cases withVars with
    | true => exact ((marks_layVars defines inner ih).map fun _ => by simp).mono (by simp)
    | false => exact (Marks.pure rfl).mono (by simp)
  | wildcard upper lower ihUpper ihLower =>
    have uppers := marks_layAll ihUpper
    have lowers := marks_layAll ihLower
    refine (lowers.bind fun _ => uppers.bind fun _ => .pure (by simp)).mono fun v shows => ?_
    exact (Ty.shows_wildcard.1 shows).imp_right .inl

end write

variable (defines : naming.bare = false) (layered : u.Layered)

include defines layered

theorem marks_layBounds (limit : Nat) (v : VarRef) :
    Marks u Layout.clauses [] (fun _ => False) (layBounds u naming withVars limit v) := by
  induction limit generalizing v with
  | zero => exact .pure rfl
  | succ limit ih =>
    have looked : Marks u (fun _ => []) [] (fun _ => False)
        (Rendering.ofExcept (u.varBounds v)) := by
      intro before bounds after ran
      have unchanged : before = after := congrArg Prod.snd ran
      exact ⟨[], rfl, unchanged ▸ .refl before, fun _ => False.elim⟩
    have clause (types : List Ty) : Marks u Layout.clauses [] (fun _ => False) (do
        return .bounded " extends " (← layAll u naming withVars (layBounds u naming withVars limit)
          types)) :=
      ((marks_layAll fun t _ => t.marks_lay defines ih layered).map fun _ => by simp).mono
        fun _ => False.elim
    exact (looked.bind clause).mono fun _ => .inl

end marks

namespace Rendering

theorem erases_layType (t : Ty) :
    Erases Layout.toText (layType u naming t) (type u naming true t) :=
  t.erases_lay fun v => erases_layBounds _ v

theorem erases_layTypes (types : List Ty) :
    Erases (List.map Layout.toText) (layTypes u naming types) (Rendering.types u naming types) :=
  erases_layAll fun t _ => erases_layType t

theorem erases_layVariables (vars : List TyVar) :
    Erases (List.map Layout.toText) (layVariables u naming vars) (Rendering.vars u naming vars) :=
  erases_layVars (fun v => erases_layBounds _ v) fun _ t _ => erases_layType t

section marks

variable (defines : naming.bare = false) (layered : u.Layered)

include defines layered

theorem marks_layType (t : Ty) :
    Marks u Layout.clauses [] (t.Shows u true) (layType u naming t) :=
  t.marks_lay defines (marks_layBounds defines layered _) layered

theorem marks_layTypes (types : List Ty) : Marks u (List.flatMap Layout.clauses) []
    (fun v => ∃ t ∈ types, t.Shows u true v) (layTypes u naming types) :=
  marks_layAll fun t _ => marks_layType defines layered t

theorem marks_layVariables (vars : List TyVar) : Marks u (List.flatMap Layout.clauses) []
    (fun v => ∃ b ∈ vars, b.shown.Shows u true v) (layVariables u naming vars) :=
  marks_layVars defines (marks_layBounds defines layered _) fun _ t _ =>
    marks_layType defines layered t

end marks

end Rendering

namespace Ty

def layout (u : Universe) (ctx : RenderContext) (t : Ty) (withVars : Bool) :
    Except ReflectionError Layout × RenderContext :=
  ctx.run fun naming => t.lay u naming withVars (layBounds u naming withVars u.paramCount)

end Ty

theorem Erases.run_eq {α β : Type} {view : α → β} {laid : Naming → Rendering α}
    {pass : Naming → Rendering β} (ctx : RenderContext)
    (erases : Erases view (laid ctx.naming) (pass ctx.naming)) :
    ctx.run pass = ((ctx.run laid).1.map view, (ctx.run laid).2) := by
  change (let outcome := (pass ctx.naming).runFrom ctx.defined
    (outcome.1, { ctx with defined := outcome.2 })) = _
  rw [← show view <$> laid ctx.naming = pass ctx.naming from erases, Rendering.runFrom_map]
  rfl

/-- The text of a type with its bound clauses: each belongs to a variable that was not defined before,
no two belong to variables of one id, and the variables defined then are those with clauses. What the
type shows is among them. -/
theorem Universe.Layered.render_eq_layout (layered : u.Layered) (t : Ty) {ctx : RenderContext}
    (defines : ctx.naming.bare = false) (withVars : Bool) :
    t.render u ctx withVars =
        ((t.layout u ctx withVars).1.map Layout.toText, (t.layout u ctx withVars).2) ∧
      ∀ layout, (t.layout u ctx withVars).1 = .ok layout →
        Introduces u ctx.defined layout.clauses (t.layout u ctx withVars).2.defined ∧
        ∀ w, t.Shows u withVars w → u.varKey w ∈ (t.layout u ctx withVars).2.defined := by
  refine ⟨Erases.run_eq ctx (t.erases_lay fun v => erases_layBounds _ v), fun layout laid => ?_⟩
  have marks : Marks u Layout.clauses [] (t.Shows u withVars)
      (t.lay u ctx.naming withVars (layBounds u ctx.naming withVars u.paramCount)) :=
    t.marks_lay defines (marks_layBounds defines layered _) layered
  obtain ⟨vars, marked, opened, shows⟩ := marks ctx.defined layout _ (Prod.ext laid rfl)
  rw [marked]
  exact ⟨opened, shows⟩

theorem Universe.Layered.mem_defined (layered : u.Layered) {t : Ty} {ctx : RenderContext}
    (defines : ctx.naming.bare = false) {text : String}
    (written : (t.render u ctx withVars).1 = .ok text) {w : VarRef} (shows : t.Shows u withVars w) :
    u.varKey w ∈ (t.render u ctx withVars).2.defined := by
  obtain ⟨erased, marks⟩ := layered.render_eq_layout t defines withVars
  rw [erased] at written ⊢
  cases laid : (t.layout u ctx withVars).1 with
  | error e =>
    rw [laid] at written
    cases written
  | ok layout => exact (marks layout laid).2 w shows

end JavaTypes
