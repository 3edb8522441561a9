import JavaTypes.Proofs.MethodListing

/-!
Own type parameters in override keys. Parameter types are alike if they are the same once the own
variables of each method are replaced by their positions. The keys of two methods agree where their
parameter types are alike: a key has no names or bounds of own variables in it, at any depth, and
nothing that was written before makes a difference.
-/
namespace JavaTypes

mutual

/-- A type with other variables in the place of those it mentions. -/
def Ty.relabel (f : VarRef → VarRef) : Ty → Ty
  | .ofClass c => .ofClass c
  | .applied c bindings => .applied c (relabelBindings f bindings)
  | .variable (.free v) => .variable (.free (f v))
  | .variable (.bound v t) => .variable (.bound (f v) (t.relabel f))
  | .wildcard upper lower => .wildcard (relabelAll f upper) (relabelAll f lower)
  | .array element => .array (element.relabel f)

def relabelAll (f : VarRef → VarRef) : List Ty → List Ty
  | [] => []
  | t :: rest => t.relabel f :: relabelAll f rest

def relabelBindings (f : VarRef → VarRef) : List TyVar → List TyVar
  | [] => []
  | .free v :: rest => .free (f v) :: relabelBindings f rest
  | .bound v t :: rest => .bound (f v) (t.relabel f) :: relabelBindings f rest

end

def TyVar.relabel (f : VarRef → VarRef) : TyVar → TyVar
  | .free v => .free (f v)
  | .bound v t => .bound (f v) (t.relabel f)

section relabel

variable {u : Universe} {imports : Imports} {onClass : ClassId → String} {onVar : VarRef → String}
  (f : VarRef → VarRef)

theorem relabelAll_eq_map (types : List Ty) : relabelAll f types = types.map (Ty.relabel f) := by
  induction types with
  | nil => rfl
  | cons t rest ih => simp [relabelAll, ih]

theorem relabelBindings_eq_map (bindings : List TyVar) :
    relabelBindings f bindings = bindings.map (TyVar.relabel f) := by
  induction bindings with
  | nil => rfl
  | cons b rest ih => cases b <;> simp [relabelBindings, TyVar.relabel, ih]

/-- The text of a relabelled type is the text of the type with the labels read instead of its
variables. -/
theorem Ty.textWith_relabel (t : Ty) : (t.relabel f).textWith u imports onClass onVar =
    t.textWith u imports onClass (onVar ∘ f) := by
  induction t using Ty.inductionOn with
  | ofClass | free => rfl
  | bound v t ih => exact ih
  | array t ih => simp only [relabel, textWith_array, ih]
  | wildcard upper lower ihUpper ihLower =>
    have uppers := List.map_congr_left ihUpper
    have lowers := List.map_congr_left ihLower
    simp only [relabel, relabelAll_eq_map, textWith_wildcard, List.map_map, Function.comp_def]
      at uppers lowers ⊢
    rw [uppers, lowers]
  | applied c bindings ih =>
    have texts : bindings.map (fun b => (b.relabel f).shown.textWith u imports onClass onVar) =
        bindings.map fun b => b.shown.textWith u imports onClass (onVar ∘ f) := by
      refine List.map_congr_left fun b member => ?_
      cases b with
      | free v => rfl
      | bound v t => exact ih v t member
    simp only [relabel, relabelBindings_eq_map, textWith_applied, List.map_map]
    exact congrArg (fun texts => u.className imports c ++ angled texts) texts

end relabel

/-- The variable that stands for a position among own variables. No class of the universe has it. -/
def Universe.placeholder (u : Universe) (position : Nat) : VarRef :=
  ⟨.ofClass ⟨u.size⟩, position⟩

/-- A type with placeholders for the variables of a declaration, which tell positions apart and
nothing else. -/
def Ty.byPosition (u : Universe) (owner : VarOwner) (t : Ty) : Ty :=
  t.relabel fun v => if v.owner = owner then u.placeholder v.index else v

/-- What override keys write for placeholders and for other variables. -/
def Universe.positionName (u : Universe) (v : VarRef) : String :=
  if v.owner = .ofClass ⟨u.size⟩ then "#" ++ toString v.index else u.varName v

/-- The pass that writes an override key, with variables that were defined before it. -/
def Executable.keyPass (u : Universe) (e : Executable) (name : String) (defined : List String) :
    Except ReflectionError String × RenderContext :=
  RenderContext.run { naming := keyNaming u e.ownVariables, defined } fun naming => do
    let parameters ← e.writeParameters u naming
    return name ++ inParentheses parameters

variable {u : Universe}

theorem Universe.owner_ne_of_declared {v : VarRef} (declared : v ∈ u.declaredVars) :
    v.owner ≠ .ofClass ⟨u.size⟩ := by
  intro outside
  have declares : u.typeParams v.owner ≠ [] := by
    intro none
    simp [declaredVars, typeParam?, none] at declared
  have inside := mem_ids.1 (mem_owners declares).1
  simp [outside, VarOwner.classId] at inside

/-- In the override keys of a method its own variables are written like placeholders. -/
theorem Ty.bareText_byPosition (ids : Set.InjOn u.varKey u.declaredVars) {c : ClassId} {i : Nat}
    {t : Ty} (declared : t.Declared u) : t.bareText u (ownNaming u (.method c i)) =
      (t.byPosition u (.method c i)).textWith u {} (classText u {}) u.positionName := by
  rw [byPosition, textWith_relabel]
  refine Ty.textWith_congr (fun d _ => classText_method ids c i d) fun v occurs => ?_
  have known : v ∈ u.declaredVars := declared v (t.freeVars_subset_mentioned occurs)
  obtain ⟨owner, k⟩ := v
  by_cases own : owner = .method c i
  · subst own
    simp [nameOf_own ids known, Universe.positionName, Universe.placeholder]
  · have inside : owner ≠ .ofClass ⟨u.size⟩ := Universe.owner_ne_of_declared known
    simp [nameOf_other ids known own, Universe.positionName, own, inside]

namespace Executable

theorem keyPass_eq (e : Executable) (name : String) (defined : List String) :
    e.keyPass u name defined =
      (e.overrideKey u name, { naming := keyNaming u e.ownVariables, defined }) := by
  simp only [keyPass, RenderContext.run, writeParameters_keyNaming, overrideKey_eq]
  rfl

end Executable

theorem Declarer.Declares.executable_overrideKey {d : Declarer} {i : Nat} {m : Method}
    (declares : d.Declares u i m) : m.executable.overrideKey u m.name = .ok m.overrideKey := by
  obtain ⟨_, _, decl, -, -, made⟩ := declares
  obtain ⟨e, -, made⟩ := bind_eq_ok.1 made
  obtain ⟨_, -, made⟩ := bind_eq_ok.1 made
  obtain ⟨_, -, made⟩ := bind_eq_ok.1 made
  obtain ⟨_, written, made⟩ := bind_eq_ok.1 made
  cases made
  exact written

/-- An override key is the name of the method with the parameter types by position. -/
theorem Declarer.Declares.overrideKey_byPosition (ids : Set.InjOn u.varKey u.declaredVars)
    {d : Declarer} {i : Nat} {m : Method} (declares : d.Declares u i m)
    (declared : ∀ t ∈ m.paramTypes, t.Declared u) :
    m.overrideKey = m.name ++ Executable.inParentheses
      ((m.paramTypes.map (Ty.byPosition u (.method d.classId i))).map
        (Ty.textWith u {} (classText u {}) u.positionName)) := by
  obtain ⟨_, _, decl, -, found, -⟩ := id declares
  have reflects := declares.reflects found
  have texts : m.paramTypes.map (Ty.bareText u (ownNaming u (.method d.classId i))) =
      m.paramTypes.map fun t => (t.byPosition u (.method d.classId i)).textWith u {} (classText u {})
        u.positionName :=
    List.map_congr_left fun t member => Ty.bareText_byPosition ids (declared t member)
  rw [reflects.overrideKey_eq, texts, List.map_map, Method.name, reflects.decl_eq]
  rfl

/-- Two methods of one name have one override key if their parameter types are the same by position,
whatever the methods call their own variables and whatever bounds those have. What other passes
defined before makes no difference to a key, and writing it defines nothing. -/
theorem Declarer.Declares.overrideKey_alike (ids : Set.InjOn u.varKey u.declaredVars)
    {d d' : Declarer} {i i' : Nat} {m m' : Method} (declares : d.Declares u i m)
    (declares' : d'.Declares u i' m') (name : m.name = m'.name)
    (declared : ∀ t ∈ m.paramTypes ++ m'.paramTypes, t.Declared u)
    (alike : m.paramTypes.map (Ty.byPosition u (.method d.classId i)) =
      m'.paramTypes.map (Ty.byPosition u (.method d'.classId i'))) :
    m.overrideKey = m'.overrideKey ∧
      ∀ defined, (m.executable.keyPass u m.name defined).1 = .ok m.overrideKey ∧
        (m'.executable.keyPass u m'.name defined).1 = .ok m.overrideKey ∧
        (m.executable.keyPass u m.name defined).2.defined = defined ∧
        (m'.executable.keyPass u m'.name defined).2.defined = defined := by
  have left := declares.overrideKey_byPosition ids fun t member =>
    declared t (List.mem_append_left _ member)
  have right := declares'.overrideKey_byPosition ids fun t member =>
    declared t (List.mem_append_right _ member)
  have keys : m.overrideKey = m'.overrideKey := by rw [left, right, name, alike]
  refine ⟨keys, fun defined => ?_⟩
  simp only [Executable.keyPass_eq, declares.executable_overrideKey,
    declares'.executable_overrideKey, keys, and_self]

namespace Visits

def box : ClassId := ⟨10⟩
def leaf : ClassId := ⟨11⟩
def visitor : ClassId := ⟨12⟩
def walker : ClassId := ⟨13⟩

/-- A method `visit` with parameters of types `Box<? extends X>`, `X[]` and `element`, where `X` is
its own variable. -/
def visit (own : VarRef) (ownName : String) (bounds : List DeclType) (element : DeclType) :
    ClassEdit :=
  .method "visit" Modifiers.Flag.isPublic.set
    [.executable (.typeParam ownName bounds),
      .executable (.param { name := "in", type := .applied box [.wildcard [.variable own] []] }),
      .executable (.param { name := "out", type := .array (.variable own) }),
      .executable (.param { name := "at", type := element })]

/-- `interface Visitor<R>` declares `<T extends R>` for `visit` over `R`, and `class Walker` declares
`<U>` for `visit` over `Leaf`. -/
def classes : Universe :=
  let u := (Universe.initial.defineClass "Box" [.typeParam "E" []]).2
  let u := (u.defineClass "Leaf" []).2
  let u := (u.defineClass "Visitor" [.kind .interface, .typeParam "R" [],
    visit ⟨.method visitor 0, 0⟩ "T" [.variable ⟨.ofClass visitor, 0⟩]
      (.variable ⟨.ofClass visitor, 0⟩)]).2
  (u.defineClass "Walker" [visit ⟨.method walker 0, 0⟩ "U" [] (.ofClass leaf)]).2

def ofVisitor : Declarer := .applied visitor [.bound ⟨.ofClass visitor, 0⟩ (.ofClass leaf)]

def visitOf (d : Declarer) : Method := (d.methodAt? classes 0).getD default

/-- A walker visits as a visitor of leaves does, with a variable of its own name and bounds. -/
theorem overrideKey_visit :
    (visitOf ofVisitor).signature = "<T extends R> void visit(Box<? extends T>, T[], Leaf)" ∧
      (visitOf (.ofClass walker)).signature = "<U> void visit(Box<? extends U>, U[], Leaf)" ∧
      (visitOf ofVisitor).overrideKey = (visitOf (.ofClass walker)).overrideKey ∧
      (visitOf ofVisitor).overrideKey = "visit(Box<? extends #0>, #0[], Leaf)" := by
  have ids : Set.InjOn classes.varKey classes.declaredVars := injOn_varKey (by decide)
  have inherits : ofVisitor.Declares classes 0 (visitOf ofVisitor) :=
    Declarer.declares_of_methodAt? rfl
  have owns : (Declarer.ofClass walker).Declares classes 0 (visitOf (.ofClass walker)) :=
    Declarer.declares_of_methodAt? rfl
  have declared : ∀ t ∈ (visitOf ofVisitor).paramTypes ++ (visitOf (.ofClass walker)).paramTypes,
      ∀ v ∈ t.mentioned, (classes.typeParam? v).isSome = true := by decide
  have name : (visitOf ofVisitor).name = (visitOf (.ofClass walker)).name := by decide +kernel
  obtain ⟨same, -⟩ := inherits.overrideKey_alike ids owns name declared rfl
  refine ⟨?_, ?_, same, ?_⟩ <;> decide +kernel

end Visits

end JavaTypes
