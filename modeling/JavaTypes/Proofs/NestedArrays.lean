import JavaTypes.Proofs.ArrayTable
import JavaTypes.Proofs.BoundClauses
import JavaTypes.Proofs.OverrideKeys
import JavaTypes.Proofs.TypeIds

/-!
Array classes over array classes. Each takes its names from the one below it, and a pass that writes
it goes down the components again, so whatever is written for the class at the bottom gets one pair of
brackets for each array class above it. An array of a generic element is written in the same way, and
where the element turns out to be a class no text tells the two apart.
-/
namespace JavaTypes

/-- What follows the brackets in the name of an array class over a class. -/
def ClassDecl.descriptor (d : ClassDecl) : String :=
  let reference := "L" ++ d.binaryName ++ ";"
  match d.kind with
  | .array => d.binaryName
  | .primitive => ((BaseType.ofKeyword? d.binaryName).map (·.letter.toString)).getD reference
  | _ => reference

/-- The array class that is reached by asking for array classes a number of times, each over the one
before, with the universe after the calls. -/
def Universe.arraysOf (u : Universe) (c : ClassId) : Nat → ClassId × Universe
  | 0 => (c, u)
  | n + 1 => (u.arraysOf c n).2.arrayOf (u.arraysOf c n).1

def DeclType.arrays : Nat → DeclType → DeclType
  | 0, t => t
  | n + 1, t => .array (arrays n t)

/-- Two parameters of methods or constructors that are written alike in override keys, or the arrays
of `n` dimensions of a type variable that is seen as the class `c` beside the class `a`. -/
inductive Executable.ParamsMatch (u : Universe) (n : Nat) (c a : ClassId) (e e' : Executable)
    (p p' : ParamDecl) : Prop where
  | alike {t t' : Ty} :
      Scope.resolve u e.typeVariables p.type = .ok t →
      Scope.resolve u e'.typeVariables p'.type = .ok t' →
      (t.render u { naming := keyNaming u e.ownVariables } true).1 =
        (t'.render u { naming := keyNaming u e'.ownVariables } true).1 →
      ParamsMatch u n c a e e' p p'
  | arrays {v : VarRef} :
      p.type = .arrays n (.variable v) → valueFor? u e.typeVariables v = some (.ofClass c) →
      p'.type = .ofClass a → ParamsMatch u n c a e e' p p'

section brackets

theorem brackets_zero : brackets 0 = "" := rfl

theorem brackets_succ (n : Nat) : brackets (n + 1) = brackets n ++ "[]" := by
  simp [brackets, List.replicate_succ']

theorem brackets_add (n m : Nat) : brackets n ++ brackets m = brackets (n + m) := by
  induction m with
  | zero => simp [brackets_zero]
  | succ m ih => rw [brackets_succ, ← String.append_assoc, ih, ← Nat.add_assoc, brackets_succ]

theorem ClassDecl.arrayName_eq (d : ClassDecl) : d.arrayName = "[" ++ d.descriptor := by
  have reference : "[L" ++ d.binaryName ++ ";" = "[" ++ ("L" ++ d.binaryName ++ ";") := by
    simp [← String.toList_inj]
  unfold arrayName descriptor
  cases d.kind <;> try exact reference
  · cases BaseType.ofKeyword? d.binaryName with
    | none => exact reference
    | some b => rfl
  · rfl

theorem append_openings (n : Nat) (text : String) :
    "[" ++ (String.ofList (List.replicate n '[') ++ text) =
      String.ofList (List.replicate (n + 1) '[') ++ text := by
  simp [← String.toList_inj, List.replicate_succ]

end brackets

namespace Universe

variable {u v : Universe} {a c : ClassId} {n : Nat}

/-- Array classes have been made over a class, `n` of them and the last one last. -/
structure Stacked (u : Universe) (c : ClassId) (n : Nat) (a : ClassId) (v : Universe) : Prop where
  interned : v.Interned
  known : a ∈ v.ids
  last : v.arrays.lookup a = none
  elements : Ty.elementAt? v n (.ofClass a) = some (.ofClass c)
  kind : n ≠ 0 → (v.decl a).kind = .array
  descriptor : (v.decl a).descriptor =
    String.ofList (List.replicate n '[') ++ (u.decl c).descriptor
  simpleName : (v.decl a).simpleName = (u.decl c).simpleName ++ brackets n
  canonicalName : (v.decl a).canonicalName = (u.decl c).canonicalName.map (· ++ brackets n)

theorem elementAt?_mono (stay : ∀ a c, (u.decl a).component = some c → (v.decl a).component = some c)
    {t : Ty} (found : Ty.elementAt? u n (.ofClass a) = some t) :
    Ty.elementAt? v n (.ofClass a) = some t := by
  induction n generalizing a with
  | zero => exact found
  | succ n ih =>
    cases link : (u.decl a).component with
    | none => simp [Ty.elementAt?, link] at found
    | some e =>
      rw [Ty.elementAt?_succ link] at found
      rw [Ty.elementAt?_succ (stay a e link)]
      exact ih found

theorem Interned.component_run (interned : u.Interned) {operations : List Operation}
    (permits : u.Permits operations) (link : (u.decl a).component = some c) :
    ((u.run operations).decl a).component = some c :=
  ((interned.run permits).links a c).2 (lookup_run ((interned.links a c).1 link) operations)

theorem decl_arrayOf_new (fresh : u.arrays.lookup c = none) :
    (u.arrayOf c).2.decl (u.arrayOf c).1 = u.arrayDecl c := by
  rcases arrayOf_cases u c with ⟨b, found, -⟩ | ⟨-, eq⟩
  · simp [fresh] at found
  · rw [eq]
    exact decl_insert_new _

theorem Interned.lookup_arrayOf_new (interned : u.Interned) (known : c ∈ u.ids)
    (fresh : u.arrays.lookup c = none) :
    (u.arrayOf c).2.arrays.lookup (u.arrayOf c).1 = none := by
  rcases arrayOf_cases u c with ⟨b, found, -⟩ | ⟨-, eq⟩
  · simp [fresh] at found
  · rw [eq]
    have new : (⟨u.size⟩ : ClassId) ∉ u.ids := by simp [mem_ids]
    have apart : (⟨u.size⟩ : ClassId) ≠ c := fun same => new (same ▸ known)
    rw [List.lookup_cons, beq_false_of_ne apart]
    exact interned.lookup_eq_none new

namespace Stacked

theorem start (interned : u.Interned) (known : c ∈ u.ids) (fresh : u.arrays.lookup c = none) :
    u.Stacked c 0 c u where
  interned := interned
  known := known
  last := fresh
  elements := rfl
  kind := fun some => absurd rfl some
  descriptor := by simp
  simpleName := by simp [brackets_zero]
  canonicalName := by simp [brackets_zero]

theorem arrayOf (stacked : u.Stacked c n a v) :
    u.Stacked c (n + 1) (v.arrayOf a).1 (v.arrayOf a).2 := by
  have new := decl_arrayOf_new stacked.last
  have link : ((v.arrayOf a).2.decl (v.arrayOf a).1).component = some a := by rw [new]; rfl
  constructor
  case interned => exact stacked.interned.arrayOf stacked.known
  case known => exact mem_ids_of_component link
  case last => exact stacked.interned.lookup_arrayOf_new stacked.known stacked.last
  case elements =>
    rw [Ty.elementAt?_succ link]
    refine elementAt?_mono (fun b e link => ?_) stacked.elements
    rw [decl_arrayOf (mem_ids_of_component link)]
    exact link
  case kind => exact fun _ => by rw [new]; rfl
  case descriptor =>
    rw [new, ← append_openings, ← stacked.descriptor]
    exact (v.decl a).arrayName_eq
  case simpleName =>
    rw [new, brackets_succ, ← String.append_assoc, ← stacked.simpleName]
    rfl
  case canonicalName =>
    rw [new]
    change (v.decl a).canonicalName.map (· ++ "[]") = _
    rw [stacked.canonicalName, Option.map_map]
    simp [Function.comp_def, brackets_succ, String.append_assoc]

theorem arraysOf (interned : u.Interned) (known : c ∈ u.ids) (fresh : u.arrays.lookup c = none)
    (n : Nat) : u.Stacked c n (u.arraysOf c n).1 (u.arraysOf c n).2 := by
  induction n with
  | zero => exact start interned known fresh
  | succ n ih => exact ih.arrayOf

end Stacked

/-- More steps than the number of a class lead no further down from it. -/
theorem Layered.innermost_of_le (layered : u.Layered) {limit : Nat} (enough : c.index ≤ limit) :
    u.innermost limit c = u.innermost c.index c := by
  induction limit using Nat.strong_induction_on generalizing c with
  | _ limit ih =>
    cases link : (u.decl c).component with
    | none => cases limit <;> cases index : c.index <;> simp [innermost, link]
    | some e =>
      have less := layered c e link
      obtain ⟨k, rfl⟩ : ∃ k, limit = k + 1 := ⟨limit - 1, by omega⟩
      obtain ⟨m, index⟩ : ∃ m, c.index = m + 1 := ⟨c.index - 1, by omega⟩
      have first := ih k (by omega) (c := e) (by omega)
      have second : u.innermost m e = u.innermost e.index e := by
        by_cases same : m = k
        · rw [same, first]
        · exact ih m (by omega) (by omega)
      simp only [index, innermost, link, first, second]

theorem Layered.innermost_array (layered : u.Layered) {e : ClassId}
    (link : (u.decl a).component = some e) :
    u.innermost a.index a = ((u.innermost e.index e).1, (u.innermost e.index e).2 + 1) := by
  have less := layered a e link
  obtain ⟨m, index⟩ : ∃ m, a.index = m + 1 := ⟨a.index - 1, by omega⟩
  simp only [index, innermost, link, layered.innermost_of_le (show e.index ≤ m by omega)]

theorem Layered.innermost_of_elementAt? (layered : u.Layered)
    (found : Ty.elementAt? u n (.ofClass a) = some (.ofClass c)) :
    u.innermost a.index a = ((u.innermost c.index c).1, (u.innermost c.index c).2 + n) := by
  induction n generalizing a with
  | zero =>
    cases found
    rfl
  | succ n ih =>
    cases link : (u.decl a).component with
    | none => simp [Ty.elementAt?, link] at found
    | some e =>
      rw [Ty.elementAt?_succ link] at found
      rw [layered.innermost_array link, ih found, Nat.add_assoc]

end Universe

section writing

variable {u : Universe} {naming : Naming} {withVars : Bool} {bounds : VarRef → Rendering String}
  {a c : ClassId} {n : Nat}

/-- An array class is written like the class below a number of array classes, with brackets. -/
theorem Universe.Layered.write_of_elementAt? (layered : u.Layered)
    (found : Ty.elementAt? u n (.ofClass a) = some (.ofClass c)) :
    (Ty.ofClass a).write u naming withVars bounds =
      (· ++ brackets n) <$> (Ty.ofClass c).write u naming withVars bounds := by
  cases withVars <;>
    simp [Ty.write, layered.innermost_of_elementAt? found, ← brackets_add, String.append_assoc]

theorem Ty.write_arrays (n : Nat) (t : Ty) :
    (Ty.arrays n t).write u naming withVars bounds =
      (· ++ brackets n) <$> t.write u naming withVars bounds := by
  induction n generalizing t with
  | zero => simp [Ty.arrays, brackets_zero]
  | succ n ih =>
    have pair : "[]" ++ brackets n = brackets (n + 1) := by
      rw [Nat.add_comm, ← brackets_add]
      rfl
    simp [Ty.arrays, ih, Ty.write, String.append_assoc, pair]

theorem Ty.render_of_write_eq {s t : Ty} {f : String → String} (ctx : RenderContext)
    (written : s.write u ctx.naming withVars (writeBounds u ctx.naming withVars u.paramCount) =
      f <$> t.write u ctx.naming withVars (writeBounds u ctx.naming withVars u.paramCount)) :
    s.render u ctx withVars = ((t.render u ctx withVars).1.map f, (t.render u ctx withVars).2) := by
  rw [s.render_eq_runFrom, t.render_eq_runFrom, ← writeBounds_eq_upTo, written,
    Rendering.runFrom_map]

theorem classText_of_elementAt? (layered : u.Layered)
    (found : Ty.elementAt? u n (.ofClass a) = some (.ofClass c)) :
    classText u naming a = classText u naming c ++ brackets n := by
  simp [classText, layered.innermost_of_elementAt? found, ← brackets_add, String.append_assoc]

theorem Ty.bareText_arrays (n : Nat) (t : Ty) :
    (Ty.arrays n t).bareText u naming = t.bareText u naming ++ brackets n := by
  induction n with
  | zero => simp [Ty.arrays, brackets_zero]
  | succ n ih =>
    rw [← Ty.array_arrays, brackets_succ, ← String.append_assoc, ← ih]
    rfl

theorem Ty.render_bare (bare : naming.bare = true) (t : Ty) :
    (t.render u { naming } true).1 = .ok (t.bareText u naming) := by
  rw [Ty.render_eq_runFrom, t.write_bare bare]
  rfl

end writing

section keys

variable {u : Universe} {n : Nat} {a c : ClassId}

theorem DeclType.resolve_arrays (n : Nat) {t : DeclType} {r : Ty} (resolved : t.resolve u = .ok r) :
    (t.arrays n).resolve u = .ok (Ty.arrays n r) := by
  induction n with
  | zero => exact resolved
  | succ n ih => exact bind_eq_ok.2 ⟨_, ih, congrArg Except.ok (Ty.array_arrays n r)⟩

theorem Ty.resolveInScope_arrays (n : Nat) (t : Ty) (vars : List TyVar) :
    (Ty.arrays n t).resolveInScope u vars = Ty.arrays n (t.resolveInScope u vars) := by
  induction n generalizing t with
  | zero => rfl
  | succ n ih => exact ih (.array t)

/-- Lists made from two related ones, entry by entry, agree in what is read off them. -/
theorem map_eq_of_related {α α' β β' γ : Type} {Q : α → α' → Prop} {R : α → β → Prop}
    {S : α' → β' → Prop} {f : β → γ} {g : β' → γ} {as : List α} {as' : List α'} {bs : List β}
    {bs' : List β'} (related : List.Forall₂ Q as as') (left : List.Forall₂ R as bs)
    (right : List.Forall₂ S as' bs') (agree : ∀ a a' b b', Q a a' → R a b → S a' b' → f b = g b') :
    bs.map f = bs'.map g := by
  induction related generalizing bs bs' with
  | nil =>
    cases left
    cases right
    rfl
  | cons first _ ih =>
    cases left with
    | cons here others =>
      cases right with
      | cons here' others' =>
        rw [List.map_cons, List.map_cons, agree _ _ _ _ first here here', ih others others']

/-- The arrays of a variable are seen as the arrays of its value. -/
theorem Scope.resolve_arrays {vars : List TyVar} {v : VarRef} {t : Ty}
    (value : valueFor? u vars v = some t) (n : Nat) :
    Scope.resolve u vars (.arrays n (.variable v)) = .ok (Ty.arrays n t) := by
  refine bind_eq_ok.2 ⟨_, DeclType.resolve_arrays n rfl, congrArg Except.ok ?_⟩
  rw [Ty.resolveInScope_arrays, Ty.resolveInScope, Ty.subst, value, Option.getD_some]

namespace Executable

theorem classText_keyNaming (layered : u.Layered) {own own' : List TyVar}
    (names : ∀ w, (Ty.ofClass c).Shows u true w →
      nameOf u (keyNaming u own) w = nameOf u (keyNaming u own') w) :
    classText u (keyNaming u own) c = classText u (keyNaming u own') c := by
  have texts : (u.classVariables (u.innermost c.index c).1).map
      (fun v => nameOf u (keyNaming u own) v.ref) =
        (u.classVariables (u.innermost c.index c).1).map
          fun v => nameOf u (keyNaming u own') v.ref :=
    List.map_congr_left fun v member =>
      names v.ref ((layered.shows_ofClass le_rfl).2 ⟨rfl, v, member, rfl⟩)
  simp only [classText, texts]
  rfl

theorem params_of_ofDecl {scope : Scope} {owner : VarOwner} {decl : ExecutableDecl}
    {e : Executable} (made : ofDecl u scope owner decl = .ok e) :
    List.Forall₂ (fun p t => Scope.resolve u e.typeVariables p.type = .ok t) decl.params
      e.paramTypes := by
  obtain ⟨parameters, resolved, made⟩ := bind_eq_ok.1 made
  obtain ⟨exceptions, -, made⟩ := bind_eq_ok.1 made
  cases made
  refine (paramTypes_of_resolveParams resolved).imp fun p t seen => ?_
  obtain ⟨r, written, rfl⟩ := seen
  exact bind_eq_ok.2 ⟨r, written, rfl⟩

variable {e e' : Executable}

theorem ParamsMatch.text_eq (layered : u.Layered)
    (found : Ty.elementAt? u n (.ofClass a) = some (.ofClass c))
    (names : ∀ w, (Ty.ofClass c).Shows u true w →
      nameOf u (keyNaming u e.ownVariables) w = nameOf u (keyNaming u e'.ownVariables) w)
    {p p' : ParamDecl} (same : ParamsMatch u n c a e e' p p') {t t' : Ty}
    (seen : Scope.resolve u e.typeVariables p.type = .ok t)
    (seen' : Scope.resolve u e'.typeVariables p'.type = .ok t') :
    t.bareText u (keyNaming u e.ownVariables) = t'.bareText u (keyNaming u e'.ownVariables) := by
  cases same with
  | alike first second alike =>
    cases seen.symm.trans first
    cases seen'.symm.trans second
    rw [Ty.render_bare rfl, Ty.render_bare rfl] at alike
    exact Except.ok.inj alike
  | @arrays v generic value array =>
    rw [generic, Scope.resolve_arrays value] at seen
    rw [array] at seen'
    cases seen
    cases seen'
    calc (Ty.arrays n (.ofClass c)).bareText u (keyNaming u e.ownVariables)
      _ = classText u (keyNaming u e.ownVariables) c ++ brackets n := Ty.bareText_arrays n _
      _ = classText u (keyNaming u e'.ownVariables) c ++ brackets n := by
        rw [classText_keyNaming layered names]
      _ = classText u (keyNaming u e'.ownVariables) a :=
        (classText_of_elementAt? layered found).symm

theorem overrideKey_eq_of_paramsMatch (layered : u.Layered)
    (found : Ty.elementAt? u n (.ofClass a) = some (.ofClass c)) {scope scope' : Scope}
    {owner owner' : VarOwner} {decl decl' : ExecutableDecl}
    (made : ofDecl u scope owner decl = .ok e) (made' : ofDecl u scope' owner' decl' = .ok e')
    (names : ∀ w, (Ty.ofClass c).Shows u true w →
      nameOf u (keyNaming u e.ownVariables) w = nameOf u (keyNaming u e'.ownVariables) w)
    (same : List.Forall₂ (ParamsMatch u n c a e e') decl.params decl'.params) (name : String) :
    e.overrideKey u name = e'.overrideKey u name := by
  have texts : e.paramTypes.map (Ty.bareText u (keyNaming u e.ownVariables)) =
      e'.paramTypes.map (Ty.bareText u (keyNaming u e'.ownVariables)) :=
    map_eq_of_related same (params_of_ofDecl made) (params_of_ofDecl made')
      fun _ _ _ _ related seen seen' => related.text_eq layered found names seen seen'
  rw [overrideKey_eq, overrideKey_eq, texts]

end Executable

end keys

/-- Array classes over a class that has none yet: the one that is `n` deep is named after the class
with `n` brackets, and `n` steps to elements lead back to the class. From then on, whatever else is
done, it is written like the class with `n` pairs of brackets behind it, with the same variables
defined and the same failures, and so is the generic array of `n` dimensions over the class: where one
method has a parameter that is an array of a type variable seen as the class, and another one has the
array class there, their override keys agree. The variables of the class have to be written alike in
the two keys, as they are unless one of the methods declares a variable with the id of one of them. -/
theorem Universe.Permits.nested_arrays {u : Universe} {operations : List Operation}
    (start : u = .initial ∨ u = .foundation) (permits : u.Permits operations) :
    let v := u.run operations
    ∀ c ∈ v.ids, (∀ a, (v.decl a).component ≠ some c) → ∀ n ≥ 1,
      let a := (v.arraysOf c n).1
      let w := (v.arraysOf c n).2
      (w.decl a).binaryName = String.ofList (List.replicate n '[') ++ (v.decl c).descriptor ∧
      (w.decl a).simpleName = (v.decl c).simpleName ++ brackets n ∧
      (w.decl a).canonicalName = (v.decl c).canonicalName.map (· ++ brackets n) ∧
      ∀ later, w.Permits later →
        let x := w.run later
        Ty.elementAt? x n (.ofClass a) = some (.ofClass c) ∧
        (∀ ctx withVars,
          let inner := (Ty.ofClass c).render x ctx withVars
          (Ty.ofClass a).render x ctx withVars = (inner.1.map (· ++ brackets n), inner.2) ∧
          (Ty.arrays n (.ofClass c)).render x ctx withVars =
            (inner.1.map (· ++ brackets n), inner.2)) ∧
        ∀ scope scope' owner owner' decl decl' e e',
          Executable.ofDecl x scope owner decl = .ok e →
          Executable.ofDecl x scope' owner' decl' = .ok e' →
          (∀ y, (Ty.ofClass c).Shows x true y →
            nameOf x (Executable.keyNaming x e.ownVariables) y =
              nameOf x (Executable.keyNaming x e'.ownVariables) y) →
          List.Forall₂ (Executable.ParamsMatch x n c a e e') decl.params decl'.params →
          ∀ name, e.overrideKey x name = e'.overrideKey x name := by
  have interned : u.Interned :=
    start.elim (fun same => same ▸ .initial) fun same => same ▸ .foundation
  intro v c known fresh n positive a w
  have interned : v.Interned := interned.run permits
  have unknown : v.arrays.lookup c = none := by
    cases found : v.arrays.lookup c with
    | none => rfl
    | some b => exact absurd ((interned.links b c).2 found) (fresh b)
  have stacked : v.Stacked c n a w := Stacked.arraysOf interned known unknown n
  have array := stacked.kind (by omega)
  refine ⟨?_, stacked.simpleName, stacked.canonicalName, fun later permits => ?_⟩
  · rw [← stacked.descriptor, ClassDecl.descriptor, array]
  intro x
  have interned : x.Interned := stacked.interned.run permits
  -- Later operations take no component away, and texts follow from the way to the element alone.
  have found : Ty.elementAt? x n (.ofClass a) = some (.ofClass c) :=
    elementAt?_mono (fun _ _ => stacked.interned.component_run permits) stacked.elements
  refine ⟨found, fun ctx withVars => ⟨?_, ?_⟩, ?_⟩
  · exact Ty.render_of_write_eq ctx (interned.layered.write_of_elementAt? found)
  · exact Ty.render_of_write_eq ctx (Ty.write_arrays n _)
  · intro scope scope' owner owner' decl decl' e e' made made' names same
    exact Executable.overrideKey_eq_of_paramsMatch interned.layered found made made' names same

namespace Trays

open Universe (Operation)

def leaf : ClassId := ⟨10⟩
def tray : ClassId := ⟨11⟩
def bin : ClassId := ⟨12⟩

def put (typeVar : VarRef) (typeVarName : String) (element : DeclType) : ClassEdit :=
  .method "put" Modifiers.Flag.isPublic.set
    [.executable (.typeParam typeVarName []), .executable (.param { name := "x", type := element }),
      .executable (.param { name := "y", type := .variable typeVar })]

/-- `class Leaf<E>`, and `class Tray<T>` with `<U> put(T[][], U)`. -/
def operations : List Operation :=
  [.declare "p.Leaf", .declare "p.Tray", .declare "p.Bin", .define leaf [.typeParam "E" []],
    .define tray [.typeParam "T" [],
      put ⟨.method tray 0, 0⟩ "U" (.arrays 2 (.variable ⟨.ofClass tray, 0⟩))]]

def leaves : ClassId := ((Universe.initial.run operations).arraysOf leaf 2).1

def withLeaves : Universe := ((Universe.initial.run operations).arraysOf leaf 2).2

def later : List Operation := [.define bin [put ⟨.method bin 0, 0⟩ "V" (.ofClass leaves)]]

def classes : Universe := withLeaves.run later

theorem permits : Universe.initial.Permits operations := by
  simp only [operations, put, Universe.Permits, Universe.Allows, Universe.Admits]
  decide

theorem permits_later : withLeaves.Permits later := by
  simp only [later, put, Universe.Permits, Universe.Allows, Universe.Admits]
  decide

def trayOfLeaf : Scope where
  declaring := .applied tray [.bound ⟨.ofClass tray, 0⟩ (.ofClass leaf)]
  declaringKey := "ParameterizedType:p.Tray<Class:p.Leaf>"
  primed := []
  anchored := false

def plainBin : Scope where
  declaring := .ofClass bin
  declaringKey := "Class:p.Bin"
  primed := []
  anchored := true

def putOf (c : ClassId) : ExecutableDecl :=
  (((classes.decl c).methods[0]?).getD default).toExecutableDecl

/-- In a tray of leaves `put` has the override key that it has in a bin. -/
theorem overrideKey_put : Universe.initial.Permits operations ∧ withLeaves.Permits later ∧
    (withLeaves.decl leaves).binaryName = "[[Lp.Leaf;" ∧
    ∃ e e', Executable.ofDecl classes trayOfLeaf (.method tray 0) (putOf tray) = .ok e ∧
      Executable.ofDecl classes plainBin (.method bin 0) (putOf bin) = .ok e' ∧
      e.overrideKey classes "put" = e'.overrideKey classes "put" := by
  have interned : (Universe.initial.run operations).Interned := Universe.Interned.initial.run permits
  have fresh (a : ClassId) : ((Universe.initial.run operations).decl a).component ≠ some leaf := by
    have unknown : (Universe.initial.run operations).arrays.lookup leaf = none := by decide
    rw [ne_eq, interned.links, unknown]
    exact nofun
  obtain ⟨name, -, -, written⟩ :=
    Universe.Permits.nested_arrays (.inl rfl) permits leaf (by decide) fresh 2 (by decide)
  obtain ⟨-, -, keys⟩ := written later permits_later
  have layered : classes.Layered := by
    refine ((interned.arrayOf ?_).arrayOf ?_ |>.run permits_later).layered <;> decide
  have made : Executable.ofDecl classes trayOfLeaf (.method tray 0) (putOf tray) = .ok _ := rfl
  have made' : Executable.ofDecl classes plainBin (.method bin 0) (putOf bin) = .ok _ := rfl
  refine ⟨permits, permits_later, name, _, _, made, made', keys _ _ _ _ _ _ _ _ made made' ?_ ?_ _⟩
  · intro y shows
    obtain ⟨-, b, own, rfl⟩ := (layered.shows_ofClass le_rfl).1 shows
    have absent : ∀ b ∈ classes.classVariables (classes.innermost leaf.index leaf).1,
        ∀ b' ∈ classes.variablesOf (.method tray 0) ++ classes.variablesOf (.method bin 0),
          b'.key classes ≠ classes.varKey b.ref := by decide
    exact (nameOf_keyNaming fun b' own' => absent b own b' (List.mem_append_left _ own')).trans
      (nameOf_keyNaming fun b' own' => absent b own b' (List.mem_append_right _ own')).symm
  · exact .cons (.arrays rfl rfl rfl) (.cons (.alike rfl rfl (by decide)) .nil)

end Trays

end JavaTypes
