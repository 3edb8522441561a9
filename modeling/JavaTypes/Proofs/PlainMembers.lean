import JavaTypes.Element
import JavaTypes.Proofs.SuperChains

/-!
Members without the record of the type that declares them. Of that type a member keeps its class and
the variables that count as defined in its texts; the rest shows in the id of the member alone. Two
types of one class that are written alike, have the same variables and the same super types list the
same members in this sense, and fail alike.
-/
namespace JavaTypes

section binds

variable {ε α β γ δ : Type}

/-- Two computations agree under a view if they agree so far and go on alike from there. -/
theorem bind_map_congr {x y : Except ε α} {p : α → β} {f g : α → Except ε γ} {q : γ → δ}
    (first : x.map p = y.map p) (rest : ∀ a b, p a = p b → (f a).map q = (g b).map q) :
    (x >>= f).map q = (y >>= g).map q := by
  match x, y, first with
  | .error _, .error _, first =>
    cases first
    rfl
  | .ok a, .ok b, first => exact rest a b (Except.ok.inj first)

theorem map_congr_ok {x : Except ε α} {f g : α → β} (same : ∀ a, x = .ok a → f a = g a) :
    x.map f = x.map g := by
  cases x with
  | error => rfl
  | ok a => exact congrArg Except.ok (same a rfl)

theorem map_congr_of_kept (view : α → α) {p : α → β} (kept : ∀ a, p (view a) = p a)
    {x y : Except ε (List α)} (same : x.map (List.map view) = y.map (List.map view)) :
    x.map (List.map p) = y.map (List.map p) := by
  have through (z : Except ε (List α)) : z.map (List.map p) =
      (z.map (List.map view)).map (List.map p) := by
    cases z with
    | error => rfl
    | ok as => simp only [Except.map, List.map_map, Function.comp_def, kept]
  rw [through x, same, ← through y]

theorem eq_error_iff_of_map_eq {x y : Except ε α} {p : α → β} (same : x.map p = y.map p) (e : ε) :
    x = .error e ↔ y = .error e := by
  match x, y, same with
  | .error _, .error _, same =>
    cases same
    rfl
  | .ok _, .ok _, _ => exact ⟨nofun, nofun⟩

theorem bind_pure_eq_error {x : Except ε α} {f : α → β} {e : ε} :
    (x >>= fun a => pure (f a)) = .error e ↔ x = .error e := by
  cases x with
  | error => exact ⟨fun eq => by cases eq; rfl, fun eq => by cases eq; rfl⟩
  | ok => exact ⟨nofun, nofun⟩

end binds

variable {u : Universe}

/-- What is left of a scope when its declaring type is forgotten but for the class. -/
def Scope.plain (s : Scope) : Scope :=
  { declaring := .ofClass s.classId, declaringKey := "", primed := s.primed, anchored := false }

def Field.plain (f : Field) : Field := { f with scope := f.scope.plain }

def Executable.plain (e : Executable) : Executable := { e with scope := e.scope.plain }

def Method.plain (m : Method) : Method := { m with executable := m.executable.plain }

def Constructor.plain (c : Constructor) : Constructor := { c with executable := c.executable.plain }

section plain

@[simp] theorem Scope.classId_plain (s : Scope) : s.plain.classId = s.classId := rfl

@[simp] theorem Executable.signature_plain (e : Executable) (returns : Option Ty) (name : String) :
    e.plain.signature u returns name = e.signature u returns name := rfl

@[simp] theorem Executable.overrideKey_plain (e : Executable) (name : String) :
    e.plain.overrideKey u name = e.overrideKey u name := rfl

end plain

/-- Members of two scopes differ in the scopes alone, if these are of one class, with the same
variables to fill in and to count as defined. -/
structure Scope.Alike (u : Universe) (s s' : Scope) : Prop where
  plain : s'.plain = s.plain
  typeVariables : s'.typeVariables u = s.typeVariables u

namespace Scope.Alike

variable {s s' : Scope} (alike : s.Alike u s')

include alike

theorem classId : s'.classId = s.classId := by
  rw [← s'.classId_plain, alike.plain, s.classId_plain]

theorem effective (m : Modifiers) (own : List TyVar) :
    s'.effective u m own = s.effective u m own := by
  rw [Scope.effective, Scope.effective, alike.typeVariables]

theorem ofDecl_field (decl : FieldDecl) :
    (Field.ofDecl u s' decl).map Field.plain = (Field.ofDecl u s decl).map Field.plain := by
  rw [Field.ofDecl, Field.ofDecl, alike.effective]
  refine bind_map_congr (p := id) rfl fun type _ same => ?_
  cases same
  simp only [Except.map, pure, Except.pure, Field.plain, alike.plain]

theorem ofDecl_executable (owner : VarOwner) (decl : ExecutableDecl) :
    (Executable.ofDecl u s' owner decl).map Executable.plain =
      (Executable.ofDecl u s owner decl).map Executable.plain := by
  simp only [Executable.ofDecl, alike.effective]
  refine bind_map_congr (p := id) rfl fun parameters _ same => ?_
  cases same
  refine bind_map_congr (p := id) rfl fun exceptions _ same => ?_
  cases same
  simp only [Except.map, pure, Except.pure, Executable.plain, alike.plain]

theorem ofDecl_method (index : Nat) (decl : MethodDecl) :
    (Method.ofDecl u s' index decl).map Method.plain =
      (Method.ofDecl u s index decl).map Method.plain := by
  rw [Method.ofDecl, Method.ofDecl, alike.classId]
  refine bind_map_congr (alike.ofDecl_executable _ _) fun e' e same => ?_
  have vars : e'.typeVariables = e.typeVariables := by
    have shown := congrArg Executable.typeVariables same
    exact shown
  have signature (t : Option Ty) : e'.signature u t decl.name = e.signature u t decl.name := by
    rw [← Executable.signature_plain, same, Executable.signature_plain]
  have key : e'.overrideKey u decl.name = e.overrideKey u decl.name := by
    rw [← Executable.overrideKey_plain, same, Executable.overrideKey_plain]
  rw [vars]
  refine bind_map_congr (p := id) rfl fun returnType _ eq => ?_
  cases eq
  rw [signature]
  refine bind_map_congr (p := id) rfl fun text _ eq => ?_
  cases eq
  rw [key]
  refine bind_map_congr (p := id) rfl fun key _ eq => ?_
  cases eq
  simp only [Except.map, pure, Except.pure, Method.plain, same]

theorem ofDecl_constructor (index : Nat) (decl : ExecutableDecl) :
    (Constructor.ofDecl u s' index decl).map Constructor.plain =
      (Constructor.ofDecl u s index decl).map Constructor.plain := by
  simp only [Constructor.ofDecl, Scope.classDecl, alike.classId]
  refine bind_map_congr (alike.ofDecl_executable _ _) fun e' e same => ?_
  have signature (name : String) : e'.signature u none name = e.signature u none name := by
    rw [← Executable.signature_plain, same, Executable.signature_plain]
  rw [signature]
  refine bind_map_congr (p := id) rfl fun text _ eq => ?_
  cases eq
  simp only [Except.map, pure, Except.pure, Constructor.plain, same]

end Scope.Alike

theorem listEach_map_congr {α β γ : Type} {make make' : Nat → α → Except ReflectionError β}
    {view : β → γ} (each : ∀ i d, (make' i d).map view = (make i d).map view) (start : Nat)
    (decls : List α) : (listEach make' start decls).map (List.map view) =
      (listEach make start decls).map (List.map view) := by
  induction decls generalizing start with
  | nil => rfl
  | cons d rest ih =>
    refine bind_map_congr (each start d) fun b' b same => ?_
    refine bind_map_congr (ih (start + 1)) fun others' others agree => ?_
    simp only [Except.map, pure, Except.pure, List.map_cons, same, agree]

theorem methodsFrom_map_congr {skipBridges : Bool} {s s' : Scope} (alike : s.Alike u s')
    (start : Nat) (decls : List MethodDecl) :
    (Declarer.methodsFrom u skipBridges s' start decls).map (List.map Method.plain) =
      (Declarer.methodsFrom u skipBridges s start decls).map (List.map Method.plain) := by
  induction decls generalizing start with
  | nil => rfl
  | cons d rest ih =>
    rw [Declarer.methodsFrom, Declarer.methodsFrom]
    split
    · exact ih (start + 1)
    · refine bind_map_congr (alike.ofDecl_method start d) fun m' m same => ?_
      refine bind_map_congr (ih (start + 1)) fun others' others agree => ?_
      simp only [Except.map, pure, Except.pure, List.map_cons, same, agree]

/-- Two types of one class that are written alike and have the same variables and super types. -/
structure Declarer.Alike (u : Universe) (d d' : Declarer) : Prop where
  classId : d'.classId = d.classId
  typeVariables : d'.typeVariables u = d.typeVariables u
  written : d'.toTy.render u {} true = d.toTy.render u {} true
  superType : d'.superType u = d.superType u
  interfaces : d'.interfaces u = d.interfaces u

section tables

theorem map_filter_of_kept {α : Type} (view : α → α) {p : α → Bool}
    (kept : ∀ a, p (view a) = p a) (values : List α) :
    (values.filter p).map view = (values.map view).filter p := by
  rw [List.filter_map]
  congr 2
  exact (funext kept).symm

/-- Public fields are listed by their names and modifiers, whatever declares them. -/
theorem map_plain_fields (inherited own : List Field) :
    ((Keyed.insertAll Field.name (own.filter (·.modifiers.isPublic))
      (Keyed.insertAll Field.name inherited [])).map (·.2)).map Field.plain =
    (Keyed.insertAll Field.name ((own.map Field.plain).filter (·.modifiers.isPublic))
      (Keyed.insertAll Field.name (inherited.map Field.plain) [])).map (·.2) := by
  have kept (f : Field) : f.plain.name = f.name := rfl
  rw [← map_filter_of_kept Field.plain (fun _ => rfl),
    ← List.map_nil (f := Prod.map id Field.plain), ← Keyed.map_insertAll kept,
    ← Keyed.map_insertAll kept, List.map_map, List.map_map]
  rfl

theorem map_plain_handedOn (methods : List Method) (table : List (String × Method)) :
    (Keyed.insertAll Method.overrideKey (methods.filter fun m => !m.isStatic) table).map
        (Prod.map id Method.plain) =
      Keyed.insertAll Method.overrideKey ((methods.map Method.plain).filter fun m => !m.isStatic)
        (table.map (Prod.map id Method.plain)) := by
  have kept (m : Method) : m.plain.overrideKey = m.overrideKey := rfl
  rw [Keyed.map_insertAll kept, map_filter_of_kept Method.plain fun _ => rfl]

/-- Public methods are listed by keys, modifiers and signatures, whatever declares them. -/
theorem map_plain_methods (own : List Method) (table : List (String × Method)) :
    (sortBySignature ((Keyed.insertAll Method.overrideKey (own.filter (·.isPublic)) table).map
      (·.2))).map Method.plain =
    sortBySignature ((Keyed.insertAll Method.overrideKey
      ((own.map Method.plain).filter (·.isPublic)) (table.map (Prod.map id Method.plain))).map
        (·.2)) := by
  have kept (m : Method) : m.plain.overrideKey = m.overrideKey := rfl
  have sorted (methods : List Method) :
      (sortBySignature methods).map Method.plain = sortBySignature (methods.map Method.plain) :=
    List.map_mergeSort fun _ _ _ _ => rfl
  rw [sorted, ← map_filter_of_kept Method.plain fun _ => rfl, ← Keyed.map_insertAll kept,
    List.map_map, List.map_map]
  rfl

theorem inheritMethods_map_congr {f g : Ty → Except ReflectionError (List Method)}
    (each : ∀ t, (f t).map (List.map Method.plain) = (g t).map (List.map Method.plain))
    (types : List Ty) {table table' : List (String × Method)}
    (same : table.map (Prod.map id Method.plain) = table'.map (Prod.map id Method.plain)) :
    (inheritMethods f types table).map (List.map (Prod.map id Method.plain)) =
      (inheritMethods g types table').map (List.map (Prod.map id Method.plain)) := by
  induction types generalizing table table' with
  | nil => exact congrArg Except.ok same
  | cons t rest ih =>
    refine bind_map_congr (each t) fun methods methods' agree => ih ?_
    rw [map_plain_handedOn, map_plain_handedOn, agree, same]

end tables

namespace Declarer.Alike

variable {d d' : Declarer} {skipBridges : Bool}

theorem refl (d : Declarer) : d.Alike u d := ⟨rfl, rfl, rfl, rfl, rfl⟩

variable (alike : d.Alike u d')

include alike

theorem scope (anchored anchored' : Bool) :
    (Scope.of u anchored' d').map (fun s => (s.plain, s.typeVariables u)) =
      (Scope.of u anchored d).map fun s => (s.plain, s.typeVariables u) := by
  unfold Scope.of
  rw [alike.written]
  obtain ⟨text, ctx⟩ := d.toTy.render u {} true
  cases text with
  | error => rfl
  | ok text =>
    simp only [Except.map, Scope.plain, Scope.classId, Scope.typeVariables, alike.classId,
      alike.typeVariables]

theorem declaredFields (anchored anchored' : Bool) :
    (d'.declaredFields u anchored').map (List.map Field.plain) =
      (d.declaredFields u anchored).map (List.map Field.plain) := by
  refine bind_map_congr (alike.scope anchored anchored') fun s' s same => ?_
  have scopes : s.Alike u s' := ⟨congrArg Prod.fst same, congrArg Prod.snd same⟩
  rw [Scope.classDecl, Scope.classDecl, scopes.classId]
  exact listEach_map_congr (fun _ decl => scopes.ofDecl_field decl) 0 _

theorem declaredConstructors (anchored anchored' : Bool) :
    (d'.declaredConstructors u anchored').map (List.map Constructor.plain) =
      (d.declaredConstructors u anchored).map (List.map Constructor.plain) := by
  refine bind_map_congr (alike.scope anchored anchored') fun s' s same => ?_
  have scopes : s.Alike u s' := ⟨congrArg Prod.fst same, congrArg Prod.snd same⟩
  rw [Scope.classDecl, Scope.classDecl, scopes.classId]
  exact listEach_map_congr scopes.ofDecl_constructor 0 _

theorem declaredMethods (anchored anchored' : Bool) :
    (d'.declaredMethods u skipBridges anchored').map (List.map Method.plain) =
      (d.declaredMethods u skipBridges anchored).map (List.map Method.plain) := by
  refine bind_map_congr (alike.scope anchored anchored') fun s' s same => ?_
  have scopes : s.Alike u s' := ⟨congrArg Prod.fst same, congrArg Prod.snd same⟩
  rw [Scope.classDecl, Scope.classDecl, scopes.classId]
  exact methodsFrom_map_congr scopes 0 _

theorem methods_congr {f g : Ty → Except ReflectionError (List Method)}
    (each : ∀ t, (f t).map (List.map Method.plain) = (g t).map (List.map Method.plain))
    (anchored anchored' : Bool) :
    (d'.publicMethods u skipBridges anchored' f).map (List.map Method.plain) =
      (d.publicMethods u skipBridges anchored g).map (List.map Method.plain) := by
  rw [Declarer.publicMethods, Declarer.publicMethods, alike.interfaces]
  refine bind_map_congr (p := id) rfl fun interfaces _ eq => ?_
  cases eq
  refine bind_map_congr (inheritMethods_map_congr each interfaces rfl) fun table' table same => ?_
  rw [alike.superType]
  refine bind_map_congr (p := id) rfl fun superType _ eq => ?_
  cases eq
  refine bind_map_congr (inheritMethods_map_congr each superType.toList same)
    fun table' table same => ?_
  refine bind_map_congr (alike.declaredMethods anchored anchored') fun own' own agree => ?_
  simp only [Except.map, pure, Except.pure, map_plain_methods, same, agree]

end Declarer.Alike

section walks

variable {skipBridges : Bool}

/-- Which way led to a type makes no difference to its public methods. -/
theorem map_plain_publicMethodsWithin (limit : Nat) (anchored anchored' : Bool) (t : Ty) :
    (publicMethodsWithin u skipBridges limit anchored' t).map (List.map Method.plain) =
      (publicMethodsWithin u skipBridges limit anchored t).map (List.map Method.plain) := by
  induction limit generalizing anchored anchored' t with
  | zero => rfl
  | succ limit ih =>
    rw [publicMethodsWithin_succ, publicMethodsWithin_succ]
    exact (Declarer.Alike.refl _).methods_congr (fun s => ih _ _ s) _ _

/-- A step of the walk that lists public fields, under a view of what the steps above list. -/
theorem Declarer.Alike.publicFieldsWithin_succ {d d' : Declarer} (alike : d.Alike u d')
    {limit : Nat} {anchored anchored' : Bool}
    (each : ∀ s a a', (publicFieldsWithin u limit a' s).map (List.map Field.plain) =
      (publicFieldsWithin u limit a s).map (List.map Field.plain)) :
    (publicFieldsWithin u (limit + 1) anchored' d'.toTy).map (List.map Field.plain) =
      (publicFieldsWithin u (limit + 1) anchored d.toTy).map (List.map Field.plain) := by
  rw [JavaTypes.publicFieldsWithin_succ, JavaTypes.publicFieldsWithin_succ, alike.superType]
  refine bind_map_congr (p := id) rfl fun super _ eq => ?_
  cases eq
  have inherited : (inheritedFields u limit (anchored' || d'.anchors) super).map
      (List.map Field.plain) =
        (inheritedFields u limit (anchored || d.anchors) super).map (List.map Field.plain) := by
    cases super with
    | none => rfl
    | some s => exact each s _ _
  refine bind_map_congr inherited fun above' above same => ?_
  refine bind_map_congr (alike.declaredFields _ _) fun own' own agree => ?_
  simp only [Except.map, pure, Except.pure, map_plain_fields, same, agree]

theorem map_plain_publicFieldsWithin (limit : Nat) (t : Ty) (anchored anchored' : Bool) :
    (publicFieldsWithin u limit anchored' t).map (List.map Field.plain) =
      (publicFieldsWithin u limit anchored t).map (List.map Field.plain) := by
  induction limit generalizing anchored anchored' t with
  | zero => rfl
  | succ limit ih =>
    cases own : t.declarer? with
    | none => simp only [publicFieldsWithin, own]
    | some d =>
      rw [publicFieldsWithin_of_declarer own, publicFieldsWithin_of_declarer own]
      exact (Declarer.Alike.refl d).publicFieldsWithin_succ ih

end walks

/-- Two types have the same members but for what declares these, and listing them fails alike. -/
structure Ty.SameMembers (u : Universe) (skipBridges : Bool) (t t' : Ty) : Prop where
  ownFields : (t'.declaredFields u).map (List.map Field.plain) =
    (t.declaredFields u).map (List.map Field.plain)
  fields : (t'.publicFields u).map (List.map Field.plain) =
    (t.publicFields u).map (List.map Field.plain)
  constructors : (t'.declaredConstructors u).map (List.map Constructor.plain) =
    (t.declaredConstructors u).map (List.map Constructor.plain)
  ownMethods : (t'.declaredMethods u skipBridges).map (List.map Method.plain) =
    (t.declaredMethods u skipBridges).map (List.map Method.plain)
  methods : (t'.publicMethods u skipBridges).map (List.map Method.plain) =
    (t.publicMethods u skipBridges).map (List.map Method.plain)

/-- With ways up that end, types that are alike have the same members, although the walks from them
are limited by their sizes. -/
theorem Declarer.Alike.sameMembers {d d' : Declarer} (alike : d.Alike u d') (ends : d.Ends u)
    (ends' : d'.Ends u) (skipBridges : Bool) : d.toTy.SameMembers u skipBridges d'.toTy := by
  -- A type and its counterpart differ in size; one limit that is enough for both gives the same.
  obtain ⟨limit, enough, enough'⟩ :
      ∃ k, u.walkLimit d.toTy ≤ k + 1 ∧ u.walkLimit d'.toTy ≤ k + 1 :=
    ⟨max (u.walkLimit d.toTy) (u.walkLimit d'.toTy), by omega, by omega⟩
  constructor
  case ownFields =>
    simp only [Ty.declaredFields, declarer?_toTy]
    exact alike.declaredFields _ _
  case constructors =>
    simp only [Ty.declaredConstructors, declarer?_toTy]
    exact alike.declaredConstructors _ _
  case ownMethods =>
    simp only [Ty.declaredMethods, methodDeclarer_toTy]
    exact alike.declaredMethods _ _
  case fields =>
    rw [← ends.endsWithin.fields_of_limit le_rfl enough,
      ← ends'.endsWithin.fields_of_limit le_rfl enough']
    exact alike.publicFieldsWithin_succ fun s a a' => map_plain_publicFieldsWithin limit s a a'
  case methods =>
    rw [← ends.endsWithin.methods_of_limit le_rfl enough,
      ← ends'.endsWithin.methods_of_limit le_rfl enough', publicMethodsWithin_succ,
      publicMethodsWithin_succ, methodDeclarer_toTy, methodDeclarer_toTy]
    exact alike.methods_congr (fun s => map_plain_publicMethodsWithin limit _ _ s) _ _

namespace Ty.SameMembers

variable {skipBridges : Bool} {t t' : Ty} (same : t.SameMembers u skipBridges t')

include same

theorem fields_shown :
    (t'.declaredFields u).map (List.map fun f => (f.name, f.type, f.display u)) =
        (t.declaredFields u).map (List.map fun f => (f.name, f.type, f.display u)) ∧
      (t'.publicFields u).map (List.map fun f => (f.name, f.type, f.display u)) =
        (t.publicFields u).map (List.map fun f => (f.name, f.type, f.display u)) :=
  ⟨map_congr_of_kept Field.plain (fun _ => rfl) same.ownFields,
    map_congr_of_kept Field.plain (fun _ => rfl) same.fields⟩

theorem methods_shown :
    (t'.publicMethods u skipBridges).map
        (List.map fun m => (m.overrideKey, m.signature, m.display u)) =
      (t.publicMethods u skipBridges).map
        (List.map fun m => (m.overrideKey, m.signature, m.display u)) :=
  map_congr_of_kept Method.plain (fun _ => rfl) same.methods

/-- Types with the same members, super types and bounds fail where the other does, whatever they are
asked for. -/
theorem select_eq_error_iff (super : t'.superType u = t.superType u)
    (interfaces : t'.interfaces u = t.interfaces u)
    (bounds : t'.upperBounds u = t.upperBounds u) (erased : t'.erasure u = t.erasure u)
    (s : Selector) (e : ReflectionError) :
    t'.select u skipBridges s = .error e ↔ t.select u skipBridges s = .error e := by
  have field (name : String) :
      t'.publicField? u name = .error e ↔ t.publicField? u name = .error e :=
    bind_pure_eq_error.trans
      ((eq_error_iff_of_map_eq same.fields e).trans bind_pure_eq_error.symm)
  have constructors : t'.publicConstructors u = .error e ↔ t.publicConstructors u = .error e :=
    bind_pure_eq_error.trans
      ((eq_error_iff_of_map_eq same.constructors e).trans bind_pure_eq_error.symm)
  cases s <;> simp only [select, bind_pure_eq_error, super, interfaces, bounds, erased, field,
    constructors, eq_error_iff_of_map_eq same.ownFields e,
    eq_error_iff_of_map_eq same.fields e, eq_error_iff_of_map_eq same.constructors e,
    eq_error_iff_of_map_eq same.ownMethods e, eq_error_iff_of_map_eq same.methods e,
    reduceCtorEq]
  case rawClass => split <;> split <;> simp

end Ty.SameMembers

end JavaTypes
