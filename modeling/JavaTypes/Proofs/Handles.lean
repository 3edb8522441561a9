import JavaTypes.Proofs.ClassNames

/-!
What calls hand out. Declaring a class and asking for an array class hand out class ids; declaring a
type parameter hands out a variable, numbered by the parameters, methods and constructors there are
at that time. Declarations only grow at the end, so what is handed out keeps its meaning in every
later state, whatever else is declared, defined or made an array of.
-/
namespace JavaTypes

/-- What a caller keeps: a class under a binary name, or a variable for a type parameter. -/
inductive Handle where
  | classId (c : ClassId) (name : String)
  | typeVar (v : VarRef) (param : TypeParam)

/-- In the universe the class has the name, or the variable points at the parameter. -/
def Handle.Denotes (u : Universe) : Handle → Prop
  | .classId c name => c ∈ u.ids ∧ (u.decl c).binaryName = name
  | .typeVar v param => u.typeParam? v = some param

/-- The variables for the type parameters that edits of a method or constructor add. -/
def ExecutableDecl.handed (owner : VarOwner) : ExecutableDecl → List ExecutableEdit → List Handle
  | _, [] => []
  | d, .typeParam name bounds :: rest =>
    .typeVar ⟨owner, d.typeParams.length⟩ { name, bounds } ::
      (d.edit (.typeParam name bounds)).handed owner rest
  | d, e :: rest => (d.edit e).handed owner rest

def MethodEdit.executable? : MethodEdit → Option ExecutableEdit
  | .executable e => some e
  | .returns _ => none
  | .bridge => none

namespace Draft

def handed (d : Draft) : ClassEdit → List Handle
  | .typeParam name bounds => [.typeVar d.nextTypeVar { name, bounds }]
  | .method _ m edits =>
    ({ modifiers := m } : ExecutableDecl).handed d.nextMethod (edits.filterMap (·.executable?))
  | .constructor m edits => ({ modifiers := m } : ExecutableDecl).handed d.nextConstructor edits
  | .arrayOf component =>
    let (a, u) := d.within.arrayOf component
    [.classId a (u.decl a).binaryName]
  | _ => []

def handedBy (d : Draft) : List ClassEdit → List Handle
  | [] => []
  | e :: rest => d.handed e ++ (d.edit e).handedBy rest

end Draft

namespace Universe

def handed (u : Universe) : Operation → List Handle
  | .declare name => [.classId (u.declare name).1 name]
  | .define c edits => (u.draft c).handedBy edits
  | .arrayOf component =>
    let (a, v) := u.arrayOf component
    [.classId a (v.decl a).binaryName]

def Permits : Universe → List Operation → Prop
  | _, [] => True
  | u, op :: rest => u.Allows op ∧ (u.perform op).Permits rest

end Universe

/-- A class keeps its name, and declarations with type parameters are only added at the end. -/
structure ClassDecl.GrowsTo (d d' : ClassDecl) : Prop where
  name : d'.binaryName = d.binaryName
  typeParams : d.typeParams <+: d'.typeParams
  methods : d.methods <+: d'.methods
  constructors : d.constructors <+: d'.constructors

namespace ClassDecl.GrowsTo

theorem refl (d : ClassDecl) : d.GrowsTo d :=
  ⟨rfl, List.prefix_rfl, List.prefix_rfl, List.prefix_rfl⟩

theorem trans {d d' d'' : ClassDecl} (first : d.GrowsTo d') (second : d'.GrowsTo d'') :
    d.GrowsTo d'' where
  name := second.name.trans first.name
  typeParams := first.typeParams.trans second.typeParams
  methods := first.methods.trans second.methods
  constructors := first.constructors.trans second.constructors

theorem getElem?_eq_some_of_prefix {α : Type} {l l' : List α} (longer : l <+: l') {i : Nat} {a : α}
    (found : l[i]? = some a) : l'[i]? = some a := by
  obtain ⟨inside, rfl⟩ := List.getElem?_eq_some_iff.1 found
  exact List.prefix_iff_getElem?.1 longer i inside

theorem typeParamsOf {d d' : ClassDecl} (grows : d.GrowsTo d') {owner : VarOwner} {i : Nat}
    {p : TypeParam} (found : (d.typeParamsOf owner)[i]? = some p) :
    (d'.typeParamsOf owner)[i]? = some p := by
  cases owner with
  | ofClass c => exact getElem?_eq_some_of_prefix grows.typeParams found
  | method c k =>
    cases method : d.methods[k]? with
    | none => simp [ClassDecl.typeParamsOf, method] at found
    | some m =>
      have later := getElem?_eq_some_of_prefix grows.methods method
      simpa [ClassDecl.typeParamsOf, method, later] using found
  | constructor c k =>
    cases constructor : d.constructors[k]? with
    | none => simp [ClassDecl.typeParamsOf, constructor] at found
    | some m =>
      have later := getElem?_eq_some_of_prefix grows.constructors constructor
      simpa [ClassDecl.typeParamsOf, constructor, later] using found

end ClassDecl.GrowsTo

/-- Every class stays and grows only. -/
def Universe.Grows (u v : Universe) : Prop :=
  ∀ c ∈ u.ids, c ∈ v.ids ∧ (u.decl c).GrowsTo (v.decl c)

namespace Universe.Grows

variable {u v w : Universe}

theorem refl (u : Universe) : u.Grows u := fun _ known => ⟨known, .refl _⟩

theorem trans (first : u.Grows v) (second : v.Grows w) : u.Grows w := fun c known =>
  let ⟨inside, grows⟩ := first c known
  let ⟨inside', grows'⟩ := second c inside
  ⟨inside', grows.trans grows'⟩

theorem of_kept (kept : ∀ c ∈ u.ids, c ∈ v.ids ∧ v.decl c = u.decl c) : u.Grows v :=
  fun c known => ⟨(kept c known).1, (kept c known).2 ▸ .refl _⟩

theorem denotes (grows : u.Grows v) {h : Handle} (denotes : h.Denotes u) : h.Denotes v := by
  cases h with
  | classId c name =>
    obtain ⟨known, same⟩ := denotes
    obtain ⟨inside, grown⟩ := grows c known
    exact ⟨inside, grown.name.trans same⟩
  | typeVar r p =>
    have declares : u.typeParams r.owner ≠ [] := by
      intro empty
      simp [Handle.Denotes, Universe.typeParam?, empty] at denotes
    exact (grows r.owner.classId (mem_owners declares).1).2.typeParamsOf denotes

end Universe.Grows

/-- The tables lead to classes there are, the table of names to classes of these names. -/
structure Universe.Indexed (u : Universe) : Prop where
  names : ∀ entry ∈ u.names, entry.2 ∈ u.ids ∧ (u.decl entry.2).binaryName = entry.1
  arrays : ∀ entry ∈ u.arrays, entry.2 ∈ u.ids

namespace Universe

variable {u : Universe}

def IsArray (u : Universe) (c : ClassId) : Prop :=
  (u.decl c).kind = .array ∧
    ∃ e ∈ u.ids, (u.decl c).component = some e ∧ u.arrays.lookup e = some c

structure AddsArrays (u v : Universe) : Prop where
  kept : ∀ c ∈ u.ids, c ∈ v.ids ∧ v.decl c = u.decl c
  added : ∀ c ∈ v.ids, c ∉ u.ids → v.IsArray c

theorem declare_cases (u : Universe) (name : String) :
    (∃ c, u.classId? name = some c ∧ u.declare name = (c, u)) ∨
      u.classId? name = none ∧ u.declare name =
        u.insert { ClassDecl.named name with superClass := some (.ofClass object) } := by
  unfold declare
  split
  · next c found => exact .inl ⟨c, found, rfl⟩
  · next fresh => exact .inr ⟨fresh, rfl⟩

theorem arrayOf_cases (u : Universe) (component : ClassId) :
    (∃ a, u.arrays.lookup component = some a ∧ u.arrayOf component = (a, u)) ∨
      u.arrays.lookup component = none ∧ u.arrayOf component =
        (⟨u.size⟩, { (u.insert (u.arrayDecl component)).2 with
          arrays := (component, ⟨u.size⟩) :: u.arrays }) := by
  unfold arrayOf
  split
  · next a found => exact .inl ⟨a, found, rfl⟩
  · next fresh => exact .inr ⟨fresh, rfl⟩

theorem grows_declare (name : String) : u.Grows (u.declare name).2 :=
  .of_kept fun _ known => ⟨mem_ids_declare known name, decl_declare known name⟩

theorem grows_arrayOf (component : ClassId) : u.Grows (u.arrayOf component).2 :=
  .of_kept fun _ known => ⟨mem_ids_arrayOf known component, decl_arrayOf known component⟩

theorem grows_setDecl {c : ClassId} (known : c ∈ u.ids) {d : ClassDecl}
    (grows : (u.decl c).GrowsTo d) : u.Grows (u.setDecl c d) := by
  intro c' inside
  rw [ids_setDecl, decl_setDecl known]
  refine ⟨inside, ?_⟩
  split
  · next same => exact same ▸ grows
  · exact .refl _

theorem denotes_insert (d : ClassDecl) :
    (Handle.classId ⟨u.size⟩ d.binaryName).Denotes (u.insert d).2 :=
  ⟨mem_ids_insert.2 (.inr rfl), congrArg ClassDecl.binaryName (decl_insert_new d)⟩

namespace Indexed

/-- Tables stay right where the universe grows and each new entry is right. -/
theorem of_grows {v : Universe} (indexed : u.Indexed) (grows : u.Grows v)
    (names : ∀ entry ∈ v.names, entry ∈ u.names ∨
      entry.2 ∈ v.ids ∧ (v.decl entry.2).binaryName = entry.1)
    (arrays : ∀ entry ∈ v.arrays, entry ∈ u.arrays ∨ entry.2 ∈ v.ids) : v.Indexed where
  names := by
    intro entry member
    rcases names entry member with old | new
    · obtain ⟨known, name⟩ := indexed.names entry old
      obtain ⟨inside, grown⟩ := grows entry.2 known
      exact ⟨inside, grown.name.trans name⟩
    · exact new
  arrays := by
    intro entry member
    rcases arrays entry member with old | new
    · exact (grows entry.2 (indexed.arrays entry old)).1
    · exact new

theorem mem_of_classId? (indexed : u.Indexed) {name : String} {c : ClassId}
    (found : u.classId? name = some c) : c ∈ u.ids ∧ (u.decl c).binaryName = name := by
  obtain ⟨before, after, split, -⟩ := List.lookup_eq_some_iff.1 found
  exact indexed.names (name, c) (by simp [split])

theorem mem_of_lookup (indexed : u.Indexed) {e a : ClassId} (found : u.arrays.lookup e = some a) :
    a ∈ u.ids := by
  obtain ⟨before, after, split, -⟩ := List.lookup_eq_some_iff.1 found
  exact indexed.arrays (e, a) (by simp [split])

theorem declare (indexed : u.Indexed) (name : String) : (u.declare name).2.Indexed := by
  have grows := grows_declare (u := u) name
  rcases declare_cases u name with ⟨c, -, eq⟩ | ⟨-, eq⟩
  · exact eq ▸ indexed
  · rw [eq] at grows ⊢
    refine indexed.of_grows grows (fun entry member => ?_) fun entry member => .inl member
    rcases List.mem_cons.1 member with rfl | member
    · exact .inr (denotes_insert _)
    · exact .inl member

theorem arrayOf (indexed : u.Indexed) (component : ClassId) : (u.arrayOf component).2.Indexed := by
  have grows := grows_arrayOf (u := u) component
  rcases arrayOf_cases u component with ⟨c, -, eq⟩ | ⟨-, eq⟩
  · exact eq ▸ indexed
  · rw [eq] at grows ⊢
    have new := denotes_insert (u := u) (u.arrayDecl component)
    refine indexed.of_grows grows (fun entry member => ?_) fun entry member => ?_
    · rcases List.mem_cons.1 member with rfl | member
      · exact .inr new
      · exact .inl member
    · rcases List.mem_cons.1 member with rfl | member
      · exact .inr new.1
      · exact .inl member

theorem setDecl (indexed : u.Indexed) {c : ClassId} (known : c ∈ u.ids) {d : ClassDecl}
    (name : d.binaryName = (u.decl c).binaryName) : (u.setDecl c d).Indexed where
  names := by
    intro entry member
    rw [ids_setDecl, binaryName_setDecl known name]
    exact indexed.names entry member
  arrays := by
    intro entry member
    rw [ids_setDecl]
    exact indexed.arrays entry member

theorem initial : Universe.initial.Indexed := ⟨Registered.initial.entries, nofun⟩

theorem foundation : Universe.foundation.Indexed :=
  ⟨Registered.foundation.entries, by decide +kernel⟩

theorem mem_arrayOf (indexed : u.Indexed) (component : ClassId) :
    (u.arrayOf component).1 ∈ (u.arrayOf component).2.ids := by
  rcases arrayOf_cases u component with ⟨a, found, eq⟩ | ⟨-, eq⟩
  · rw [eq]
    exact indexed.mem_of_lookup found
  · rw [eq]
    exact mem_ids_insert.2 (.inr rfl)

theorem denotes_declare (indexed : u.Indexed) (name : String) :
    (Handle.classId (u.declare name).1 name).Denotes (u.declare name).2 := by
  rcases declare_cases u name with ⟨c, found, eq⟩ | ⟨-, eq⟩
  · rw [eq]
    exact indexed.mem_of_classId? found
  · rw [eq]
    exact denotes_insert { ClassDecl.named name with superClass := some (.ofClass object) }

end Indexed

end Universe

section executables

theorem typeParams_edits (d : ExecutableDecl) (edits : List ExecutableEdit) :
    d.typeParams <+: (edits.foldl ExecutableDecl.edit d).typeParams := by
  induction edits generalizing d with
  | nil => exact List.prefix_rfl
  | cons e rest ih =>
    refine List.IsPrefix.trans ?_ (ih (d.edit e))
    cases e with
    | typeParam => exact List.prefix_append _ _
    | _ => exact List.prefix_rfl

theorem ExecutableDecl.of_mem_handed {owner : VarOwner} {d : ExecutableDecl}
    {edits : List ExecutableEdit} {h : Handle} (handed : h ∈ d.handed owner edits) :
    ∃ i p, h = .typeVar ⟨owner, i⟩ p ∧
      (edits.foldl ExecutableDecl.edit d).typeParams[i]? = some p := by
  induction edits generalizing d with
  | nil => cases handed
  | cons e rest ih =>
    cases e with
    | typeParam name bounds =>
      rcases List.mem_cons.1 handed with rfl | later
      · refine ⟨_, _, rfl, ?_⟩
        refine ClassDecl.GrowsTo.getElem?_eq_some_of_prefix (typeParams_edits _ rest) ?_
        simp [ExecutableDecl.edit]
      · exact ih later
    | _ => exact ih handed

/-- A method is edited in what it has in common with constructors, and in the rest. -/
theorem toExecutableDecl_edits (d : MethodDecl) (edits : List MethodEdit) :
    (edits.foldl MethodDecl.edit d).toExecutableDecl =
      (edits.filterMap (·.executable?)).foldl ExecutableDecl.edit d.toExecutableDecl := by
  induction edits generalizing d with
  | nil => rfl
  | cons e rest ih => cases e <;> exact ih _

end executables

/-- A draft of a class there is, under the name of the class. -/
structure Draft.Sound (d : Draft) : Prop where
  known : d.self ∈ d.within.ids
  name : d.decl.binaryName = (d.within.decl d.self).binaryName
  indexed : d.within.Indexed

namespace Draft

variable {d : Draft}

theorem growsTo_setKind (d : Draft) (k : ClassKind) : d.decl.GrowsTo (d.setKind k) := by
  cases k with
  | enumeration =>
    simp only [setKind]
    split <;> exact ⟨rfl, List.prefix_rfl, List.prefix_rfl, List.prefix_rfl⟩
  | _ => exact ⟨rfl, List.prefix_rfl, List.prefix_rfl, List.prefix_rfl⟩

theorem growsTo_editDecl (d : Draft) (e : ClassEdit) : d.decl.GrowsTo (d.editDecl e) := by
  cases e with
  | kind k => exact d.growsTo_setKind k
  | nesting n => cases n <;> exact ⟨rfl, List.prefix_rfl, List.prefix_rfl, List.prefix_rfl⟩
  | typeParam => exact ⟨rfl, List.prefix_append _ _, List.prefix_rfl, List.prefix_rfl⟩
  | method => exact ⟨rfl, List.prefix_rfl, List.prefix_append _ _, List.prefix_rfl⟩
  | constructor => exact ⟨rfl, List.prefix_rfl, List.prefix_rfl, List.prefix_append _ _⟩
  | _ => exact ⟨rfl, List.prefix_rfl, List.prefix_rfl, List.prefix_rfl⟩

theorem within_edit (d : Draft) (e : ClassEdit) :
    (d.edit e).within = d.within ∨ ∃ component, e = .arrayOf component ∧
      (d.edit e).within = (d.within.arrayOf component).2 := by
  cases e with
  | arrayOf component => exact .inr ⟨component, rfl, rfl⟩
  | _ => exact .inl rfl

theorem grows_within_edit (d : Draft) (e : ClassEdit) : d.within.Grows (d.edit e).within := by
  rcases d.within_edit e with eq | ⟨component, -, eq⟩
  · exact eq ▸ .refl _
  · exact eq ▸ Universe.grows_arrayOf component

namespace Sound

theorem edit (sound : d.Sound) (e : ClassEdit) : (d.edit e).Sound where
  known := (d.grows_within_edit e d.self sound.known).1
  name := by
    have grown := (d.grows_within_edit e d.self sound.known).2.name
    exact (d.binaryName_editDecl e).trans (sound.name.trans grown.symm)
  indexed := by
    rcases d.within_edit e with eq | ⟨component, -, eq⟩
    · exact eq ▸ sound.indexed
    · exact eq ▸ sound.indexed.arrayOf component

theorem indexed_finish (sound : d.Sound) : d.finish.Indexed :=
  sound.indexed.setDecl sound.known sound.name

theorem decl_finish (sound : d.Sound) (c : ClassId) :
    d.finish.decl c = if c = d.self then d.decl else d.within.decl c :=
  Universe.decl_setDecl sound.known d.decl c

theorem binaryName_finish (sound : d.Sound) (c : ClassId) :
    (d.finish.decl c).binaryName = (d.within.decl c).binaryName :=
  Universe.binaryName_setDecl sound.known sound.name c

/-- The universe after an edit is the one before, grown. -/
theorem grows_edit (sound : d.Sound) (e : ClassEdit) : d.finish.Grows (d.edit e).finish := by
  intro c known
  have known : c ∈ d.within.ids := (Universe.ids_setDecl d.self d.decl) ▸ known
  obtain ⟨inside, grown⟩ := d.grows_within_edit e c known
  have after : (d.edit e).finish.ids = (d.edit e).within.ids :=
    Universe.ids_setDecl (d.edit e).self (d.edit e).decl
  refine ⟨after ▸ inside, ?_⟩
  rw [sound.decl_finish, (sound.edit e).decl_finish]
  change ClassDecl.GrowsTo _ (if c = d.self then _ else _)
  split
  · exact d.growsTo_editDecl e
  · exact grown

theorem grows_edits (sound : d.Sound) (edits : List ClassEdit) :
    d.finish.Grows (edits.foldl Draft.edit d).finish := by
  induction edits generalizing d with
  | nil => exact .refl _
  | cons e rest ih => exact (sound.grows_edit e).trans (ih (sound.edit e))

/-- A type parameter of the draft is one of the finished class. -/
theorem denotes_typeVar (sound : d.Sound) {owner : VarOwner} {i : Nat} {p : TypeParam}
    (own : owner.classId = d.self) (found : (d.decl.typeParamsOf owner)[i]? = some p) :
    (Handle.typeVar ⟨owner, i⟩ p).Denotes d.finish := by
  rw [Handle.Denotes, Universe.typeParam?, Universe.typeParams, own, sound.decl_finish, if_pos rfl]
  exact found

/-- What an edit hands out denotes what it was handed out for as soon as the class is finished. -/
theorem denotes_edit (sound : d.Sound) (e : ClassEdit) :
    ∀ h ∈ d.handed e, h.Denotes (d.edit e).finish := by
  intro h handed
  have sound' := sound.edit e
  cases e with
  | typeParam name bounds =>
    cases List.mem_singleton.1 handed
    refine sound'.denotes_typeVar rfl ?_
    simp [Draft.edit, Draft.editDecl, ClassDecl.typeParamsOf]
  | method name m edits =>
    obtain ⟨i, p, rfl, found⟩ := ExecutableDecl.of_mem_handed handed
    refine sound'.denotes_typeVar rfl ?_
    rw [← found, ← toExecutableDecl_edits { modifiers := m, name, returnType := voidType d.within }]
    simp [Draft.edit, Draft.editDecl, nextMethod, ClassDecl.typeParamsOf, Draft.method]
  | constructor m edits =>
    obtain ⟨i, p, rfl, found⟩ := ExecutableDecl.of_mem_handed handed
    refine sound'.denotes_typeVar rfl ?_
    rw [← found]
    simp [Draft.edit, Draft.editDecl, nextConstructor, ClassDecl.typeParamsOf]
  | arrayOf component =>
    cases List.mem_singleton.1 handed
    have inside := sound.indexed.mem_arrayOf component
    exact ⟨(Universe.ids_setDecl _ _).symm ▸ inside, sound'.binaryName_finish _⟩
  | _ => cases handed

theorem denotes_edits (sound : d.Sound) (edits : List ClassEdit) :
    ∀ h ∈ d.handedBy edits, h.Denotes (edits.foldl Draft.edit d).finish := by
  induction edits generalizing d with
  | nil => nofun
  | cons e rest ih =>
    intro h handed
    rcases List.mem_append.1 handed with now | later
    · exact ((sound.edit e).grows_edits rest).denotes (sound.denotes_edit e h now)
    · exact ih (sound.edit e) h later

end Sound

end Draft

namespace Universe

variable {u : Universe}

theorem Indexed.sound_draft (indexed : u.Indexed) {c : ClassId} (known : c ∈ u.ids) :
    (u.draft c).Sound := ⟨known, rfl, indexed⟩

theorem Indexed.grows_perform (indexed : u.Indexed) {op : Operation} (allows : u.Allows op) :
    u.Grows (u.perform op) := by
  cases op with
  | declare name => exact grows_declare name
  | arrayOf component => exact grows_arrayOf component
  | define c edits =>
    have started : u.Grows (u.draft c).finish := grows_setDecl allows.1 (.refl _)
    exact started.trans ((indexed.sound_draft allows.1).grows_edits edits)

theorem Indexed.perform (indexed : u.Indexed) {op : Operation} (allows : u.Allows op) :
    (u.perform op).Indexed := by
  cases op with
  | declare name => exact indexed.declare name
  | arrayOf component => exact indexed.arrayOf component
  | define c edits =>
    have sound : (edits.foldl Draft.edit (u.draft c)).Sound := by
      refine List.foldlRecOn edits Draft.edit (indexed.sound_draft allows.1) ?_
      exact fun d sound e _ => sound.edit e
    exact sound.indexed_finish

theorem Indexed.denotes_operation (indexed : u.Indexed) {op : Operation} (allows : u.Allows op) :
    ∀ h ∈ u.handed op, h.Denotes (u.perform op) := by
  intro h handed
  cases op with
  | declare name =>
    cases List.mem_singleton.1 handed
    exact indexed.denotes_declare name
  | arrayOf component =>
    cases List.mem_singleton.1 handed
    exact ⟨indexed.mem_arrayOf component, rfl⟩
  | define c edits => exact (indexed.sound_draft allows.1).denotes_edits edits h handed

theorem Indexed.run (indexed : u.Indexed) {operations : List Operation}
    (permits : u.Permits operations) :
    (u.run operations).Indexed ∧ u.Grows (u.run operations) := by
  induction operations generalizing u with
  | nil => exact ⟨indexed, .refl u⟩
  | cons op rest ih =>
    obtain ⟨allows, permits⟩ := permits
    obtain ⟨indexed', grows⟩ := ih (indexed.perform allows) permits
    exact ⟨indexed', (indexed.grows_perform allows).trans grows⟩

theorem permits_append {before after : List Operation} :
    u.Permits (before ++ after) ↔ u.Permits before ∧ (u.run before).Permits after := by
  induction before generalizing u with
  | nil => exact ⟨fun permits => ⟨trivial, permits⟩, And.right⟩
  | cons op rest ih => simp only [List.cons_append, Permits, ih, and_assoc]; rfl

namespace AddsArrays

theorem refl (u : Universe) : u.AddsArrays u :=
  ⟨fun _ known => ⟨known, rfl⟩, fun _ known other => absurd known other⟩

/-- A new array class is added, and those added before are still found by their components. -/
theorem arrayOf {v : Universe} (adds : u.AddsArrays v) {component : ClassId}
    (known : component ∈ v.ids) : u.AddsArrays (v.arrayOf component).2 where
  kept := fun c inside =>
    let ⟨there, same⟩ := adds.kept c inside
    ⟨mem_ids_arrayOf there component, (decl_arrayOf there component).trans same⟩
  added := by
    rcases arrayOf_cases v component with ⟨a, -, eq⟩ | ⟨fresh, eq⟩
    · rw [eq]
      exact adds.added
    · intro c inside other
      have old {e : ClassId} (there : e ∈ v.ids) : e ∈ (v.arrayOf component).2.ids :=
        mem_ids_arrayOf there component
      have member : c ∈ v.ids ∨ c = ⟨v.size⟩ := by
        rw [eq] at inside
        exact mem_ids_insert.1 inside
      rcases member with there | rfl
      · obtain ⟨kind, e, inside', element, found⟩ := adds.added c there other
        rw [IsArray, decl_arrayOf there]
        refine ⟨kind, e, old inside', element, ?_⟩
        have apart : e ≠ component := fun same => by
          rw [same, fresh] at found
          cases found
        rw [eq, List.lookup_cons, beq_false_of_ne apart]
        exact found
      · have new : (v.arrayOf component).2.decl ⟨v.size⟩ = v.arrayDecl component := by
          rw [eq]
          exact decl_insert_new _
        rw [IsArray, new]
        refine ⟨rfl, component, old known, rfl, ?_⟩
        rw [eq, List.lookup_cons, beq_self_eq_true]

theorem edits {d : Draft} (adds : u.AddsArrays d.within) {edits : List ClassEdit}
    (admits : d.within.Admits edits) : u.AddsArrays (edits.foldl Draft.edit d).within := by
  induction edits generalizing d with
  | nil => exact adds
  | cons e rest ih =>
    rw [List.foldl_cons]
    cases e with
    | arrayOf component => exact ih (adds.arrayOf admits.1) admits.2
    | _ => exact ih adds admits

end AddsArrays

/-- Defining a class touches no other class there was, and what it adds are array classes. -/
theorem define_adds {c : ClassId} {edits : List ClassEdit} (allows : u.Allows (.define c edits)) :
    (∀ c' ∈ u.ids, c' ≠ c → (u.define c edits).decl c' = u.decl c') ∧
      ∀ c' ∈ (u.define c edits).ids, c' ∉ u.ids → (u.define c edits).IsArray c' := by
  obtain ⟨known, admits⟩ := allows
  have adds := (AddsArrays.refl u).edits (d := u.draft c) admits
  have self : (edits.foldl Draft.edit (u.draft c)).self = c :=
    (Draft.continues_draft.edits edits).self
  have other {c' : ClassId} (apart : c' ≠ c) :
      (u.define c edits).decl c' = (edits.foldl Draft.edit (u.draft c)).within.decl c' := by
    rw [define, Draft.finish, self, decl_setDecl (adds.kept c known).1, if_neg apart]
  have ids : (u.define c edits).ids = (edits.foldl Draft.edit (u.draft c)).within.ids :=
    ids_setDecl _ _
  refine ⟨fun c' inside apart => (other apart).trans (adds.kept c' inside).2, ?_⟩
  intro c' inside new
  have apart : c' ≠ c := fun same => new (same ▸ known)
  rw [ids] at inside
  rw [IsArray, other apart, ids]
  exact adds.added c' inside new

/-- Whatever is declared, defined and made an array of: a class that is there at any time is there
in every later state under the same name, and so is a class that was found by its name. What a call
hands out denotes what it was handed out for when the call is over and in every later state. A
definition leaves all other classes that were there as they were, and the classes it adds are array
classes. -/
theorem Permits.denotes_handed {before after : List Operation} {op : Operation}
    (start : u = .initial ∨ u = .foundation) (permits : u.Permits (before ++ op :: after)) :
    let v := u.run before
    let w := u.run (before ++ op :: after)
    (∀ c ∈ v.ids, c ∈ w.ids ∧ (w.decl c).binaryName = (v.decl c).binaryName) ∧
    (∀ name c, v.classId? name = some c → c ∈ w.ids ∧ (w.decl c).binaryName = name) ∧
    (∀ h ∈ v.handed op, h.Denotes w) ∧
    ∀ c edits, op = .define c edits →
      (∀ c' ∈ v.ids, c' ≠ c → (v.define c edits).decl c' = v.decl c') ∧
      ∀ c' ∈ (v.define c edits).ids, c' ∉ v.ids → (v.define c edits).IsArray c' := by
  have indexed : u.Indexed :=
    start.elim (fun same => same ▸ .initial) fun same => same ▸ .foundation
  intro v w
  obtain ⟨first, allows, later⟩ := permits_append.1 permits
  have indexed : v.Indexed := (indexed.run first).1
  have rest : w = (v.perform op).run after := run_append before (op :: after)
  have grows : (v.perform op).Grows w := rest ▸ ((indexed.perform allows).run later).2
  have whole : v.Grows w := (indexed.grows_perform allows).trans grows
  refine ⟨fun c known => ⟨(whole c known).1, (whole c known).2.name⟩, fun name c found => ?_,
    fun h handed => grows.denotes (indexed.denotes_operation allows h handed), ?_⟩
  · obtain ⟨known, same⟩ := indexed.mem_of_classId? found
    exact ⟨(whole c known).1, (whole c known).2.name.trans same⟩
  · rintro c edits rfl
    exact define_adds allows

end Universe

namespace Growth

open Universe (Operation)

def box : ClassId := ⟨10⟩

def before : List Operation :=
  [.declare "p.Box",
    .define box [.typeParam "T" [], .method "first" .empty [.executable (.typeParam "A" [])]]]

/-- In one definition an array class is made, a second type parameter is declared, and a method and
a constructor get a type parameter each. -/
def extension : Operation :=
  .define box [.arrayOf box,
    .typeParam "U" [.applied box [.variable ⟨.ofClass box, 1⟩]],
    .method "second" .empty
      [.returns (.ofClass box), .executable (.typeParam "B" [.variable ⟨.ofClass box, 1⟩])],
    .constructor .empty [.param { name := "x", type := .ofClass box }, .typeParam "C" []]]

/-- The class is defined once more, and its array class is defined too. -/
def after : List Operation :=
  [.define box [.typeParam "V" [], .kind .interface, .method "third" .empty []], .arrayOf ⟨11⟩,
    .define ⟨11⟩ [.typeParam "W" []], .declare "p.Box"]

theorem permits : Universe.initial.Permits (before ++ extension :: after) := by
  simp only [before, extension, after, List.cons_append, List.nil_append, Universe.Permits,
    Universe.Allows, Universe.Admits]
  decide

/-- The second method is counted after the first, and its type parameter is found to the end. -/
theorem denotes_extension :
    Universe.initial.Permits (before ++ extension :: after) ∧
      (Handle.typeVar ⟨.method box 1, 0⟩
          { name := "B", bounds := [.variable ⟨.ofClass box, 1⟩] }).Denotes
        (Universe.initial.run (before ++ extension :: after)) := by
  refine ⟨permits, (Universe.Permits.denotes_handed (.inl rfl) permits).2.2.1 _ ?_⟩
  exact .tail _ (.tail _ (.head _))

end Growth

end JavaTypes
