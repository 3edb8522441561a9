import JavaTypes.Proofs.Building
import JavaTypes.Universe.Foundation
import Mathlib.Data.List.Nodup

/-!
Classes under their names. Each new class takes its name in the table, so a class is found under its
own name as long as no later class gets the same one. A declaration looks the name up before it makes
a class. An array class takes its name without looking; where names that open with a bracket are left
to array classes, the name is new all the same, as it tells the component.
-/
namespace JavaTypes

/-- A name that opens like the name of an array class. -/
def Bracketed (name : String) : Prop := name.toList.head? = some '['

instance (name : String) : Decidable (Bracketed name) := inferInstanceAs (Decidable (_ = _))

def componentName? (array : String) : Option String :=
  match array.toList with
  | '[' :: '[' :: rest => some (String.ofList ('[' :: rest))
  | ['[', letter] => (BaseType.all.find? fun b => b.letter == letter).map BaseType.keyword
  | '[' :: 'L' :: rest => some (String.ofList rest.dropLast)
  | _ => none

namespace Universe

inductive Operation where
  | declare (name : String)
  | define (c : ClassId) (edits : List ClassEdit)
  | arrayOf (component : ClassId)

def perform (u : Universe) : Operation → Universe
  | .declare name => (u.declare name).2
  | .define c edits => u.define c edits
  | .arrayOf component => (u.arrayOf component).2

def run (u : Universe) (operations : List Operation) : Universe := operations.foldl perform u

def Allows (u : Universe) : Operation → Prop
  | .declare _ => True
  | .define c edits => c ∈ u.ids ∧ u.Admits edits
  | .arrayOf component => component ∈ u.ids

/-- Names that open with a bracket are left to array classes: a declaration makes no class of such a
name, and a definition leaves no other class as an array. -/
def Reserves (u : Universe) : Operation → Prop
  | .declare name => u.classId? name = none → ¬ Bracketed name
  | .define c edits =>
    ((u.define c edits).decl c).kind = .array → Bracketed (u.decl c).binaryName
  | .arrayOf _ => True

/-- Calls that each refer to classes there are and leave names with a bracket to array classes. -/
def Keeps : Universe → List Operation → Prop
  | _, [] => True
  | u, op :: rest => u.Allows op ∧ u.Reserves op ∧ (u.perform op).Keeps rest

/-- A universe in which names lead to classes: each class is found under its own name, the table has
no other names, and a name that opens with a bracket belongs to the array class over the class that
the name tells. -/
structure Registered (u : Universe) : Prop where
  found : ∀ c ∈ u.ids, u.classId? (u.decl c).binaryName = some c
  entries : ∀ entry ∈ u.names, entry.2 ∈ u.ids ∧ (u.decl entry.2).binaryName = entry.1
  arrays : ∀ c ∈ u.ids, Bracketed (u.decl c).binaryName → ∃ e ∈ u.ids,
    u.arrays.lookup e = some c ∧ componentName? (u.decl c).binaryName = some (u.decl e).binaryName
  kinds : ∀ c ∈ u.ids, (u.decl c).kind = .array → Bracketed (u.decl c).binaryName

end Universe

section arrayNames

theorem componentName?_letter (b : BaseType) :
    componentName? ("[" ++ b.letter.toString) = some b.keyword := by
  cases b <;> rfl

theorem componentName?_reference (name : String) :
    componentName? ("[L" ++ name ++ ";") = some name := by
  have letters : ("[L" ++ name ++ ";").toList = '[' :: 'L' :: (name.toList ++ [';']) := by simp
  unfold componentName?
  rw [letters]
  cases h : name.toList ++ [';'] with
  | nil => simp at h
  | cons c rest => simp [← h]

theorem componentName?_nested {name : String} (bracketed : Bracketed name) :
    componentName? ("[" ++ name) = some name := by
  obtain ⟨rest, letters⟩ := List.head?_eq_some_iff.1 bracketed
  have nested : ("[" ++ name).toList = '[' :: '[' :: rest := by simp [letters]
  unfold componentName?
  rw [nested]
  exact congrArg some (by rw [← letters, String.ofList_toList])

theorem bracketed_append (name : String) : Bracketed ("[" ++ name) := by simp [Bracketed]

/-- The name of an array class opens with a bracket and tells its component. -/
theorem componentName?_arrayName {d : ClassDecl} (kinds : d.kind = .array → Bracketed d.binaryName) :
    Bracketed d.arrayName ∧ componentName? d.arrayName = some d.binaryName := by
  have reference : Bracketed ("[L" ++ d.binaryName ++ ";") := by simp [Bracketed]
  unfold ClassDecl.arrayName
  split
  case h_1 array => exact ⟨bracketed_append _, componentName?_nested (kinds array)⟩
  case h_2 =>
    split
    case h_1 b found =>
      have keyword : b.keyword = d.binaryName := by simpa using List.find?_some found
      exact ⟨bracketed_append _, keyword ▸ componentName?_letter b⟩
    case h_2 => exact ⟨reference, componentName?_reference _⟩
  case h_3 => exact ⟨reference, componentName?_reference _⟩

end arrayNames

namespace Universe

variable {u : Universe}

theorem mem_ids_insert {d : ClassDecl} {c : ClassId} :
    c ∈ (u.insert d).2.ids ↔ c ∈ u.ids ∨ c = ⟨u.size⟩ := by
  have grown : (u.insert d).2.size = u.size + 1 := by simp [insert, size]
  obtain ⟨i⟩ := c
  rw [mem_ids, mem_ids, grown, ClassId.mk.injEq]
  exact Nat.lt_succ_iff_lt_or_eq

theorem decl_insert_old {d : ClassDecl} {c : ClassId} (known : c ∈ u.ids) :
    (u.insert d).2.decl c = u.decl c :=
  (decl_insert d c).trans (if_neg (Nat.ne_of_lt (mem_ids.1 known)))

theorem decl_insert_new (d : ClassDecl) : (u.insert d).2.decl ⟨u.size⟩ = d :=
  (decl_insert d _).trans (if_pos rfl)

theorem decl_setDecl {c : ClassId} (known : c ∈ u.ids) (d : ClassDecl) (c' : ClassId) :
    (u.setDecl c d).decl c' = if c' = c then d else u.decl c' := by
  have inside : c.index < u.classes.size := mem_ids.1 known
  obtain ⟨i⟩ := c
  obtain ⟨j⟩ := c'
  simp only [setDecl, decl, Array.getD_eq_getD_getElem?, Array.getElem?_setIfInBounds,
    ClassId.mk.injEq]
  grind

theorem binaryName_setDecl {c : ClassId} (known : c ∈ u.ids) {d : ClassDecl}
    (name : d.binaryName = (u.decl c).binaryName) (c' : ClassId) :
    ((u.setDecl c d).decl c').binaryName = (u.decl c').binaryName := by
  rw [decl_setDecl known]
  split
  · next same => rw [name, same]
  · rfl

theorem ids_setDecl (c : ClassId) (d : ClassDecl) : (u.setDecl c d).ids = u.ids := by
  simp [ids, size, setDecl]

theorem mem_ids_declare {c : ClassId} (known : c ∈ u.ids) (name : String) :
    c ∈ (u.declare name).2.ids := by
  unfold declare
  split
  · exact known
  · exact mem_ids_insert.2 (.inl known)

theorem decl_declare {c : ClassId} (known : c ∈ u.ids) (name : String) :
    (u.declare name).2.decl c = u.decl c := by
  unfold declare
  split
  · rfl
  · exact decl_insert_old known

end Universe

/-- A draft on the way through the definition of a class. The classes there were before stay as they
are until the draft is finished, and the class keeps its name. -/
structure Draft.Continues (u : Universe) (c : ClassId) (d : Draft) : Prop where
  self : d.self = c
  kept : ∀ c' ∈ u.ids, c' ∈ d.within.ids ∧ d.within.decl c' = u.decl c'
  name : d.decl.binaryName = (u.decl c).binaryName

namespace Draft

variable {u : Universe} {c : ClassId}

theorem continues_draft : (u.draft c).Continues u c := ⟨rfl, fun _ known => ⟨known, rfl⟩, rfl⟩

theorem binaryName_setKind (d : Draft) (k : ClassKind) :
    (d.setKind k).binaryName = d.decl.binaryName := by
  cases k <;> simp only [setKind]
  split <;> rfl

theorem binaryName_editDecl (d : Draft) (e : ClassEdit) :
    (d.editDecl e).binaryName = d.decl.binaryName := by
  cases e with
  | kind k => exact d.binaryName_setKind k
  | nesting n => cases n <;> rfl
  | _ => rfl

theorem Continues.edit {d : Draft} (continues : d.Continues u c) (e : ClassEdit) :
    (d.edit e).Continues u c := by
  refine ⟨continues.self, fun c' known => ?_, (d.binaryName_editDecl e).trans continues.name⟩
  obtain ⟨inside, same⟩ := continues.kept c' known
  cases e with
  | arrayOf component =>
    exact ⟨Universe.mem_ids_arrayOf inside component,
      (Universe.decl_arrayOf inside component).trans same⟩
  | _ => exact ⟨inside, same⟩

theorem Continues.edits {d : Draft} (continues : d.Continues u c) (edits : List ClassEdit) :
    (edits.foldl Draft.edit d).Continues u c := by
  induction edits generalizing d with
  | nil => exact continues
  | cons e rest ih => exact ih (continues.edit e)

end Draft

namespace Universe

variable {u : Universe}

theorem binaryName_perform {op : Operation} (allows : u.Allows op) {c : ClassId} (known : c ∈ u.ids) :
    c ∈ (u.perform op).ids ∧ ((u.perform op).decl c).binaryName = (u.decl c).binaryName := by
  cases op with
  | declare name => exact ⟨mem_ids_declare known name, by rw [perform, decl_declare known]⟩
  | arrayOf component => exact ⟨mem_ids_arrayOf known component, by rw [perform, decl_arrayOf known]⟩
  | define self edits =>
    have continues := Draft.continues_draft (u := u) (c := self).edits edits
    obtain ⟨inside, same⟩ := continues.kept c known
    obtain ⟨selfInside, selfSame⟩ := continues.kept self allows.1
    rw [perform, define, Draft.finish, ids_setDecl, continues.self]
    refine ⟨inside, ?_⟩
    rw [binaryName_setDecl selfInside (continues.name.trans (congrArg _ selfSame).symm), same]

theorem binaryName_run {operations : List Operation} (keeps : u.Keeps operations) {c : ClassId}
    (known : c ∈ u.ids) :
    c ∈ (u.run operations).ids ∧ ((u.run operations).decl c).binaryName = (u.decl c).binaryName := by
  induction operations generalizing u with
  | nil => exact ⟨known, rfl⟩
  | cons op rest ih =>
    obtain ⟨allows, -, keeps⟩ := keeps
    obtain ⟨inside, same⟩ := binaryName_perform allows known
    obtain ⟨inside', same'⟩ := ih keeps inside
    exact ⟨inside', same'.trans same⟩

namespace Registered

theorem mem_of_classId? (registered : u.Registered) {name : String} {c : ClassId}
    (found : u.classId? name = some c) : c ∈ u.ids ∧ (u.decl c).binaryName = name := by
  obtain ⟨before, after, split, -⟩ := List.lookup_eq_some_iff.1 found
  exact registered.entries (name, c) (by simp [split])

theorem binaryName_inj (registered : u.Registered) {c c' : ClassId} (known : c ∈ u.ids)
    (known' : c' ∈ u.ids) (same : (u.decl c).binaryName = (u.decl c').binaryName) : c = c' :=
  Option.some.inj ((registered.found c known).symm.trans (same ▸ registered.found c' known'))

theorem insert (registered : u.Registered) {d : ClassDecl} (fresh : u.classId? d.binaryName = none)
    {arrays : List (ClassId × ClassId)}
    (kept : ∀ e c, u.arrays.lookup e = some c → arrays.lookup e = some c)
    (component : Bracketed d.binaryName → ∃ e ∈ u.ids, arrays.lookup e = some ⟨u.size⟩ ∧
      componentName? d.binaryName = some (u.decl e).binaryName)
    (kinds : d.kind = .array → Bracketed d.binaryName) :
    Registered { (u.insert d).2 with arrays } := by
  have ids {c : ClassId} : c ∈ ({ (u.insert d).2 with arrays } : Universe).ids ↔
      c ∈ u.ids ∨ c = ⟨u.size⟩ := mem_ids_insert
  have old {c : ClassId} (known : c ∈ u.ids) :
      ({ (u.insert d).2 with arrays } : Universe).decl c = u.decl c := decl_insert_old known
  have new : ({ (u.insert d).2 with arrays } : Universe).decl ⟨u.size⟩ = d := decl_insert_new d
  constructor
  case found =>
    intro c known
    rcases ids.1 known with known | rfl
    · have apart : (u.decl c).binaryName ≠ d.binaryName := fun same => by
        rw [← same, registered.found c known] at fresh
        cases fresh
      rw [old known, classId?, Universe.insert, List.lookup_cons, beq_false_of_ne apart]
      exact registered.found c known
    · rw [new, classId?, Universe.insert, List.lookup_cons, beq_self_eq_true]
  case entries =>
    intro entry member
    rcases List.mem_cons.1 member with rfl | member
    · exact ⟨ids.2 (.inr rfl), congrArg _ new⟩
    · obtain ⟨known, name⟩ := registered.entries entry member
      exact ⟨ids.2 (.inl known), by rw [old known, name]⟩
  case arrays =>
    intro c known bracketed
    rcases ids.1 known with known | rfl
    · rw [old known] at bracketed ⊢
      obtain ⟨e, inside, array, name⟩ := registered.arrays c known bracketed
      exact ⟨e, ids.2 (.inl inside), kept e c array, by rw [old inside, name]⟩
    · rw [new] at bracketed ⊢
      obtain ⟨e, inside, array, name⟩ := component bracketed
      exact ⟨e, ids.2 (.inl inside), array, by rw [old inside, name]⟩
  case kinds =>
    intro c known array
    rcases ids.1 known with known | rfl
    · rw [old known] at array ⊢
      exact registered.kinds c known array
    · rw [new] at array ⊢
      exact kinds array

theorem setDecl (registered : u.Registered) {c : ClassId} (known : c ∈ u.ids) {d : ClassDecl}
    (name : d.binaryName = (u.decl c).binaryName) (kinds : d.kind = .array → Bracketed d.binaryName) :
    (u.setDecl c d).Registered := by
  have names := binaryName_setDecl known name
  have ids := ids_setDecl (u := u) c d
  constructor
  case found =>
    intro c' inside
    rw [names]
    exact registered.found c' (ids ▸ inside)
  case entries =>
    intro entry member
    rw [ids, names]
    exact registered.entries entry member
  case arrays =>
    intro c' inside
    rw [ids] at inside ⊢
    simp only [names]
    exact registered.arrays c' inside
  case kinds =>
    intro c' inside
    rw [ids] at inside
    rw [decl_setDecl known]
    split
    · exact kinds
    · exact registered.kinds c' inside

theorem declare (registered : u.Registered) {name : String}
    (reserves : u.Reserves (.declare name)) : (u.declare name).2.Registered := by
  unfold Universe.declare
  split
  · exact registered
  · next fresh =>
    exact registered.insert fresh (fun _ _ found => found)
      (fun bracketed => absurd bracketed (reserves fresh)) nofun

/-- The name of a new array class is new: it tells the component, which has no array class yet. -/
theorem arrayOf (registered : u.Registered) {component : ClassId} (known : component ∈ u.ids) :
    (u.arrayOf component).2.Registered := by
  unfold Universe.arrayOf
  split
  · exact registered
  · next none =>
    obtain ⟨bracketed, tells⟩ := componentName?_arrayName (registered.kinds component known)
    have fresh : u.classId? (u.arrayDecl component).binaryName = Option.none := by
      by_contra taken
      obtain ⟨c, found⟩ := Option.ne_none_iff_exists'.1 taken
      obtain ⟨inside, name⟩ := registered.mem_of_classId? found
      have name : (u.decl c).binaryName = (u.decl component).arrayName := name
      rw [← name] at bracketed tells
      obtain ⟨e, there, array, tells'⟩ := registered.arrays c inside bracketed
      have same := registered.binaryName_inj there known (Option.some.inj (tells'.symm.trans tells))
      rw [same, none] at array
      cases array
    have entry : ((component, ⟨u.size⟩) :: u.arrays).lookup component = some ⟨u.size⟩ := by
      rw [List.lookup_cons, beq_self_eq_true]
    refine registered.insert fresh (fun e c found => ?_)
      (fun _ => ⟨component, known, entry, tells⟩) fun _ => bracketed
    have other : e ≠ component := fun same => by
      rw [same, none] at found
      cases found
    rw [List.lookup_cons, beq_false_of_ne other]
    exact found

theorem edits {edits : List ClassEdit} {d : Draft} (registered : d.within.Registered)
    (admits : d.within.Admits edits) : (edits.foldl Draft.edit d).within.Registered := by
  induction edits generalizing d with
  | nil => exact registered
  | cons e rest ih =>
    rw [List.foldl_cons]
    cases e with
    | arrayOf component => exact ih (registered.arrayOf admits.1) admits.2
    | _ => exact ih registered admits

theorem perform (registered : u.Registered) {op : Operation} (allows : u.Allows op)
    (reserves : u.Reserves op) : (u.perform op).Registered := by
  cases op with
  | declare name => exact registered.declare reserves
  | arrayOf component => exact registered.arrayOf allows
  | define c edits =>
    obtain ⟨known, admits⟩ := allows
    have continues := Draft.continues_draft (u := u) (c := c).edits edits
    obtain ⟨inside, same⟩ := continues.kept c known
    have within : (edits.foldl Draft.edit (u.draft c)).within.Registered :=
      registered.edits (d := u.draft c) admits
    simp only [Reserves, define, Draft.finish, continues.self, decl_setDecl inside, if_true] at reserves
    rw [Universe.perform, define, Draft.finish, continues.self]
    exact within.setDecl inside (continues.name.trans (congrArg _ same).symm)
      fun array => continues.name ▸ reserves array

theorem run (registered : u.Registered) {operations : List Operation} (keeps : u.Keeps operations) :
    (u.run operations).Registered := by
  induction operations generalizing u with
  | nil => exact registered
  | cons op rest ih =>
    obtain ⟨allows, reserves, keeps⟩ := keeps
    exact ih (registered.perform allows reserves) keeps

theorem initial : Universe.initial.Registered := by
  constructor
  all_goals decide

theorem foundation : Universe.foundation.Registered := by
  constructor
  all_goals decide +kernel

theorem nodup_binaryNames (registered : u.Registered) :
    (u.ids.map fun c => (u.decl c).binaryName).Nodup := by
  have ids : u.ids.Nodup := List.Nodup.map (fun _ _ same => ClassId.mk.inj same) List.nodup_range
  exact ids.map_on fun _ known _ known' same => registered.binaryName_inj known known' same

theorem key_ofClass_inj (registered : u.Registered) {c c' : ClassId} (known : c ∈ u.ids)
    (known' : c' ∈ u.ids) (same : (Ty.ofClass c).key u = (Ty.ofClass c').key u) : c = c' := by
  have letters : "Class:".toList ++ (u.decl c).binaryName.toList =
      "Class:".toList ++ (u.decl c').binaryName.toList := by
    rw [← String.toList_append, ← String.toList_append]
    exact congrArg String.toList same
  exact registered.binaryName_inj known known' (String.toList_inj.1 (List.append_cancel_left letters))

end Registered

theorem run_append (before after : List Operation) :
    u.run (before ++ after) = (u.run before).run after := List.foldl_append

theorem keeps_append {before after : List Operation} :
    u.Keeps (before ++ after) ↔ u.Keeps before ∧ (u.run before).Keeps after := by
  induction before generalizing u with
  | nil => exact ⟨fun keeps => ⟨trivial, keeps⟩, And.right⟩
  | cons op rest ih => simp only [List.cons_append, Keeps, ih, and_assoc]; rfl

/-- Whatever is declared, defined and made an array of, each class is found under its own name, so
the names are pairwise distinct and the ids of different classes differ. A class that was there at
any time before is still found under the name it had: no later call shadows it. -/
theorem Keeps.classId?_binaryName {before after : List Operation}
    (start : u = .initial ∨ u = .foundation) (keeps : u.Keeps (before ++ after)) :
    let v := u.run (before ++ after)
    (∀ c ∈ v.ids, v.classId? (v.decl c).binaryName = some c) ∧
    (v.ids.map fun c => (v.decl c).binaryName).Nodup ∧
    (∀ c ∈ (u.run before).ids,
      c ∈ v.ids ∧ v.classId? ((u.run before).decl c).binaryName = some c) ∧
    ∀ c ∈ v.ids, ∀ c' ∈ v.ids, (Ty.ofClass c).key v = (Ty.ofClass c').key v → c = c' := by
  have registered : u.Registered :=
    start.elim (fun same => same ▸ .initial) fun same => same ▸ .foundation
  intro v
  have registered : v.Registered := registered.run keeps
  refine ⟨registered.found, registered.nodup_binaryNames, fun c known => ?_,
    fun c known c' known' => registered.key_ofClass_inj known known'⟩
  obtain ⟨inside, same⟩ := binaryName_run (keeps_append.1 keeps).2 known
  rw [← run_append] at inside same
  exact ⟨inside, same ▸ registered.found c inside⟩

end Universe

namespace Points

open Universe (Operation)

def point : ClassId := ⟨10⟩
def points : ClassId := ⟨11⟩

def before : List Operation := [.declare "p.Point", .arrayOf point]

/-- The class of points becomes an enumeration with an array of itself in a field, and the array
class stops being an array before it gets an array class of its own. -/
def after : List Operation :=
  [.define point [.kind .enumeration, .arrayOf point,
      .field { name := "all", modifiers := Modifiers.Flag.isPublic.set, type := .ofClass points }],
    .define points [.kind .regular], .arrayOf points, .arrayOf ⟨12⟩, .declare "[Lp.Point;",
    .arrayOf ⟨7⟩]

theorem keeps : Universe.initial.Keeps (before ++ after) := by
  simp only [before, after, List.cons_append, List.nil_append, Universe.Keeps, Universe.Allows,
    Universe.Reserves, Universe.Admits]
  decide

/-- The array class of points keeps its name and is found by it to the end. -/
theorem classId?_points : Universe.initial.Keeps (before ++ after) ∧
    (Universe.initial.run (before ++ after)).classId? "[Lp.Point;" = some points :=
  ⟨keeps, ((Universe.Keeps.classId?_binaryName (.inl rfl) keeps).2.2.1 points (by decide)).2⟩

end Points

namespace Shadows

open Universe (Operation)

def int : ClassId := ⟨5⟩
def first : ClassId := ⟨10⟩
def second : ClassId := ⟨11⟩

/-- A class of its own is declared under the name of the array class of a base type. -/
def declared : List Operation := [.declare "[I", .arrayOf int]

/-- The second class becomes an array without a bracket in its name, and its array class gets the
name of the array class over the first. -/
def arrays : List Operation :=
  [.declare "p.X", .declare "Lp.X;", .define second [.kind .array], .arrayOf second, .arrayOf first]

/-- Making an array class does not look for its name, so it hides the class that has it. -/
theorem classId?_first :
    let u := Universe.initial.run declared
    first ∈ u.ids ∧ u.classId? (u.decl first).binaryName = some second ∧
      (Ty.ofClass first).key u = (Ty.ofClass second).key u := by
  decide

theorem classId?_arrays :
    let u := Universe.initial.run arrays
    (⟨12⟩ : ClassId) ∈ u.ids ∧ u.classId? (u.decl ⟨12⟩).binaryName = some ⟨13⟩ := by
  decide

end Shadows

end JavaTypes
