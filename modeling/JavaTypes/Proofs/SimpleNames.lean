import JavaTypes.Proofs.NestedArrays
import JavaTypes.Proofs.ShortNames
import Mathlib.Data.List.TakeWhile

/-!
Simple names. A class takes its simple name from its binary name when it is declared, and once more,
without the number in front, whenever it is nested as a local or anonymous class. The first way splits
off the package before it looks for the last dollar and the second does not. They find the same name
unless a dot comes behind the last dollar, or there is a dot and no dollar at all.
-/
namespace JavaTypes

namespace QualifiedName

section separators

variable {sep c : Char} {before after text : List Char}

/-- The text after the last separator is free of separators and is all of the text or follows a
separator. -/
theorem afterLast_eq_iff : afterLast sep text = after ↔
    sep ∉ after ∧ (text = after ∨ ∃ before, text = before ++ sep :: after) := by
  unfold afterLast
  constructor
  · intro found
    split at found
    · next before _ split =>
      obtain ⟨same, outside⟩ := splitLast?_eq_some_iff.1 split
      exact found ▸ ⟨outside, .inr ⟨before, same⟩⟩
    · next unsplit => exact found ▸ ⟨splitLast?_eq_none_iff.1 unsplit, .inl rfl⟩
  · rintro ⟨outside, rfl | ⟨before, rfl⟩⟩
    · rw [splitLast?_eq_none outside]
    · rw [splitLast?_append outside]

theorem afterLast_spec (sep : Char) (text : List Char) : sep ∉ afterLast sep text ∧
    (text = afterLast sep text ∨ ∃ before, text = before ++ sep :: afterLast sep text) :=
  afterLast_eq_iff.1 rfl

theorem not_mem_afterLast : sep ∉ afterLast sep text := (afterLast_spec sep text).1

theorem afterLast_eq_self (outside : sep ∉ text) : afterLast sep text = text :=
  afterLast_eq_iff.2 ⟨outside, .inl rfl⟩

theorem mem_of_mem_afterLast (inside : c ∈ afterLast sep text) : c ∈ text := by
  obtain ⟨-, same | ⟨before, same⟩⟩ := afterLast_spec sep text
  · exact same ▸ inside
  · rw [same]
    exact List.mem_append_right _ (List.mem_cons_of_mem _ inside)

/-- What is added without a separator comes after the last separator. -/
theorem afterLast_append (outside : sep ∉ after) :
    afterLast sep (text ++ after) = afterLast sep text ++ after := by
  obtain ⟨outside', found⟩ := afterLast_spec sep text
  refine afterLast_eq_iff.2 ⟨by simp [outside', outside], ?_⟩
  rcases found with same | ⟨before, same⟩
  · exact .inl (congrArg (· ++ after) same)
  · refine .inr ⟨before, ?_⟩
    rw [same, List.append_assoc, List.cons_append, ← same]

/-- What follows the last `sep` is found as well behind the last `c`, unless there is a `c` in it. -/
theorem afterLast_afterLast (apart : c ≠ sep) (outside : c ∉ afterLast sep text) :
    afterLast sep (afterLast c text) = afterLast sep text := by
  obtain ⟨clear, same | ⟨before, same⟩⟩ := afterLast_spec sep text
  · rw [← same] at outside
    rw [afterLast_eq_self outside]
  · have rest : c ∉ sep :: afterLast sep text := by simp [apart, outside]
    refine afterLast_eq_iff.2 ⟨clear, .inr ⟨afterLast c before, ?_⟩⟩
    rw [← afterLast_append rest, ← same]

end separators

variable {name : String} {c : Char}

/-- A dot comes behind the last dollar of the name, or there is a dot and no dollar. -/
def DotBehindDollar (name : String) : Prop := '.' ∈ afterLast '$' name.toList

instance (name : String) : Decidable (DotBehindDollar name) := inferInstanceAs (Decidable (_ ∈ _))

def withoutNumber (name : String) : String := String.ofList (name.toList.dropWhile Char.isDigit)

theorem mem_withoutNumber (letter : c.isDigit = false) :
    c ∈ (withoutNumber name).toList ↔ c ∈ name.toList := by
  rw [withoutNumber, String.toList_ofList]
  refine ⟨fun inside => (List.dropWhile_sublist _).subset inside, fun inside => ?_⟩
  rw [← List.takeWhile_append_dropWhile (p := Char.isDigit) (l := name.toList)] at inside
  refine (List.mem_append.1 inside).resolve_left fun front => ?_
  rw [List.mem_takeWhile_imp front] at letter
  cases letter

theorem dot_not_mem_simple : '.' ∉ (simple name).toList := by
  rw [simple, String.toList_ofList]
  exact fun inside => not_mem_afterLast (mem_of_mem_afterLast inside)

theorem dollar_not_mem_simple : '$' ∉ (simple name).toList := by
  rw [simple, String.toList_ofList]
  exact not_mem_afterLast

theorem simpleOfLocal_eq (name : String) :
    simpleOfLocal name = withoutNumber (String.ofList (afterLast '$' name.toList)) := by
  rw [withoutNumber, String.toList_ofList, simpleOfLocal]

theorem dot_mem_simpleOfLocal : '.' ∈ (simpleOfLocal name).toList ↔ DotBehindDollar name := by
  rw [simpleOfLocal_eq, mem_withoutNumber rfl, String.toList_ofList, DotBehindDollar]

theorem dollar_not_mem_simpleOfLocal : '$' ∉ (simpleOfLocal name).toList := by
  rw [simpleOfLocal_eq, mem_withoutNumber rfl, String.toList_ofList]
  exact not_mem_afterLast

/-- The two ways to a simple name agree, up to the number, as long as no dot gets in between. -/
theorem simpleOfLocal_eq_withoutNumber_iff :
    simpleOfLocal name = withoutNumber (simple name) ↔ ¬ DotBehindDollar name := by
  constructor
  · intro same dotted
    rw [← dot_mem_simpleOfLocal, same, mem_withoutNumber rfl] at dotted
    exact dot_not_mem_simple dotted
  · intro clear
    rw [simpleOfLocal_eq, simple, afterLast_afterLast (by decide) clear]

end QualifiedName

/-- Local and anonymous classes are nested in code. -/
def Nesting.isInCode : Nesting → Bool
  | .localClass _ | .anonymous _ => true
  | .topLevel | .member _ => false

def ClassEdit.nestsInCode : ClassEdit → Bool
  | .nesting n => n.isInCode
  | _ => false

def Universe.Operation.nestsInCode (c : ClassId) : Universe.Operation → Bool
  | .define self edits => self == c && edits.any (·.nestsInCode)
  | _ => false

/-- A class that has its simple name from its binary name, by what has been done to it so far, or an
array class under a name that opens with a bracket. -/
structure ClassDecl.DerivesName (d : ClassDecl) (inCode : Bool) : Prop where
  derived : d.component = none → d.simpleName =
    if inCode then QualifiedName.simpleOfLocal d.binaryName else QualifiedName.simple d.binaryName
  bracketed : d.component ≠ none → Bracketed d.binaryName

namespace ClassDecl.DerivesName

open QualifiedName

variable {d : ClassDecl} {inCode : Bool}

theorem simpleName_eq_iff (derives : d.DerivesName inCode) (plain : d.component = none) :
    d.simpleName = (if inCode then withoutNumber (simple d.binaryName) else simple d.binaryName) ↔
      (inCode = true → ¬ DotBehindDollar d.binaryName) := by
  rw [derives.derived plain]
  cases inCode with
  | false => simp
  | true => simpa using simpleOfLocal_eq_withoutNumber_iff

theorem dot_mem_simpleName (derives : d.DerivesName inCode) (plain : d.component = none) :
    '.' ∈ d.simpleName.toList ↔ inCode = true ∧ DotBehindDollar d.binaryName := by
  rw [derives.derived plain]
  cases inCode with
  | false => simp [dot_not_mem_simple]
  | true => simp [dot_mem_simpleOfLocal]

theorem dollar_not_mem_simpleName (derives : d.DerivesName inCode) (plain : d.component = none) :
    '$' ∉ d.simpleName.toList := by
  rw [derives.derived plain]
  cases inCode with
  | false => exact dollar_not_mem_simple
  | true => exact dollar_not_mem_simpleOfLocal

end ClassDecl.DerivesName

/-- All classes have their simple names from their binary names; only known ones have been nested. -/
structure Universe.DerivesNames (u : Universe) (inCode : ClassId → Bool) : Prop where
  known : ∀ c, inCode c = true → c ∈ u.ids
  each : ∀ c ∈ u.ids, (u.decl c).DerivesName (inCode c)

namespace Draft

theorem simpleName_setKind (d : Draft) (k : ClassKind) :
    (d.setKind k).simpleName = d.decl.simpleName := by
  cases k <;> simp only [setKind]
  split <;> rfl

theorem simpleName_editDecl (d : Draft) (e : ClassEdit) : (d.editDecl e).simpleName =
    if e.nestsInCode then QualifiedName.simpleOfLocal d.decl.binaryName else d.decl.simpleName := by
  cases e with
  | kind k => exact d.simpleName_setKind k
  | nesting n => cases n <;> rfl
  | _ => rfl

theorem derivesName_editDecl {d : Draft} {inCode : Bool} (derives : d.decl.DerivesName inCode)
    (e : ClassEdit) : (d.editDecl e).DerivesName (inCode || e.nestsInCode) where
  derived := by
    intro plain
    rw [d.component_editDecl] at plain
    rw [d.simpleName_editDecl, d.binaryName_editDecl, derives.derived plain]
    cases inCode <;> cases e.nestsInCode <;> rfl
  bracketed := by
    rw [d.component_editDecl, d.binaryName_editDecl]
    exact derives.bracketed

theorem derivesName_edits {edits : List ClassEdit} {d : Draft} {inCode : Bool}
    (derives : d.decl.DerivesName inCode) :
    (edits.foldl edit d).decl.DerivesName (inCode || edits.any (·.nestsInCode)) := by
  induction edits generalizing d inCode with
  | nil => simpa using derives
  | cons e rest ih =>
    rw [List.foldl_cons, List.any_cons, ← Bool.or_assoc]
    exact ih (derivesName_editDecl derives e)

end Draft

namespace Universe

variable {u : Universe} {inCode : ClassId → Bool}

namespace DerivesNames

theorem insert (derives : u.DerivesNames inCode) {d : ClassDecl} (new : d.DerivesName false) :
    (u.insert d).2.DerivesNames inCode where
  known := fun c nested => mem_ids_insert.2 (.inl (derives.known c nested))
  each := by
    intro c inside
    rcases mem_ids_insert.1 inside with inside | rfl
    · rw [decl_insert_old inside]
      exact derives.each c inside
    · have untouched : inCode ⟨u.size⟩ = false := by
        refine Bool.eq_false_iff.2 fun nested => ?_
        exact absurd (mem_ids.1 (derives.known _ nested)) (Nat.lt_irrefl _)
      rw [decl_insert_new, untouched]
      exact new

theorem declare (derives : u.DerivesNames inCode) (name : String) :
    (u.declare name).2.DerivesNames inCode := by
  rcases declare_cases u name with ⟨c, -, eq⟩ | ⟨-, eq⟩
  · exact eq ▸ derives
  · rw [eq]
    exact derives.insert ⟨fun _ => rfl, fun array => absurd rfl array⟩

theorem arrayOf (derives : u.DerivesNames inCode) (component : ClassId) :
    (u.arrayOf component).2.DerivesNames inCode := by
  rcases arrayOf_cases u component with ⟨c, -, eq⟩ | ⟨-, eq⟩
  · exact eq ▸ derives
  · have named : Bracketed (u.decl component).arrayName :=
      (u.decl component).arrayName_eq ▸ bracketed_append _
    have inserted : (u.insert (u.arrayDecl component)).2.DerivesNames inCode :=
      derives.insert ⟨nofun, fun _ => named⟩
    rw [eq]
    exact ⟨inserted.known, inserted.each⟩

theorem edits {d : Draft} (derives : d.within.DerivesNames inCode) (edits : List ClassEdit) :
    (edits.foldl Draft.edit d).within.DerivesNames inCode := by
  induction edits generalizing d with
  | nil => exact derives
  | cons e rest ih =>
    rcases d.within_edit e with eq | ⟨component, -, eq⟩
    · exact ih (eq ▸ derives)
    · exact ih (eq ▸ derives.arrayOf component)

theorem define (derives : u.DerivesNames inCode) {c : ClassId} (known : c ∈ u.ids)
    (edits : List ClassEdit) : (u.define c edits).DerivesNames
      fun c' => inCode c' || (Operation.define c edits).nestsInCode c' := by
  have continues := Draft.continues_draft (u := u) (c := c).edits edits
  have draft : (edits.foldl Draft.edit (u.draft c)).decl.DerivesName _ :=
    Draft.derivesName_edits (derives.each c known)
  have within := derives.edits (d := u.draft c) edits
  have inside := (continues.kept c known).1
  -- The universe around the draft has the history of before; only the class that is put back is new.
  rw [Universe.define, Draft.finish, continues.self]
  constructor
  · intro c' nested
    rw [ids_setDecl]
    rcases Bool.or_eq_true_iff.1 nested with nested | nested
    · exact within.known c' nested
    · have same : c = c' := eq_of_beq (Bool.and_eq_true_iff.1 nested).1
      exact same ▸ inside
  · intro c' inside'
    rw [ids_setDecl] at inside'
    rw [decl_setDecl inside]
    split
    · next same =>
      subst same
      simpa [Operation.nestsInCode] using draft
    · next apart =>
      have other : (c == c') = false := beq_false_of_ne (Ne.symm apart)
      simpa [Operation.nestsInCode, other] using within.each c' inside'

theorem perform (derives : u.DerivesNames inCode) {op : Operation} (allows : u.Allows op) :
    (u.perform op).DerivesNames fun c => inCode c || op.nestsInCode c := by
  cases op with
  | declare name => simpa [Universe.perform, Operation.nestsInCode] using derives.declare name
  | define c edits => exact derives.define allows.1 edits
  | arrayOf component =>
    simpa [Universe.perform, Operation.nestsInCode] using derives.arrayOf component

theorem run (derives : u.DerivesNames inCode) {operations : List Operation}
    (permits : u.Permits operations) :
    (u.run operations).DerivesNames fun c => inCode c || operations.any (·.nestsInCode c) := by
  induction operations generalizing u inCode with
  | nil => simpa [Universe.run] using derives
  | cons op rest ih =>
    simpa [Universe.run, Bool.or_assoc] using ih (derives.perform permits.1) permits.2

theorem of_named (named : ∀ d ∈ u.classes.toList,
    d.component = none ∧ d.simpleName = QualifiedName.simple d.binaryName) :
    u.DerivesNames fun _ => false := by
  refine ⟨nofun, fun c known => ?_⟩
  obtain ⟨plain, simple⟩ := named (u.decl c) (map_decl_ids ▸ List.mem_map_of_mem known)
  exact ⟨fun _ => simple, fun array => absurd plain array⟩

theorem initial : Universe.initial.DerivesNames fun _ => false := of_named (by decide)

theorem foundation : Universe.foundation.DerivesNames fun _ => false := of_named (by decide +kernel)

end DerivesNames

open QualifiedName

/-- Whatever is declared, defined and made an array of, before and after a class is declared under a
name that is not for an array class: its simple name is the one that its binary name gives, without
the number in front if the class was ever nested as a local or anonymous class, if and only if it
never was or no dot comes behind the last dollar. Only in the other case there is a dot in the simple
name, as the package is not split off then; there is never a dollar in it. -/
theorem Permits.simpleName_declared {before after : List Operation} {name : String}
    (start : u = .initial ∨ u = .foundation)
    (permits : u.Permits (before ++ .declare name :: after)) :
    let operations := before ++ .declare name :: after
    let c := ((u.run before).declare name).1
    let d := (u.run operations).decl c
    let nested := operations.any (·.nestsInCode c)
    let derived := (ClassDecl.named d.binaryName).simpleName
    c ∈ (u.run operations).ids ∧ d.binaryName = name ∧
    derived.toList = afterLast '$' (afterLast '.' d.binaryName.toList) ∧
    (¬ Bracketed name ∨ d.component = none →
      (d.simpleName = (if nested then withoutNumber derived else derived) ↔
        (nested = true → ¬ DotBehindDollar d.binaryName)) ∧
      (nested = true → d.simpleName = simpleOfLocal d.binaryName) ∧
      ('.' ∈ d.simpleName.toList ↔ nested = true ∧ DotBehindDollar d.binaryName) ∧
      '$' ∉ d.simpleName.toList) := by
  have indexed : u.Indexed :=
    start.elim (fun same => same ▸ .initial) fun same => same ▸ .foundation
  have derives : u.DerivesNames fun _ => false :=
    start.elim (fun same => same ▸ .initial) fun same => same ▸ .foundation
  intro operations c d nested derived
  obtain ⟨first, allows, later⟩ := permits_append.1 permits
  have rest : u.run operations = ((u.run before).declare name).2.run after :=
    run_append before (.declare name :: after)
  have indexed : (u.run before).Indexed := (indexed.run first).1
  obtain ⟨known, named⟩ : (Handle.classId c name).Denotes (u.run operations) :=
    rest ▸ ((indexed.perform allows).run later).2.denotes (indexed.denotes_declare name)
  have derives : d.DerivesName nested := (derives.run permits).each c known
  refine ⟨known, named, String.toList_ofList, fun notArray => ?_⟩
  have plain : d.component = none := by
    rcases notArray with bare | plain
    · by_contra array
      exact bare (named ▸ derives.bracketed array)
    · exact plain
  refine ⟨derives.simpleName_eq_iff plain, fun isNested => ?_, derives.dot_mem_simpleName plain,
    derives.dollar_not_mem_simpleName plain⟩
  rw [derives.derived plain, if_pos isNested]

end Universe

namespace Sorters

open QualifiedName
open Universe (Operation)

def outer : ClassId := ⟨10⟩
def sorter : ClassId := ⟨12⟩

def name : String := "p$q.Outer$2Sorter"

def before : List Operation := [.declare "p$q.Outer", .arrayOf outer]

/-- The class is nested as a local class and then placed elsewhere, in the same definition, in which
it also gets an array class, and in another one. -/
def after : List Operation :=
  [.define sorter [.kind .interface, .nesting (.localClass outer), .arrayOf sorter,
      .nesting .topLevel],
    .declare name, .define sorter [.nesting (.member outer), .synthetic]]

theorem permits : Universe.initial.Permits (before ++ .declare name :: after) := by
  simp only [before, after, List.cons_append, List.nil_append, Universe.Permits, Universe.Allows,
    Universe.Admits]
  decide

/-- The number stays away from the simple name, and the dollar in the package does no harm. -/
theorem simpleName_sorter :
    Universe.initial.Permits (before ++ .declare name :: after) ∧ ¬ Bracketed name ∧
      ((Universe.initial.run (before ++ .declare name :: after)).decl sorter).simpleName =
        "Sorter" := by
  have self : ((Universe.initial.run before).declare name).1 = sorter := by decide
  have bare : ¬ Bracketed name := by decide
  obtain ⟨-, same, -, names⟩ := Universe.Permits.simpleName_declared (.inl rfl) permits
  rw [self] at same names
  obtain ⟨agrees, -⟩ := names (.inl bare)
  rw [same] at agrees
  exact ⟨permits, bare, (agrees.2 fun _ => by decide).trans (by decide)⟩

/-- Without a dollar behind the package, the package stays in the simple name of a local class. -/
theorem simpleName_dotted :
    let (c, u) := Universe.initial.defineClass "p.Local" [.nesting (.localClass Universe.object)]
    (u.decl c).simpleName = "p.Local" ∧
      withoutNumber (ClassDecl.named (u.decl c).binaryName).simpleName = "Local" := by
  decide

end Sorters

end JavaTypes
