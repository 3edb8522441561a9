import JavaTypes.Proofs.Handles
import JavaTypes.Ty.Attributes

/-!
Array classes and the table that finds them. An array class knows its component, and the table leads
from the component back to it; what is asked for again is found and not made. A component is made
before its array class and keeps the smaller number, so the way from an array class to its element,
the element of that and so on comes to an end.
-/
namespace JavaTypes

/-- What is left of a type after so many steps from an array to its element. -/
def Ty.elementAt? (u : Universe) : Nat → Ty → Option Ty
  | 0, t => some t
  | n + 1, t => (t.elementType? u).bind (elementAt? u n)

@[simp] theorem Ty.elementType?_ofClass (u : Universe) (c : ClassId) :
    (Ty.ofClass c).elementType? u = (u.decl c).component.map .ofClass := rfl

@[simp] theorem Ty.elementAt?_zero (u : Universe) (t : Ty) : Ty.elementAt? u 0 t = some t := rfl

theorem Ty.elementAt?_succ {u : Universe} {a c : ClassId} (link : (u.decl a).component = some c)
    (n : Nat) : Ty.elementAt? u (n + 1) (.ofClass a) = Ty.elementAt? u n (.ofClass c) := by
  simp [Ty.elementAt?, link]

/-- The table leads from a class to the class that has it as its component, and nowhere else;
components come before their array classes. -/
structure Universe.Interned (u : Universe) : Prop where
  links : ∀ a c, (u.decl a).component = some c ↔ u.arrays.lookup c = some a
  layered : u.Layered

namespace Universe

variable {u v : Universe} {a c : ClassId}

theorem mem_ids_of_component (link : (u.decl a).component = some c) : a ∈ u.ids := by
  by_contra unknown
  rw [decl_of_not_mem_ids unknown] at link
  cases link

theorem component_insert {d : ClassDecl} (plain : d.component = none) (a : ClassId) :
    ((u.insert d).2.decl a).component = (u.decl a).component := by
  rw [decl_insert]
  split
  · next last => rw [plain, decl_of_size_le (Nat.le_of_eq last.symm)]; rfl
  · rfl

theorem component_setDecl (known : c ∈ u.ids) {d : ClassDecl}
    (kept : d.component = (u.decl c).component) (a : ClassId) :
    ((u.setDecl c d).decl a).component = (u.decl a).component := by
  rw [decl_setDecl known]
  split
  · next same => rw [kept, same]
  · rfl

theorem arrayOf_of_lookup (found : u.arrays.lookup c = some a) : u.arrayOf c = (a, u) := by
  simp only [arrayOf, found]

theorem arrayOf_eq_self_iff : u.arrayOf c = (a, u) ↔ u.arrays.lookup c = some a := by
  constructor
  · intro kept
    rcases arrayOf_cases u c with ⟨b, found, eq⟩ | ⟨-, eq⟩
    · exact found.trans (congrArg some (congrArg Prod.fst (eq.symm.trans kept)))
    · have same := congrArg (fun r : ClassId × Universe => r.2.arrays.length) (eq.symm.trans kept)
      simp at same
  · exact arrayOf_of_lookup

theorem lookup_arrayOf_self (u : Universe) (c : ClassId) :
    (u.arrayOf c).2.arrays.lookup c = some (u.arrayOf c).1 := by
  rcases arrayOf_cases u c with ⟨b, found, eq⟩ | ⟨-, eq⟩
  · rw [eq, found]
  · rw [eq, List.lookup_cons_self]

theorem arrayOf_arrayOf (u : Universe) (c : ClassId) : (u.arrayOf c).2.arrayOf c = u.arrayOf c :=
  arrayOf_of_lookup (lookup_arrayOf_self u c)

/-- What the table knows, it knows after the next call. -/
theorem lookup_arrayOf (found : u.arrays.lookup c = some a) (component : ClassId) :
    (u.arrayOf component).2.arrays.lookup c = some a := by
  rcases arrayOf_cases u component with ⟨b, -, eq⟩ | ⟨fresh, eq⟩
  · rw [eq, found]
  · have apart : c ≠ component := by
      rintro rfl
      simp [fresh] at found
    rw [eq, List.lookup_cons, beq_false_of_ne apart]
    exact found

theorem lookup_edits (found : u.arrays.lookup c = some a) {edits : List ClassEdit} {d : Draft}
    (start : d.within = u) : (edits.foldl Draft.edit d).within.arrays.lookup c = some a := by
  induction edits generalizing d u with
  | nil => exact start ▸ found
  | cons e rest ih =>
    subst start
    rcases d.within_edit e with eq | ⟨component, -, eq⟩
    · exact ih found eq
    · exact ih (lookup_arrayOf found component) eq

theorem lookup_perform (found : u.arrays.lookup c = some a) (op : Operation) :
    (u.perform op).arrays.lookup c = some a := by
  cases op with
  | declare name =>
    rcases declare_cases u name with ⟨c', -, eq⟩ | ⟨-, eq⟩
    · rw [perform, eq, found]
    · rw [perform, eq]
      exact found
  | define self edits => exact lookup_edits (d := u.draft self) found rfl
  | arrayOf component => exact lookup_arrayOf found component

theorem lookup_run (found : u.arrays.lookup c = some a) (operations : List Operation) :
    (u.run operations).arrays.lookup c = some a := by
  induction operations generalizing u with
  | nil => exact found
  | cons op rest ih => exact ih (lookup_perform found op)

namespace Interned

theorem lookup_iff (interned : u.Interned) :
    (u.decl a).component = some c ↔ u.arrayOf c = (a, u) :=
  (interned.links a c).trans arrayOf_eq_self_iff.symm

theorem mem_of_lookup (interned : u.Interned) (found : u.arrays.lookup c = some a) :
    a ∈ u.ids ∧ c ∈ u.ids := by
  have link := (interned.links a c).2 found
  have inside := mem_ids_of_component link
  have less := interned.layered a c link
  rw [mem_ids] at inside ⊢
  exact ⟨inside, mem_ids.2 (less.trans inside)⟩

theorem lookup_eq_none (interned : u.Interned) (unknown : c ∉ u.ids) :
    u.arrays.lookup c = none := by
  cases found : u.arrays.lookup c with
  | none => rfl
  | some a => exact absurd (interned.mem_of_lookup found).2 unknown

theorem component_inj (interned : u.Interned) {c' : ClassId} (found : u.arrays.lookup c = some a)
    (found' : u.arrays.lookup c' = some a) : c = c' :=
  Option.some.inj (((interned.links a c).2 found).symm.trans ((interned.links a c').2 found'))

/-- Nothing but the components and the table counts. -/
theorem of_same (interned : u.Interned)
    (components : ∀ a, (v.decl a).component = (u.decl a).component)
    (arrays : v.arrays = u.arrays) : v.Interned where
  links := by
    intro a c
    rw [components, arrays]
    exact interned.links a c
  layered := by
    intro a c link
    rw [components] at link
    exact interned.layered a c link

theorem of_no_arrays (plain : ∀ c ∈ u.ids, (u.decl c).component = none) (none : u.arrays = []) :
    u.Interned := by
  have bare (a c : ClassId) : (u.decl a).component ≠ some c := by
    intro link
    simp [plain a (mem_ids_of_component link)] at link
  constructor
  · intro a c
    simp [none, bare a c]
  · exact fun a c link => absurd link (bare a c)

theorem declare (interned : u.Interned) (name : String) : (u.declare name).2.Interned := by
  rcases declare_cases u name with ⟨c, -, eq⟩ | ⟨-, eq⟩
  · exact eq ▸ interned
  · rw [eq]
    exact interned.of_same (component_insert rfl) rfl

theorem setDecl (interned : u.Interned) (known : c ∈ u.ids) {d : ClassDecl}
    (kept : d.component = (u.decl c).component) : (u.setDecl c d).Interned :=
  interned.of_same (component_setDecl known kept) rfl

theorem arrayOf (interned : u.Interned) (known : c ∈ u.ids) : (u.arrayOf c).2.Interned := by
  rcases arrayOf_cases u c with ⟨b, -, eq⟩ | ⟨fresh, eq⟩
  · exact eq ▸ interned
  have layered := interned.layered.arrayOf known
  rw [eq] at layered ⊢
  refine ⟨fun a e => ?_, layered⟩
  have new : (⟨u.size⟩ : ClassId) ∉ u.ids := by simp [mem_ids]
  change ((u.insert (u.arrayDecl c)).2.decl a).component = some e ↔
    ((c, ⟨u.size⟩) :: u.arrays).lookup e = some a
  by_cases last : a = ⟨u.size⟩
  · subst last
    -- The new class is over the component that was asked for, and the old table does not lead to it.
    have unknown : u.arrays.lookup e ≠ some ⟨u.size⟩ := fun found =>
      new (interned.mem_of_lookup found).1
    rw [decl_insert_new, List.lookup_cons]
    by_cases same : e = c
    · simp [same, arrayDecl]
    · simp [beq_false_of_ne same, unknown, arrayDecl, Ne.symm same]
  · have old : ((u.insert (u.arrayDecl c)).2.decl a) = u.decl a := by
      rw [decl_insert, if_neg fun same => last (congrArg ClassId.mk same)]
    rw [old, interned.links, List.lookup_cons]
    by_cases same : e = c
    · simp [same, fresh, Ne.symm last]
    · simp [beq_false_of_ne same]

theorem edits {edits : List ClassEdit} {d : Draft} (interned : d.within.Interned)
    (known : d.self ∈ d.within.ids) (kept : d.decl.component = (d.within.decl d.self).component)
    (admits : d.within.Admits edits) : (edits.foldl Draft.edit d).finish.Interned := by
  induction edits generalizing d with
  | nil => exact interned.setDecl known kept
  | cons e rest ih =>
    rw [List.foldl_cons]
    have kept' := (d.component_editDecl e).trans kept
    cases e with
    | arrayOf component =>
      obtain ⟨there, admits⟩ := admits
      refine ih (interned.arrayOf there) (mem_ids_arrayOf known component) ?_ admits
      rw [Draft.edit, decl_arrayOf known component]
      exact kept'
    | _ => exact ih interned known kept' admits

theorem perform (interned : u.Interned) {op : Operation} (allows : u.Allows op) :
    (u.perform op).Interned := by
  cases op with
  | declare name => exact interned.declare name
  | define self changes => exact edits (d := u.draft self) interned allows.1 rfl allows.2
  | arrayOf component => exact interned.arrayOf allows

theorem run (interned : u.Interned) {operations : List Operation} (permits : u.Permits operations) :
    (u.run operations).Interned := by
  induction operations generalizing u with
  | nil => exact interned
  | cons op rest ih => exact ih (interned.perform permits.1) permits.2

theorem initial : Universe.initial.Interned := of_no_arrays (by decide) rfl

theorem foundation : Universe.foundation.Interned :=
  of_no_arrays (by decide +kernel) (by decide +kernel)

theorem arrayOf_ne (interned : u.Interned) {c' : ClassId} (known : c ∈ u.ids) (known' : c' ∈ u.ids)
    (apart : c ≠ c') : (u.arrayOf c).1 ≠ ((u.arrayOf c).2.arrayOf c').1 := by
  intro same
  have interned' := (interned.arrayOf known).arrayOf (mem_ids_arrayOf known' c)
  have first := lookup_arrayOf (lookup_arrayOf_self u c) c'
  have second := lookup_arrayOf_self (u.arrayOf c).2 c'
  exact apart (interned'.component_inj first (same ▸ second))

end Interned

/-- The way down from an array class ends at a class that is none, as each step leads to a class that
was made before. -/
theorem Layered.exists_elementAt? (layered : u.Layered) (c : ClassId) :
    ∃ n ≤ c.index, ∃ b, Ty.elementAt? u n (.ofClass c) = some (.ofClass b) ∧
      (Ty.ofClass b).elementType? u = none := by
  generalize bound : c.index = limit
  induction limit using Nat.strong_induction_on generalizing c with
  | _ limit ih =>
    cases link : (u.decl c).component with
    | none =>
      exact ⟨0, Nat.zero_le _, c, rfl, by simp [link]⟩
    | some e =>
      have less := layered c e link
      obtain ⟨n, within, b, ends, plain⟩ := ih e.index (by omega) e rfl
      exact ⟨n + 1, by omega, b, (Ty.elementAt?_succ link n).trans ends, plain⟩

/-- Whatever is declared, defined and made an array of: a class has a component if and only if the
component's array class is that class and is there already. Asking again changes nothing, then or
later; the array classes over two components differ; a component comes before its array class, so
the way from any class to elements ends. -/
theorem Permits.arrays_interned {before after : List Operation}
    (start : u = .initial ∨ u = .foundation) (permits : u.Permits (before ++ after)) :
    let v := u.run before
    let w := u.run (before ++ after)
    (∀ a c, (v.decl a).component = some c ↔ v.arrayOf c = (a, v)) ∧
    (∀ c ∈ v.ids, (v.arrayOf c).2.arrayOf c = v.arrayOf c) ∧
    (∀ a c, v.arrayOf c = (a, v) → w.arrayOf c = (a, w)) ∧
    (∀ c ∈ v.ids, ∀ c' ∈ v.ids, c ≠ c' →
      (v.arrayOf c).1 ≠ ((v.arrayOf c).2.arrayOf c').1) ∧
    (∀ a c, (v.decl a).component = some c → c.index < a.index) ∧
    ∀ c ∈ v.ids, ∃ n ≤ c.index, ∃ b, Ty.elementAt? v n (.ofClass c) = some (.ofClass b) ∧
      (Ty.ofClass b).elementType? v = none := by
  have interned : u.Interned :=
    start.elim (fun same => same ▸ .initial) fun same => same ▸ .foundation
  intro v w
  have interned : v.Interned := interned.run (permits_append.1 permits).1
  refine ⟨fun a c => interned.lookup_iff, fun c _ => arrayOf_arrayOf v c, fun a c kept => ?_,
    fun c known c' known' => interned.arrayOf_ne known known', interned.layered,
    fun c _ => interned.layered.exists_elementAt? c⟩
  have found := lookup_run (arrayOf_eq_self_iff.1 kept) after
  rw [← run_append] at found
  exact arrayOf_of_lookup found

end Universe

namespace Grids

open Universe (Operation)

def cell : ClassId := ⟨10⟩
def cells : ClassId := ⟨11⟩
def table : ClassId := ⟨12⟩

/-- The class of cells is defined with fields for cells in one and in two dimensions. -/
def before : List Operation :=
  [.declare "p.Cell",
    .define cell [.arrayOf cell, .arrayOf cells,
      .field { name := "row", modifiers := .empty, type := .ofClass cells },
      .field { name := "all", modifiers := .empty, type := .ofClass table }]]

/-- The array class stops being an array by its kind, and its name is declared. -/
def after : List Operation :=
  [.define cells [.kind .interface, .nesting (.localClass cell)], .declare "[Lp.Cell;",
    .arrayOf table, .define table [.arrayOf cell]]

theorem permits : Universe.initial.Permits (before ++ after) := by
  simp only [before, after, List.cons_append, List.nil_append, Universe.Permits, Universe.Allows,
    Universe.Admits]
  decide

/-- The two-dimensional array class is found over the one-dimensional one to the end. -/
theorem arrayOf_cells : Universe.initial.Permits (before ++ after) ∧
    (Universe.initial.run (before ++ after)).arrayOf cells =
      (table, Universe.initial.run (before ++ after)) := by
  obtain ⟨links, -, stays, -⟩ := Universe.Permits.arrays_interned (.inl rfl) permits
  exact ⟨permits, stays table cells ((links table cells).1 (by decide))⟩

end Grids

end JavaTypes
