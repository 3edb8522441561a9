import JavaTypes.Proofs.Application
import JavaTypes.Universe.Edit

/-!
Universes as they come about: from the initial one, by declaring and defining classes and by asking
for array classes. An array class is made after its component, so chains of components end.
-/
namespace JavaTypes

namespace Universe

/-- Edits that ask for array classes only over components that are there when they do. -/
def Admits : Universe → List ClassEdit → Prop
  | _, [] => True
  | u, .arrayOf component :: rest => component ∈ u.ids ∧ (u.arrayOf component).2.Admits rest
  | u, _ :: rest => u.Admits rest

inductive Made : Universe → Prop where
  | initial : Made .initial
  | declare {u : Universe} (name : String) : u.Made → Made (u.declare name).2
  | define {u : Universe} {c : ClassId} {edits : List ClassEdit} :
      u.Made → c ∈ u.ids → u.Admits edits → Made (u.define c edits)
  | arrayOf {u : Universe} {component : ClassId} :
      u.Made → component ∈ u.ids → Made (u.arrayOf component).2

/-- Array classes come after their components. -/
def Layered (u : Universe) : Prop :=
  ∀ c e, (u.decl c).component = some e → e.index < c.index

variable {u : Universe}

theorem decl_insert (d : ClassDecl) (c : ClassId) :
    (u.insert d).2.decl c = if c.index = u.size then d else u.decl c := by
  simp only [insert, decl, Array.getD_eq_getD_getElem?, Array.getElem?_push, size]
  split <;> rfl

theorem decl_arrayOf {c : ClassId} (known : c ∈ u.ids) (component : ClassId) :
    (u.arrayOf component).2.decl c = u.decl c := by
  unfold arrayOf
  split
  · rfl
  · have before : c.index ≠ u.size := Nat.ne_of_lt (mem_ids.1 known)
    exact (decl_insert _ c).trans (if_neg before)

theorem mem_ids_arrayOf {c : ClassId} (known : c ∈ u.ids) (component : ClassId) :
    c ∈ (u.arrayOf component).2.ids := by
  rw [mem_ids] at known ⊢
  unfold arrayOf
  split
  · exact known
  · simpa [insert, size] using Nat.lt_succ_of_lt known

namespace Layered

theorem insert (layered : u.Layered) {d : ClassDecl}
    (component : ∀ e, d.component = some e → e ∈ u.ids) : (u.insert d).2.Layered := by
  intro c e found
  rw [decl_insert] at found
  split at found
  · next last =>
    rw [last]
    exact mem_ids.1 (component e found)
  · exact layered c e found

theorem declare (layered : u.Layered) (name : String) : (u.declare name).2.Layered := by
  unfold Universe.declare
  split
  · exact layered
  · exact layered.insert fun e found => by cases found

theorem arrayOf (layered : u.Layered) {component : ClassId} (known : component ∈ u.ids) :
    (u.arrayOf component).2.Layered := by
  unfold Universe.arrayOf
  split
  · exact layered
  · exact layered.insert fun e found => Option.some.inj found ▸ known

theorem setDecl (layered : u.Layered) {c : ClassId} {d : ClassDecl}
    (kept : d.component = (u.decl c).component) : (u.setDecl c d).Layered := by
  intro c' e found
  simp only [Universe.setDecl, decl, Array.getD_eq_getD_getElem?,
    Array.getElem?_setIfInBounds] at found
  split at found
  · next same =>
    have there : c' = c := by cases c; cases c'; cases same; rfl
    subst there
    split at found
    · exact layered c' e (kept ▸ found)
    · cases found
  · exact layered c' e (by simpa [decl, Array.getD_eq_getD_getElem?] using found)

end Layered

end Universe

namespace Draft

theorem component_setKind (d : Draft) (k : ClassKind) :
    (d.setKind k).component = d.decl.component := by
  cases k <;> simp only [setKind]
  split <;> rfl

theorem component_editDecl (d : Draft) (e : ClassEdit) :
    (d.editDecl e).component = d.decl.component := by
  cases e with
  | kind k => exact d.component_setKind k
  | nesting n => cases n <;> rfl
  | _ => rfl

/-- Edits keep what arrays a class is over, in the draft and in the universe around it. -/
theorem layered_finish {edits : List ClassEdit} {d : Draft} (layered : d.within.Layered)
    (known : d.self ∈ d.within.ids) (kept : d.decl.component = (d.within.decl d.self).component)
    (admits : d.within.Admits edits) : (edits.foldl edit d).finish.Layered := by
  induction edits generalizing d with
  | nil => exact layered.setDecl kept
  | cons e rest ih =>
    rw [List.foldl_cons]
    have kept' := (d.component_editDecl e).trans kept
    cases e with
    | arrayOf component =>
      obtain ⟨there, admits⟩ := admits
      refine ih (layered.arrayOf there) (Universe.mem_ids_arrayOf known component) ?_ admits
      rw [edit, Universe.decl_arrayOf known component]
      exact kept'
    | _ => exact ih layered known kept' admits

end Draft

namespace Universe

theorem Layered.initial : Universe.initial.Layered := by
  intro c e found
  by_cases known : c ∈ Universe.initial.ids
  · have none : ∀ c ∈ Universe.initial.ids, (Universe.initial.decl c).component = none := by decide
    rw [none c known] at found
    cases found
  · rw [decl_of_not_mem_ids known] at found
    cases found

theorem Made.layered {u : Universe} (made : u.Made) : u.Layered := by
  induction made with
  | initial => exact .initial
  | declare name _ ih => exact ih.declare name
  | define _ known admits ih => exact Draft.layered_finish ih known rfl admits
  | arrayOf _ known ih => exact ih.arrayOf known

end Universe

end JavaTypes
