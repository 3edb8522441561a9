import Mathlib.Data.List.Count

/-!
Counting entries of a list. A transitive relation ranks entries by how many others they lead to: the
rank goes down along the relation, as long as the entry it leads to does not lead to itself.
-/
namespace JavaTypes

variable {α : Type}

/-- Fewer entries have a property than another one, if it is stronger and some entry tells them apart. -/
theorem countP_lt_countP {entries : List α} {p q : α → Bool}
    (stronger : ∀ a ∈ entries, p a = true → q a = true) {a : α} (member : a ∈ entries)
    (holds : q a = true) (fails : ¬ p a = true) : entries.countP p < entries.countP q := by
  have both : entries.countP p = (entries.filter q).countP p := by
    rw [List.countP_filter]
    refine List.countP_congr fun b inside => ?_
    rw [Bool.and_eq_true]
    exact ⟨fun held => ⟨held, stronger b inside held⟩, And.left⟩
  rw [both, List.countP_eq_length_filter (p := q), List.countP_lt_length_iff]
  exact ⟨a, List.mem_filter.2 ⟨member, holds⟩, Bool.eq_false_iff.2 fails⟩

open Classical in
/-- How many entries something leads to. -/
noncomputable def rankIn (entries : List α) (Leads : α → α → Prop) (a : α) : Nat :=
  entries.countP fun b => Leads a b

section rank

variable {entries : List α} {Leads : α → α → Prop} {a b : α}

theorem rankIn_le_length : rankIn entries Leads a ≤ entries.length := List.countP_le_length

theorem rankIn_lt_length (member : a ∈ entries) (once : ¬ Leads a a) :
    rankIn entries Leads a < entries.length := by
  classical
  exact List.countP_lt_length_iff.2 ⟨a, member, decide_eq_false once⟩

/-- What is led to leads to fewer entries, unless it leads to itself. -/
theorem rankIn_lt (trans : ∀ {a b c}, Leads a b → Leads b c → Leads a c) (member : b ∈ entries)
    (leads : Leads a b) (once : ¬ Leads b b) : rankIn entries Leads b < rankIn entries Leads a := by
  classical
  refine countP_lt_countP (fun c _ further => ?_) member (decide_eq_true leads) ?_
  · rw [decide_eq_true_iff] at further ⊢
    exact trans leads further
  · rw [decide_eq_true_iff]
    exact once

end rank

end JavaTypes
