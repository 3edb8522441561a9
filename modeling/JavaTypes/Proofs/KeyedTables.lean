import JavaTypes.Keyed
import Mathlib.Data.List.Find
import Mathlib.Data.List.Forall2
import Mathlib.Data.List.Nodup

/-!
Tables in ascending order of their keys. Under a key a table holds the last value that was put in
with it.
-/
namespace JavaTypes

namespace Keyed

variable {α : Type}

/-- Entries in ascending order, each under the key of its value. -/
structure Indexed (keyOf : α → String) (entries : List (String × α)) : Prop where
  ascending : entries.Pairwise fun a b => a.1 < b.1
  keys : ∀ e ∈ entries, e.1 = keyOf e.2

theorem key_eq_of_not_lt {a b : String} (left : ¬ a < b) (right : ¬ b < a) : a = b :=
  Std.le_antisymm (String.not_lt.1 right) (String.not_lt.1 left)

theorem mem_insert {key : String} {value : α} {entries : List (String × α)}
    (ascending : entries.Pairwise fun a b => a.1 < b.1) {e : String × α} :
    e ∈ insert key value entries ↔ e = (key, value) ∨ e ∈ entries ∧ e.1 ≠ key := by
  induction entries with
  | nil => simp [insert]
  | cons first rest ih =>
    obtain ⟨k, v⟩ := first
    obtain ⟨below, ascending⟩ := List.pairwise_cons.1 ascending
    have apart : ∀ e ∈ rest, k ≠ e.1 := fun e member same =>
      String.lt_irrefl k (same ▸ below e member)
    unfold insert
    by_cases before : key < k
    · have all : ∀ e ∈ (k, v) :: rest, e.1 ≠ key := by
        intro e member same
        rcases List.mem_cons.1 member with rfl | member
        · cases same
          exact String.lt_irrefl k before
        · exact String.lt_irrefl key (String.lt_trans before (same ▸ below e member))
      rw [if_pos before]
      simp only [List.mem_cons] at all ⊢
      grind
    · rw [if_neg before]
      by_cases after : k < key
      · rw [if_pos after]
        have other : k ≠ key := fun same => String.lt_irrefl key (same ▸ after)
        simp only [List.mem_cons, ih ascending]
        grind
      · rw [if_neg after]
        have same : key = k := key_eq_of_not_lt before after
        subst same
        simp only [List.mem_cons]
        grind

theorem Indexed.insert {keyOf : α → String} {entries : List (String × α)}
    (indexed : Indexed keyOf entries) (value : α) :
    Indexed keyOf (Keyed.insert (keyOf value) value entries) := by
  obtain ⟨ascending, keys⟩ := indexed
  refine ⟨?_, fun e member => ?_⟩
  · induction entries with
    | nil => simp [Keyed.insert]
    | cons first rest ih =>
      obtain ⟨k, v⟩ := first
      obtain ⟨below, tail⟩ := List.pairwise_cons.1 ascending
      unfold Keyed.insert
      split
      · rename_i before
        refine List.pairwise_cons.2 ⟨fun e member => ?_, ascending⟩
        rcases List.mem_cons.1 member with rfl | member
        · exact before
        · exact String.lt_trans before (below e member)
      · split
        · rename_i after
          refine List.pairwise_cons.2 ⟨fun e member => ?_,
            ih tail fun e member => keys e (List.mem_cons_of_mem _ member)⟩
          rcases (mem_insert tail).1 member with rfl | ⟨member, -⟩
          · exact after
          · exact below e member
        · rename_i before after
          have same : keyOf value = k := key_eq_of_not_lt before after
          exact List.pairwise_cons.2 ⟨fun e member => same ▸ below e member, tail⟩
  · rcases (mem_insert ascending).1 member with rfl | ⟨member, -⟩
    · rfl
    · exact keys e member

theorem Indexed.insertAll {keyOf : α → String} {entries : List (String × α)}
    (indexed : Indexed keyOf entries) (values : List α) :
    Indexed keyOf (Keyed.insertAll keyOf values entries) := by
  induction values generalizing entries with
  | nil => exact indexed
  | cons value rest ih => exact ih (indexed.insert value)

theorem lookup_insert (k : String) (value : α) (entries : List (String × α)) (key : String) :
    (insert k value entries).lookup key = if k == key then some value else entries.lookup key := by
  induction entries with
  | nil => grind [insert]
  | cons first rest ih =>
    obtain ⟨k', v⟩ := first
    unfold insert
    by_cases before : k < k'
    · grind
    · rw [if_neg before]
      by_cases after : k' < k
      · have other : k' ≠ k := fun same => String.lt_irrefl k (same ▸ after)
        grind
      · have same : k = k' := key_eq_of_not_lt before after
        grind

theorem mem_of_findRev? {p : α → Bool} {values : List α} {x : α}
    (found : values.findRev? p = some x) : x ∈ values ∧ p x = true := by
  rw [List.findRev?_eq_find?_reverse] at found
  exact ⟨List.mem_reverse.1 (List.mem_of_find?_eq_some found), List.find?_some found⟩

theorem exists_findRev? {p : α → Bool} {values : List α} {x : α} (member : x ∈ values)
    (fits : p x = true) : ∃ y, values.findRev? p = some y := by
  rw [List.findRev?_eq_find?_reverse, ← Option.isSome_iff_exists, List.find?_isSome]
  exact ⟨x, List.mem_reverse.2 member, fits⟩

theorem findRev?_filter (p q : α → Bool) (values : List α) :
    (values.filter p).findRev? q = values.findRev? fun x => p x && q x := by
  rw [List.findRev?_eq_find?_reverse, List.findRev?_eq_find?_reverse, ← List.filter_reverse,
    List.find?_filter]
  exact congrArg (List.find? · _) (funext fun x => by rw [Bool.decide_and, Bool.decide_eq_true,
    Bool.decide_eq_true])

section kept

variable {f : α → α} {p : α → Bool} (kept : ∀ x, p (f x) = p x)

include kept

theorem map_findRev? (values : List α) : (values.map f).findRev? p = (values.findRev? p).map f := by
  rw [List.findRev?_eq_find?_reverse, List.findRev?_eq_find?_reverse, ← List.map_reverse,
    List.find?_map]
  exact congrArg (fun q => (values.reverse.find? q).map f) (funext kept)

/-- What a property does not see of values makes no difference to which of them comes last. -/
theorem map_findRev?_congr {values others : List α} (same : values.map f = others.map f) :
    (values.findRev? p).map f = (others.findRev? p).map f := by
  rw [← map_findRev? kept, same, map_findRev? kept]

end kept

/-- Under a key a table holds the last value put in with that key. -/
theorem lookup_insertAll (keyOf : α → String) (values : List α) (entries : List (String × α))
    (key : String) : (insertAll keyOf values entries).lookup key =
      (values.findRev? fun x => keyOf x == key).or (entries.lookup key) := by
  induction values generalizing entries with
  | nil => rfl
  | cons value rest ih =>
    rw [insertAll, List.foldl_cons]
    refine (ih _).trans ?_
    rw [lookup_insert, List.findRev?]
    cases rest.findRev? fun x => keyOf x == key with
    | some x => rfl
    | none => cases keyOf value == key <;> rfl

section values

variable {f : α → α}

theorem map_insert (k : String) (value : α) (entries : List (String × α)) :
    (insert k value entries).map (Prod.map id f) =
      insert k (f value) (entries.map (Prod.map id f)) := by
  induction entries with
  | nil => rfl
  | cons first rest ih =>
    simp only [insert, List.map_cons, Prod.map, id]
    split
    · rfl
    · split
      · rw [List.map_cons, ih]
        rfl
      · rfl

/-- What values have apart from their keys does not matter to a table. -/
theorem map_insertAll {keyOf : α → String} (kept : ∀ x, keyOf (f x) = keyOf x) (values : List α)
    (entries : List (String × α)) :
    (insertAll keyOf values entries).map (Prod.map id f) =
      insertAll keyOf (values.map f) (entries.map (Prod.map id f)) := by
  induction values generalizing entries with
  | nil => rfl
  | cons value rest ih =>
    rw [insertAll, List.foldl_cons, List.map_cons]
    refine (ih _).trans ?_
    rw [map_insert, insertAll, insertAll, List.foldl_cons, kept]

end values

section related

variable {β : Type} {R : α → β → Prop} {entries : List (String × α)} {others : List (String × β)}

theorem insert_related {value : α} {other : β} (related : R value other) (key : String)
    (each : List.Forall₂ (fun e e' => e'.1 = e.1 ∧ R e.2 e'.2) entries others) :
    List.Forall₂ (fun e e' => e'.1 = e.1 ∧ R e.2 e'.2) (insert key value entries)
      (insert key other others) := by
  induction each with
  | nil => exact .cons ⟨rfl, related⟩ .nil
  | @cons e e' rest rest' first tail ih =>
    obtain ⟨k, v⟩ := e
    obtain ⟨k', v'⟩ := e'
    have same : k' = k := first.1
    subst same
    unfold insert
    split
    · exact .cons ⟨rfl, related⟩ (.cons first tail)
    · split
      · exact .cons first ih
      · exact .cons ⟨rfl, related⟩ tail

theorem insertAll_related {keyOf : α → String} {keyOf' : β → String} {values : List α}
    {values' : List β} (keys : ∀ x y, R x y → keyOf' y = keyOf x)
    (related : List.Forall₂ R values values')
    (each : List.Forall₂ (fun e e' => e'.1 = e.1 ∧ R e.2 e'.2) entries others) :
    List.Forall₂ (fun e e' => e'.1 = e.1 ∧ R e.2 e'.2) (insertAll keyOf values entries)
      (insertAll keyOf' values' others) := by
  induction related generalizing entries others with
  | nil => exact each
  | @cons x y rest rest' first _ ih =>
    have entered := insert_related first (keyOf x) each
    rw [insertAll, insertAll, List.foldl_cons, List.foldl_cons, keys x y first]
    exact ih entered

end related

theorem Indexed.find?_eq {keyOf : α → String} {entries : List (String × α)}
    (indexed : Indexed keyOf entries) (key : String) :
    (entries.map (·.2)).find? (fun x => keyOf x == key) = entries.lookup key := by
  have keys := indexed.keys
  clear indexed
  induction entries with
  | nil => rfl
  | cons first rest ih =>
    obtain ⟨own, others⟩ := List.forall_mem_cons.1 keys
    rw [List.map_cons, List.find?_cons, ← own, ih others]
    grind

theorem Indexed.nodup {keyOf : α → String} {entries : List (String × α)}
    (indexed : Indexed keyOf entries) : ((entries.map (·.2)).map keyOf).Nodup := by
  rw [List.map_map, List.Nodup, List.pairwise_map]
  refine indexed.ascending.imp_of_mem fun {a b} inside inside' below same => ?_
  have key : a.1 = b.1 := (indexed.keys a inside).trans (same.trans (indexed.keys b inside').symm)
  exact String.lt_irrefl b.1 (key ▸ below)

/-- Of values with keys of their own, one is all there is with its key. -/
theorem filter_eq_of_find? {keyOf : α → String} {values : List α}
    (apart : (values.map keyOf).Nodup) {key : String} {x : α}
    (found : values.find? (fun y => keyOf y == key) = some x) :
    values.filter (fun y => keyOf y == key) = [x] := by
  induction values with
  | nil => cases found
  | cons first rest ih =>
    obtain ⟨fresh, apart⟩ := List.nodup_cons.1 apart
    rw [List.find?_cons] at found
    cases same : keyOf first == key with
    | true =>
      rw [same] at found
      cases found
      have others : rest.filter (fun y => keyOf y == key) = [] := by
        refine List.filter_eq_nil_iff.2 fun y member other => fresh ?_
        rw [beq_iff_eq.1 same, ← beq_iff_eq.1 other]
        exact List.mem_map_of_mem member
      simp [same, others]
    | false =>
      rw [same] at found
      simpa [same] using ih apart found

theorem find?_of_mem {keyOf : α → String} {values : List α} (apart : (values.map keyOf).Nodup)
    {x : α} (member : x ∈ values) : values.find? (fun y => keyOf y == keyOf x) = some x := by
  cases found : values.find? fun y => keyOf y == keyOf x with
  | none => exact absurd (beq_self_eq_true _) (List.find?_eq_none.1 found x member)
  | some y =>
    have same : keyOf y = keyOf x := by simpa using List.find?_some found
    rw [List.inj_on_of_nodup_map apart (List.mem_of_find?_eq_some found) member same]

/-- Which value has a key does not depend on the order of values with keys of their own. -/
theorem find?_eq_of_perm {keyOf : α → String} {values others : List α} (perm : values.Perm others)
    (apart : (values.map keyOf).Nodup) (key : String) :
    values.find? (fun y => keyOf y == key) = others.find? fun y => keyOf y == key := by
  refine List.find?_eq_find?_of_perm perm fun x inside y inside' => ?_
  have same : keyOf x = keyOf y := (beq_iff_eq.1 inside.2).trans (beq_iff_eq.1 inside'.2).symm
  exact List.inj_on_of_nodup_map apart inside.1 inside'.1 same

end Keyed

end JavaTypes
