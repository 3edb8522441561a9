import JavaTypes.Proofs.Application
import JavaTypes.Proofs.Separators
import JavaTypes.Universe.Edit
import Mathlib.Data.List.Find
import Mathlib.Data.List.Nodup

/-!
Ids of type variables. An id names the class, then the declaration in the class, then the variable.
Of several methods of one name each has a number, and so has each of several constructors; where
names are free of the separators, no two type parameters share an id, and bindings are found by the
parameter they are for.
-/
namespace JavaTypes

def idSeparators : List Char := ['|', '#']

/-- Classes have names of their own, and so have the type parameters of one declaration; no name of a
class or method has a separator in it. -/
structure Universe.Named (u : Universe) : Prop where
  classes : ∀ c ∈ u.ids, Unbroken idSeparators (u.decl c).binaryName.toList
  distinct : Set.InjOn (fun c => (u.decl c).binaryName) {c | c ∈ u.ids}
  methods : ∀ c, ∀ m ∈ (u.decl c).methods, Unbroken idSeparators m.name.toList
  fresh : ∀ owner, ((u.typeParams owner).map (·.name)).Nodup

/-- Among the entries that are counted, a later one has more of them before it. -/
theorem position_lt {α : Type} {counted : α → Bool} {entries : List α} {i j : Nat} {x : α}
    (less : i < j) (here : entries[i]? = some x) (counts : counted x = true) :
    ((entries.take i).filter counted).length < ((entries.take j).filter counted).length := by
  have upTo : (entries.take (i + 1)).filter counted = (entries.take i).filter counted ++ [x] := by
    simp [List.take_add_one, here, counts]
  have before : (entries.take (i + 1)).filter counted <+: (entries.take j).filter counted :=
    (List.take_prefix_take_left less).filter _
  have bound := before.length_le
  rw [upTo, List.length_append, List.length_singleton] at bound
  omega

theorem position_lt_count {α : Type} {counted : α → Bool} {entries : List α} {i : Nat} {x : α}
    (here : entries[i]? = some x) (counts : counted x = true) :
    ((entries.take i).filter counted).length < (entries.filter counted).length := by
  obtain ⟨inside, -⟩ := List.getElem?_eq_some_iff.1 here
  simpa using position_lt inside here counts

/-- Entries that are counted differ in how many of them come before. -/
theorem position_inj {α : Type} {counted : α → Bool} {entries : List α} {i j : Nat} {x y : α}
    (here : entries[i]? = some x) (counts : counted x = true)
    (there : entries[j]? = some y) (counts' : counted y = true)
    (same : ((entries.take i).filter counted).length = ((entries.take j).filter counted).length) :
    i = j := by
  rcases Nat.lt_trichotomy i j with less | equal | greater
  · have := position_lt less here counts
    omega
  · exact equal
  · have := position_lt greater there counts'
    omega

namespace Universe

/-- What tells a declaration from the others in its class. -/
def memberMark (u : Universe) : VarOwner → String
  | .ofClass _ => ""
  | .method c i =>
    let d := u.decl c
    let name := (d.methods[i]?.map (·.name)).getD ""
    "|Method:" ++ name ++ overloadMark (d.methods.filter (·.name == name)).length
      ((d.methods.take i).filter (·.name == name)).length
  | .constructor c i => "|Constructor" ++ overloadMark (u.decl c).constructors.length i

variable {u : Universe}

theorem toList_varKey (v : VarRef) : (u.varKey v).toList =
    "Class:".toList ++ ((u.decl v.owner.classId).binaryName.toList ++
      ((u.memberMark v.owner).toList ++ ("|TypeVariable:".toList ++ (u.varName v).toList))) := by
  obtain ⟨owner, i⟩ := v
  cases owner <;>
    simp only [varKey, ownerKey, classKey, memberMark, VarOwner.classId, String.toList_append,
      List.append_assoc, String.toList_empty, List.nil_append]

theorem stops_overloadMark (count position : Nat) {rest : List Char} (stops : Stops idSeparators rest) :
    Stops idSeparators ((overloadMark count position).toList ++ rest) := by
  unfold overloadMark
  split
  · rw [String.toList_append]
    exact .cons (by decide) _
  · exact stops

/-- Numbers of declarations that nothing else tells apart are told apart. -/
theorem overloadMark_inj {count position position' : Nat} {rest rest' : List Char}
    (inside : position < count) (inside' : position' < count)
    (stops : Stops idSeparators rest) (stops' : Stops idSeparators rest')
    (same : (overloadMark count position).toList ++ rest =
      (overloadMark count position').toList ++ rest') : position = position' ∧ rest = rest' := by
  unfold overloadMark at same
  split at same
  · simp only [String.toList_append, List.append_assoc, List.append_cancel_left_eq] at same
    have unbroken (n : Nat) := unbroken_toString idSeparators n (by decide)
    obtain ⟨digits, rest⟩ := (unbroken position).append_inj (unbroken position') stops stops' same
    exact ⟨toString_inj (String.toList_inj.1 digits), rest⟩
  · exact ⟨by omega, same⟩

/-- In one class the text behind the name of the class tells which declaration it belongs to. -/
theorem Named.memberMark_inj (named : u.Named) {owner owner' : VarOwner}
    (declares : u.typeParams owner ≠ []) (declares' : u.typeParams owner' ≠ [])
    (oneClass : owner.classId = owner'.classId) {rest rest' : List Char}
    (same : (u.memberMark owner).toList ++ ("|TypeVariable:".toList ++ rest) =
      (u.memberMark owner').toList ++ ("|TypeVariable:".toList ++ rest')) :
    owner = owner' ∧ rest = rest' := by
  have stops (rest : List Char) : Stops idSeparators ("|TypeVariable:".toList ++ rest) :=
    .cons (by decide) _
  cases owner with
  | ofClass c =>
    cases owner' with
    | ofClass c' =>
      cases oneClass
      simp only [List.append_cancel_left_eq] at same
      exact ⟨rfl, same⟩
    | method => simp [memberMark] at same
    | constructor => simp [memberMark] at same
  | method c i =>
    cases owner' with
    | ofClass => simp [memberMark] at same
    | constructor => simp [memberMark] at same
    | method c' j =>
      cases oneClass
      have inside : i < (u.decl c).methods.length := by
        simpa [ClassDecl.owners, VarOwner.classId] using (mem_owners declares).2
      have inside' : j < (u.decl c).methods.length := by
        simpa [ClassDecl.owners, VarOwner.classId] using (mem_owners declares').2
      obtain ⟨m, here⟩ : ∃ m, (u.decl c).methods[i]? = some m := ⟨_, List.getElem?_eq_getElem inside⟩
      obtain ⟨m', there⟩ : ∃ m, (u.decl c).methods[j]? = some m := ⟨_, List.getElem?_eq_getElem inside'⟩
      simp only [memberMark, here, there, Option.map_some, Option.getD_some, String.toList_append,
        List.append_assoc, List.append_cancel_left_eq] at same
      obtain ⟨names, marks⟩ := (named.methods c m (List.mem_of_getElem? here)).append_inj
        (named.methods c m' (List.mem_of_getElem? there))
        (stops_overloadMark _ _ (stops _)) (stops_overloadMark _ _ (stops _)) same
      rw [String.toList_inj] at names
      rw [← names] at marks
      -- Overloads share their name and are told apart by their position among those of that name.
      have counts : (fun d : MethodDecl => d.name == m.name) m = true := beq_self_eq_true _
      have counts' : (fun d : MethodDecl => d.name == m.name) m' = true := by simp [names]
      obtain ⟨position, rest⟩ := overloadMark_inj (position_lt_count here counts)
        (position_lt_count there counts') (stops _) (stops _) marks
      cases position_inj here counts there counts' position
      simp only [List.append_cancel_left_eq] at rest
      exact ⟨rfl, rest⟩
  | constructor c i =>
    cases owner' with
    | ofClass => simp [memberMark] at same
    | method => simp [memberMark] at same
    | constructor c' j =>
      cases oneClass
      simp only [memberMark, String.toList_append, List.append_assoc,
        List.append_cancel_left_eq] at same
      have inside : i < (u.decl c).constructors.length := by
        simpa [ClassDecl.owners, VarOwner.classId] using (mem_owners declares).2
      have inside' : j < (u.decl c).constructors.length := by
        simpa [ClassDecl.owners, VarOwner.classId] using (mem_owners declares').2
      obtain ⟨rfl, rest⟩ := overloadMark_inj inside inside' (stops _) (stops _) same
      simp only [List.append_cancel_left_eq] at rest
      exact ⟨rfl, rest⟩

theorem Named.of_ids
    (classes : ∀ c ∈ u.ids, Unbroken idSeparators (u.decl c).binaryName.toList)
    (distinct : (u.ids.map fun c => (u.decl c).binaryName).Nodup)
    (methods : ∀ c ∈ u.ids, ∀ m ∈ (u.decl c).methods, Unbroken idSeparators m.name.toList)
    (fresh : ∀ c ∈ u.ids, ∀ owner ∈ (u.decl c).owners c,
      ((u.typeParams owner).map (·.name)).Nodup) : u.Named where
  classes := classes
  distinct := fun _ known _ known' same => List.inj_on_of_nodup_map distinct known known' same
  methods := fun c m member => by
    by_cases known : c ∈ u.ids
    · exact methods c known m member
    · rw [decl_of_not_mem_ids known] at member
      cases member
  fresh := fun owner => by
    by_cases declares : u.typeParams owner = []
    · simp [declares]
    · obtain ⟨known, listed⟩ := mem_owners declares
      exact fresh _ known owner listed

theorem Named.injOn_varKey (named : u.Named) : Set.InjOn u.varKey u.declaredVars := by
  rintro ⟨owner, i⟩ declared ⟨owner', j⟩ declared' same
  have texts := congrArg String.toList same
  simp only [toList_varKey, List.append_cancel_left_eq] at texts
  have declares := typeParams_ne_nil declared
  have declares' := typeParams_ne_nil declared'
  obtain ⟨known, -⟩ := mem_owners declares
  obtain ⟨known', -⟩ := mem_owners declares'
  have stops (owner : VarOwner) (rest : List Char) : Stops idSeparators
      ((u.memberMark owner).toList ++ ("|TypeVariable:".toList ++ rest)) := by
    cases owner <;> simp only [memberMark, String.toList_append, List.append_assoc] <;>
      exact .cons (by decide) _
  obtain ⟨classes, marks⟩ := (named.classes _ known).append_inj (named.classes _ known')
    (stops owner _) (stops owner' _) texts
  have oneClass := named.distinct known known' (String.toList_inj.1 classes)
  obtain ⟨rfl, names⟩ := named.memberMark_inj declares declares' oneClass marks
  have inside := mem_declaredVars.1 declared
  have inside' := mem_declaredVars.1 declared'
  have left : i < ((u.typeParams owner).map (·.name)).length := by simpa using inside
  have right : j < ((u.typeParams owner).map (·.name)).length := by simpa using inside'
  -- The id holds the name of a parameter and not its index: one declaration names each once.
  have alike : ((u.typeParams owner).map (·.name))[i] = ((u.typeParams owner).map (·.name))[j] := by
    simpa [varName, typeParam?, inside, inside'] using String.toList_inj.1 names
  rw [List.Nodup.getElem_inj_iff (named.fresh owner)] at alike
  rw [alike]

end Universe

/-- Two references to type parameters make variables of one id only if they are the same, and a
variable takes its value from the first binding for its own parameter. -/
theorem Universe.Named.key_eq_iff {u : Universe} (named : u.Named) {v w : VarRef}
    (declared : v ∈ u.declaredVars) (declared' : w ∈ u.declaredVars) :
    ((Ty.variable (.free v)).key u = (Ty.variable (.free w)).key u ↔ v = w) ∧
      ∀ bindings : List TyVar, (∀ b ∈ bindings, b.ref ∈ u.declaredVars) →
        valueFor? u bindings v = (bindings.find? fun b => b.ref = v).bind TyVar.value? := by
  refine ⟨⟨fun same => named.injOn_varKey declared declared' same, fun same => by rw [same]⟩, ?_⟩
  intro bindings known
  rw [valueFor?]
  congr 1
  refine List.find?_congr fun b member => ?_
  have ids : b.key u = u.varKey v ↔ b.ref = v :=
    named.injOn_varKey.eq_iff (known b member) declared
  rw [Bool.eq_iff_iff, beq_iff_eq, decide_eq_true_iff]
  exact ids

namespace Overloads

/-- `class Maker<T>` has two constructors, two methods `make` and a method `put`, all of them with a
type parameter `T` of their own. -/
def classes : Universe :=
  let param : ExecutableEdit := .typeParam "T" []
  (Universe.initial.defineClass "Maker" [.typeParam "T" [],
    .constructor Modifiers.Flag.isPublic.set [param],
    .constructor Modifiers.Flag.isPublic.set [param],
    .method "make" Modifiers.Flag.isPublic.set [.executable param],
    .method "put" Modifiers.Flag.isPublic.set [.executable param],
    .method "make" Modifiers.Flag.isPublic.set [.executable param]]).2

def maker : ClassId := ⟨10⟩
def firstT : VarRef := ⟨.method maker 0, 0⟩
def secondT : VarRef := ⟨.method maker 2, 0⟩

theorem named : classes.Named :=
  .of_ids (by decide) (by decide) (by decide) (by decide)

/-- A value for the `T` of the first `make` is none for the `T` of the second. -/
theorem key_make : classes.Named ∧ secondT ∈ classes.declaredVars ∧ firstT ∈ classes.declaredVars ∧
    (Ty.variable (.free secondT)).key classes ≠ (Ty.variable (.free firstT)).key classes ∧
    valueFor? classes [.bound firstT (.ofClass Universe.object)] secondT = none := by
  have declared : secondT ∈ classes.declaredVars := mem_declaredVars.2 (by decide)
  have declared' : firstT ∈ classes.declaredVars := mem_declaredVars.2 (by decide)
  obtain ⟨same, found⟩ := named.key_eq_iff declared declared'
  refine ⟨named, declared, declared', fun keys => absurd (same.1 keys) (by decide), ?_⟩
  rw [found _ (by simpa [TyVar.ref] using declared')]
  rfl

end Overloads

end JavaTypes
