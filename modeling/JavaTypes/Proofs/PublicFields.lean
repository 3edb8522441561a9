import JavaTypes.Proofs.SuperChains
import Mathlib.Data.String.Basic
import Mathlib.Order.Compare

/-!
Public fields over a chain of super types. Going up from a type, the first type that declares a public
field of a name decides which field is listed under the name, and a field that is not public decides
nothing. As no two listed fields have one name, there is one order to show them in.
-/
namespace JavaTypes

variable {u : Universe}

/-- A field without the record of which way led to its declaring type. -/
def Field.unanchored (f : Field) : Field := { f with scope := { f.scope with anchored := false } }

/-- The public field of a name that is met first on the way up: of the first type that has one, the
last. -/
def nearestPublic (owns : List (List Field)) (name : String) : Option Field :=
  owns.findSome? fun own => own.findRev? fun f => f.modifiers.isPublic && f.name == name

section order

theorem Field.displayOrder_bne_gt {a b : Field} : (a.displayOrder b != .gt) = true ↔
    a.isStatic = true ∧ b.isStatic = false ∨ a.isStatic = b.isStatic ∧ a.name ≤ b.name := by
  have names : compare a.name b.name ≠ .gt ↔ a.name ≤ b.name := compare_le_iff_le
  rw [bne_iff_ne, displayOrder]
  cases a.isStatic <;> cases b.isStatic <;> simp [compare] at names ⊢ <;> exact names

def inDisplayOrder (fields : List Field) : List Field :=
  fields.mergeSort fun a b => a.displayOrder b != .gt

theorem pairwise_inDisplayOrder (fields : List Field) :
    (inDisplayOrder fields).Pairwise fun a b => (a.displayOrder b != .gt) = true := by
  refine List.pairwise_mergeSort (fun a b c => ?_) (fun a b => ?_) fields
  · rw [Field.displayOrder_bne_gt, Field.displayOrder_bne_gt, Field.displayOrder_bne_gt]
    rintro (⟨first, second⟩ | ⟨same, below⟩) (⟨first', second'⟩ | ⟨same', below'⟩)
    · exact .inl ⟨first, second'⟩
    · exact .inl ⟨first, same' ▸ second⟩
    · exact .inl ⟨same.trans first', second'⟩
    · exact .inr ⟨same.trans same', le_trans below below'⟩
  · rw [Bool.or_eq_true, Field.displayOrder_bne_gt, Field.displayOrder_bne_gt]
    have total := le_total a.name b.name
    cases a.isStatic <;> cases b.isStatic <;> simp [total]

variable {fields : List Field} (ascending : fields.Pairwise fun a b => a.name < b.name)

include ascending

theorem nodup_names : (fields.map Field.name).Nodup :=
  List.pairwise_map.2 (ascending.imp fun below => ne_of_lt below)

/-- Fields with names of their own have one order to be shown in, whatever order they come in: those
that are static first, and both kinds by name. -/
theorem inDisplayOrder_of_perm {given : List Field} (perm : given.Perm fields) :
    inDisplayOrder given = fields.filter Field.isStatic ++ fields.filter fun f => !f.isStatic := by
  have grouped := List.filter_append_perm Field.isStatic fields
  have rearranged : (inDisplayOrder given).Perm fields := (List.mergeSort_perm _ _).trans perm
  refine List.Perm.eq_of_pairwise (fun a b inside inside' before after => ?_)
    (pairwise_inDisplayOrder given) ?_ (rearranged.trans grouped.symm)
  · -- Fields that come before each other have one name, so they are the same.
    have same : a.name = b.name := by
      rw [Field.displayOrder_bne_gt] at before after
      grind
    exact List.inj_on_of_nodup_map (nodup_names ascending) (rearranged.mem_iff.1 inside)
      (grouped.mem_iff.1 inside') same
  · have group (kept : Field → Bool) {s : Bool} (all : ∀ f, kept f = true → f.isStatic = s) :
        (fields.filter kept).Pairwise fun a b => (a.displayOrder b != .gt) = true := by
      refine (ascending.filter kept).imp_of_mem fun {a b} inside inside' below => ?_
      have alike := (all a (List.mem_filter.1 inside).2).trans (all b (List.mem_filter.1 inside').2).symm
      exact Field.displayOrder_bne_gt.2 (.inr ⟨alike, le_of_lt below⟩)
    refine List.pairwise_append.2 ⟨group _ fun _ isStatic => isStatic, group _ (s := false) (by simp),
      fun a inside b inside' => Field.displayOrder_bne_gt.2 (.inl ?_)⟩
    simpa using And.intro (List.mem_filter.1 inside).2 (List.mem_filter.1 inside').2

end order

section listing

/-- What a type lists over the fields its super type hands on. -/
def publicFieldListing (own inherited : List Field) : List Field :=
  (Keyed.insertAll Field.name (own.filter (·.modifiers.isPublic))
    (Keyed.insertAll Field.name inherited [])).map (·.2)

variable (own inherited : List Field)

theorem indexed_publicFieldListing : Keyed.Indexed Field.name
    (Keyed.insertAll Field.name (own.filter (·.modifiers.isPublic))
      (Keyed.insertAll Field.name inherited [])) :=
  (Keyed.Indexed.insertAll ⟨.nil, nofun⟩ inherited).insertAll _

theorem pairwise_publicFieldListing :
    (publicFieldListing own inherited).Pairwise fun a b => a.name < b.name := by
  have indexed := indexed_publicFieldListing own inherited
  refine List.pairwise_map.2 (indexed.ascending.imp_of_mem fun {a b} inside inside' below => ?_)
  rwa [← indexed.keys a inside, ← indexed.keys b inside']

variable {inherited}

/-- Under each name stands the last own public field, or else what was handed on. -/
theorem find?_publicFieldListing (apart : (inherited.map Field.name).Nodup) (name : String) :
    (publicFieldListing own inherited).find? (fun f => f.name == name) =
      (own.findRev? fun f => f.modifiers.isPublic && f.name == name).or
        (inherited.find? fun f => f.name == name) := by
  have only : inherited.findRev? (fun f => f.name == name) =
      inherited.find? fun f => f.name == name := by
    rw [List.findRev?_eq_find?_reverse]
    exact (Keyed.find?_eq_of_perm (List.reverse_perm inherited).symm apart name).symm
  rw [publicFieldListing, (indexed_publicFieldListing own inherited).find?_eq, Keyed.lookup_insertAll,
    Keyed.lookup_insertAll, Keyed.findRev?_filter, only, List.lookup_nil, Option.or_none]

end listing

section reanchored

theorem Field.ofDecl_reanchored {scope : Scope} {decl : FieldDecl} {f : Field}
    (made : ofDecl u scope decl = .ok f) (anchored : Bool) :
    ∃ f', ofDecl u { scope with anchored } decl = .ok f' ∧ f.unanchored = f'.unanchored := by
  obtain ⟨type, resolved, same⟩ := bind_eq_ok.1 made
  cases same
  exact ⟨_, bind_eq_ok.2 ⟨type, resolved, rfl⟩, rfl⟩

/-- The fields that are declared do not depend on the way that led to the type. -/
theorem Declarer.declaredFields_reanchored {anchored : Bool} {d : Declarer} {own : List Field}
    (declared : d.declaredFields u anchored = .ok own) (other : Bool) :
    ∃ seen, d.declaredFields u other = .ok seen ∧
      own.map Field.unanchored = seen.map Field.unanchored := by
  obtain ⟨scope, found, listed⟩ := bind_eq_ok.1 declared
  have each : ∃ seen, listEach (fun _ decl => Field.ofDecl u { scope with anchored := other } decl) 0
      (scope.classDecl u).fields = .ok seen ∧
        List.Forall₂ (fun f f' : Field => f.unanchored = f'.unanchored) own seen :=
    listEach_related listed fun _ _ _ _ made => Field.ofDecl_reanchored made other
  obtain ⟨seen, listed', related⟩ := each
  refine ⟨seen, bind_eq_ok.2 ⟨_, Scope.of_reanchored found other, listed'⟩, ?_⟩
  rwa [← List.forall₂_eq_eq_eq, List.forall₂_map_left_iff, List.forall₂_map_right_iff]

theorem lastPublic_reanchored {own seen : List Field}
    (same : own.map Field.unanchored = seen.map Field.unanchored) (name : String) :
    (own.findRev? fun f => f.modifiers.isPublic && f.name == name).map Field.unanchored =
      (seen.findRev? fun f => f.modifiers.isPublic && f.name == name).map Field.unanchored :=
  Keyed.map_findRev?_congr (f := Field.unanchored) (fun _ => rfl) same

end reanchored

/-- A listing of public fields goes by the types on the way up and by the fields these declare. -/
structure Ty.Gathers (u : Universe) (t : Ty) (met : List Ty) (owns : List (List Field))
    (fields : List Field) : Prop where
  climbs : t.Climbs u met none
  declared : List.Forall₂ (fun s own => s.declaredFields u = .ok own) (t :: met) owns
  ascending : fields.Pairwise fun a b => a.name < b.name
  nearest : ∀ name, (fields.find? fun f => f.name == name).map Field.unanchored =
    (nearestPublic owns name).map Field.unanchored

namespace Ty.Gathers

/-- What is no class has no super type and no fields. -/
theorem classless {t : Ty} (none : t.declarer? = none) : t.Gathers u [] [[]] [] where
  climbs := .top (by rw [superType, none])
  declared := .cons (by rw [declaredFields, none]) .nil
  ascending := .nil
  nearest _ := rfl

section step

variable {t : Ty} {d : Declarer} (answers : t.declarer? = some d) {anchored : Bool}
  {own : List Field} (declared : d.declaredFields u anchored = .ok own)

include answers declared

theorem top (found : d.superType u = .ok none) :
    ∃ seen, t.Gathers u [] [seen] (publicFieldListing own []) := by
  obtain ⟨seen, declared', same⟩ := Declarer.declaredFields_reanchored declared d.anchors
  refine ⟨seen, .top (by rw [superType, answers]; exact found), .cons ?_ .nil,
    pairwise_publicFieldListing own _, fun name => ?_⟩
  · rw [declaredFields, answers]
    exact declared'
  · rw [find?_publicFieldListing own (by simp), List.find?_nil, Option.or_none,
      lastPublic_reanchored same, nearestPublic, List.findSome?_singleton]

theorem up {s : Ty} (found : d.superType u = .ok (some s)) {met : List Ty} {owns : List (List Field)}
    {inherited : List Field} (above : s.Gathers u met owns inherited) :
    ∃ seen, t.Gathers u (s :: met) (seen :: owns) (publicFieldListing own inherited) := by
  obtain ⟨seen, declared', same⟩ := Declarer.declaredFields_reanchored declared d.anchors
  refine ⟨seen, .up (by rw [superType, answers]; exact found) above.climbs, .cons ?_ above.declared,
    pairwise_publicFieldListing own _, fun name => ?_⟩
  · rw [declaredFields, answers]
    exact declared'
  · rw [find?_publicFieldListing own (nodup_names above.ascending), Option.map_or,
      lastPublic_reanchored same, above.nearest, ← Option.map_or, nearestPublic, nearestPublic,
      List.findSome?_cons]
    cases seen.findRev? fun f => f.modifiers.isPublic && f.name == name <;> rfl

end step

/-- A listing that reaches the end of the way up is gathered from all types on it. -/
theorem of_publicFieldsWithin {limit : Nat} {anchored : Bool} {t : Ty} {fields : List Field}
    (ends : t.methodDeclarer.EndsWithin u limit)
    (listed : publicFieldsWithin u limit anchored t = .ok fields) :
    ∃ met owns, t.Gathers u met owns fields := by
  induction limit generalizing anchored t fields with
  | zero => exact ends.elim
  | succ limit ih =>
    cases answers : t.declarer? with
    | none =>
      rw [publicFieldsWithin, answers] at listed
      cases listed
      exact ⟨_, _, classless answers⟩
    | some d =>
      have same : t.methodDeclarer = d := by rw [Ty.methodDeclarer, answers, Option.getD_some]
      rw [publicFieldsWithin_of_declarer answers] at listed
      obtain ⟨super, inherited, own, found, handedOn, declared, rfl⟩ :=
        publicFieldsWithin_eq_ok.1 listed
      cases super with
      | none =>
        cases handedOn
        obtain ⟨seen, gathers⟩ := top answers declared found
        exact ⟨_, _, gathers⟩
      | some s =>
        have above := Declarer.above_of_superType found (Option.mem_toList.2 rfl)
        obtain ⟨met, owns, further⟩ := ih (ends _ (same ▸ above)) handedOn
        obtain ⟨seen, gathers⟩ := up answers declared found further
        exact ⟨_, _, gathers⟩

variable {t : Ty} {met : List Ty} {owns : List (List Field)} {fields : List Field}

theorem mem_names_iff (gathers : t.Gathers u met owns fields) (name : String) :
    name ∈ fields.map Field.name ↔
      ∃ own ∈ owns, ∃ f ∈ own, f.modifiers.isPublic = true ∧ f.name = name := by
  have listed : name ∈ fields.map Field.name ↔
      (fields.find? fun f => f.name == name).isSome = true := by
    simp [List.find?_isSome]
  have last (own : List Field) :
      (own.findRev? fun f => f.modifiers.isPublic && f.name == name).isSome = true ↔
        ∃ f ∈ own, f.modifiers.isPublic = true ∧ f.name = name := by
    rw [List.findRev?_eq_find?_reverse, List.find?_isSome]
    simp
  rw [listed, ← Option.isSome_map (f := Field.unanchored), gathers.nearest, Option.isSome_map,
    nearestPublic, List.findSome?_isSome_iff]
  simp only [last]

end Ty.Gathers

/-- What is true of the public fields a type lists. -/
structure Ty.PublicFields (u : Universe) (t : Ty) (fields : List Field) : Prop where
  ascending : fields.Pairwise fun a b => a.name < b.name
  /-- Going up from the type, the names are those of the public fields that are declared, and under
  each name stands the nearest of these. -/
  nearest : ∃ met owns, t.Climbs u met none ∧
    List.Forall₂ (fun s own => s.declaredFields u = .ok own) (t :: met) owns ∧
    (∀ name, name ∈ fields.map Field.name ↔
      ∃ own ∈ owns, ∃ f ∈ own, f.modifiers.isPublic = true ∧ f.name = name) ∧
    ∀ name, (fields.find? fun f => f.name == name).map Field.unanchored =
      (nearestPublic owns name).map Field.unanchored
  looked : ∀ name, t.publicField? u name = .ok (fields.find? fun f => f.name == name)
  shown : ∀ given, given.Perm fields →
    inDisplayOrder given = fields.filter Field.isStatic ++ fields.filter fun f => !f.isStatic

/-- Where all ways up from a type end, its public fields are the nearest ones on the way up by super
types, one for each name and in order, and they are shown in one order. -/
theorem Declarer.Ends.publicFields {d : Declarer} (ends : d.Ends u) {fields : List Field}
    (listed : d.toTy.publicFields u = .ok fields) : d.toTy.PublicFields u fields := by
  have within := ends.endsWithin
  rw [← methodDeclarer_toTy d] at within
  obtain ⟨met, owns, gathers⟩ := Ty.Gathers.of_publicFieldsWithin within (by rwa [methodDeclarer_toTy])
  constructor
  case ascending => exact gathers.ascending
  case nearest =>
    exact ⟨met, owns, gathers.climbs, gathers.declared, gathers.mem_names_iff, gathers.nearest⟩
  case looked =>
    intro name
    rw [Ty.publicField?, listed]
    rfl
  case shown => exact fun given => inDisplayOrder_of_perm gathers.ascending

namespace Shadows

/-- `class p.Top` declares `public Object x` and `public static Object size`, and
`class p.Low extends p.Top` declares `private Object x`, `public Object size` and
`public static Object zero`. -/
def top : ClassId := ⟨10⟩
def low : ClassId := ⟨11⟩

def field (name : String) (m : Modifiers) : ClassEdit :=
  .field { name, modifiers := m, type := .ofClass Universe.object }

def classes : Universe :=
  let u := (Universe.initial.defineClass "p.Top" [field "x" Modifiers.Flag.isPublic.set,
    field "size" (.ofFlags [.isPublic, .isStatic])]).2
  (u.defineClass "p.Low" [.superclass (.ofClass top), field "x" Modifiers.Flag.isPrivate.set,
    field "size" Modifiers.Flag.isPublic.set, field "zero" (.ofFlags [.isPublic, .isStatic])]).2

/-- The private field hides nothing, the public one hides the static one, and the one that is static
is shown first. -/
theorem publicFields_low : (Declarer.ofClass low).Ends classes ∧
    ∃ fields, (Declarer.ofClass low).toTy.publicFields classes = .ok fields ∧
      fields.map (fun f => (f.name, f.scope.classId, f.isStatic)) =
        [("size", low, false), ("x", top, false), ("zero", low, true)] ∧
      (inDisplayOrder fields).map Field.name = ["zero", "size", "x"] ∧
      (Declarer.ofClass low).toTy.PublicFields classes fields := by
  have acyclic : classes.Acyclic := Universe.acyclic_of_earlier (by decide)
  have ends : (Declarer.ofClass low).Ends classes := acyclic.ends (by decide) _
  have names : ((Declarer.ofClass low).toTy.publicFields classes).toOption.map
      (List.map fun f => (f.name, f.scope.classId, f.isStatic)) =
        some [("size", low, false), ("x", top, false), ("zero", low, true)] := by
    decide +kernel
  obtain ⟨fields, listed, names⟩ := Option.map_eq_some_iff.1 names
  have listed := toOption_eq_some.1 listed
  have «public» := ends.publicFields listed
  refine ⟨ends, fields, listed, names, ?_, «public»⟩
  have group (kept : Bool → Bool) : (fields.filter fun f => kept f.isStatic).map Field.name =
      ((fields.map fun f => (f.name, f.scope.classId, f.isStatic)).filter
        fun f => kept f.2.2).map Prod.fst := by
    rw [List.filter_map, List.map_map]
    rfl
  rw [«public».shown fields (.refl fields), List.map_append]
  refine (congrArg₂ (· ++ ·) (group id) (group not)).trans ?_
  rw [names]
  rfl

end Shadows

end JavaTypes
