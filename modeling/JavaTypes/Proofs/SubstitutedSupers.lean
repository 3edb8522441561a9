import JavaTypes.Proofs.Inheritance

/-!
Super types under substitution. A clause that mentions only variables of its class is seen through
what those variables show, so substituting in a type and then going up is going up and then
substituting. That takes clauses without generic classes written raw: such a class is filled in by
the bindings of the type it is seen through, and again by the substitution.
-/
namespace JavaTypes

mutual

def DeclType.rawClasses : DeclType → List ClassId
  | .ofClass c => [c]
  | .applied _ args => rawClassesOfAll args
  | .variable _ => []
  | .wildcard upper lower => rawClassesOfAll upper ++ rawClassesOfAll lower
  | .array element => element.rawClasses
  | .other _ => []

def rawClassesOfAll : List DeclType → List ClassId
  | [] => []
  | t :: rest => t.rawClasses ++ rawClassesOfAll rest

end

theorem rawClassesOfAll_eq_flatMap (types : List DeclType) :
    rawClassesOfAll types = types.flatMap DeclType.rawClasses := by
  induction types with
  | nil => rfl
  | cons t rest ih => simp [rawClassesOfAll, ih]

variable {u : Universe}

/-- A declared type with variables of one class only, in which no generic class is written raw. -/
structure DeclType.OwnedBy (u : Universe) (c : ClassId) (t : DeclType) : Prop where
  vars : ∀ v ∈ t.vars, v ∈ (u.classVariables c).map TyVar.ref
  raw : ∀ d ∈ t.rawClasses, u.typeParams (.ofClass d) = []

instance (u : Universe) (c : ClassId) (t : DeclType) : Decidable (t.OwnedBy u c) :=
  decidable_of_iff ((∀ v ∈ t.vars, v ∈ (u.classVariables c).map TyVar.ref) ∧
      ∀ d ∈ t.rawClasses, u.typeParams (.ofClass d) = [])
    ⟨fun ⟨vars, raw⟩ => ⟨vars, raw⟩, fun ⟨vars, raw⟩ => ⟨vars, raw⟩⟩

/-- A class whose super type clauses mention its own variables only and no raw generic class. -/
def Universe.OwnsClauses (u : Universe) (c : ClassId) : Prop :=
  ∀ clause ∈ (u.decl c).clauses, clause.OwnedBy u c

instance (u : Universe) (c : ClassId) : Decidable (u.OwnsClauses c) :=
  inferInstanceAs (Decidable (∀ clause ∈ _, DeclType.OwnedBy u c clause))

/-- A class or applied type that has a binding for each variable of its class, in their order. -/
structure Declarer.Complete (u : Universe) (d : Declarer) : Prop where
  order : (d.typeVariables u).map TyVar.ref = (u.classVariables d.classId).map TyVar.ref
  declared : d.toTy.Declared u

namespace DeclType

theorem rawClasses_of_resolve {t : DeclType} {r : Ty} (resolved : t.resolve u = .ok r) :
    ∀ c ∈ r.rawClasses, c ∈ t.rawClasses := by
  refine resolve_induction ?ofClass ?applied ?free ?wildcard ?array t r resolved
  case ofClass => simp [Ty.rawClasses, rawClasses]
  case free => simp [Ty.rawClasses]
  case array => exact fun _ _ _ inner => by simpa [Ty.rawClasses, rawClasses] using inner
  case wildcard =>
    intro upper lower uppers lowers eachUpper eachLower c occurs
    simp only [Ty.rawClasses, Ty.gather_wildcard, List.mem_append, List.mem_flatMap] at occurs
    simp only [rawClasses, rawClassesOfAll_eq_flatMap, List.mem_append, List.mem_flatMap]
    rcases occurs with ⟨r, member, occurs⟩ | ⟨r, member, occurs⟩
    · obtain ⟨t, inside, _, inner⟩ := exists_left_of_mem eachUpper member
      exact .inl ⟨t, List.mem_of_mem_filter inside, inner c occurs⟩
    · obtain ⟨t, inside, _, inner⟩ := exists_left_of_mem eachLower member
      exact .inr ⟨t, List.mem_of_mem_filter inside, inner c occurs⟩
  case applied =>
    intro c args types each d occurs
    simp only [Ty.rawClasses, Ty.apply, Ty.gather_applied, List.mem_flatMap] at occurs
    simp only [rawClasses, rawClassesOfAll_eq_flatMap, List.mem_flatMap]
    obtain ⟨b, member, occurs⟩ := occurs
    obtain ⟨w, -, -, a, arg, rfl⟩ := mem_bindings_apply member
    have shown : d ∈ a.rawClasses := by
      rwa [TyVar.gather_bindTo (fun _ => rfl) fun _ _ _ => rfl] at occurs
    obtain ⟨t, inside, _, inner⟩ := exists_left_of_mem each arg
    exact ⟨t, inside, inner d shown⟩

theorem OwnedBy.var {c : ClassId} {t : DeclType} (own : t.OwnedBy u c) {v : VarRef}
    (written : v ∈ t.vars) : v ∈ u.declaredVars ∧ v.owner = .ofClass c := by
  obtain ⟨b, member, rfl⟩ := List.mem_map.1 (own.vars v written)
  obtain ⟨w, bound, owner, rfl⟩ := mem_variablesOf.1 member
  exact ⟨bound, owner⟩

end DeclType

theorem subst_ofClass_of_plain {c : ClassId} (plain : u.typeParams (.ofClass c) = [])
    (raw : RawClasses) (bindings : List TyVar) :
    (Ty.ofClass c).subst u raw bindings = .ofClass c := by
  refine subst_ofClass_of_free fun v own => ?_
  simp [Universe.classVariables, Universe.variablesOf, plain] at own

theorem Ty.Declared.ref {b : TyVar} (declared : (Ty.variable b).Declared u) :
    b.ref ∈ u.declaredVars := by
  refine declared _ ?_
  cases b <;> simp [Ty.mentioned, TyVar.ref]

theorem Ty.Declared.shown {b : TyVar} (declared : (Ty.variable b).Declared u) :
    b.shown.Declared u := by
  intro w occurs
  refine declared w ?_
  cases b with
  | free v => exact occurs
  | bound v t => simpa [Ty.mentioned] using .inr occurs

theorem valueOrSelf_cons_of_ne {b : TyVar} {v : VarRef} (other : b.key u ≠ u.varKey v)
    (rest : List TyVar) : valueOrSelf u (b :: rest) v = valueOrSelf u rest v := by
  rw [valueOrSelf, valueFor?_cons, if_neg other]
  rfl

theorem valueOrSelf_cons_ref (b : TyVar) (rest : List TyVar) :
    valueOrSelf u (b :: rest) b.ref = b.shown := by
  have lookup : valueFor? u (b :: rest) b.ref = b.value? := by
    rw [valueFor?_cons]
    exact if_pos rfl
  cases b with
  | free v => exact valueOrSelf_of_none lookup
  | bound v t => exact valueOrSelf_of_some lookup

section rebound

variable {raw : RawClasses} {bindings : List TyVar} (ids : Set.InjOn u.varKey u.declaredVars)
  (values : ∀ s ∈ valuesOf bindings, s.Declared u)

include ids values

/-- A substituted binding shows what was shown, substituted, also where it is dropped. -/
theorem shown_rebind {b : TyVar} (declared : (Ty.variable b).Declared u) :
    (b.rebind u raw bindings).shown = b.shown.subst u raw bindings := by
  simp only [TyVar.rebind_eq]
  rcases TyVar.bindTo_cases (u := u) (.free b.ref) (b.shown.subst u raw bindings) with
    ⟨r, result, key, dropped⟩ | kept
  · have same := eq_of_subst_eq_free ids declared.ref declared.shown values result key
    rw [dropped, result, same]
    rfl
  · rw [kept]
    rfl

/-- Where a list has a binding for a variable, substituting in the bindings is substituting in what
the variable shows. -/
theorem valueOrSelf_map_rebind {first : List TyVar} {v : VarRef} (listed : v ∈ first.map TyVar.ref)
    (declared : ∀ b ∈ first, (Ty.variable b).Declared u) :
    valueOrSelf u (first.map (TyVar.rebind u raw bindings)) v =
      (valueOrSelf u first v).subst u raw bindings := by
  induction first with
  | nil => cases listed
  | cons b rest ih =>
    obtain ⟨within, others⟩ := List.forall_mem_cons.1 declared
    have ref : (b.rebind u raw bindings).ref = b.ref := by
      rw [TyVar.rebind_eq]
      exact TyVar.ref_bindTo ..
    rw [List.map_cons]
    by_cases same : v = b.ref
    · rw [same, valueOrSelf_cons_ref, ← ref, valueOrSelf_cons_ref]
      exact shown_rebind ids values within
    · have listed := (List.mem_cons.1 listed).resolve_left same
      obtain ⟨b', member, rfl⟩ := List.mem_map.1 listed
      have other : b.key u ≠ u.varKey b'.ref := fun key =>
        same (ids within.ref (others b' member).ref key).symm
      have other' : (b.rebind u raw bindings).key u ≠ u.varKey b'.ref := by rwa [TyVar.key, ref]
      rw [valueOrSelf_cons_of_ne other, valueOrSelf_cons_of_ne other']
      exact ih listed others

namespace Declarer

/-- What the variables of a class show in a substituted type is what they showed, substituted. -/
theorem valueOrSelf_substitute {d e : Declarer} (complete : d.Complete u)
    (result : d.toTy.subst u .filled bindings = e.toTy) {v : VarRef}
    (bound : v ∈ u.declaredVars) (own : v.owner = .ofClass d.classId) :
    valueOrSelf u (e.typeVariables u) v =
      (valueOrSelf u (d.typeVariables u) v).subst u .filled bindings := by
  have member : .free v ∈ u.classVariables d.classId := mem_variablesOf.2 ⟨v, bound, own, rfl⟩
  have listed : v ∈ (d.typeVariables u).map TyVar.ref :=
    complete.order ▸ List.mem_map_of_mem (f := TyVar.ref) member
  have declared : ∀ b ∈ d.typeVariables u, (Ty.variable b).Declared u := by
    intro b inside w occurs
    cases d with
    | applied c vars =>
      refine complete.declared w ?_
      simp only [toTy, Ty.mentioned, Ty.gather_applied, List.mem_flatMap]
      exact ⟨b, inside, occurs⟩
    | ofClass c =>
      obtain ⟨v, bound, -, rfl⟩ := mem_variablesOf.1 inside
      simp only [Ty.mentioned, Ty.gather_variable, TyVar.gather_free, List.mem_singleton] at occurs
      exact occurs ▸ bound
  have rebound : valueOrSelf u ((d.typeVariables u).map (TyVar.rebind u .filled bindings)) v = _ :=
    valueOrSelf_map_rebind ids values listed declared
  cases d with
  | applied c vars =>
    rw [toTy, Ty.subst_applied] at result
    cases toTy_injective (d := .applied c _) result
    exact rebound
  | ofClass c =>
    rcases subst_ofClass_filled (u := u) bindings c with eq | ⟨eq, unbound⟩
    · rw [toTy, eq] at result
      cases toTy_injective (d := .applied c _) result
      refine (congrArg (valueOrSelf u · v) (List.map_congr_left fun b inside => ?_)).trans rebound
      obtain ⟨w, -, -, rfl⟩ := mem_variablesOf.1 inside
      rfl
    · rw [toTy, eq] at result
      cases toTy_injective (d := .ofClass c) result
      rw [typeVariables_ofClass, valueOrSelf_variablesOf, Ty.subst_free]
      obtain ⟨r, value, key⟩ := unbound _ member
      have value : (Ty.variable (.free v)).subst u .filled bindings = .variable (.free r) := value
      have same : r = v := eq_of_subst_eq_free ids bound (declared _ member) values value key
      rw [← Ty.subst_free .filled, value, same]

end Declarer

end rebound

/-- Where the variables of a class show what they show elsewhere, substituted, a clause is seen as it
is seen there, substituted. -/
theorem Declarer.sees_of_values (ids : Set.InjOn u.varKey u.declaredVars) {d e : Declarer}
    {bindings : List TyVar}
    (values : ∀ v ∈ u.declaredVars, v.owner = .ofClass d.classId →
      valueOrSelf u (e.typeVariables u) v =
        (valueOrSelf u (d.typeVariables u) v).substitute u bindings)
    {clause : DeclType} (own : clause.OwnedBy u d.classId) {t : Ty}
    (resolved : clause.resolve u = .ok t) : e.sees u t = (d.sees u t).substitute u bindings := by
  rw [sees_eq_substitute d resolved, sees_eq_substitute e resolved]
  symm
  apply (DeclType.settled_of_resolve resolved).subst_subst
  · intro v occurs
    have written := DeclType.freeVars_of_resolve ids resolved fun w member => (own.var member).1
    obtain ⟨bound, owner⟩ := own.var (written v occurs)
    exact (values v bound owner).symm
  · intro c occurs
    have plain := own.raw c (DeclType.rawClasses_of_resolve resolved c occurs)
    simp only [subst_ofClass_of_plain plain]

theorem clause_of_classSuperType {c : ClassId} {t : Ty} (found : u.classSuperType c = .ok (some t)) :
    ∃ clause, (u.decl c).superClass = some clause ∧ clause.resolve u = .ok t := by
  unfold Universe.classSuperType at found
  split at found
  · next clause written =>
    obtain ⟨r, resolved, same⟩ := bind_eq_ok.1 found
    cases same
    exact ⟨clause, written, resolved⟩
  · cases found

namespace Declarer

theorem sees_ofClass (c : ClassId) : sees u (ofClass c) = id := rfl

theorem superType_eq_map (d : Declarer) :
    d.superType u = (u.classSuperType d.classId).map (Option.map (d.sees u)) := by
  cases d with
  | ofClass c =>
    rw [sees_ofClass, Option.map_id, Except.map_id]
    rfl
  | applied c vars => rfl

theorem interfaces_eq_map (d : Declarer) :
    d.interfaces u = (u.classInterfaces d.classId).map (List.map (d.sees u)) := by
  cases d with
  | ofClass c =>
    rw [sees_ofClass, List.map_id_fun, Except.map_id]
    rfl
  | applied c vars => rfl

theorem superType_toTy (d : Declarer) : d.toTy.superType u = d.superType u := by
  cases d <;> rfl

theorem interfaces_toTy (d : Declarer) : d.toTy.interfaces u = d.interfaces u := by
  cases d <;> rfl

/-- Going up to the super types and substituting commute, whether or not the clauses can be
resolved. -/
theorem supers_substitute (ids : Set.InjOn u.varKey u.declaredVars) {d : Declarer}
    (complete : d.Complete u) (own : u.OwnsClauses d.classId) {bindings : List TyVar}
    (values : ∀ s ∈ valuesOf bindings, s.Declared u) :
    (d.toTy.substitute u bindings).superType u =
        (d.toTy.superType u).map (Option.map fun t => t.substitute u bindings) ∧
      (d.toTy.substitute u bindings).interfaces u =
        (d.toTy.interfaces u).map (List.map fun t => t.substitute u bindings) := by
  obtain ⟨e, result, same⟩ := exists_toTy_subst (u := u) d .filled bindings
  have seen {clause : DeclType} (member : clause ∈ (u.decl d.classId).clauses) {t : Ty}
      (resolved : clause.resolve u = .ok t) : e.sees u t = (d.sees u t).substitute u bindings :=
    sees_of_values ids (fun _ bound owner => valueOrSelf_substitute ids values complete result bound
      owner) (own clause member) resolved
  rw [Ty.substitute, result, superType_toTy, superType_toTy, interfaces_toTy, interfaces_toTy,
    superType_eq_map, superType_eq_map, interfaces_eq_map, interfaces_eq_map, same]
  constructor
  · cases found : u.classSuperType d.classId with
    | error => rfl
    | ok super =>
      cases super with
      | none => rfl
      | some t =>
        obtain ⟨clause, declared, resolved⟩ := clause_of_classSuperType found
        have member : clause ∈ (u.decl d.classId).clauses := by simp [ClassDecl.clauses, declared]
        exact congrArg (fun t => Except.ok (some t)) (seen member resolved)
  · cases found : u.classInterfaces d.classId with
    | error => rfl
    | ok types =>
      simp only [Except.map, List.map_map, Except.ok.injEq]
      refine List.map_congr_left fun t member => ?_
      obtain ⟨clause, declared, resolved⟩ := exists_left_of_mem (resolveAll_eq_ok.1 found) member
      exact seen (List.mem_append_right _ declared) resolved

end Declarer

namespace Rows

open Modifiers (Flag)

def rowId : ClassId := ⟨12⟩

/-- `Row<T> extends Pair<T, Row<T>[]> implements Cloneable` -/
def classes : Universe :=
  let u := (Universe.initial.defineClass "Pair" [.typeParam "A" [], .typeParam "B" []]).2
  let u := (u.defineClass "Cloneable" [.kind .interface]).2
  (u.defineClass "Row" [.typeParam "T" [],
    .superclass (.applied ⟨10⟩ [.variable ⟨.ofClass rowId, 0⟩,
      .array (.applied rowId [.variable ⟨.ofClass rowId, 0⟩])]),
    .interface (.ofClass ⟨11⟩)]).2

def a : VarRef := ⟨.ofClass ⟨10⟩, 0⟩
def b : VarRef := ⟨.ofClass ⟨10⟩, 1⟩
def t : VarRef := ⟨.ofClass rowId, 0⟩

def bindings : List TyVar := [.bound t (.ofClass Universe.object)]

/-- `Row` becomes `Row<Object>`, above which is what `Pair<T, Row<T>[]>` becomes. -/
theorem superType_row :
    Set.InjOn classes.varKey classes.declaredVars ∧ classes.OwnsClauses rowId ∧
      (Declarer.ofClass rowId).Complete classes ∧
      ((Ty.ofClass rowId).substitute classes bindings).superType classes = .ok (some (.applied ⟨10⟩
        [.bound a (.ofClass Universe.object),
          .bound b (.array (.applied rowId [.bound t (.ofClass Universe.object)]))])) := by
  have ids : Set.InjOn classes.varKey classes.declaredVars := injOn_varKey (by decide)
  have own : classes.OwnsClauses rowId := by decide
  have complete : (Declarer.ofClass rowId).Complete classes :=
    ⟨rfl, by simp [Ty.Declared, Ty.mentioned, Declarer.toTy]⟩
  have values : ∀ s ∈ valuesOf bindings, s.Declared classes := by
    simp [bindings, valuesOf, Ty.Declared, Ty.mentioned]
  refine ⟨ids, own, complete, ?_⟩
  exact (Declarer.supers_substitute ids complete own values).1.trans rfl

end Rows

end JavaTypes
