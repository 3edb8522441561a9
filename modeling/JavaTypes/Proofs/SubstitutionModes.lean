import JavaTypes.Proofs.FixedPoints
import JavaTypes.Proofs.SelfApplication

/-!
The two modes of substitution. They treat everything alike but classes without arguments, of which
one mode applies those that declare a variable with a value. Writing these classes with their own
variables as arguments first makes the other mode do the same, at any depth; where a type has no such
class the modes agree.
-/
namespace JavaTypes

/-- A variable as binding makes it: free, or with a value other than its own free self. -/
def TyVar.Proper (u : Universe) (b : TyVar) : Prop :=
  ∀ r, b.value? = some (.variable (.free r)) → u.varKey r ≠ b.key u

/-- Bindings give a value to a variable of a class: the first one for it has a value. -/
def Universe.BoundIn (u : Universe) (bindings : List TyVar) (c : ClassId) : Prop :=
  ∃ v ∈ u.classVariables c, (valueFor? u bindings v.ref).isSome

instance (u : Universe) (bindings : List TyVar) (c : ClassId) : Decidable (u.BoundIn bindings c) :=
  inferInstanceAs (Decidable (∃ v ∈ u.classVariables c, (valueFor? u bindings v.ref).isSome))

section application

variable (u : Universe) (bindings : List TyVar)

mutual

/-- A type in which each class without arguments that has a variable with a value is applied to its
own variables. -/
def Ty.applyRaw : Ty → Ty
  | .ofClass c => if u.BoundIn bindings c then .selfApplied u c else .ofClass c
  | .applied c vars => .applied c (applyRawVars vars)
  | .variable (.free v) => .variable (.free v)
  | .variable (.bound v t) => .variable (.bound v t.applyRaw)
  | .wildcard upper lower => .wildcard (applyRawAll upper) (applyRawAll lower)
  | .array element => .array element.applyRaw

def applyRawAll : List Ty → List Ty
  | [] => []
  | t :: rest => t.applyRaw :: applyRawAll rest

def applyRawVars : List TyVar → List TyVar
  | [] => []
  | .free v :: rest => .free v :: applyRawVars rest
  | .bound v t :: rest => .bound v t.applyRaw :: applyRawVars rest

end

def TyVar.applyRaw : TyVar → TyVar
  | .free v => .free v
  | .bound v t => .bound v (t.applyRaw u bindings)

end application

variable {u : Universe} {bindings : List TyVar}

theorem TyVar.proper_bindTo (v : TyVar) (t : Ty) : (v.bindTo u t).Proper u := by
  intro r value
  rcases TyVar.bindTo_cases (u := u) v t with ⟨_, _, _, dropped⟩ | kept
  · rw [dropped] at value
    cases value
  · intro key
    rw [kept] at value
    cases value
    rw [TyVar.bindTo_own (key.trans (TyVar.key_bindTo v _))] at kept
    cases kept

section equations

theorem applyRawAll_eq_map (types : List Ty) :
    applyRawAll u bindings types = types.map (Ty.applyRaw u bindings) := by
  induction types with
  | nil => rfl
  | cons t rest ih => simp [applyRawAll, ih]

theorem applyRawVars_eq_map (vars : List TyVar) :
    applyRawVars u bindings vars = vars.map (TyVar.applyRaw u bindings) := by
  induction vars with
  | nil => rfl
  | cons b rest ih => cases b <;> simp [applyRawVars, TyVar.applyRaw, ih]

@[simp] theorem Ty.applyRaw_applied (c : ClassId) (vars : List TyVar) :
    (Ty.applied c vars).applyRaw u bindings =
      .applied c (vars.map (TyVar.applyRaw u bindings)) := by
  rw [Ty.applyRaw, applyRawVars_eq_map]

@[simp] theorem Ty.applyRaw_wildcard (upper lower : List Ty) :
    (Ty.wildcard upper lower).applyRaw u bindings =
      .wildcard (upper.map (Ty.applyRaw u bindings)) (lower.map (Ty.applyRaw u bindings)) := by
  rw [Ty.applyRaw, applyRawAll_eq_map, applyRawAll_eq_map]

end equations

theorem subst_ofClass_of_not_boundIn {c : ClassId} (unbound : ¬ u.BoundIn bindings c)
    (raw : RawClasses) : (Ty.ofClass c).subst u raw bindings = .ofClass c := by
  refine subst_ofClass_of_free fun v own => valueOrSelf_of_none ?_
  rw [← Option.not_isSome_iff_eq_none]
  exact fun value => unbound ⟨v, own, value⟩

/-- A value of a variable is not the variable itself, so the class is applied. -/
theorem any_isBound_rebindFree (proper : ∀ b ∈ bindings, b.Proper u) {c : ClassId}
    (bound : u.BoundIn bindings c) :
    ((u.classVariables c).map fun v => rebindFree u bindings v.ref).any TyVar.isBound = true := by
  obtain ⟨v, own, value⟩ := bound
  obtain ⟨t, found⟩ := Option.isSome_iff_exists.1 value
  obtain ⟨w, key, member⟩ := bound_mem_of_valueFor? found
  have other (r : VarRef) (self : t = .variable (.free r)) : u.varKey r ≠ u.varKey v.ref :=
    key ▸ proper _ member r (congrArg some self)
  refine List.any_eq_true.2 ⟨_, List.mem_map_of_mem own, ?_⟩
  rw [rebindFree_eq, valueOrSelf_of_some found, TyVar.bindTo_other (v := .free v.ref) other]
  rfl

/-- What one mode makes of a class without arguments, the other makes of the class applied to its own
variables. -/
theorem substitute_ofClass_of_boundIn (proper : ∀ b ∈ bindings, b.Proper u) {c : ClassId}
    (bound : u.BoundIn bindings c) :
    (Ty.ofClass c).substitute u bindings = (Ty.selfApplied u c).resolveInScope u bindings := by
  have rebound : (u.classVariables c).map (TyVar.rebind u .kept bindings) =
      (u.classVariables c).map fun v => rebindFree u bindings v.ref := by
    refine List.map_congr_left fun v own => ?_
    obtain ⟨w, -, -, rfl⟩ := mem_variablesOf.1 own
    rfl
  calc
    (Ty.ofClass c).substitute u bindings
      = .applied c ((u.classVariables c).map fun v => rebindFree u bindings v.ref) := by
        simp only [Ty.substitute, Ty.subst, any_isBound_rebindFree proper bound, if_true]
    _ = (Ty.applied c (u.classVariables c)).resolveInScope u bindings := by
        rw [Ty.resolveInScope, Ty.subst_applied, rebound]
    _ = (Ty.selfApplied u c).resolveInScope u bindings := by rw [Ty.selfApplied_eq_applied]

/-- The modes differ in the classes without arguments that have a variable with a value, and in
nothing else: with these applied to their own variables, wherever they stand in a type, one mode does
what the other does to the type itself. Where no such class occurs both do the same. -/
theorem Ty.substitute_eq_resolveInScope (proper : ∀ b ∈ bindings, b.Proper u) (t : Ty) :
    t.substitute u bindings = (t.applyRaw u bindings).resolveInScope u bindings ∧
      ((∀ c ∈ t.rawClasses, ¬ u.BoundIn bindings c) →
        t.substitute u bindings = t.resolveInScope u bindings) := by
  refine ⟨?_, fun unbound => Ty.subst_congr_raw fun c occurs => ?_⟩
  · induction t using Ty.inductionOn with
    | ofClass c =>
      by_cases bound : u.BoundIn bindings c
      · rw [Ty.applyRaw, if_pos bound]
        exact substitute_ofClass_of_boundIn proper bound
      · rw [Ty.applyRaw, if_neg bound]
        exact subst_ofClass_of_not_boundIn bound .filled
    | free v => rfl
    | bound v t ih => exact congrArg (valueFor? u bindings v).getD ih
    | array t ih => exact congrArg Ty.array ih
    | wildcard upper lower ihUpper ihLower =>
      simp only [Ty.substitute, Ty.resolveInScope, Ty.applyRaw_wildcard, Ty.subst_wildcard,
        List.map_map]
      exact congrArg₂ Ty.wildcard (List.map_congr_left ihUpper) (List.map_congr_left ihLower)
    | applied c vars ih =>
      simp only [Ty.substitute, Ty.resolveInScope, Ty.applyRaw_applied, Ty.subst_applied,
        List.map_map]
      refine congrArg (Ty.applied c) (List.map_congr_left fun b member => ?_)
      cases b with
      | free v => rfl
      | bound v t => exact congrArg ((TyVar.free v).bindTo u) (ih v t member)
  · rw [subst_ofClass_of_not_boundIn (unbound c occurs),
      subst_ofClass_of_not_boundIn (unbound c occurs)]

namespace Pairs

/-- The pair without arguments in `Pair<Pair, A[]>` is applied to its variables, of which one has a
value; filled in, the pair becomes `Pair<Object, B>`, while in the other mode it is kept as it is. In
`A[]` the modes do not differ. -/
theorem substitute_rawInPair :
    (∀ b ∈ objectForA, b.Proper classes) ∧
      rawInPairType.applyRaw classes objectForA =
        .applied pair [.bound a (.applied pair [.free a, .free b]),
          .bound b (.array (.variable (.free a)))] ∧
      rawInPairType.substitute classes objectForA =
        (rawInPairType.applyRaw classes objectForA).resolveInScope classes objectForA ∧
      rawInPairType.substitute classes objectForA =
        .applied pair [.bound a (.applied pair [.bound a (.ofClass Universe.object), .free b]),
          .bound b (.array (.ofClass Universe.object))] ∧
      rawInPairType.resolveInScope classes objectForA =
        .applied pair [.bound a (.ofClass pair), .bound b (.array (.ofClass Universe.object))] ∧
      (Ty.array (.variable (.free a))).substitute classes objectForA =
        (Ty.array (.variable (.free a))).resolveInScope classes objectForA ∧
      (Ty.array (.variable (.free a))).substitute classes objectForA =
        .array (.ofClass Universe.object) := by
  have proper : ∀ b ∈ objectForA, b.Proper classes :=
    List.forall_mem_singleton.2 (TyVar.proper_bindTo (.free a) (.ofClass Universe.object))
  obtain ⟨applied, -⟩ := rawInPairType.substitute_eq_resolveInScope proper
  obtain ⟨-, same⟩ := (Ty.array (.variable (.free a))).substitute_eq_resolveInScope proper
  exact ⟨proper, rfl, applied, rfl, rfl, same nofun, rfl⟩

end Pairs

end JavaTypes
