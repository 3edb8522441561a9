import JavaTypes.Proofs.Application

/-!
The types a universe gives out: resolved from declarations, made by substituting such types in each
other, or by applying classes to them. All of them are built the same way, with each applied class
over arguments for its first variables.
-/
namespace JavaTypes

/-- A declared type over classes and type parameters of a universe, in which each wildcard has at
most one bound. -/
inductive DeclType.Shaped (u : Universe) : DeclType → Prop where
  | ofClass {c : ClassId} : c ∈ u.ids → Shaped u (.ofClass c)
  | applied {c : ClassId} {args : List DeclType} :
      c ∈ u.ids → (∀ t ∈ args, t.Shaped u) → Shaped u (.applied c args)
  | variable {v : VarRef} : v ∈ u.declaredVars → Shaped u (.variable v)
  | unbounded : Shaped u (.wildcard [] [])
  | upper {t : DeclType} : t.Shaped u → Shaped u (.wildcard [t] [])
  | lower {t : DeclType} : t.Shaped u → Shaped u (.wildcard [] [t])
  | array {t : DeclType} : t.Shaped u → Shaped u (.array t)

namespace Universe

/-- The types made by resolving, substituting and applying, where arguments and values are such types
too. -/
inductive Obtained (u : Universe) : Ty → Prop where
  | resolve {d : DeclType} {t : Ty} : d.Shaped u → d.resolve u = .ok t → u.Obtained t
  | subst {t : Ty} {bindings : List TyVar} (raw : RawClasses) :
      u.Obtained t → (∀ s ∈ valuesOf bindings, u.Obtained s) → u.Obtained (t.subst u raw bindings)
  | apply {c : ClassId} {args : List Ty} :
      c ∈ u.ids → (∀ a ∈ args, u.Obtained a) → u.Obtained (.apply u c args)

/-- Types as they are built: no variable has a value outside of an applied class, and each wildcard
has at most one bound. -/
inductive Regular (u : Universe) : Ty → Prop where
  | ofClass {c : ClassId} : c ∈ u.ids → u.Regular (.ofClass c)
  | free {v : VarRef} : v ∈ u.declaredVars → u.Regular (.variable (.free v))
  | apply {c : ClassId} {args : List Ty} :
      c ∈ u.ids → args.length ≤ (u.classVariables c).length → (∀ a ∈ args, u.Regular a) →
        u.Regular (.apply u c args)
  | unbounded : u.Regular (.wildcard [] [])
  | upper {t : Ty} : u.Regular t → u.Regular (.wildcard [t] [])
  | lower {t : Ty} : u.Regular t → u.Regular (.wildcard [] [t])
  | array {t : Ty} : u.Regular t → u.Regular (.array t)

variable {u : Universe}

namespace Regular

/-- Surplus arguments do not matter, as they are dropped. -/
theorem apply_all {c : ClassId} {args : List Ty} (known : c ∈ u.ids)
    (each : ∀ a ∈ args, u.Regular a) : u.Regular (.apply u c args) := by
  have dropped : Ty.apply u c args = .apply u c (args.take (u.classVariables c).length) := by
    rw [Ty.apply, Ty.apply]
    congr 1
    refine List.ext_getElem? fun i => ?_
    by_cases inside : i < (u.classVariables c).length
    · simp [List.getElem?_zipWith, inside]
    · simp [List.getElem?_zipWith, List.getElem?_eq_none (Nat.le_of_not_lt inside)]
  rw [dropped]
  exact .apply known (by simp) fun a member => each a (List.mem_of_mem_take member)

theorem valueOrSelf {bindings : List TyVar} (values : ∀ s ∈ valuesOf bindings, u.Regular s)
    {v : VarRef} (declared : v ∈ u.declaredVars) : u.Regular (valueOrSelf u bindings v) := by
  rw [JavaTypes.valueOrSelf]
  cases found : valueFor? u bindings v with
  | none => exact .free declared
  | some s => exact values s (mem_values_of_valueFor? found)

/-- Binding the variables of a class is applying the class to their values. -/
theorem rebound_eq (bindings : List TyVar) (c : ClassId) :
    Ty.applied c ((u.classVariables c).map fun v => rebindFree u bindings v.ref) =
      .apply u c ((u.classVariables c).map fun v => JavaTypes.valueOrSelf u bindings v.ref) := by
  simp only [Ty.apply, classVariables, variablesOf, List.map_map, List.zipWith_map_left,
    List.zipWith_map_right, List.zipWith_self]
  rfl

theorem subst {t : Ty} (regular : u.Regular t) (raw : RawClasses) {bindings : List TyVar}
    (values : ∀ s ∈ valuesOf bindings, u.Regular s) : u.Regular (t.subst u raw bindings) := by
  induction regular with
  | ofClass known =>
    cases raw with
    | kept => exact .ofClass known
    | filled =>
      simp only [Ty.subst]
      split
      · rw [rebound_eq]
        refine apply_all known fun a member => ?_
        obtain ⟨b, own, rfl⟩ := List.mem_map.1 member
        obtain ⟨v, declared, -, rfl⟩ := mem_variablesOf.1 own
        exact valueOrSelf values declared
      · exact .ofClass known
  | free declared => exact valueOrSelf values declared
  | apply known _ _ ih =>
    rw [Ty.subst_apply]
    refine apply_all known fun a member => ?_
    obtain ⟨a, arg, rfl⟩ := List.mem_map.1 member
    exact ih a arg
  | unbounded => exact .unbounded
  | upper _ ih => exact .upper ih
  | lower _ ih => exact .lower ih
  | array _ ih => exact .array ih

theorem resolve {d : DeclType} {t : Ty} (shaped : d.Shaped u) (resolved : d.resolve u = .ok t) :
    u.Regular t := by
  -- The root bound is dropped, which leaves an unbounded wildcard.
  have bounds {t : DeclType} {rs : List Ty} (found : resolveBounds u [t] = .ok rs)
      (each : ∀ r, t.resolve u = .ok r → u.Regular r) :
      rs = [] ∨ ∃ r, rs = [r] ∧ u.Regular r := by
    rw [resolveBounds_eq, resolveAll_eq_ok] at found
    cases root : t.isRoot with
    | true =>
      rw [List.filter_cons_of_neg (by simp [root]), List.filter_nil] at found
      cases found
      exact .inl rfl
    | false =>
      rw [List.filter_cons_of_pos (by simp [root]), List.filter_nil] at found
      obtain ⟨r, _, first, rest, rfl⟩ := List.forall₂_cons_left_iff.1 found
      cases rest
      exact .inr ⟨r, rfl, each r first⟩
  induction shaped generalizing t with
  | ofClass known =>
    cases resolved
    exact .ofClass known
  | «variable» declared =>
    cases resolved
    exact .free declared
  | applied known _ ih =>
    obtain ⟨types, all, same⟩ := bind_eq_ok.1 resolved
    cases same
    refine apply_all known fun a member => ?_
    obtain ⟨d, arg, found⟩ := exists_left_of_mem (resolveAll_eq_ok.1 all) member
    exact ih d arg found
  | unbounded =>
    cases resolved
    exact .unbounded
  | upper _ ih =>
    obtain ⟨rs, found, rest⟩ := bind_eq_ok.1 resolved
    cases rest
    rcases bounds found fun r => ih with rfl | ⟨r, rfl, regular⟩
    · exact .unbounded
    · exact .upper regular
  | lower _ ih =>
    obtain ⟨rs, found, rest⟩ := bind_eq_ok.1 resolved
    cases found
    obtain ⟨rs, found, rest⟩ := bind_eq_ok.1 rest
    cases rest
    rcases bounds found fun r => ih with rfl | ⟨r, rfl, regular⟩
    · exact .unbounded
    · exact .lower regular
  | array _ ih =>
    obtain ⟨r, found, same⟩ := bind_eq_ok.1 resolved
    cases same
    exact .array (ih found)

end Regular

theorem Obtained.regular {t : Ty} (obtained : u.Obtained t) : u.Regular t := by
  induction obtained with
  | resolve shaped resolved => exact .resolve shaped resolved
  | subst raw _ _ ih values => exact ih.subst raw values
  | apply known _ ih => exact .apply_all known ih

end Universe

end JavaTypes
