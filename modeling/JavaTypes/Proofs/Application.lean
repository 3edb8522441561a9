import JavaTypes.Proofs.Resolution

/-!
Bindings of all variables of one declaration. Where declared variables have ids of their own, a
look-up in such bindings finds the argument at the position of the variable, and passes them over
for variables of other declarations.
-/
namespace JavaTypes

/-- The variables of a declaration bound to arguments, by position. -/
def Universe.bindVars (u : Universe) (owner : VarOwner) (args : List Ty) : List TyVar :=
  (u.variablesOf owner).zipWith (TyVar.bindTo u) args

def renameVars (u : Universe) (source target : VarOwner) : List TyVar :=
  u.bindVars source ((u.variablesOf target).map .variable)

variable {u : Universe}

theorem Ty.apply_eq_bindVars (c : ClassId) (args : List Ty) :
    Ty.apply u c args = .applied c (u.bindVars (.ofClass c) args) := rfl

theorem mem_declaredVars {owner : VarOwner} {i : Nat} :
    ⟨owner, i⟩ ∈ u.declaredVars ↔ i < (u.typeParams owner).length := by
  simp [Universe.declaredVars, Universe.typeParam?]

theorem mem_declaredVars_method {c : ClassId} {i k : Nat} {decl : MethodDecl}
    (found : (u.decl c).methods[i]? = some decl) :
    ⟨.method c i, k⟩ ∈ u.declaredVars ↔ k < decl.typeParams.length := by
  rw [mem_declaredVars]
  simp [Universe.typeParams, ClassDecl.typeParamsOf, VarOwner.classId, found]

@[simp] theorem length_variablesOf (owner : VarOwner) :
    (u.variablesOf owner).length = (u.typeParams owner).length := by
  simp [Universe.variablesOf]

theorem getElem?_variablesOf {owner : VarOwner} {i : Nat} (own : ⟨owner, i⟩ ∈ u.declaredVars) :
    (u.variablesOf owner)[i]? = some (.free ⟨owner, i⟩) := by
  simp [Universe.variablesOf, mem_declaredVars.1 own]

theorem getElem?_bindVars {owner : VarOwner} {args : List Ty} {i : Nat} {a : Ty}
    (own : ⟨owner, i⟩ ∈ u.declaredVars) (arg : args[i]? = some a) :
    (u.bindVars owner args)[i]? = some ((TyVar.free ⟨owner, i⟩).bindTo u a) := by
  simp [Universe.bindVars, List.getElem?_zipWith, getElem?_variablesOf own, arg]

def ClassDecl.owners (d : ClassDecl) (c : ClassId) : List VarOwner :=
  .ofClass c :: (List.range d.methods.length).map (.method c) ++
    (List.range d.constructors.length).map (.constructor c)

def Universe.allVars (u : Universe) : List VarRef :=
  (u.ids.flatMap fun c => (u.decl c).owners c).flatMap fun owner =>
    (u.variablesOf owner).map TyVar.ref

theorem Universe.decl_of_size_le {c : ClassId} (outside : u.size ≤ c.index) :
    u.decl c = default := by
  rw [Universe.decl, Array.getD_eq_getD_getElem?, Array.getElem?_eq_none outside]
  rfl

@[simp] theorem Universe.length_ids : u.ids.length = u.size := by simp [ids]

theorem Universe.mem_ids {c : ClassId} : c ∈ u.ids ↔ c.index < u.size := by
  constructor
  · intro member
    obtain ⟨i, bound, rfl⟩ := List.mem_map.1 member
    exact List.mem_range.1 bound
  · exact fun bound => List.mem_map.2 ⟨c.index, List.mem_range.2 bound, rfl⟩

theorem Universe.decl_of_not_mem_ids {c : ClassId} (unknown : c ∉ u.ids) : u.decl c = default :=
  Universe.decl_of_size_le (Nat.le_of_not_lt fun inside => unknown (Universe.mem_ids.2 inside))

/-- Only declarations in classes of the universe have type parameters. -/
theorem mem_owners {owner : VarOwner} (declares : u.typeParams owner ≠ []) :
    owner.classId ∈ u.ids ∧ owner ∈ (u.decl owner.classId).owners owner.classId := by
  constructor
  · rw [Universe.mem_ids]
    by_contra outside
    have noDecl := Universe.decl_of_size_le (Nat.le_of_not_lt outside)
    cases owner <;> simp [Universe.typeParams, noDecl, ClassDecl.typeParamsOf] at declares <;>
      simp [default, ClassDecl.named] at declares
  · cases owner with
    | ofClass c => simp [ClassDecl.owners, VarOwner.classId]
    | method c k =>
      by_contra absent
      simp [ClassDecl.owners, VarOwner.classId] at absent
      simp [Universe.typeParams, ClassDecl.typeParamsOf, VarOwner.classId, absent] at declares
    | constructor c k =>
      by_contra absent
      simp [ClassDecl.owners, VarOwner.classId] at absent
      simp [Universe.typeParams, ClassDecl.typeParamsOf, VarOwner.classId, absent] at declares

theorem typeParams_ne_nil {v : VarRef} (declared : v ∈ u.declaredVars) :
    u.typeParams v.owner ≠ [] :=
  List.ne_nil_of_length_pos (Nat.zero_lt_of_lt (mem_declaredVars.1 declared))

theorem mem_allVars {v : VarRef} (declared : v ∈ u.declaredVars) : v ∈ u.allVars := by
  obtain ⟨known, listed⟩ := mem_owners (typeParams_ne_nil declared)
  refine List.mem_flatMap.2 ⟨v.owner, List.mem_flatMap.2 ⟨_, known, listed⟩, ?_⟩
  exact List.mem_map.2 ⟨_, mem_variablesOf.2 ⟨_, declared, rfl, rfl⟩, rfl⟩

theorem mem_allVars_of_typeParam? {v : VarRef} {p : TypeParam} (found : u.typeParam? v = some p) :
    v ∈ u.allVars :=
  mem_allVars (by simp [Universe.declaredVars, found])

/-- What all type parameters have in common can be checked variable by variable. -/
theorem forall_typeParam {holds : VarRef → TypeParam → Prop}
    (checked : ∀ v ∈ u.allVars, ∀ p ∈ u.typeParam? v, holds v p) :
    ∀ v p, u.typeParam? v = some p → holds v p := fun v p found =>
  checked v (mem_allVars_of_typeParam? found) p found

theorem injOn_varKey
    (apart : ∀ v ∈ u.allVars, ∀ w ∈ u.allVars, u.varKey v = u.varKey w → v = w) :
    Set.InjOn u.varKey u.declaredVars := fun v left w right =>
  apart v (mem_allVars left) w (mem_allVars right)

theorem valueFor?_of_getElem? {bindings : List TyVar} {i : Nat} {b : TyVar} {v : VarRef}
    (here : bindings[i]? = some b) (key : b.key u = u.varKey v)
    (first : ∀ j < i, ∀ b', bindings[j]? = some b' → b'.key u ≠ u.varKey v) :
    valueFor? u bindings v = b.value? := by
  induction bindings generalizing i with
  | nil => simp at here
  | cons b' rest ih =>
    cases i with
    | zero =>
      cases here
      rw [valueFor?_cons, if_pos key]
    | succ i =>
      rw [valueFor?_cons, if_neg (first 0 (by omega) b' rfl)]
      exact ih here fun j less => first (j + 1) (by omega)

theorem valueFor?_of_free {bindings : List TyVar} (free : ∀ b ∈ bindings, b.value? = none)
    (v : VarRef) : valueFor? u bindings v = none :=
  valueFor?_append_of_free free [] v

theorem valueOrSelf_of_values_none {bindings : List TyVar}
    (free : ∀ b ∈ bindings, b.value? = none) (v : VarRef) :
    valueOrSelf u bindings v = .variable (.free v) :=
  valueOrSelf_of_none (valueFor?_of_free free v)

theorem value?_of_mem_variablesOf {owner : VarOwner} {b : TyVar} (own : b ∈ u.variablesOf owner) :
    b.value? = none := by
  obtain ⟨v, -, -, rfl⟩ := mem_variablesOf.1 own
  rfl

@[simp] theorem valuesOf_variablesOf (owner : VarOwner) : valuesOf (u.variablesOf owner) = [] :=
  List.filterMap_eq_nil_iff.2 fun _ own => value?_of_mem_variablesOf own

@[simp] theorem valueOrSelf_variablesOf (owner : VarOwner) (v : VarRef) :
    valueOrSelf u (u.variablesOf owner) v = .variable (.free v) :=
  valueOrSelf_of_values_none (fun _ own => value?_of_mem_variablesOf own) v

@[simp] theorem valuesOf_append (first second : List TyVar) :
    valuesOf (first ++ second) = valuesOf first ++ valuesOf second := List.filterMap_append

theorem Ty.resolveInScope_append_variablesOf (t : Ty) (bindings : List TyVar) (owner : VarOwner) :
    t.resolveInScope u (bindings ++ u.variablesOf owner) = t.resolveInScope u bindings :=
  Ty.subst_congr .kept _ (valueFor?_append_of_free (fun _ own => value?_of_mem_variablesOf own) _) t

theorem DeclType.resolveInScope_of_free {t : DeclType} {r : Ty} (resolved : t.resolve u = .ok r)
    {scope : List TyVar} (free : ∀ b ∈ scope, b.value? = none) : r.resolveInScope u scope = r :=
  subst_of_resolve resolved (fun v _ => valueOrSelf_of_values_none free v) fun _ _ => rfl

@[simp] theorem Declarer.typeVariables_ofClass (c : ClassId) :
    (Declarer.ofClass c).typeVariables u = u.variablesOf (.ofClass c) := rfl

@[simp] theorem Declarer.typeVariables_applied (c : ClassId) (bindings : List TyVar) :
    (Declarer.applied c bindings).typeVariables u = bindings := rfl

section ids

variable (ids : Set.InjOn u.varKey u.declaredVars)

include ids

theorem key_ne_of_owner_ne {owner : VarOwner} {args : List Ty} {v : VarRef}
    (declared : v ∈ u.declaredVars) (other : v.owner ≠ owner) :
    ∀ b ∈ u.bindVars owner args, b.key u ≠ u.varKey v := by
  intro b member same
  obtain ⟨b', own, a, -, rfl⟩ := mem_zipWith_bindTo member
  obtain ⟨w, bound, rfl, rfl⟩ := mem_variablesOf.1 own
  rw [TyVar.key_bindTo] at same
  exact other (congrArg VarRef.owner (ids declared bound same.symm))

theorem valueOrSelf_bindVars_of_other {owner : VarOwner} {args : List Ty} {v : VarRef}
    (declared : v ∈ u.declaredVars) (other : v.owner ≠ owner) (rest : List TyVar) :
    valueOrSelf u (u.bindVars owner args ++ rest) v = valueOrSelf u rest v := by
  rw [valueOrSelf, valueFor?_append_of_absent (key_ne_of_owner_ne ids declared other)]
  rfl

theorem valueOrSelf_bindVars_of_foreign {owner : VarOwner} {args : List Ty} {v : VarRef}
    (declared : v ∈ u.declaredVars) (other : v.owner ≠ owner) :
    valueOrSelf u (u.bindVars owner args) v = .variable (.free v) := by
  rw [← List.append_nil (u.bindVars owner args), valueOrSelf_bindVars_of_other ids declared other]
  rfl

theorem valueOrSelf_bindVars_append {owner : VarOwner} {args : List Ty} {i : Nat} {a : Ty}
    (own : ⟨owner, i⟩ ∈ u.declaredVars) (arg : args[i]? = some a) (declared : a.Declared u)
    (rest : List TyVar) :
    valueOrSelf u (u.bindVars owner args ++ rest) ⟨owner, i⟩ = a := by
  obtain ⟨within, -⟩ := List.getElem?_eq_some_iff.1 arg
  have entry {j : Nat} (upTo : j ≤ i) : ∃ s, (u.bindVars owner args ++ rest)[j]? =
      some ((TyVar.free ⟨owner, j⟩).bindTo u s) ∧ args[j]? = some s ∧
        ⟨owner, j⟩ ∈ u.declaredVars := by
    have bound : ⟨owner, j⟩ ∈ u.declaredVars :=
      mem_declaredVars.2 (upTo.trans_lt (mem_declaredVars.1 own))
    have argument := List.getElem?_eq_getElem (upTo.trans_lt within)
    have here := getElem?_bindVars bound argument
    obtain ⟨inside, -⟩ := List.getElem?_eq_some_iff.1 here
    exact ⟨_, by rw [List.getElem?_append_left inside, here], argument, bound⟩
  have lookup : valueFor? u (u.bindVars owner args ++ rest) ⟨owner, i⟩ =
      ((TyVar.free ⟨owner, i⟩).bindTo u a).value? := by
    obtain ⟨s, here, argument, -⟩ := entry le_rfl
    cases arg.symm.trans argument
    refine valueFor?_of_getElem? here (by rw [TyVar.key_bindTo]; rfl) fun j less b found same => ?_
    obtain ⟨s, earlier, -, bound⟩ := entry less.le
    cases found.symm.trans earlier
    rw [TyVar.key_bindTo] at same
    have position : j = i := congrArg VarRef.index (ids bound own same)
    omega
  rcases TyVar.bindTo_cases (u := u) (.free ⟨owner, i⟩) a with ⟨r, rfl, key, dropped⟩ | kept
  · have same : r = ⟨owner, i⟩ := ids (declared r (by simp [Ty.mentioned])) own key
    rw [dropped] at lookup
    rw [valueOrSelf_of_none lookup, same]
  · rw [kept] at lookup
    exact valueOrSelf_of_some lookup

theorem valueOrSelf_bindVars {owner : VarOwner} {args : List Ty} {i : Nat} {a : Ty}
    (own : ⟨owner, i⟩ ∈ u.declaredVars) (arg : args[i]? = some a) (declared : a.Declared u) :
    valueOrSelf u (u.bindVars owner args) ⟨owner, i⟩ = a := by
  simpa using valueOrSelf_bindVars_append ids own arg declared []

theorem valueOrSelf_bindVars_of_missing {owner : VarOwner} {args : List Ty} {i : Nat}
    (own : ⟨owner, i⟩ ∈ u.declaredVars) (missing : args[i]? = none) :
    valueOrSelf u (u.bindVars owner args) ⟨owner, i⟩ = .variable (.free ⟨owner, i⟩) := by
  refine valueOrSelf_of_none (valueFor?_of_absent fun b member same => ?_)
  obtain ⟨j, inside, rfl⟩ := List.getElem_of_mem member
  have short : j < args.length ∧ ⟨owner, j⟩ ∈ u.declaredVars := by
    simp only [Universe.bindVars, List.length_zipWith, length_variablesOf, lt_inf_iff] at inside
    exact ⟨inside.2, mem_declaredVars.2 inside.1⟩
  have entry := getElem?_bindVars short.2 (List.getElem?_eq_getElem short.1)
  have here : (u.bindVars owner args)[j] = (TyVar.free ⟨owner, j⟩).bindTo u args[j] :=
    Option.some.inj ((List.getElem?_eq_getElem inside).symm.trans entry)
  rw [here, TyVar.key_bindTo] at same
  have position : j = i := congrArg VarRef.index (ids short.2 own same)
  rw [List.getElem?_eq_none_iff] at missing
  omega

/-- What occurs where a variable stood is the variable or comes with the argument for it. -/
theorem mem_freeVars_bindVars {owner : VarOwner} {args : List Ty} {v w : VarRef}
    (bound : v ∈ u.declaredVars) (declared : ∀ a ∈ args, a.Declared u)
    (occurs : w ∈ (valueOrSelf u (u.bindVars owner args) v).freeVars) :
    w = v ∨ ∃ k a, v = ⟨owner, k⟩ ∧ args[k]? = some a ∧ w ∈ a.freeVars := by
  have self (free : valueOrSelf u (u.bindVars owner args) v = .variable (.free v)) : w = v := by
    rw [free] at occurs
    simpa [Ty.freeVars] using occurs
  by_cases own : v.owner = owner
  · obtain ⟨_, k⟩ := v
    cases own
    cases found : args[k]? with
    | none => exact .inl (self (valueOrSelf_bindVars_of_missing ids bound found))
    | some a =>
      rw [valueOrSelf_bindVars ids bound found (declared a (List.mem_of_getElem? found))] at occurs
      exact .inr ⟨k, a, rfl, found, occurs⟩
  · exact .inl (self (valueOrSelf_bindVars_of_foreign ids bound own))

theorem valueOrSelf_renameVars {source target : VarOwner} {i : Nat}
    (own : ⟨source, i⟩ ∈ u.declaredVars) (image : ⟨target, i⟩ ∈ u.declaredVars) :
    valueOrSelf u (renameVars u source target) ⟨source, i⟩ = .variable (.free ⟨target, i⟩) := by
  refine valueOrSelf_bindVars ids own ?_ (by simpa [Ty.Declared, Ty.mentioned] using image)
  simp [getElem?_variablesOf image]

end ids

theorem mem_valuesOf_bindVars {owner : VarOwner} {args : List Ty} {t : Ty}
    (value : t ∈ valuesOf (u.bindVars owner args)) : t ∈ args := by
  obtain ⟨b, member, value⟩ := List.mem_filterMap.1 value
  obtain ⟨b', own, a, arg, rfl⟩ := mem_zipWith_bindTo member
  obtain ⟨v, -, -, rfl⟩ := mem_variablesOf.1 own
  cases bound : (TyVar.free v).bindTo u a with
  | free w =>
    rw [bound] at value
    cases value
  | bound w s =>
    obtain ⟨-, rfl⟩ := TyVar.of_bindTo_eq_bound bound
    rw [bound] at value
    cases value
    exact arg

theorem declared_of_mem_valuesOf_renameVars {source target : VarOwner} {t : Ty}
    (value : t ∈ valuesOf (renameVars u source target)) : t.Declared u := by
  obtain ⟨b, member, rfl⟩ := List.mem_map.1 (mem_valuesOf_bindVars value)
  obtain ⟨w, bound, -, rfl⟩ := mem_variablesOf.1 member
  simpa [Ty.Declared, Ty.mentioned] using bound

end JavaTypes
