import JavaTypes.Proofs.Inheritance

/-!
Super types of a class beside those of the class applied to arguments. What a clause hands on to a
super type through the applied class is written like what it hands on through the class, with the
arguments in place of the variables. The exception is the class itself, written without arguments in
one of its own clauses: the applied class fills it in and the class does not.
-/
namespace JavaTypes

variable {u : Universe} {naming : Naming}

/-- Array classes have no type parameters, and declarations refer to type parameters there are. -/
structure Universe.Valid (u : Universe) : Prop where
  arrays : ∀ c, (u.decl c).component ≠ none → (u.decl c).typeParams = []
  clauses : ∀ c, ∀ t ∈ (u.decl c).clauses, ∀ v ∈ t.vars, v ∈ u.declaredVars
  params : ∀ c, ∀ m ∈ (u.decl c).methods, ∀ p ∈ m.params, ∀ v ∈ p.type.vars, v ∈ u.declaredVars

/-- Whether a universe is valid can be checked class by class. -/
theorem Universe.valid_of_ids
    (arrays : ∀ c ∈ u.ids, ((u.decl c).component.isNone || (u.decl c).typeParams.isEmpty) = true)
    (clauses : ∀ c ∈ u.ids, ∀ t ∈ (u.decl c).clauses, ∀ v ∈ t.vars, (u.typeParam? v).isSome)
    (params : ∀ c ∈ u.ids, ∀ m ∈ (u.decl c).methods, ∀ p ∈ m.params, ∀ v ∈ p.type.vars,
      (u.typeParam? v).isSome) : u.Valid := by
  refine ⟨fun c array => ?_, fun c t member => ?_, fun c m member => ?_⟩
  all_goals
    by_cases known : c ∈ u.ids
  · have checked := arrays c known
    simp only [Bool.or_eq_true, Option.isNone_iff_eq_none, List.isEmpty_iff] at checked
    exact checked.resolve_left array
  · rw [Universe.decl_of_not_mem_ids known]
    rfl
  · exact clauses c known t member
  · rw [Universe.decl_of_not_mem_ids known] at member
    cases member
  · exact params c known m member
  · rw [Universe.decl_of_not_mem_ids known] at member
    cases member

theorem classText_eq {c : ClassId} (plain : (u.decl c).component = none) :
    classText u naming c = u.className naming.imports c ++
      angled ((u.classVariables c).map fun v => nameOf u naming v.ref) := by
  have self : u.innermost c.index c = (c, 0) := by
    cases c.index with
    | zero => rfl
    | succ n => simp [Universe.innermost, plain]
  simp [classText, self, brackets]

/-- Where a class is written with its variables, filling it in writes their values instead. -/
theorem textWith_subst_ofClass (ids : Set.InjOn u.varKey u.declaredVars) {bindings : List TyVar}
    (values : ∀ s ∈ valuesOf bindings, s.Declared u) {imports : Imports}
    {onClass : ClassId → String} {onVar : VarRef → String} {c : ClassId}
    (withVars : onClass c = u.className imports c ++
      angled ((u.classVariables c).map fun v => onVar v.ref)) :
    ((Ty.ofClass c).subst u .filled bindings).textWith u imports onClass onVar =
      u.className imports c ++ angled ((u.classVariables c).map fun v =>
        (valueOrSelf u bindings v.ref).textWith u imports onClass onVar) := by
  have own {v : TyVar} (member : v ∈ u.classVariables c) {r : VarRef}
      (value : valueOrSelf u bindings v.ref = .variable (.free r))
      (key : u.varKey r = u.varKey v.ref) : r = v.ref := by
    obtain ⟨w, bound, -, rfl⟩ := mem_variablesOf.1 member
    have self : (Ty.variable (.free w)).subst u .kept bindings = .variable (.free r) := value
    exact eq_of_subst_eq_free ids bound (by simpa [Ty.Declared, Ty.mentioned] using bound) values
      self key
  rcases subst_ofClass_filled (u := u) bindings c with eq | ⟨eq, unbound⟩
  · rw [eq, Ty.textWith_applied, List.map_map]
    congr 2
    refine List.map_congr_left fun v member => TyVar.textWith_shown_bindTo fun r value key => ?_
    rw [own member value key]
  · rw [eq, Ty.textWith_ofClass, withVars]
    congr 2
    refine List.map_congr_left fun v member => ?_
    obtain ⟨r, value, key⟩ := unbound v member
    rw [value, Ty.textWith_free, own member value key]

/-- No occurrence of a class without arguments, unless such occurrences are harmless. -/
def Ty.Spares (harmless : Prop) (c : ClassId) (t : Ty) : Prop := harmless ∨ c ∉ t.rawClasses

/-- A super type of an applied class beside the same super type of the class: they belong to one
class, and their variables have values that are written alike once arguments are filled in. -/
structure Tracks (u : Universe) (naming : Naming) (harmless : Prop) (c : ClassId)
    (bindings : List TyVar) (d d' : Declarer) : Prop where
  classId_eq : d'.classId = d.classId
  root : d.classId = c → d = .ofClass c
  others : ∀ v ∈ u.declaredVars, v.owner ≠ .ofClass d.classId →
    valueOrSelf u (d.typeVariables u) v = .variable (.free v) ∧
      valueOrSelf u (d'.typeVariables u) v = .variable (.free v)
  texts : ∀ v ∈ u.declaredVars, v.owner = .ofClass d.classId →
    (valueOrSelf u (d.typeVariables u) v).Spares harmless c →
      (valueOrSelf u (d'.typeVariables u) v).bareText u naming =
        (valueOrSelf u (d.typeVariables u) v).textUnder u naming bindings
  settled : ∀ s ∈ valuesOf (d.typeVariables u), s.Settled
  declared : ∀ s ∈ valuesOf (d.typeVariables u), s.Declared u
  declared' : ∀ s ∈ valuesOf (d'.typeVariables u), s.Declared u

namespace Ty.Spares

variable {harmless : Prop} {c : ClassId} {bindings : List TyVar}

theorem free (v : VarRef) : (Ty.variable (.free v)).Spares harmless c := .inr (by simp [Ty.rawClasses])

/-- What a substituted type is spared, the values of its variables and its classes are spared. -/
theorem of_subst {t : Ty} {raw : RawClasses} (settled : t.Settled)
    (spares : (t.subst u raw bindings).Spares harmless c) :
    (∀ v ∈ t.freeVars, (valueOrSelf u bindings v).Spares harmless c) ∧
      ∀ d ∈ t.rawClasses, ((Ty.ofClass d).subst u raw bindings).Spares harmless c := by
  rcases spares with harmless | absent
  · exact ⟨fun _ _ => .inl harmless, fun _ _ => .inl harmless⟩
  · rw [Ty.mem_rawClasses_subst settled] at absent
    push Not at absent
    exact ⟨fun v occurs => .inr (absent.2 v occurs), fun d occurs => .inr (absent.1 d occurs)⟩

theorem of_subst_ofClass {d : ClassId}
    (spares : ((Ty.ofClass d).subst u .filled bindings).Spares harmless c) :
    ∀ v ∈ u.classVariables d, (valueOrSelf u bindings v.ref).Spares harmless c := by
  intro v own
  rcases spares with harmless | absent
  · exact .inl harmless
  rcases subst_ofClass_filled (u := u) bindings d with eq | ⟨-, unbound⟩
  · refine .inr fun occurs => absent ?_
    rw [eq, Ty.rawClasses, Ty.gather_applied]
    refine List.mem_flatMap.2 ⟨_, List.mem_map.2 ⟨v, own, rfl⟩, ?_⟩
    rw [TyVar.gather_bindTo (fun _ => rfl) fun _ _ _ => rfl]
    exact occurs
  · obtain ⟨r, value, -⟩ := unbound v own
    rw [value]
    exact free r

end Ty.Spares

namespace Tracks

variable {harmless : Prop} {c : ClassId} {bindings : List TyVar} {d d' : Declarer}
  (ids : Set.InjOn u.varKey u.declaredVars) (valid : u.Valid)
  (outside : ∀ v ∈ u.declaredVars, v.owner ≠ .ofClass c →
    valueOrSelf u bindings v = .variable (.free v))
  (tracks : Tracks u naming harmless c bindings d d')

include tracks

/-- A class whose variables are not those of the tracked one stays as it is in both. -/
theorem text_ofClass_foreign {x : ClassId}
    (foreign : ∀ v ∈ u.classVariables x, v.ref.owner ≠ .ofClass d.classId) :
    ((Ty.ofClass x).subst u .filled (d'.typeVariables u)).bareText u naming =
      ((Ty.ofClass x).subst u .filled (d.typeVariables u)).textUnder u naming bindings := by
  have both : ∀ v ∈ u.classVariables x,
      valueOrSelf u (d.typeVariables u) v.ref = .variable (.free v.ref) ∧
        valueOrSelf u (d'.typeVariables u) v.ref = .variable (.free v.ref) := by
    intro v own
    obtain ⟨w, bound, -, rfl⟩ := mem_variablesOf.1 own
    exact tracks.others w bound (foreign _ own)
  rw [subst_ofClass_of_free fun v own => (both v own).1,
    subst_ofClass_of_free fun v own => (both v own).2]
  rfl

include ids outside

/-- The tracked class is filled in alike in both, unless it is the class at the bottom. -/
theorem text_ofClass_own (other : d.classId ≠ c) (plain : (u.decl d.classId).component = none)
    (spares : ((Ty.ofClass d.classId).subst u .filled (d.typeVariables u)).Spares harmless c) :
    ((Ty.ofClass d.classId).subst u .filled (d'.typeVariables u)).bareText u naming =
      ((Ty.ofClass d.classId).subst u .filled (d.typeVariables u)).textUnder u naming bindings := by
  have under : ∀ v ∈ u.classVariables d.classId,
      (valueOrSelf u bindings v.ref).bareText u naming = nameOf u naming v.ref := by
    intro v own
    obtain ⟨w, bound, owner, rfl⟩ := mem_variablesOf.1 own
    rw [TyVar.ref, outside w bound (by simpa [owner] using other)]
    rfl
  have withVars : classText u naming d.classId = u.className naming.imports d.classId ++
      angled ((u.classVariables d.classId).map fun v =>
        (valueOrSelf u bindings v.ref).bareText u naming) := by
    rw [classText_eq plain, List.map_congr_left under]
  have left : ((Ty.ofClass d.classId).subst u .filled (d'.typeVariables u)).bareText u naming =
      u.className naming.imports d.classId ++ angled ((u.classVariables d.classId).map fun v =>
        (valueOrSelf u (d'.typeVariables u) v.ref).bareText u naming) :=
    textWith_subst_ofClass ids tracks.declared' (classText_eq plain)
  have right :
      ((Ty.ofClass d.classId).subst u .filled (d.typeVariables u)).textUnder u naming bindings =
        u.className naming.imports d.classId ++ angled ((u.classVariables d.classId).map fun v =>
          (valueOrSelf u (d.typeVariables u) v.ref).textUnder u naming bindings) :=
    textWith_subst_ofClass ids tracks.declared withVars
  rw [left, right]
  congr 2
  refine List.map_congr_left fun v own => ?_
  have spared := spares.of_subst_ofClass v own
  obtain ⟨w, bound, owner, rfl⟩ := mem_variablesOf.1 own
  exact tracks.texts w bound owner spared

include valid

/-- A class without arguments, in a clause or in the type of a member, is written alike through
both, unless it is the class at the bottom. -/
theorem text_ofClass {x : ClassId} (raw : RawClasses)
    (apart : raw = .filled → x = d.classId → d.classId ≠ c)
    (spares : raw = .filled → ((Ty.ofClass x).subst u raw (d.typeVariables u)).Spares harmless c) :
    ((Ty.ofClass x).subst u raw (d'.typeVariables u)).bareText u naming =
      ((Ty.ofClass x).subst u raw (d.typeVariables u)).textUnder u naming bindings := by
  cases raw with
  | kept => rfl
  | filled =>
    by_cases same : x = d.classId
    · subst same
      by_cases plain : (u.decl d.classId).component = none
      · exact tracks.text_ofClass_own ids outside (apart rfl rfl) plain (spares rfl)
      · -- An array class has no variables that could take values.
        refine tracks.text_ofClass_foreign fun v own => ?_
        have none : u.classVariables d.classId = [] := by
          simp [Universe.classVariables, Universe.variablesOf, Universe.typeParams,
            ClassDecl.typeParamsOf, VarOwner.classId, valid.arrays _ plain]
        rw [none] at own
        cases own
    · refine tracks.text_ofClass_foreign fun v own => ?_
      obtain ⟨w, -, owner, rfl⟩ := mem_variablesOf.1 own
      rw [TyVar.ref, owner]
      simpa using same

theorem text {t : Ty} (raw : RawClasses) (settled : t.Settled) (declared : t.Declared u)
    (inScope : ∀ v ∈ t.freeVars, v.owner = .ofClass c → d.classId = c)
    (apart : raw = .filled → d.classId = c → harmless → c ∉ t.rawClasses)
    (sparesVars : ∀ v ∈ t.freeVars, (valueOrSelf u (d.typeVariables u) v).Spares harmless c)
    (sparesClasses : raw = .filled → ∀ x ∈ t.rawClasses,
      ((Ty.ofClass x).subst u raw (d.typeVariables u)).Spares harmless c) :
    (t.subst u raw (d'.typeVariables u)).bareText u naming =
      (t.subst u raw (d.typeVariables u)).textUnder u naming bindings := by
  rw [Ty.bareText, Ty.textUnder, Ty.textWith_subst ids settled declared tracks.declared,
    Ty.textWith_subst ids settled declared tracks.declared']
  refine Ty.textWith_congr (fun x occurs => ?_) fun v occurs => ?_
  · refine tracks.text_ofClass ids valid outside raw (fun filled same bottom => ?_)
      fun filled => sparesClasses filled x occurs
    have spared := sparesClasses filled x occurs
    rw [same, bottom] at occurs spared
    rcases spared with harmless | absent
    · exact apart filled bottom harmless occurs
    · have free (v : VarRef) : valueOrSelf u (d.typeVariables u) v = .variable (.free v) := by
        rw [tracks.root bottom]
        exact valueOrSelf_variablesOf _ v
      rw [subst_ofClass_of_free fun v _ => free v.ref] at absent
      exact absent (by simp [Ty.rawClasses])
  · have bound := declared v (t.freeVars_subset_mentioned occurs)
    by_cases own : v.owner = .ofClass d.classId
    · exact tracks.texts v bound own (sparesVars v occurs)
    · obtain ⟨left, right⟩ := tracks.others v bound own
      have other : v.owner ≠ .ofClass c := fun bottom =>
        own (bottom.trans (congrArg VarOwner.ofClass (inScope v occurs bottom).symm))
      rw [left, right, Ty.textWith_free, Ty.textWith_free, outside v bound other]
      rfl

end Tracks

namespace Tracks

variable {harmless : Prop} {c : ClassId} {bindings : List TyVar} {d d' e f : Declarer}

/-- Through a class without arguments nothing is handed on. -/
theorem ofClass (outside : ∀ v ∈ u.declaredVars, v.owner ≠ .ofClass c →
      valueOrSelf u bindings v = .variable (.free v)) {x : ClassId} (other : x ≠ c) :
    Tracks u naming harmless c bindings (.ofClass x) (.ofClass x) where
  classId_eq := rfl
  root same := absurd same other
  others v _ _ := ⟨valueOrSelf_variablesOf _ v, valueOrSelf_variablesOf _ v⟩
  texts v bound owner _ := by
    have foreign : v.owner ≠ .ofClass c := fun same =>
      other (VarOwner.ofClass.inj (owner.symm.trans same))
    have free : valueOrSelf u ((Declarer.ofClass x).typeVariables u) v = .variable (.free v) :=
      valueOrSelf_variablesOf _ v
    rw [free, Ty.textUnder, Ty.textWith_free, outside v bound foreign]
  settled s value := by simp at value
  declared s value := by simp at value
  declared' s value := by simp at value

variable (ids : Set.InjOn u.varKey u.declaredVars)

include ids

theorem bottom {args : List Ty} (declared : ∀ a ∈ args, a.Declared u) :
    Tracks u naming harmless c (u.bindVars (.ofClass c) args) (.ofClass c)
      (.applied c (u.bindVars (.ofClass c) args)) where
  classId_eq := rfl
  root _ := rfl
  others v bound other :=
    ⟨valueOrSelf_variablesOf _ v, valueOrSelf_bindVars_of_foreign ids bound other⟩
  texts v _ _ _ := by
    have free : valueOrSelf u ((Declarer.ofClass c).typeVariables u) v = .variable (.free v) :=
      valueOrSelf_variablesOf _ v
    rw [free]
    rfl
  settled s value := by simp at value
  declared s value := by simp at value
  declared' s value := declared s (mem_valuesOf_bindVars value)

section applied

variable (valid : u.Valid)
  (outside : ∀ v ∈ u.declaredVars, v.owner ≠ .ofClass c →
    valueOrSelf u bindings v = .variable (.free v))
  (tracks : Tracks u naming harmless c bindings d d') {x : ClassId} (other : x ≠ c)
  {types : List Ty} (settled : ∀ t ∈ types, t.Settled) (declared : ∀ t ∈ types, t.Declared u)
  (inScope : ∀ t ∈ types, ∀ v ∈ t.freeVars, v.owner = .ofClass c → d.classId = c)
  (apart : d.classId = c → harmless → c ∉ (Ty.apply u x types).rawClasses)

include valid outside tracks other settled declared inScope apart

theorem text_argument {k : Nat} (bound : ⟨.ofClass x, k⟩ ∈ u.declaredVars)
    (spares : (valueOrSelf u (u.bindVars (.ofClass x)
      (types.map fun t => t.substitute u (d.typeVariables u))) ⟨.ofClass x, k⟩).Spares harmless c) :
    (valueOrSelf u (u.bindVars (.ofClass x)
        (types.map fun t => t.substitute u (d'.typeVariables u))) ⟨.ofClass x, k⟩).bareText u naming =
      (valueOrSelf u (u.bindVars (.ofClass x)
        (types.map fun t => t.substitute u (d.typeVariables u))) ⟨.ofClass x, k⟩).textUnder u naming
          bindings := by
  cases found : types[k]? with
  | none =>
    have foreign : VarOwner.ofClass x ≠ .ofClass c := by simpa using other
    rw [valueOrSelf_bindVars_of_missing ids bound (by simp [found]),
      valueOrSelf_bindVars_of_missing ids bound (by simp [found]), Ty.textUnder,
      Ty.textWith_free, outside _ bound foreign]
  | some t =>
    have member := List.mem_of_getElem? found
    have value {b : Declarer} (values : ∀ s ∈ valuesOf (b.typeVariables u), s.Declared u) :
        valueOrSelf u (u.bindVars (.ofClass x)
          (types.map fun t => t.substitute u (b.typeVariables u))) ⟨.ofClass x, k⟩ =
            t.substitute u (b.typeVariables u) := by
      have inner : (t.substitute u (b.typeVariables u)).Declared u :=
        (declared t member).subst (settled t member) values
      exact valueOrSelf_bindVars ids bound (by simp [found]) inner
    rw [value tracks.declared] at spares
    obtain ⟨sparesVars, sparesClasses⟩ := spares.of_subst (settled t member)
    rw [value tracks.declared, value tracks.declared']
    refine tracks.text ids valid outside .filled (settled t member) (declared t member)
      (inScope t member) (fun _ same free occurs => apart same free ?_) sparesVars
      fun _ => sparesClasses
    -- What occurs in an argument occurs in the applied class.
    have entry := List.mem_of_getElem? (getElem?_bindVars bound found)
    rw [Ty.apply_eq_bindVars, Ty.rawClasses, Ty.gather_applied]
    refine List.mem_flatMap.2 ⟨_, entry, ?_⟩
    rw [TyVar.gather_bindTo (fun _ => rfl) fun _ _ _ => rfl]
    exact occurs

theorem applied :
    Tracks u naming harmless c bindings
      (.applied x (u.bindVars (.ofClass x)
        (types.map fun t => t.substitute u (d.typeVariables u))))
      (.applied x (u.bindVars (.ofClass x)
        (types.map fun t => t.substitute u (d'.typeVariables u)))) where
  classId_eq := rfl
  root same := absurd same other
  others v bound foreign :=
    ⟨valueOrSelf_bindVars_of_foreign ids bound foreign,
      valueOrSelf_bindVars_of_foreign ids bound foreign⟩
  texts := by
    rintro ⟨owner, k⟩ bound same spares
    cases same
    exact text_argument ids valid outside tracks other settled declared inScope apart bound spares
  settled s value := by
    obtain ⟨t, member, rfl⟩ := List.mem_map.1 (mem_valuesOf_bindVars value)
    exact (settled t member).subst tracks.settled
  declared s value := by
    obtain ⟨t, member, rfl⟩ := List.mem_map.1 (mem_valuesOf_bindVars value)
    exact (declared t member).subst (settled t member) tracks.declared
  declared' s value := by
    obtain ⟨t, member, rfl⟩ := List.mem_map.1 (mem_valuesOf_bindVars value)
    exact (declared t member).subst (settled t member) tracks.declared'

end applied

/-- One step up keeps track: a super type of the applied class is found where the class has one. -/
theorem up (valid : u.Valid)
    (outside : ∀ v ∈ u.declaredVars, v.owner ≠ .ofClass c →
      valueOrSelf u bindings v = .variable (.free v))
    (tracks : Tracks u naming harmless c bindings d d') {clause : DeclType}
    (member : clause ∈ (u.decl d.classId).clauses) (resolved : clause.resolve u = .ok e.toTy)
    (seen : d.sees u e.toTy = f.toTy) (notSelf : f.classId ≠ d.classId) (other : f.classId ≠ c)
    (inScope : ∀ v ∈ clause.vars, v.owner = .ofClass c → d.classId = c)
    (apart : d.classId = c → harmless → c ∉ e.toTy.rawClasses) :
    ∃ f', d'.sees u e.toTy = f'.toTy ∧ Tracks u naming harmless c bindings f f' := by
  rw [Declarer.sees_eq_substitute d resolved] at seen
  rw [Declarer.sees_eq_substitute d' resolved]
  rcases Declarer.clause_of_resolve resolved with ⟨x, rfl, rfl⟩ | ⟨x, args, types, rfl, each, rfl⟩
  · -- Through either type, a class without arguments stays as it is: no variable of it has a value.
    have foreign {b : Declarer} (free : ∀ v ∈ u.declaredVars, v.owner ≠ .ofClass d.classId →
        valueOrSelf u (b.typeVariables u) v = .variable (.free v)) (apart : x ≠ d.classId) :
        (Ty.ofClass x).substitute u (b.typeVariables u) = .ofClass x := by
      refine subst_ofClass_of_free fun v own => ?_
      obtain ⟨w, bound, owner, rfl⟩ := mem_variablesOf.1 own
      exact free w bound (by simpa [owner] using apart)
    obtain ⟨f₀, result, classId⟩ :=
      Declarer.exists_toTy_subst (u := u) (.ofClass x) .filled (d.typeVariables u)
    cases Declarer.toTy_injective (result.symm.trans seen)
    rw [classId] at notSelf other
    have same : f = .ofClass x := Declarer.toTy_injective (seen.symm.trans
      (foreign (fun v bound owner => (tracks.others v bound owner).1) notSelf))
    rw [same]
    exact ⟨.ofClass x, foreign (fun v bound owner => (tracks.others v bound owner).2) notSelf,
      ofClass outside other⟩
  · have seenThrough (b : Declarer) :
        (Declarer.applied x (u.bindVars (.ofClass x) types)).toTy.substitute u (b.typeVariables u) =
          (Declarer.applied x (u.bindVars (.ofClass x)
          (types.map fun t => t.substitute u (b.typeVariables u)))).toTy :=
      Ty.subst_apply .filled (b.typeVariables u) x types
    have same := Declarer.toTy_injective (seen.symm.trans (seenThrough d))
    rw [same] at other ⊢
    have written : ∀ a ∈ args, ∀ v ∈ a.vars, v ∈ (DeclType.applied x args).vars := by
      intro a arg v occurs
      simpa using ⟨a, arg, occurs⟩
    have declared : ∀ a ∈ args, ∀ v ∈ a.vars, v ∈ u.declaredVars := fun a arg v occurs =>
      valid.clauses _ _ member v (written a arg v occurs)
    refine ⟨_, seenThrough d', applied ids valid outside tracks other (fun t arg => ?_)
      (fun t arg => ?_) (fun t arg v occurs bottom => ?_) apart⟩
    · obtain ⟨a, -, resolved⟩ := exists_left_of_mem each arg
      exact DeclType.settled_of_resolve resolved
    · obtain ⟨a, inside, resolved⟩ := exists_left_of_mem each arg
      exact DeclType.declared_of_resolve resolved (declared a inside)
    · obtain ⟨a, inside, resolved⟩ := exists_left_of_mem each arg
      exact inScope v (written a inside v
        (DeclType.freeVars_of_resolve ids resolved (declared a inside) v occurs)) bottom

/-- All the way up, super types of the applied class are found where the class has them. -/
theorem along (valid : u.Valid) (acyclic : u.Acyclic)
    (outside : ∀ v ∈ u.declaredVars, v.owner ≠ .ofClass c →
      valueOrSelf u bindings v = .variable (.free v))
    {way : List DeclType} (leads : Declarer.Leads u d way e)
    (tracks : Tracks u naming harmless c bindings d d')
    (above : Relation.TransGen u.Extends c d.classId)
    (inScope : ∀ clause ∈ way, ∀ v ∈ clause.vars, v.owner ≠ .ofClass c) :
    ∃ e', Declarer.Leads u d' way e' ∧ Tracks u naming harmless c bindings e e' := by
  induction leads generalizing d' with
  | here d => exact ⟨d', .here d', tracks⟩
  | @up d e f g clause way member resolved seen _ ih =>
    have first := Declarer.Leads.extends_first member resolved seen
    have notBottom : d.classId ≠ c := fun same => acyclic c (same ▸ above)
    have further : Relation.TransGen u.Extends c f.classId := .tail above first
    obtain ⟨here, later⟩ := List.forall_mem_cons.1 inScope
    obtain ⟨f', seen', tracks'⟩ := up ids valid outside tracks member resolved seen
      (fun same => acyclic _ (.single (same ▸ first))) (fun same => acyclic c (same ▸ further))
      (fun v occurs bottom => absurd bottom (here v occurs)) fun same => absurd same notBottom
    obtain ⟨g', leads', tracked⟩ := ih tracks' further later
    exact ⟨g', .up (tracks.classId_eq ▸ member) resolved seen' leads', tracked⟩

/-- A way up from the class leads up from the applied class too. Occurrences of the class without
arguments are harmless if the first clause has none. -/
theorem of_leads (naming : Naming) (valid : u.Valid) (acyclic : u.Acyclic) {args : List Ty}
    {first : DeclType} {rest : List DeclType}
    (leads : Declarer.Leads u (.ofClass c) (first :: rest) e) (declared : ∀ a ∈ args, a.Declared u)
    (inScope : ∀ clause ∈ rest, ∀ v ∈ clause.vars, v.owner ≠ .ofClass c) :
    ∃ e', Declarer.Leads u (.applied c (u.bindVars (.ofClass c) args)) (first :: rest) e' ∧
      Tracks u naming (∀ t, first.resolve u = .ok t → c ∉ t.rawClasses) c
        (u.bindVars (.ofClass c) args) e e' := by
  have outside : ∀ v ∈ u.declaredVars, v.owner ≠ .ofClass c →
      valueOrSelf u (u.bindVars (.ofClass c) args) v = .variable (.free v) :=
    fun v bound other => valueOrSelf_bindVars_of_foreign ids bound other
  cases leads with
  | @up _ _ f _ _ _ member resolved seen later =>
    have step := Declarer.Leads.extends_first member resolved seen
    have notBottom : f.classId ≠ c := fun same => acyclic c (.single (same ▸ step))
    have base : Tracks u naming (∀ t, first.resolve u = .ok t → c ∉ t.rawClasses) c
        (u.bindVars (.ofClass c) args) (.ofClass c) (.applied c (u.bindVars (.ofClass c) args)) :=
      bottom ids declared
    obtain ⟨f', seen', tracks⟩ := base.up ids valid outside member resolved seen notBottom
      notBottom (fun _ _ _ => rfl) fun _ harmless => harmless _ resolved
    obtain ⟨e', leads', tracked⟩ := tracks.along ids valid acyclic outside later (.single step) inScope
    exact ⟨e', .up member resolved seen' leads', tracked⟩

end Tracks

end JavaTypes
