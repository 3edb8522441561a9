import JavaTypes.Proofs.Application

/-!
What substitution preserves. Settled types stay settled and declared variables stay declared; what
is noted down in a substituted type is what is noted down in the values of the variables of the type
and in what becomes of its classes without arguments.
-/
namespace JavaTypes

variable {u : Universe} {raw : RawClasses} {bindings : List TyVar}

theorem subst_ofClass_of_free {c : ClassId}
    (free : ∀ v ∈ u.classVariables c, valueOrSelf u bindings v.ref = .variable (.free v.ref)) :
    (Ty.ofClass c).subst u raw bindings = .ofClass c := by
  cases raw with
  | kept => rfl
  | filled =>
    have unbound : ((u.classVariables c).map fun v => rebindFree u bindings v.ref).any
        TyVar.isBound = false := by
      refine List.any_eq_false.2 fun b member => ?_
      obtain ⟨v, own, rfl⟩ := List.mem_map.1 member
      rw [rebindFree_eq, free v own, TyVar.bindTo_own (v := .free v.ref) (r := v.ref) rfl]
      simp [TyVar.isBound]
    simp only [Ty.subst, unbound, Bool.false_eq_true, if_false]

theorem settled_valueOrSelf (values : ∀ s ∈ valuesOf bindings, s.Settled) (v : VarRef) :
    (valueOrSelf u bindings v).Settled := by
  cases found : valueFor? u bindings v with
  | some s => exact valueOrSelf_of_some found ▸ values s (mem_values_of_valueFor? found)
  | none => exact valueOrSelf_of_none found ▸ .free v

theorem declared_valueOrSelf (values : ∀ s ∈ valuesOf bindings, s.Declared u) {v : VarRef}
    (declared : v ∈ u.declaredVars) : (valueOrSelf u bindings v).Declared u := by
  cases found : valueFor? u bindings v with
  | some s => exact valueOrSelf_of_some found ▸ values s (mem_values_of_valueFor? found)
  | none =>
    rw [valueOrSelf_of_none found]
    simpa [Ty.Declared, Ty.mentioned] using declared

theorem settled_applied_bindTo {α : Type} {c : ClassId} {items : List α} {var : α → VarRef}
    {value : α → Ty} (settled : ∀ x ∈ items, (value x).Settled) :
    (Ty.applied c (items.map fun x => (TyVar.free (var x)).bindTo u (value x))).Settled := by
  refine .applied _ _ fun v s member => ?_
  obtain ⟨x, inside, eq⟩ := List.mem_map.1 member
  obtain ⟨-, rfl⟩ := TyVar.of_bindTo_eq_bound eq
  exact settled x inside

theorem declared_applied_bindTo {α : Type} {c : ClassId} {items : List α} {var : α → VarRef}
    {value : α → Ty} (vars : ∀ x ∈ items, var x ∈ u.declaredVars)
    (declared : ∀ x ∈ items, (value x).Declared u) :
    (Ty.applied c (items.map fun x => (TyVar.free (var x)).bindTo u (value x))).Declared u := by
  intro w occurs
  simp only [Ty.mentioned, Ty.gather_applied, List.mem_flatMap] at occurs
  obtain ⟨b, member, occurs⟩ := occurs
  obtain ⟨x, inside, rfl⟩ := List.mem_map.1 member
  rcases TyVar.mentioned_bindTo occurs with rfl | occurs
  · exact vars x inside
  · exact declared x inside w occurs

theorem TyVar.rebind_eq : TyVar.rebind u raw bindings =
    fun b => (TyVar.free b.ref).bindTo u (b.shown.subst u raw bindings) := by
  funext b
  cases b <;> rfl

/-- A class without arguments is applied to the values of its variables, unless none has a value. -/
theorem subst_ofClass_filled (bindings : List TyVar) (c : ClassId) :
    (Ty.ofClass c).subst u .filled bindings = .applied c ((u.classVariables c).map fun v =>
        (TyVar.free v.ref).bindTo u (valueOrSelf u bindings v.ref)) ∨
      (Ty.ofClass c).subst u .filled bindings = .ofClass c ∧
        ∀ v ∈ u.classVariables c, ∃ r, valueOrSelf u bindings v.ref = .variable (.free r) ∧
          u.varKey r = u.varKey v.ref := by
  by_cases bound : ((u.classVariables c).map fun v => rebindFree u bindings v.ref).any
      TyVar.isBound = true
  · left
    simp only [Ty.subst]
    rw [if_pos bound]
    rfl
  · right
    refine ⟨by simp only [Ty.subst, bound]; rfl, fun v own => ?_⟩
    rcases TyVar.bindTo_cases (u := u) (.free v.ref) (valueOrSelf u bindings v.ref) with
      ⟨r, value, key, -⟩ | kept
    · exact ⟨r, value, key⟩
    · refine absurd (List.any_eq_true.2 ⟨_, List.mem_map.2 ⟨v, own, rfl⟩, ?_⟩) bound
      rw [rebindFree_eq, kept]
      rfl

theorem Ty.Settled.shown {c : ClassId} {vars : List TyVar} (settled : (Ty.applied c vars).Settled) :
    ∀ b ∈ vars, b.shown.Settled := by
  cases settled with
  | applied _ _ inner =>
    intro b member
    cases b with
    | free v => exact .free v
    | bound v t => exact inner v t member

theorem Ty.Settled.subst {t : Ty} (settled : t.Settled)
    (values : ∀ s ∈ valuesOf bindings, s.Settled) : (t.subst u raw bindings).Settled := by
  induction settled with
  | ofClass c =>
    cases raw with
    | kept => exact .ofClass c
    | filled =>
      rcases subst_ofClass_filled (u := u) bindings c with eq | ⟨eq, -⟩
      · rw [eq]
        exact settled_applied_bindTo fun v _ => settled_valueOrSelf values v.ref
      · rw [eq]
        exact .ofClass c
  | free v => exact settled_valueOrSelf values v
  | array t _ ih => exact .array _ ih
  | wildcard upper lower _ _ ihUpper ihLower =>
    rw [Ty.subst_wildcard]
    exact .wildcard _ _ (List.forall_mem_map.2 ihUpper) (List.forall_mem_map.2 ihLower)
  | applied c vars inner ih =>
    rw [Ty.subst_applied, TyVar.rebind_eq]
    refine settled_applied_bindTo fun b member => ?_
    cases b with
    | free v => exact settled_valueOrSelf values v
    | bound v t => exact ih v t member

theorem Ty.Declared.subst {t : Ty} (settled : t.Settled) (declared : t.Declared u)
    (values : ∀ s ∈ valuesOf bindings, s.Declared u) : (t.subst u raw bindings).Declared u := by
  induction settled with
  | ofClass c =>
    have same : (Ty.ofClass c).Declared u := by simp [Ty.Declared, Ty.mentioned]
    cases raw with
    | kept => exact same
    | filled =>
      rcases subst_ofClass_filled (u := u) bindings c with eq | ⟨eq, -⟩
      · rw [eq]
        have own : ∀ v ∈ u.classVariables c, v.ref ∈ u.declaredVars := fun v member => by
          obtain ⟨w, bound, -, rfl⟩ := mem_variablesOf.1 member
          exact bound
        exact declared_applied_bindTo own fun v member => declared_valueOrSelf values (own v member)
      · rw [eq]
        exact same
  | free v => exact declared_valueOrSelf values (declared v (by simp [Ty.mentioned]))
  | array t _ ih => exact ih declared
  | wildcard upper lower _ _ ihUpper ihLower =>
    simp only [Ty.Declared, Ty.mentioned, Ty.gather_wildcard, List.mem_append,
      List.mem_flatMap] at declared
    rw [Ty.subst_wildcard]
    intro v occurs
    simp only [Ty.mentioned, Ty.gather_wildcard, List.mem_append, List.mem_flatMap,
      List.mem_map] at occurs
    rcases occurs with ⟨_, ⟨t, member, rfl⟩, occurs⟩ | ⟨_, ⟨t, member, rfl⟩, occurs⟩
    · exact ihUpper t member (fun w inside => declared w (.inl ⟨t, member, inside⟩)) v occurs
    · exact ihLower t member (fun w inside => declared w (.inr ⟨t, member, inside⟩)) v occurs
  | applied c vars _ ih =>
    simp only [Ty.Declared, Ty.mentioned, Ty.gather_applied, List.mem_flatMap] at declared
    rw [Ty.subst_applied, TyVar.rebind_eq]
    refine declared_applied_bindTo (fun b member => ?_) fun b member => ?_
    · exact declared b.ref ⟨b, member, by cases b <;> simp [TyVar.ref]⟩
    · cases b with
      | free v => exact declared_valueOrSelf values (declared v ⟨_, member, by simp⟩)
      | bound v t =>
        exact ih v t member fun w inside =>
          declared w ⟨_, member, by simpa [Ty.mentioned] using .inr inside⟩

section notes

variable {α : Type} {n : Notes α} (silent : ∀ v, n.boundVar v = [])

include silent

theorem TyVar.gather_bindTo {v : VarRef} {t : Ty}
    (own : ∀ r, t = .variable (.free r) → u.varKey r = u.varKey v → n.freeVar v = n.freeVar r) :
    ((TyVar.free v).bindTo u t).gather n = t.gather n := by
  rcases TyVar.bindTo_cases (u := u) (.free v) t with ⟨r, rfl, key, dropped⟩ | kept
  · rw [dropped]
    exact own r rfl key
  · simp [kept, silent]

/-- Notes come from classes without arguments and from free variables. -/
theorem Ty.mem_gather {t : Ty} {x : α} : x ∈ t.gather n ↔
    (∃ c ∈ t.rawClasses, x ∈ n.rawClass c) ∨ ∃ v ∈ t.freeVars, x ∈ n.freeVar v := by
  induction t using Ty.inductionOn with
  | ofClass c => simp [Ty.rawClasses, Ty.freeVars]
  | free v => simp [Ty.rawClasses, Ty.freeVars]
  | bound v t ih => simpa [Ty.rawClasses, Ty.freeVars, silent] using ih
  | array t ih => simpa [Ty.rawClasses, Ty.freeVars] using ih
  | wildcard upper lower ihUpper ihLower =>
    simp only [Ty.rawClasses, Ty.freeVars, Ty.gather_wildcard, List.mem_append,
      List.mem_flatMap] at ihUpper ihLower ⊢
    grind
  | applied c vars ih =>
    have each : ∀ b ∈ vars, x ∈ b.gather n ↔
        (∃ c ∈ (Ty.variable b).rawClasses, x ∈ n.rawClass c) ∨
          ∃ v ∈ (Ty.variable b).freeVars, x ∈ n.freeVar v := by
      intro b member
      cases b with
      | free v => simp [Ty.rawClasses, Ty.freeVars]
      | bound v t => simpa [Ty.rawClasses, Ty.freeVars, silent] using ih v t member
    simp only [Ty.rawClasses, Ty.freeVars, Ty.gather_applied, List.mem_flatMap,
      Ty.gather_variable] at each ⊢
    grind

/-- The notes on a substituted type are the notes on the values of its variables and on what becomes
of its classes without arguments, if notes on variables tell no two of one id apart. -/
theorem Ty.gather_subst {t : Ty} (byId : ∀ v w, u.varKey v = u.varKey w → n.freeVar v = n.freeVar w)
    (settled : t.Settled) : (t.subst u raw bindings).gather n = t.gather
      { rawClass := fun c => ((Ty.ofClass c).subst u raw bindings).gather n,
        freeVar := fun v => (valueOrSelf u bindings v).gather n } := by
  have shows (v : VarRef) (s : Ty) : ((TyVar.free v).bindTo u s).gather n = s.gather n :=
    TyVar.gather_bindTo silent fun r _ key => byId v r key.symm
  induction settled with
  | ofClass c => rfl
  | free v => rfl
  | array t _ ih => simpa using ih
  | wildcard upper lower _ _ ihUpper ihLower =>
    simp only [Ty.subst_wildcard, Ty.gather_wildcard, List.flatMap_map]
    exact congrArg₂ _ (List.flatMap_congr ihUpper) (List.flatMap_congr ihLower)
  | applied c vars _ ih =>
    rw [Ty.subst_applied, TyVar.rebind_eq, Ty.gather_applied, Ty.gather_applied, List.flatMap_map]
    refine List.flatMap_congr fun b member => ?_
    rw [shows]
    cases b with
    | free v => rfl
    | bound v s => simpa using ih v s member

end notes

/-- The ids of the variables that occur without a value. -/
def Ty.freeIds (u : Universe) (t : Ty) : List String := t.gather { freeVar := fun v => [u.varKey v] }

theorem Ty.mem_freeIds {t : Ty} {id : String} :
    id ∈ t.freeIds u ↔ ∃ v ∈ t.freeVars, u.varKey v = id := by
  rw [Ty.freeIds, Ty.mem_gather fun _ => rfl]
  simp [eq_comm]

section occurrences

variable {t : Ty} (settled : t.Settled)

include settled

theorem Ty.mem_rawClasses_subst {c : ClassId} : c ∈ (t.subst u raw bindings).rawClasses ↔
    (∃ d ∈ t.rawClasses, c ∈ ((Ty.ofClass d).subst u raw bindings).rawClasses) ∨
      ∃ v ∈ t.freeVars, c ∈ (valueOrSelf u bindings v).rawClasses := by
  rw [Ty.rawClasses, Ty.gather_subst (fun _ => rfl) (fun _ _ _ => rfl) settled,
    Ty.mem_gather fun _ => rfl]
  rfl

/-- The ids that occur free after substitution in scope are those in the values. -/
theorem Ty.mem_freeIds_resolveInScope {id : String} :
    id ∈ (t.resolveInScope u bindings).freeIds u ↔
      ∃ v ∈ t.freeVars, id ∈ (valueOrSelf u bindings v).freeIds u := by
  rw [Ty.resolveInScope, Ty.freeIds,
    Ty.gather_subst (fun _ => rfl) (fun _ _ same => by simp [same]) settled,
    Ty.mem_gather fun _ => rfl]
  simp [Ty.freeIds]

end occurrences

end JavaTypes
