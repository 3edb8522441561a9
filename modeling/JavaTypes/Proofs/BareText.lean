import JavaTypes.Member.Executable
import JavaTypes.Proofs.Composition

/-!
Types written bare. Where all variables count as defined, no bound is looked up, so a pass neither
fails nor touches its set of defined variables: it is a function of the type. The text of a
substituted type is the text of the type with each variable read as the text of its value, as long
as variables that are declared have ids of their own. Override keys are such texts.
-/
namespace JavaTypes

mutual

/-- The text of a type, given those of classes without arguments and of free variables. -/
def Ty.textWith (u : Universe) (imports : Imports) (onClass : ClassId → String)
    (onVar : VarRef → String) : Ty → String
  | .ofClass c => onClass c
  | .applied c bindings =>
    u.className imports c ++ angled (bindingTexts u imports onClass onVar bindings)
  | .variable (.free v) => onVar v
  | .variable (.bound _ t) => t.textWith u imports onClass onVar
  | .wildcard upper lower =>
    "?" ++ boundClause " super " (typeTexts u imports onClass onVar lower) ++
      boundClause " extends " (typeTexts u imports onClass onVar upper)
  | .array element => element.textWith u imports onClass onVar ++ "[]"

def typeTexts (u : Universe) (imports : Imports) (onClass : ClassId → String)
    (onVar : VarRef → String) : List Ty → List String
  | [] => []
  | t :: rest => t.textWith u imports onClass onVar :: typeTexts u imports onClass onVar rest

def bindingTexts (u : Universe) (imports : Imports) (onClass : ClassId → String)
    (onVar : VarRef → String) : List TyVar → List String
  | [] => []
  | .free v :: rest => onVar v :: bindingTexts u imports onClass onVar rest
  | .bound _ t :: rest =>
    t.textWith u imports onClass onVar :: bindingTexts u imports onClass onVar rest

end

def TyVar.shown : TyVar → Ty
  | .free v => .variable (.free v)
  | .bound _ t => t

@[simp] theorem TyVar.shown_free (v : VarRef) : (TyVar.free v).shown = .variable (.free v) := rfl

@[simp] theorem TyVar.shown_bound (v : VarRef) (t : Ty) : (TyVar.bound v t).shown = t := rfl

section equations

variable {u : Universe} {imports : Imports} {onClass : ClassId → String} {onVar : VarRef → String}

@[simp] theorem Ty.textWith_ofClass (c : ClassId) :
    (Ty.ofClass c).textWith u imports onClass onVar = onClass c := rfl

@[simp] theorem Ty.textWith_free (v : VarRef) :
    (Ty.variable (.free v)).textWith u imports onClass onVar = onVar v := rfl

@[simp] theorem Ty.textWith_bound (v : VarRef) (t : Ty) :
    (Ty.variable (.bound v t)).textWith u imports onClass onVar =
      t.textWith u imports onClass onVar := rfl

@[simp] theorem Ty.textWith_array (t : Ty) :
    (Ty.array t).textWith u imports onClass onVar =
      t.textWith u imports onClass onVar ++ "[]" := rfl

theorem typeTexts_eq_map (types : List Ty) :
    typeTexts u imports onClass onVar types =
      types.map (Ty.textWith u imports onClass onVar) := by
  induction types with
  | nil => rfl
  | cons t rest ih => simp [typeTexts, ih]

theorem bindingTexts_eq_map (bindings : List TyVar) :
    bindingTexts u imports onClass onVar bindings =
      bindings.map fun b => b.shown.textWith u imports onClass onVar := by
  induction bindings with
  | nil => rfl
  | cons b rest ih => cases b <;> simp [bindingTexts, ih]

@[simp] theorem Ty.textWith_applied (c : ClassId) (bindings : List TyVar) :
    (Ty.applied c bindings).textWith u imports onClass onVar =
      u.className imports c ++
        angled (bindings.map fun b => b.shown.textWith u imports onClass onVar) := by
  simp [Ty.textWith, bindingTexts_eq_map]

@[simp] theorem Ty.textWith_wildcard (upper lower : List Ty) :
    (Ty.wildcard upper lower).textWith u imports onClass onVar =
      "?" ++ boundClause " super " (lower.map (Ty.textWith u imports onClass onVar)) ++
        boundClause " extends " (upper.map (Ty.textWith u imports onClass onVar)) := by
  simp [Ty.textWith, typeTexts_eq_map]

theorem Ty.textWith_congr {onClass' : ClassId → String} {onVar' : VarRef → String} {t : Ty}
    (classes : ∀ c ∈ t.rawClasses, onClass c = onClass' c)
    (vars : ∀ v ∈ t.freeVars, onVar v = onVar' v) :
    t.textWith u imports onClass onVar = t.textWith u imports onClass' onVar' := by
  induction t using Ty.inductionOn with
  | ofClass c => exact classes c (by simp [Ty.rawClasses])
  | free v => exact vars v (by simp [Ty.freeVars])
  | bound v t ih =>
    exact ih (fun c occurs => classes c (by simpa [Ty.rawClasses] using occurs))
      fun w occurs => vars w (by simpa [Ty.freeVars] using occurs)
  | array t ih => simp only [Ty.textWith_array, ih classes vars]
  | applied c bindings ih =>
    simp only [Ty.freeVars, Ty.rawClasses, Ty.gather_applied, List.mem_flatMap] at classes vars
    have texts : bindings.map (fun b => b.shown.textWith u imports onClass onVar) =
        bindings.map fun b => b.shown.textWith u imports onClass' onVar' := by
      refine List.map_congr_left fun b member => ?_
      cases b with
      | free v => exact vars v ⟨_, member, by simp⟩
      | bound v t =>
        refine ih v t member (fun d occurs => ?_) fun w occurs => ?_
        · exact classes d ⟨_, member, by simpa [Ty.rawClasses] using occurs⟩
        · exact vars w ⟨_, member, by simpa [Ty.freeVars] using occurs⟩
    rw [Ty.textWith_applied, Ty.textWith_applied, texts]
  | wildcard upper lower ihUpper ihLower =>
    simp only [Ty.freeVars, Ty.rawClasses, Ty.gather_wildcard, List.mem_append,
      List.mem_flatMap] at classes vars
    have uppers : upper.map (Ty.textWith u imports onClass onVar) =
        upper.map (Ty.textWith u imports onClass' onVar') :=
      List.map_congr_left fun t member =>
        ihUpper t member (fun c occurs => classes c (.inl ⟨t, member, occurs⟩))
          fun v occurs => vars v (.inl ⟨t, member, occurs⟩)
    have lowers : lower.map (Ty.textWith u imports onClass onVar) =
        lower.map (Ty.textWith u imports onClass' onVar') :=
      List.map_congr_left fun t member =>
        ihLower t member (fun c occurs => classes c (.inr ⟨t, member, occurs⟩))
          fun v occurs => vars v (.inr ⟨t, member, occurs⟩)
    rw [Ty.textWith_wildcard, Ty.textWith_wildcard, uppers, lowers]

end equations

/-- The variables that stand for type parameters the universe has. -/
def Universe.declaredVars (u : Universe) : Set VarRef := {v | (u.typeParam? v).isSome}

def Ty.Declared (u : Universe) (t : Ty) : Prop := ∀ v ∈ t.mentioned, v ∈ u.declaredVars

theorem Ty.freeVars_subset_mentioned (t : Ty) : t.freeVars ⊆ t.mentioned := by
  induction t using Ty.inductionOn with
  | ofClass | free => simp [Ty.freeVars, Ty.mentioned]
  | bound v t ih => simpa [Ty.freeVars, Ty.mentioned] using List.subset_cons_of_subset v ih
  | array t ih => simpa [Ty.freeVars, Ty.mentioned] using ih
  | applied c bindings ih =>
    intro w occurs
    simp only [Ty.freeVars, Ty.mentioned, Ty.gather_applied, List.mem_flatMap] at occurs ⊢
    obtain ⟨b, member, occurs⟩ := occurs
    refine ⟨b, member, ?_⟩
    cases b with
    | free v => exact occurs
    | bound v t => exact List.mem_append_right _ (ih v t member (by simpa [Ty.freeVars] using occurs))
  | wildcard upper lower ihUpper ihLower =>
    intro w occurs
    simp only [Ty.freeVars, Ty.mentioned, Ty.gather_wildcard, List.mem_append,
      List.mem_flatMap] at occurs ⊢
    rcases occurs with ⟨t, member, occurs⟩ | ⟨t, member, occurs⟩
    · exact .inl ⟨t, member, ihUpper t member occurs⟩
    · exact .inr ⟨t, member, ihLower t member occurs⟩

section substitution

variable {u : Universe} {imports : Imports} {onClass : ClassId → String} {onVar : VarRef → String}

/-- A variable that substitution leaves, with the id of a declared one, is that one. -/
theorem eq_of_subst_eq_free (ids : Set.InjOn u.varKey u.declaredVars) {t : Ty} {raw : RawClasses}
    {bindings : List TyVar} {v r : VarRef} (bound : v ∈ u.declaredVars) (declared : t.Declared u)
    (values : ∀ s ∈ valuesOf bindings, s.Declared u)
    (result : t.subst u raw bindings = .variable (.free r)) (key : u.varKey r = u.varKey v) :
    r = v := by
  refine ids ?_ bound key
  rcases List.mem_append.1 (mem_freeVars_of_subst_eq_free result) with occurs | occurs
  · exact declared r (t.freeVars_subset_mentioned occurs)
  · obtain ⟨value, member, occurs⟩ := List.mem_flatMap.1 occurs
    exact values value member r (value.freeVars_subset_mentioned occurs)

/-- Binding a variable changes nothing that is shown, unless a variable is taken for another. -/
theorem TyVar.textWith_shown_bindTo {v : VarRef} {t : Ty}
    (own : ∀ r, t = .variable (.free r) → u.varKey r = u.varKey v → onVar v = onVar r) :
    ((TyVar.free v).bindTo u t).shown.textWith u imports onClass onVar =
      t.textWith u imports onClass onVar := by
  rcases TyVar.bindTo_cases (u := u) (.free v) t with ⟨r, rfl, key, dropped⟩ | kept
  · rw [dropped]
    exact own r rfl key
  · rw [kept]
    rfl

/-- The text of a substituted type is the text of the type with the substitution carried out at
classes without arguments and at free variables. -/
theorem Ty.textWith_subst {t : Ty} {raw : RawClasses} {bindings : List TyVar}
    (ids : Set.InjOn u.varKey u.declaredVars) (settled : t.Settled) (declared : t.Declared u)
    (values : ∀ s ∈ valuesOf bindings, s.Declared u) :
    (t.subst u raw bindings).textWith u imports onClass onVar =
      t.textWith u imports
        (fun c => ((Ty.ofClass c).subst u raw bindings).textWith u imports onClass onVar)
        (fun v => (valueOrSelf u bindings v).textWith u imports onClass onVar) := by
  have shows {v : VarRef} {s : Ty} (bound : v ∈ u.declaredVars) (inner : s.Declared u) :
      ((TyVar.free v).bindTo u (s.subst u raw bindings)).shown.textWith u imports onClass onVar =
        (s.subst u raw bindings).textWith u imports onClass onVar :=
    TyVar.textWith_shown_bindTo fun r result key => by
      rw [eq_of_subst_eq_free ids bound inner values result key]
  induction settled with
  | ofClass c => rfl
  | free v => rfl
  | array t _ ih => simp only [Ty.subst_array, Ty.textWith_array, ih declared]
  | wildcard upper lower _ _ ihUpper ihLower =>
    simp only [Ty.Declared, Ty.mentioned, Ty.gather_wildcard, List.mem_append,
      List.mem_flatMap] at declared
    have uppers := List.map_congr_left fun t member =>
      ihUpper t member fun v occurs => declared v (.inl ⟨t, member, occurs⟩)
    have lowers := List.map_congr_left fun t member =>
      ihLower t member fun v occurs => declared v (.inr ⟨t, member, occurs⟩)
    rw [Ty.subst_wildcard, Ty.textWith_wildcard, Ty.textWith_wildcard, ← uppers, ← lowers,
      List.map_map, List.map_map]
    rfl
  | applied c vars _ ih =>
    simp only [Ty.Declared, Ty.mentioned, Ty.gather_applied, List.mem_flatMap] at declared
    simp only [Ty.subst_applied, Ty.textWith_applied, List.map_map]
    congr 2
    refine List.map_congr_left fun b member => ?_
    cases b with
    | free v =>
      have bound : v ∈ u.declaredVars := declared v ⟨_, member, by simp⟩
      exact shows (s := .variable (.free v)) bound (by simpa [Ty.Declared, Ty.mentioned] using bound)
    | bound v s =>
      have inner : s.Declared u := fun w occurs =>
        declared w ⟨_, member, by simpa [Ty.mentioned] using .inr occurs⟩
      exact (shows (declared v ⟨_, member, by simp⟩) inner).trans (ih v s member inner)

end substitution

section bare

variable (u : Universe) (naming : Naming)

/-- What a bare pass writes for a free variable. -/
def nameOf (v : VarRef) : String := (naming.aliases.lookup (u.varKey v)).getD (u.varName v)

def classText (c : ClassId) : String :=
  let (bottom, depth) := u.innermost c.index c
  u.className naming.imports bottom ++
    angled ((u.classVariables bottom).map fun v => nameOf u naming v.ref) ++ brackets depth

def Ty.bareText (t : Ty) : String :=
  t.textWith u naming.imports (classText u naming) (nameOf u naming)

/-- What a bare pass writes for a type in which variables take the values bindings give them. -/
def Ty.textUnder (bindings : List TyVar) (t : Ty) : String :=
  t.textWith u naming.imports (classText u naming)
    fun v => (valueOrSelf u bindings v).bareText u naming

variable {u naming} {bounds : VarRef → Rendering String}

theorem Ty.bareText_resolveInScope (ids : Set.InjOn u.varKey u.declaredVars) {t : Ty}
    {bindings : List TyVar} (settled : t.Settled) (declared : t.Declared u)
    (values : ∀ s ∈ valuesOf bindings, s.Declared u) :
    (t.resolveInScope u bindings).bareText u naming = t.textUnder u naming bindings :=
  Ty.textWith_subst ids settled declared values

theorem writeFree_bare (bare : naming.bare = true) (v : VarRef) :
    writeFree u naming bounds v = pure (nameOf u naming v) := by
  simp [writeFree, nameOf, bare]

theorem writeDeclared_bare (bare : naming.bare = true) (vars : List TyVar) :
    writeDeclared u naming bounds vars = pure (vars.map fun v => nameOf u naming v.ref) := by
  induction vars with
  | nil => rfl
  | cons v rest ih => simp [writeDeclared, writeFree_bare bare, ih]

theorem writeVars_eq_writeAll {withVars : Bool} (bindings : List TyVar) :
    writeVars u naming withVars bounds bindings =
      writeAll u naming withVars bounds (bindings.map TyVar.shown) := by
  induction bindings with
  | nil => rfl
  | cons b rest ih => cases b <;> simp only [writeVars, writeAll, List.map_cons, ih] <;> rfl

theorem writeAll_eq_pure {types : List Ty} {textOf : Ty → String}
    (each : ∀ t ∈ types, t.write u naming true bounds = pure (textOf t)) :
    writeAll u naming true bounds types = pure (types.map textOf) := by
  induction types with
  | nil => rfl
  | cons t rest ih =>
    obtain ⟨first, others⟩ := List.forall_mem_cons.1 each
    simp [writeAll, first, ih others]

theorem writeVars_eq_pure (bare : naming.bare = true) {bindings : List TyVar}
    (each : ∀ v t, .bound v t ∈ bindings →
      t.write u naming true bounds = pure (t.bareText u naming)) :
    writeVars u naming true bounds bindings =
      pure (bindings.map fun b => b.shown.bareText u naming) := by
  induction bindings with
  | nil => rfl
  | cons b rest ih =>
    have others := ih fun v t member => each v t (List.mem_cons_of_mem b member)
    cases b with
    | free v =>
      simp [writeVars, writeFree_bare bare, others, Ty.bareText]
    | bound v t =>
      simp [writeVars, each v t List.mem_cons_self, others]

/-- A bare pass writes the text of a type and does nothing else. -/
theorem Ty.write_bare (bare : naming.bare = true) (t : Ty) :
    t.write u naming true bounds = pure (t.bareText u naming) := by
  induction t using Ty.inductionOn with
  | ofClass c =>
    simp [Ty.write, writeDeclared_bare bare, Ty.bareText, classText]
  | free v => simp [Ty.write, writeFree_bare bare, Ty.bareText]
  | bound v t ih => simpa [Ty.write, Ty.bareText] using ih
  | array t ih => simp [Ty.write, ih, Ty.bareText]
  | applied c bindings ih =>
    simp [Ty.write, writeVars_eq_pure bare ih, Ty.bareText]
  | wildcard upper lower ihUpper ihLower =>
    simp only [Ty.write, writeAll_eq_pure ihUpper, writeAll_eq_pure ihLower, pure_bind]
    rw [Ty.bareText, Ty.textWith_wildcard]
    rfl

end bare

end JavaTypes
