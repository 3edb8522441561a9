import JavaTypes.Proofs.Building

/-!
What a type shows of type variables, and what their bounds lead to. A declared type is resolved
unless there is a form in it that no type stands for.
-/
namespace JavaTypes

/-- A form that no type stands for is in a declared type, at any depth. -/
inductive DeclType.Unsupported : DeclType → Prop where
  | other (shape : String) : Unsupported (.other shape)
  | argument {c : ClassId} {args : List DeclType} {t : DeclType} :
      t ∈ args → t.Unsupported → Unsupported (.applied c args)
  | upper {upper lower : List DeclType} {t : DeclType} :
      t ∈ upper → t.Unsupported → Unsupported (.wildcard upper lower)
  | lower {upper lower : List DeclType} {t : DeclType} :
      t ∈ lower → t.Unsupported → Unsupported (.wildcard upper lower)
  | element {t : DeclType} : t.Unsupported → Unsupported (.array t)

/-- The free variables that are met in a type, with or without the variables of its classes. -/
inductive Ty.Shows (u : Universe) (withVars : Bool) : Ty → VarRef → Prop where
  | free (v : VarRef) : Shows u withVars (.variable (.free v)) v
  | value {v w : VarRef} {t : Ty} :
      t.Shows u withVars w → Shows u withVars (.variable (.bound v t)) w
  | element {t : Ty} {w : VarRef} : t.Shows u withVars w → Shows u withVars (.array t) w
  | upper {upper lower : List Ty} {t : Ty} {w : VarRef} :
      t ∈ upper → t.Shows u withVars w → Shows u withVars (.wildcard upper lower) w
  | lower {upper lower : List Ty} {t : Ty} {w : VarRef} :
      t ∈ lower → t.Shows u withVars w → Shows u withVars (.wildcard upper lower) w
  | binding {c : ClassId} {bindings : List TyVar} {b : TyVar} {w : VarRef} :
      withVars = true → b ∈ bindings → b.shown.Shows u withVars w →
        Shows u withVars (.applied c bindings) w
  | declared {c : ClassId} {w : VarRef} :
      withVars = true → (u.decl c).component = none → w.owner = .ofClass c →
        w ∈ u.declaredVars → Shows u withVars (.ofClass c) w
  | component {c e : ClassId} {w : VarRef} :
      (u.decl c).component = some e → Ty.Shows u withVars (.ofClass e) w →
        Shows u withVars (.ofClass c) w

/-- The variables, other than those of the given ids, that are shown or that the bounds of such a
variable lead to. -/
inductive Universe.Reaches (u : Universe) (withVars : Bool) (defined : List String)
    (shown : VarRef → Prop) : VarRef → Prop where
  | shown {v : VarRef} : shown v → u.varKey v ∉ defined → Reaches u withVars defined shown v
  | bound {v w : VarRef} {bounds : List Ty} {t : Ty} :
      u.Reaches withVars defined shown v → u.varBounds v = .ok bounds → t ∈ bounds →
        t.Shows u withVars w → u.varKey w ∉ defined → Reaches u withVars defined shown w

variable {u : Universe} {withVars : Bool}

section resolution

theorem not_mem_of_root {t : DeclType} (root : t.isRoot = true) : ¬ t.Unsupported := by
  cases t with
  | ofClass => exact nofun
  | _ => cases root

theorem DeclType.not_unsupported_of_resolve {t : DeclType} {r : Ty} (resolved : t.resolve u = .ok r) :
    ¬ t.Unsupported := by
  have bounds {types : List DeclType} {rs : List Ty}
      (each : List.Forall₂ (fun t r => t.resolve u = .ok r ∧ ¬ t.Unsupported)
        (types.filter fun t => !t.isRoot) rs) : ∀ t ∈ types, ¬ t.Unsupported := by
    intro t member
    cases root : t.isRoot with
    | true => exact not_mem_of_root root
    | false =>
      obtain ⟨r, -, -, supported⟩ :=
        exists_left_of_mem each.flip (List.mem_filter.2 ⟨member, by simp [root]⟩)
      exact supported
  refine resolve_induction ?ofClass ?applied ?free ?wildcard ?array t r resolved
  case ofClass => exact fun _ => nofun
  case free => exact fun _ => nofun
  case array =>
    intro t _ _ supported unsupported
    cases unsupported with
    | element inner => exact supported inner
  case wildcard =>
    intro upper lower _ _ eachUpper eachLower unsupported
    cases unsupported with
    | upper member inner => exact bounds eachUpper _ member inner
    | lower member inner => exact bounds eachLower _ member inner
  case applied =>
    intro c args types each unsupported
    cases unsupported with
    | argument member inner =>
      obtain ⟨r, -, -, supported⟩ := exists_left_of_mem each.flip member
      exact supported inner

mutual

theorem DeclType.exists_resolve : ∀ t : DeclType, ¬ t.Unsupported → ∃ r, t.resolve u = .ok r
  | .ofClass c, _ => ⟨.ofClass c, rfl⟩
  | .applied c args, supported => by
    obtain ⟨types, all⟩ := exists_resolveAll args fun _ member inner =>
      supported (.argument member inner)
    exact ⟨_, bind_eq_ok.2 ⟨types, all, rfl⟩⟩
  | .variable v, _ => ⟨.variable (.free v), rfl⟩
  | .wildcard upper lower, supported => by
    obtain ⟨uppers, allUpper⟩ := exists_resolveBounds upper fun _ member inner =>
      supported (.upper member inner)
    obtain ⟨lowers, allLower⟩ := exists_resolveBounds lower fun _ member inner =>
      supported (.lower member inner)
    exact ⟨_, bind_eq_ok.2 ⟨uppers, allUpper, bind_eq_ok.2 ⟨lowers, allLower, rfl⟩⟩⟩
  | .array element, supported => by
    obtain ⟨r, resolved⟩ := DeclType.exists_resolve element fun inner => supported (.element inner)
    exact ⟨_, bind_eq_ok.2 ⟨r, resolved, rfl⟩⟩
  | .other shape, supported => absurd (.other shape) supported

theorem exists_resolveAll : ∀ types : List DeclType, (∀ t ∈ types, ¬ t.Unsupported) →
    ∃ resolved, resolveAll u types = .ok resolved
  | [], _ => ⟨[], rfl⟩
  | t :: rest, supported => by
    obtain ⟨first, others⟩ := List.forall_mem_cons.1 supported
    obtain ⟨r, resolved⟩ := DeclType.exists_resolve t first
    obtain ⟨rs, all⟩ := exists_resolveAll rest others
    exact ⟨_, bind_eq_ok.2 ⟨r, resolved, bind_eq_ok.2 ⟨rs, all, rfl⟩⟩⟩

theorem exists_resolveBounds : ∀ types : List DeclType, (∀ t ∈ types, ¬ t.Unsupported) →
    ∃ resolved, resolveBounds u types = .ok resolved
  | [], _ => ⟨[], rfl⟩
  | t :: rest, supported => by
    obtain ⟨first, others⟩ := List.forall_mem_cons.1 supported
    obtain ⟨rs, all⟩ := exists_resolveBounds rest others
    cases root : t.isRoot with
    | true => exact ⟨rs, by simpa [resolveBounds, root] using all⟩
    | false =>
      obtain ⟨r, resolved⟩ := DeclType.exists_resolve t first
      exact ⟨r :: rs, by simp [resolveBounds, root, resolved, all, bind, Except.bind, pure, Except.pure]⟩

end

/-- The bounds of a variable are resolved unless one of them has an unsupported form in it. -/
theorem varBounds_eq_ok_iff {v : VarRef} : (∃ bounds, u.varBounds v = .ok bounds) ↔
    ¬ ∃ p, u.typeParam? v = some p ∧ ∃ t ∈ p.bounds, t.Unsupported := by
  unfold Universe.varBounds
  cases found : u.typeParam? v with
  | none => simp
  | some p =>
    simp only [Option.some.injEq, exists_eq_left', not_exists, not_and]
    refine ⟨?_, exists_resolveBounds p.bounds⟩
    rintro ⟨bounds, resolved⟩ t member
    rw [resolveBounds_eq, resolveAll_eq_ok] at resolved
    cases root : t.isRoot with
    | true => exact not_mem_of_root root
    | false =>
      obtain ⟨r, -, resolved⟩ :=
        exists_left_of_mem resolved.flip (List.mem_filter.2 ⟨member, by simp [root]⟩)
      exact DeclType.not_unsupported_of_resolve resolved

end resolution

section shows

variable {w : VarRef}

@[simp] theorem Ty.shows_free {v : VarRef} :
    (Ty.variable (.free v)).Shows u withVars w ↔ w = v := by
  constructor
  · intro shows
    cases shows
    rfl
  · rintro rfl
    exact .free w

@[simp] theorem Ty.shows_bound {v : VarRef} {t : Ty} :
    (Ty.variable (.bound v t)).Shows u withVars w ↔ t.Shows u withVars w := by
  refine ⟨fun shows => ?_, .value⟩
  cases shows with
  | value inner => exact inner

@[simp] theorem Ty.shows_array {t : Ty} :
    (Ty.array t).Shows u withVars w ↔ t.Shows u withVars w := by
  refine ⟨fun shows => ?_, .element⟩
  cases shows with
  | element inner => exact inner

@[simp] theorem Ty.shows_wildcard {upper lower : List Ty} :
    (Ty.wildcard upper lower).Shows u withVars w ↔
      (∃ t ∈ lower, t.Shows u withVars w) ∨ ∃ t ∈ upper, t.Shows u withVars w := by
  constructor
  · intro shows
    cases shows with
    | upper member inner => exact .inr ⟨_, member, inner⟩
    | lower member inner => exact .inl ⟨_, member, inner⟩
  · rintro (⟨t, member, inner⟩ | ⟨t, member, inner⟩)
    · exact .lower member inner
    · exact .upper member inner

@[simp] theorem Ty.shows_applied {c : ClassId} {bindings : List TyVar} :
    (Ty.applied c bindings).Shows u withVars w ↔
      withVars = true ∧ ∃ b ∈ bindings, b.shown.Shows u withVars w := by
  constructor
  · intro shows
    cases shows with
    | binding vars member inner => exact ⟨vars, _, member, inner⟩
  · rintro ⟨vars, b, member, inner⟩
    exact .binding vars member inner

/-- An array class shows the variables of the class at its bottom. -/
theorem Universe.Layered.shows_ofClass (layered : u.Layered) {limit : Nat} {c : ClassId}
    (enough : c.index ≤ limit) : (Ty.ofClass c).Shows u withVars w ↔
      withVars = true ∧ ∃ b ∈ u.classVariables (u.innermost limit c).1, b.ref = w := by
  have plain {c : ClassId} (bottom : (u.decl c).component = none) :
      (Ty.ofClass c).Shows u withVars w ↔ withVars = true ∧ ∃ b ∈ u.classVariables c, b.ref = w := by
    constructor
    · intro shows
      cases shows with
      | declared vars _ owner declared =>
        exact ⟨vars, _, mem_variablesOf.2 ⟨w, declared, owner, rfl⟩, rfl⟩
      | component found => exact absurd (bottom.symm.trans found) nofun
    · rintro ⟨vars, b, own, rfl⟩
      obtain ⟨v, declared, owner, rfl⟩ := mem_variablesOf.1 own
      exact .declared vars bottom owner declared
  have step {c e : ClassId} (found : (u.decl c).component = some e) :
      (Ty.ofClass c).Shows u withVars w ↔ (Ty.ofClass e).Shows u withVars w := by
    constructor
    · intro shows
      cases shows with
      | declared _ plain => exact absurd (plain.symm.trans found) nofun
      | component found' inner =>
        cases Option.some.inj (found.symm.trans found')
        exact inner
    · exact fun inner => .component found inner
  induction limit generalizing c with
  | zero =>
    cases found : (u.decl c).component with
    | none => exact plain found
    | some e =>
      have := layered c e found
      omega
  | succ limit ih =>
    cases found : (u.decl c).component with
    | none => simpa [innermost, found] using plain found
    | some e =>
      have lower : e.index ≤ limit := by
        have := layered c e found
        omega
      refine (step found).trans ((ih lower).trans ?_)
      simp [innermost, found]

end shows

namespace Universe.Reaches

variable {defined : List String} {shown : VarRef → Prop}

theorem not_mem {v : VarRef} (reaches : u.Reaches withVars defined shown v) :
    u.varKey v ∉ defined := by
  cases reaches with
  | shown _ new => exact new
  | bound _ _ _ _ new => exact new

/-- More is reached from more variables and with fewer of them left out. -/
theorem mono {defined' : List String} {shown' : VarRef → Prop} {v : VarRef}
    (reaches : u.Reaches withVars defined shown v) (more : ∀ w, shown w → shown' w)
    (fewer : defined' ⊆ defined) : u.Reaches withVars defined' shown' v := by
  induction reaches with
  | shown here new => exact .shown (more _ here) fun known => new (fewer known)
  | bound _ resolved member shows new ih =>
    exact .bound ih resolved member shows fun known => new (fewer known)

theorem of_bounds {v w : VarRef} {bounds : List Ty} (new : u.varKey v ∉ defined)
    (resolved : u.varBounds v = .ok bounds)
    (reaches : u.Reaches withVars (u.varKey v :: defined)
      (fun w => ∃ t ∈ bounds, t.Shows u withVars w) w) : u.Reaches withVars defined (· = v) w := by
  have self : u.Reaches withVars defined (· = v) v := .shown rfl new
  induction reaches with
  | shown here new' =>
    obtain ⟨t, member, shows⟩ := here
    exact .bound self resolved member shows fun known => new' (List.mem_cons_of_mem _ known)
  | bound _ resolved' member shows new' ih =>
    exact .bound ih resolved' member shows fun known => new' (List.mem_cons_of_mem _ known)

end Universe.Reaches

section declared

/-- Bounds refer to type parameters there are. -/
def Universe.BoundsDeclared (u : Universe) : Prop :=
  ∀ v p, u.typeParam? v = some p → ∀ t ∈ p.bounds, ∀ w ∈ t.vars, w ∈ u.declaredVars

theorem Universe.boundsDeclared_of_allVars (checked : ∀ v ∈ u.allVars, ∀ p ∈ u.typeParam? v,
    ∀ t ∈ p.bounds, ∀ w ∈ t.vars, (u.typeParam? w).isSome) : u.BoundsDeclared :=
  forall_typeParam checked

theorem Universe.BoundsDeclared.varBounds (valid : u.BoundsDeclared) {v : VarRef} {bounds : List Ty}
    (resolved : u.varBounds v = .ok bounds) : ∀ t ∈ bounds, t.Declared u := by
  intro r member
  unfold Universe.varBounds at resolved
  cases found : u.typeParam? v with
  | none =>
    rw [found] at resolved
    cases resolved
    cases member
  | some p =>
    simp only [found, resolveBounds_eq, resolveAll_eq_ok] at resolved
    obtain ⟨t, inside, resolved⟩ := exists_left_of_mem resolved member
    exact DeclType.declared_of_resolve resolved (valid v p found t (List.mem_of_mem_filter inside))

theorem Ty.Declared.shows {t : Ty} (declared : t.Declared u) {w : VarRef}
    (shows : t.Shows u withVars w) : w ∈ u.declaredVars := by
  induction shows with
  | free v => exact declared v (by simp [Ty.mentioned])
  | value _ ih =>
    refine ih fun w occurs => declared w ?_
    simpa [Ty.mentioned] using .inr occurs
  | element _ ih => exact ih declared
  | upper member _ ih =>
    refine ih fun w occurs => declared w ?_
    simp only [Ty.mentioned, Ty.gather_wildcard, List.mem_append, List.mem_flatMap]
    exact .inl ⟨_, member, occurs⟩
  | lower member _ ih =>
    refine ih fun w occurs => declared w ?_
    simp only [Ty.mentioned, Ty.gather_wildcard, List.mem_append, List.mem_flatMap]
    exact .inr ⟨_, member, occurs⟩
  | @binding c bindings b w _ member _ ih =>
    refine ih fun w occurs => declared w ?_
    simp only [Ty.mentioned, Ty.gather_applied, List.mem_flatMap]
    refine ⟨b, member, ?_⟩
    cases b with
    | free => exact occurs
    | bound => exact List.mem_append_right _ occurs
  | declared _ _ _ known => exact known
  | component _ _ ih => exact ih (by simp [Ty.Declared, Ty.mentioned])

theorem Universe.Reaches.mem_declaredVars (valid : u.BoundsDeclared) {shown : VarRef → Prop}
    (known : ∀ v, shown v → v ∈ u.declaredVars) {defined : List String} {v : VarRef}
    (reaches : u.Reaches withVars defined shown v) : v ∈ u.declaredVars := by
  induction reaches with
  | shown here _ => exact known _ here
  | bound _ resolved member shows _ _ => exact (valid.varBounds resolved _ member).shows shows

end declared

end JavaTypes
