import JavaTypes.Proofs.RenderedVars

/-!
Passes that fail. A variable is defined before its bounds are resolved and stays defined when that
fails, so a failed attempt to write a type leaves the variable it has failed at among those that need
no bounds. The next attempt writes this variable bare: it fails only if another variable with a bound
that is not supported is still reached. As each attempt that fails uses up one such variable, the type
is written after no more attempts than there are of them.
-/
namespace JavaTypes

variable {u : Universe} {naming : Naming} {withVars : Bool}

/-- What is so of a pass that met the variables `shown`, however it ended: no definition is lost, what
is new was reached, and a failure is that of a variable which is new itself. -/
structure Leaves (u : Universe) (withVars : Bool) (shown : VarRef → Prop) (before : List String)
    {α : Type} (outcome : Except ReflectionError α × List String) : Prop where
  grows : before ⊆ outcome.2
  reached : ∀ id ∈ outcome.2, id ∉ before → ∃ v, u.Reaches withVars before shown v ∧ u.varKey v = id
  failed : ∀ e, outcome.1 = .error e → ∃ v, u.Reaches withVars before shown v ∧
    u.varBounds v = .error e ∧ u.varKey v ∈ outcome.2

/-- A pass meets the variables `shown`, from whatever set of defined variables it starts. -/
def Attempts (u : Universe) (withVars : Bool) (shown : VarRef → Prop) {α : Type}
    (pass : Rendering α) : Prop :=
  ∀ before, Leaves u withVars shown before (pass.runFrom before)

namespace Leaves

variable {α : Type} {shown : VarRef → Prop} {before : List String}

theorem unchanged (a : α) : Leaves u withVars shown before (Except.ok a, before) where
  grows := List.Subset.refl before
  reached := fun _ inside new => absurd inside new
  failed := fun _ => nofun

/-- What follows from the bounds of a new variable follows from the variable, which comes first. -/
theorem of_bounds {v : VarRef} {bounds : List Ty} {outcome : Except ReflectionError α × List String}
    (new : u.varKey v ∉ before) (resolved : u.varBounds v = .ok bounds)
    (inner : Leaves u withVars (fun w => ∃ t ∈ bounds, t.Shows u withVars w) (u.varKey v :: before)
      outcome) : Leaves u withVars (· = v) before outcome where
  grows := List.Subset.trans (List.subset_cons_self _ _) inner.grows
  reached := fun id inside fresh => by
    by_cases self : id = u.varKey v
    · exact ⟨v, .shown rfl new, self.symm⟩
    · obtain ⟨w, reaches, key⟩ := inner.reached id inside (by simp [self, fresh])
      exact ⟨w, .of_bounds new resolved reaches, key⟩
  failed := fun e failed =>
    let ⟨w, reaches, unresolved, inside⟩ := inner.failed e failed
    ⟨w, .of_bounds new resolved reaches, unresolved, inside⟩

/-- Where the bounds of a new variable fail, the variable is defined and nothing else. -/
theorem of_error {v : VarRef} {e : ReflectionError} (new : u.varKey v ∉ before)
    (unresolved : u.varBounds v = .error e) :
    Leaves u withVars (· = v) before ((.error e, u.varKey v :: before) :
      Except ReflectionError α × List String) where
  grows := List.subset_cons_self _ _
  reached := fun id inside fresh =>
    ⟨v, .shown rfl new, ((List.mem_cons.1 inside).resolve_right fresh).symm⟩
  failed := by
    rintro _ ⟨⟩
    exact ⟨v, .shown rfl new, unresolved, List.mem_cons_self⟩

end Leaves

namespace Attempts

variable {α β : Type} {shown shown' : VarRef → Prop}

theorem pure (a : α) : Attempts u withVars shown (pure a) := fun _ => .unchanged a

theorem mono {pass : Rendering α} (attempts : Attempts u withVars shown pass)
    (more : ∀ v, shown v → shown' v) : Attempts u withVars shown' pass := fun before =>
  have leaves := attempts before
  { grows := leaves.grows
    reached := fun id inside new =>
      let ⟨v, reaches, key⟩ := leaves.reached id inside new
      ⟨v, reaches.mono more (List.Subset.refl _), key⟩
    failed := fun e failed =>
      let ⟨v, reaches, rest⟩ := leaves.failed e failed
      ⟨v, reaches.mono more (List.Subset.refl _), rest⟩ }

theorem bind {pass : Rendering α} {next : α → Rendering β} (first : Attempts u withVars shown pass)
    (second : ∀ a, Attempts u withVars shown' (next a)) :
    Attempts u withVars (fun v => shown v ∨ shown' v) (pass >>= next) := by
  intro before
  have leaves : Leaves u withVars (fun v => shown v ∨ shown' v) before (pass.runFrom before) :=
    first.mono (fun _ => .inl) before
  rw [Rendering.runFrom_bind]
  rcases outcome : pass.runFrom before with ⟨e | a, mid⟩
  · rw [outcome] at leaves
    exact ⟨leaves.grows, leaves.reached, fun e' same => by
      cases same
      exact leaves.failed e rfl⟩
  · rw [outcome] at leaves
    have later := second a mid
    refine ⟨List.Subset.trans leaves.grows later.grows, fun id inside new => ?_, fun e failed => ?_⟩
    · by_cases early : id ∈ mid
      · exact leaves.reached id early new
      · obtain ⟨v, reaches, key⟩ := later.reached id inside early
        exact ⟨v, reaches.mono (fun _ => .inr) leaves.grows, key⟩
    · obtain ⟨v, reaches, rest⟩ := later.failed e failed
      exact ⟨v, reaches.mono (fun _ => .inr) leaves.grows, rest⟩

theorem sequential :
    Sequential fun shown _ pass pass' => pass' = pass ∧ Attempts u withVars shown pass where
  pure a := ⟨rfl, .pure a⟩
  bind := fun ⟨same, first⟩ second =>
    ⟨by rw [same, funext fun a => (second a).1], first.bind fun a => (second a).2⟩

end Attempts

/-- Writing a type meets what the type shows, if writing a variable meets the variable. -/
theorem attempts_write {bounds : VarRef → Rendering String} (layered : u.Layered)
    (free : ∀ v, Attempts u withVars (· = v) (writeFree u naming bounds v)) (t : Ty) :
    Attempts u withVars (t.Shows u withVars) (t.write u naming withVars bounds) :=
  (Attempts.sequential.write layered rfl fun v _ => ⟨rfl, free v⟩).2

section bounds

variable (defines : naming.bare = false) (layered : u.Layered)

include defines layered

/-- Writing a variable meets the variable: where it is new, its bounds are what is met next. -/
theorem attempts_writeFree (limit : Nat) (v : VarRef) : Attempts u withVars (· = v)
    (writeFree u naming (writeBoundsUpTo u naming withVars (fun _ => return "") limit) v) := by
  induction limit generalizing v with
  | zero =>
    intro before
    rw [runFrom_writeFree defines]
    split
    · exact .unchanged _
    · next new =>
      exact ⟨List.subset_cons_self _ _, fun id inside fresh =>
        ⟨v, .shown rfl new, ((List.mem_cons.1 inside).resolve_right fresh).symm⟩, fun _ => nofun⟩
  | succ limit ih =>
    intro before
    rw [runFrom_writeFree defines]
    split
    · exact .unchanged _
    · next new =>
      cases resolved : u.varBounds v with
      | error e =>
        rw [writeBoundsUpTo_of_error resolved]
        exact .of_error new resolved
      | ok bounds =>
        have clause := Attempts.sequential.map (boundClause " extends ")
          (Attempts.sequential.writeAll fun t (_ : t ∈ bounds) => ⟨rfl, attempts_write layered ih t⟩)
        have written := Attempts.sequential.map (nameOf u naming v ++ ·) clause
        rw [writeBoundsUpTo_of_ok resolved]
        exact .of_bounds new resolved (written.2 (u.varKey v :: before))

end bounds

namespace Ty

@[simp] theorem naming_render (t : Ty) (ctx : RenderContext) (withVars : Bool) :
    (t.render u ctx withVars).2.naming = ctx.naming := rfl

theorem leaves_render (layered : u.Layered) (t : Ty) {ctx : RenderContext}
    (defines : ctx.naming.bare = false) (withVars : Bool) :
    Leaves u withVars (t.Shows u withVars) ctx.defined
      ((t.render u ctx withVars).1, (t.render u ctx withVars).2.defined) := by
  rw [t.render_eq_runFrom]
  exact attempts_write layered (attempts_writeFree defines layered _) t ctx.defined

/-- A context after some attempts to write a type in it. -/
def attempted (u : Universe) (t : Ty) (withVars : Bool) : Nat → RenderContext → RenderContext
  | 0, ctx => ctx
  | count + 1, ctx => t.attempted u withVars count (t.render u ctx withVars).2

end Ty

namespace Universe

/-- The number of type parameters with a bound that is not supported whose variables are not defined. -/
def unwritable (u : Universe) (defined : List String) : Nat :=
  u.allVars.countP fun v => !defined.contains (u.varKey v) && !(u.varBounds v).isOk

theorem mem_allVars_of_error {v : VarRef} {e : ReflectionError} (failed : u.varBounds v = .error e) :
    v ∈ u.allVars := by
  unfold varBounds at failed
  cases found : u.typeParam? v with
  | none =>
    rw [found] at failed
    cases failed
  | some p => exact mem_allVars_of_typeParam? found

/-- A pass that fails defines a variable that cannot be written, so fewer of these are left. -/
theorem unwritable_lt {α : Type} {shown : VarRef → Prop} {before after : List String}
    {e : ReflectionError} (leaves : Leaves u withVars shown before
      ((.error e, after) : Except ReflectionError α × List String)) :
    u.unwritable after < u.unwritable before := by
  obtain ⟨v, reaches, failed, inside⟩ := leaves.failed e rfl
  have new := reaches.not_mem
  refine countP_lt_countP (fun w _ left => ?_) (mem_allVars_of_error failed) ?_ ?_
  · simp only [Bool.and_eq_true, Bool.not_eq_true', List.contains_eq_mem, decide_eq_false_iff_not]
      at left ⊢
    exact ⟨fun known => left.1 (leaves.grows known), left.2⟩
  · simp [new, failed, Except.isOk, Except.toBool]
  · simp [show u.varKey v ∈ after from inside]

end Universe

theorem Ty.exists_attempted (layered : u.Layered) (t : Ty) (withVars : Bool) {ctx : RenderContext}
    (defines : ctx.naming.bare = false) : ∃ count ≤ u.unwritable ctx.defined, ∃ text,
      (t.render u (t.attempted u withVars count ctx) withVars).1 = .ok text := by
  induction left : u.unwritable ctx.defined using Nat.strong_induction_on generalizing ctx with
  | _ n ih =>
    have leaves := t.leaves_render layered defines withVars
    cases outcome : (t.render u ctx withVars).1 with
    | ok text => exact ⟨0, Nat.zero_le n, text, outcome⟩
    | error e =>
      rw [outcome] at leaves
      have fewer := Universe.unwritable_lt leaves
      have defines' : (t.render u ctx withVars).2.naming.bare = false := defines
      obtain ⟨count, enough, written⟩ := ih _ (left ▸ fewer) defines' rfl
      exact ⟨count + 1, by omega, written⟩

theorem Ty.render_fails_iff (layered : u.Layered) (ids : Set.InjOn u.varKey u.declaredVars)
    (valid : u.BoundsDeclared) {t : Ty} (declared : t.Declared u) {ctx : RenderContext}
    (defines : ctx.naming.bare = false) : (∃ e, (t.render u ctx withVars).1 = .error e) ↔
      ∃ v, u.Reaches withVars ctx.defined (t.Shows u withVars) v ∧
        ∃ p, u.typeParam? v = some p ∧ ∃ b ∈ p.bounds, b.Unsupported := by
  have visits := (agree_type defines layered valid (fun _ => return "") (fun _ => return "")
    withVars declared _ (Universe.undefined_le_paramCount ctx.defined)).2
  rw [t.render_eq_runFrom]
  exact visits.fails_iff ids valid fun _ => declared.shows

/-- An attempt to write a type that fails leaves the variable it has failed at defined, together with
those it has met before. The next attempt fails exactly if another variable with a bound that is not
supported is reached past these; and after no more attempts than there are such variables, the type is
written. -/
theorem Universe.Made.render_retried (made : u.Made) {t : Ty} {ctx : RenderContext}
    (defines : ctx.naming.bare = false) {e : ReflectionError}
    (failed : (t.render u ctx withVars).1 = .error e) :
    let after := (t.render u ctx withVars).2
    ctx.defined ⊆ after.defined ∧
    (∀ id ∈ after.defined, id ∉ ctx.defined →
      ∃ v, u.Reaches withVars ctx.defined (t.Shows u withVars) v ∧ u.varKey v = id) ∧
    (∃ v, u.Reaches withVars ctx.defined (t.Shows u withVars) v ∧ u.varBounds v = .error e ∧
      u.varKey v ∉ ctx.defined ∧ u.varKey v ∈ after.defined) ∧
    (Set.InjOn u.varKey u.declaredVars → u.BoundsDeclared → t.Declared u →
      ((∃ e', (t.render u after withVars).1 = .error e') ↔
        ∃ v, u.Reaches withVars after.defined (t.Shows u withVars) v ∧
          ∃ p, u.typeParam? v = some p ∧ ∃ b ∈ p.bounds, b.Unsupported)) ∧
    ∃ count ≤ u.unwritable after.defined, ∃ text,
      (t.render u (t.attempted u withVars count after) withVars).1 = .ok text := by
  have leaves := t.leaves_render made.layered defines withVars
  obtain ⟨v, reaches, unresolved, inside⟩ := leaves.failed e failed
  refine ⟨leaves.grows, leaves.reached, ⟨v, reaches, unresolved, reaches.not_mem, inside⟩,
    fun ids valid declared => ?_, ?_⟩
  · exact Ty.render_fails_iff made.layered ids valid declared defines
  · exact t.exists_attempted made.layered withVars defines

namespace Faults

def box : ClassId := ⟨10⟩

def boxOver (params : List ClassEdit) : Universe :=
  (Universe.initial.declare "p.Box").2.define box params

/-- An attempt that fails turns the next one into a success, as it leaves the variable defined. -/
theorem render_box :
    let u := boxOver [.typeParam "T" [.other "IntersectionType"]]
    let first := (Ty.ofClass box).render u {} true
    first.1 = .error (.unsupported "IntersectionType") ∧
      first.2.defined = [u.varKey ⟨.ofClass box, 0⟩] ∧
      ((Ty.ofClass box).render u first.2 true).1 = .ok "p.Box<T>" := by decide +kernel

/-- `class Box<A, B>`, where neither bound is supported. -/
def classes : Universe :=
  boxOver [.typeParam "A" [.other "AnnotatedType"], .typeParam "B" [.other "IntersectionType"]]

theorem made : classes.Made := .define (.declare _ .initial) (by decide) trivial

theorem boundsDeclared : classes.BoundsDeclared := Universe.boundsDeclared_of_allVars (by decide)

/-- The first attempt fails at `A` and the second one at `B`, so the third one succeeds. -/
theorem retried_box :
    let first := (Ty.ofClass box).render classes {} true
    classes.Made ∧ Set.InjOn classes.varKey classes.declaredVars ∧ classes.BoundsDeclared ∧
      (Ty.ofClass box).Declared classes ∧ first.1 = .error (.unsupported "AnnotatedType") ∧
      classes.varKey ⟨.ofClass box, 0⟩ ∈ first.2.defined ∧
      (∃ e, ((Ty.ofClass box).render classes first.2 true).1 = .error e) ∧
      ∃ count ≤ 1, ∃ text, ((Ty.ofClass box).render classes
        ((Ty.ofClass box).attempted classes true count first.2) true).1 = .ok text := by
  have ids : Set.InjOn classes.varKey classes.declaredVars := injOn_varKey (by decide)
  have declared : (Ty.ofClass box).Declared classes := by simp [Ty.Declared, Ty.mentioned]
  have failed : ((Ty.ofClass box).render classes {} true).1 =
      .error (.unsupported "AnnotatedType") := by decide +kernel
  have left : classes.unwritable ((Ty.ofClass box).render classes {} true).2.defined = 1 := by
    decide +kernel
  have shown : (Ty.ofClass box).Shows classes true ⟨.ofClass box, 1⟩ :=
    .declared rfl rfl rfl (by simp only [Universe.declaredVars, Set.mem_ofPred_eq]; decide)
  obtain ⟨-, -, -, again, written⟩ := made.render_retried rfl failed
  rw [left] at written
  refine ⟨made, ids, boundsDeclared, declared, failed, by decide +kernel, ?_, written⟩
  refine (again ids boundsDeclared declared).2
    ⟨⟨.ofClass box, 1⟩, .shown shown (by decide +kernel), _, rfl, _, List.mem_singleton_self _, ?_⟩
  exact .other "IntersectionType"

end Faults

end JavaTypes
