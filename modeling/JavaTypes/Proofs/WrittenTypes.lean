import JavaTypes.Member.Executable
import JavaTypes.Proofs.RenderedVars
import JavaTypes.Proofs.SubstitutedSupers

/-!
When types can be written. A pass ends well exactly if the bounds of all variables that are reached
from what it meets can be resolved. What a substituted type shows comes from the type or from the
values, so it can be written if they can.
-/
namespace JavaTypes

variable {u : Universe}

/-- The bounds of all variables that are reached can be resolved. -/
def Universe.Writable (u : Universe) (shown : VarRef → Prop) : Prop :=
  ∀ v, u.Reaches true [] shown v → ∃ bounds, u.varBounds v = .ok bounds

section reached

variable {shown shown' : VarRef → Prop}

theorem Universe.Reaches.either {withVars : Bool} {defined : List String} {v : VarRef}
    (reaches : u.Reaches withVars defined (fun w => shown w ∨ shown' w) v) :
    u.Reaches withVars defined shown v ∨ u.Reaches withVars defined shown' v := by
  induction reaches with
  | shown here new =>
    rcases here with here | here
    · exact .inl (.shown here new)
    · exact .inr (.shown here new)
  | bound _ resolved member shows new ih =>
    rcases ih with reaches | reaches
    · exact .inl (.bound reaches resolved member shows new)
    · exact .inr (.bound reaches resolved member shows new)

theorem Universe.Writable.mono (writable : u.Writable shown) (fewer : ∀ v, shown' v → shown v) :
    u.Writable shown' := by
  intro v reaches
  exact writable v (reaches.mono fewer (List.Subset.refl _))

theorem Universe.Writable.or (left : u.Writable shown) (right : u.Writable shown') :
    u.Writable fun v => shown v ∨ shown' v := by
  intro v reaches
  rcases reaches.either with reaches | reaches
  · exact left v reaches
  · exact right v reaches

end reached

theorem Agree.ends_iff {α : Type} {shown : VarRef → Prop} {pass : Rendering α}
    (ids : Set.InjOn u.varKey u.declaredVars) (valid : u.BoundsDeclared)
    (agree : Agree u true u.paramCount shown pass pass)
    (known : ∀ v, shown v → v ∈ u.declaredVars) :
    (∃ a, (pass.runFrom []).1 = .ok a) ↔ u.Writable shown := by
  have visits := (agree [] (Universe.undefined_le_paramCount [])).2
  have fails := visits.fails_iff ids valid known
  constructor
  · rintro ⟨a, ended⟩ v reaches
    by_contra failed
    rw [varBounds_eq_ok_iff, not_not] at failed
    obtain ⟨e, error⟩ := fails.2 ⟨v, reaches, failed⟩
    rw [ended] at error
    cases error
  · intro writable
    cases outcome : (pass.runFrom []).1 with
    | ok a => exact ⟨a, rfl⟩
    | error e =>
      obtain ⟨v, reaches, unsupported⟩ := fails.1 ⟨e, outcome⟩
      exact absurd unsupported (varBounds_eq_ok_iff.1 (writable v reaches))

section passes

variable (layered : u.Layered) (valid : u.BoundsDeclared) {naming : Naming}
  (defines : naming.bare = false)

include layered valid defines

theorem agree_renderType {t : Ty} (declared : t.Declared u) :
    Agree u true u.paramCount (t.Shows u true) (Rendering.type u naming true t)
      (Rendering.type u naming true t) := by
  rw [Rendering.type, writeBounds_eq_upTo]
  exact agree_type defines layered valid _ _ true declared

theorem agree_renderTypes {types : List Ty} (declared : ∀ t ∈ types, t.Declared u) :
    Agree u true u.paramCount (fun v => ∃ t ∈ types, t.Shows u true v)
      (Rendering.types u naming types) (Rendering.types u naming types) :=
  Agree.sequential.writeAll fun _ member => agree_renderType layered valid defines (declared _ member)

theorem agree_renderVars {owner : VarOwner} :
    Agree u true u.paramCount (fun v => ∃ b ∈ u.variablesOf owner, b.shown.Shows u true v)
      (Rendering.vars u naming (u.variablesOf owner))
      (Rendering.vars u naming (u.variablesOf owner)) := by
  rw [Rendering.vars, writeVars_eq_writeAll]
  refine Agree.sequential.congr (Agree.sequential.writeAll fun t member => ?_) fun v => ?_
  · obtain ⟨b, own, rfl⟩ := List.mem_map.1 member
    obtain ⟨v, known, -, rfl⟩ := mem_variablesOf.1 own
    exact agree_renderType layered valid defines (by simpa [Ty.Declared, Ty.mentioned] using known)
  · simp

end passes

section ends

variable (layered : u.Layered) (ids : Set.InjOn u.varKey u.declaredVars) (valid : u.BoundsDeclared)

include layered ids valid

/-- A type can be written alone exactly if the bounds of the variables that are reached from it can
be resolved. -/
theorem Ty.display_ok_iff {t : Ty} (declared : t.Declared u) :
    (∃ text, t.display u = .ok text) ↔ u.Writable (t.Shows u true) := by
  have agree : Agree u true u.paramCount (t.Shows u true) (Rendering.type u {} true t)
      (Rendering.type u {} true t) := agree_renderType layered valid rfl declared
  exact agree.ends_iff ids valid fun _ => declared.shows

theorem Scope.of_ok_iff {d : Declarer} (declared : d.toTy.Declared u) (anchored : Bool) :
    (∃ scope, Scope.of u anchored d = .ok scope) ↔ u.Writable (d.toTy.Shows u true) := by
  rw [← Ty.display_ok_iff layered ids valid declared]
  have look : Scope.of u anchored d = (d.toTy.display u).map fun _ =>
      { declaring := d, declaringKey := d.toTy.key u,
        primed := (d.toTy.render u {} true).2.definedIds, anchored } := by
    unfold Scope.of Ty.display
    rcases d.toTy.render u {} true with ⟨_ | _, _⟩ <;> rfl
  rw [look]
  cases d.toTy.display u with
  | error e => simp [Except.map]
  | ok text => simp [Except.map]

/-- A signature can be written exactly if the bounds of the variables that are reached can be
resolved. -/
theorem Executable.signature_ok_iff {e : Executable} {owner : VarOwner}
    (own : e.ownVariables = u.variablesOf owner) {returns : Option Ty}
    (declared : ∀ t ∈ returns.toList ++ e.paramTypes, t.Declared u) (name : String) :
    (∃ text, e.signature u returns name = .ok text) ↔ u.Writable fun v =>
      (∃ b ∈ u.variablesOf owner, b.shown.Shows u true v) ∨
        ∃ t ∈ returns.toList ++ e.paramTypes, t.Shows u true v := by
  have vars : Agree u true u.paramCount (fun v => ∃ b ∈ u.variablesOf owner, b.shown.Shows u true v)
      (e.writeOwn u {}) (e.writeOwn u {}) := by
    rw [writeOwn, own]
    exact Agree.sequential.map _ (agree_renderVars layered valid rfl)
  have returned : Agree u true u.paramCount (fun v => ∃ t ∈ returns.toList, t.Shows u true v)
      (writeReturn u {} returns) (writeReturn u {} returns) := by
    cases returns with
    | none => exact Agree.sequential.congr (.pure "") fun v => by simp
    | some t =>
      have written := agree_renderType layered valid (rfl : ({} : Naming).bare = false)
        (declared t (by simp))
      exact Agree.sequential.congr (Agree.sequential.map _ written) fun v => by simp
  have params : Agree u true u.paramCount (fun v => ∃ t ∈ e.paramTypes, t.Shows u true v)
      (e.writeParameters u {}) (e.writeParameters u {}) :=
    agree_renderTypes layered valid rfl fun t member => declared t (List.mem_append_right _ member)
  have pass := vars.bind fun own => returned.bind fun returned =>
    Agree.sequential.map (fun parameters => own ++ returned ++ name ++ inParentheses parameters) params
  refine (Agree.sequential.congr pass fun v => ?_).ends_iff ids valid fun v shown => ?_
  · simp only [List.mem_append, or_and_right, exists_or]
  · rcases shown with ⟨b, member, shows⟩ | ⟨t, member, shows⟩
    · obtain ⟨w, known, -, rfl⟩ := mem_variablesOf.1 member
      rw [Ty.shows_free.1 shows]
      exact known
    · exact (declared t member).shows shows

end ends

section substitution

variable {raw : RawClasses} {bindings : List TyVar} (ids : Set.InjOn u.varKey u.declaredVars)
  (values : ∀ s ∈ valuesOf bindings, s.Declared u)

include ids values

/-- What a substituted type shows, the type shows, or it comes with the value of a variable that the
type shows. -/
theorem Ty.shows_subst {t : Ty} (settled : t.Settled) (declared : t.Declared u)
    (kept : ∀ c ∈ t.rawClasses, (Ty.ofClass c).subst u raw bindings = .ofClass c) {w : VarRef}
    (shows : (t.subst u raw bindings).Shows u true w) :
    ∃ v, t.Shows u true v ∧ (w = v ∨ (valueOrSelf u bindings v).Shows u true w) := by
  induction settled with
  | ofClass c =>
    rw [kept c (by simp [Ty.rawClasses])] at shows
    exact ⟨w, shows, .inl rfl⟩
  | free v => exact ⟨v, .free v, .inr shows⟩
  | array t _ ih =>
    obtain ⟨v, here, origin⟩ := ih declared kept (Ty.shows_array.1 shows)
    exact ⟨v, .element here, origin⟩
  | wildcard upper lower _ _ ihUpper ihLower =>
    simp only [Ty.Declared, Ty.mentioned, Ty.rawClasses, Ty.gather_wildcard, List.mem_append,
      List.mem_flatMap] at declared kept
    rw [Ty.subst_wildcard] at shows
    cases shows with
    | upper member inner =>
      obtain ⟨t, inside, rfl⟩ := List.mem_map.1 member
      obtain ⟨v, here, origin⟩ := ihUpper t inside
        (fun v occurs => declared v (.inl ⟨t, inside, occurs⟩))
        (fun c occurs => kept c (.inl ⟨t, inside, occurs⟩)) inner
      exact ⟨v, .upper inside here, origin⟩
    | lower member inner =>
      obtain ⟨t, inside, rfl⟩ := List.mem_map.1 member
      obtain ⟨v, here, origin⟩ := ihLower t inside
        (fun v occurs => declared v (.inr ⟨t, inside, occurs⟩))
        (fun c occurs => kept c (.inr ⟨t, inside, occurs⟩)) inner
      exact ⟨v, .lower inside here, origin⟩
  | applied c vars _ ih =>
    simp only [Ty.Declared, Ty.mentioned, Ty.rawClasses, Ty.gather_applied,
      List.mem_flatMap] at declared kept
    rw [Ty.subst_applied] at shows
    cases shows with
    | binding _ member inner =>
      obtain ⟨b, inside, rfl⟩ := List.mem_map.1 member
      have known : (Ty.variable b).Declared u := fun v occurs => declared v ⟨b, inside, occurs⟩
      rw [shown_rebind ids values known] at inner
      cases b with
      | free v => exact ⟨v, .binding rfl inside (.free v), .inr inner⟩
      | bound v s =>
        obtain ⟨v, here, origin⟩ := ih v s inside known.shown
          (fun c occurs => kept c ⟨_, inside, by simpa [Ty.rawClasses] using occurs⟩) inner
        exact ⟨v, .binding rfl inside here, origin⟩

end substitution

end JavaTypes
