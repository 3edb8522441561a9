import JavaTypes.Proofs.Reachable

/-!
Relations between two passes that meet certain variables. A type is written by writing the variables
it shows, one after the other, with fixed text between them. What is so of two passes that do nothing,
and is kept where passes follow each other, is therefore so of two ways to write a type if it is so of
both ways to write each variable that the type shows.
-/
namespace JavaTypes

variable {u : Universe} {naming naming' : Naming} {withVars : Bool}

/-- A relation of two passes and the variables they meet holds of passes that do nothing and is kept
where passes follow each other. -/
structure Sequential
    (Related : (VarRef → Prop) → ∀ {α : Type}, Rendering α → Rendering α → Prop) : Prop where
  pure : ∀ {α : Type} (a : α), Related (fun _ => False) (pure a) (pure a)
  bind : ∀ {α β : Type} {shown shown' : VarRef → Prop} {pass pass' : Rendering α}
    {next next' : α → Rendering β}, Related shown pass pass' →
      (∀ a, Related shown' (next a) (next' a)) →
        Related (fun v => shown v ∨ shown' v) (pass >>= next) (pass' >>= next')

/-- The variables a class declares are written like types that are free variables. -/
theorem writeDeclared_eq_writeAll {bounds : VarRef → Rendering String} (withVars : Bool)
    (vars : List TyVar) : writeDeclared u naming bounds vars =
      writeAll u naming withVars bounds (vars.map fun b => .variable (.free b.ref)) := by
  induction vars with
  | nil => rfl
  | cons b rest ih => simp only [writeDeclared, writeAll, List.map_cons, ih, Ty.write]

namespace Sequential

variable {Related : (VarRef → Prop) → ∀ {α : Type}, Rendering α → Rendering α → Prop}
  (sequential : Sequential Related)

section passes

variable {α β : Type} {shown shown' : VarRef → Prop}

/-- What passes meet may be described in another way. -/
theorem congr {pass pass' : Rendering α} (_ : Sequential Related)
    (related : Related shown pass pass') (same : ∀ v, shown v ↔ shown' v) :
    Related shown' pass pass' := by
  rwa [← funext fun v => propext (same v)]

include sequential

theorem map (f : α → β) {pass pass' : Rendering α} (related : Related shown pass pass') :
    Related shown (do return f (← pass)) (do return f (← pass')) :=
  sequential.congr (sequential.bind related fun a => sequential.pure (f a)) fun v => by
    rw [or_false]

theorem cons {first first' : Rendering String} {rest rest' : Rendering (List String)}
    (head : Related shown first first') (tail : Related shown' rest rest') :
    Related (fun v => shown v ∨ shown' v) (do return (← first) :: (← rest))
      (do return (← first') :: (← rest')) :=
  sequential.bind head fun _ => sequential.map _ tail

end passes

variable {bounds bounds' : VarRef → Rendering String}

include sequential

theorem writeAll {types : List Ty} (each : ∀ t ∈ types, Related (t.Shows u withVars)
      (t.write u naming withVars bounds) (t.write u naming' withVars bounds')) :
    Related (fun v => ∃ t ∈ types, t.Shows u withVars v)
      (writeAll u naming withVars bounds types) (writeAll u naming' withVars bounds' types) := by
  induction types with
  | nil => exact sequential.congr (sequential.pure []) fun v => by simp
  | cons t rest ih =>
    obtain ⟨first, others⟩ := List.forall_mem_cons.1 each
    exact sequential.congr (sequential.cons first (ih others)) fun v => by simp

/-- Two ways to write a type are related if this is so of writing each variable it shows. -/
theorem write (layered : u.Layered) (imports : naming'.imports = naming.imports) {t : Ty}
    (free : ∀ v, t.Shows u withVars v →
      Related (· = v) (writeFree u naming bounds v) (writeFree u naming' bounds' v)) :
    Related (t.Shows u withVars) (t.write u naming withVars bounds)
      (t.write u naming' withVars bounds') := by
  induction t using Ty.inductionOn with
  | ofClass c =>
    simp only [Ty.write, imports]
    cases withVars with
    | true =>
      rw [writeDeclared_eq_writeAll true, writeDeclared_eq_writeAll true]
      refine sequential.congr (sequential.map _ (sequential.writeAll fun t member => ?_)) fun w => ?_
      · obtain ⟨b, own, rfl⟩ := List.mem_map.1 member
        exact sequential.congr (free b.ref ((layered.shows_ofClass le_rfl).2 ⟨rfl, b, own, rfl⟩))
          fun w => by simp
      · simp [layered.shows_ofClass le_rfl, eq_comm]
    | false =>
      exact sequential.congr (sequential.pure _) fun w => by simp [layered.shows_ofClass le_rfl]
  | free v => exact sequential.congr (free v (.free v)) fun w => by simp
  | bound v t ih => exact sequential.congr (ih fun w shows => free w (.value shows)) fun w => by simp
  | array t ih =>
    exact sequential.congr (sequential.map _ (ih fun w shows => free w (.element shows)))
      fun w => by simp
  | applied c bindings ih =>
    simp only [Ty.write, imports]
    cases withVars with
    | true =>
      rw [writeVars_eq_writeAll, writeVars_eq_writeAll]
      refine sequential.congr (sequential.map _ (sequential.writeAll fun t member => ?_)) fun w => ?_
      · obtain ⟨b, inside, rfl⟩ := List.mem_map.1 member
        cases b with
        | free v =>
          have shown := free v (.binding rfl inside (.free v))
          exact sequential.congr shown fun w => by simp
        | bound v t => exact ih v t inside fun w shows => free w (.binding rfl inside shows)
      · simp
    | false => exact sequential.congr (sequential.pure _) fun w => by simp
  | wildcard upper lower ihUpper ihLower =>
    have uppers := sequential.writeAll fun t member =>
      ihUpper t member fun w shows => free w (.upper member shows)
    have lowers := sequential.writeAll fun t member =>
      ihLower t member fun w shows => free w (.lower member shows)
    exact sequential.congr (sequential.bind lowers fun _ => sequential.map _ uppers) fun w => by simp

end Sequential

end JavaTypes
