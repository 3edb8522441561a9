import JavaTypes.Proofs.BoundClauses
import JavaTypes.Proofs.FailedPasses

/-!
Passes over what has been written before. Where all variables that a type shows are defined, a pass
over the type cannot fail, leaves the context as it is, opens no bound clause and writes what a pass
writes for which all variables count as defined. A type that has been written is in this position from
then on, as what it shows is defined and no later pass, not even one that fails, takes a definition
back.
-/
namespace JavaTypes

variable {u : Universe} {naming : Naming} {withVars : Bool}

def Naming.asBare (naming : Naming) : Naming := { naming with bare := true }

def RenderContext.asBare (ctx : RenderContext) : RenderContext :=
  { ctx with naming := ctx.naming.asBare }

/-- Where the variables `shown` are defined, a pass ends well and changes nothing, and so does another
one with the same result. -/
def Settles (u : Universe) (shown : VarRef → Prop) {α : Type} (pass pass' : Rendering α) : Prop :=
  ∀ before, (∀ v, shown v → u.varKey v ∈ before) →
    ∃ a, pass.runFrom before = (.ok a, before) ∧ pass'.runFrom before = (.ok a, before)

namespace Settles

variable {α β : Type} {shown shown' : VarRef → Prop}

theorem pure (a : α) : Settles u shown (pure a) (pure a) := fun _ _ => ⟨a, rfl, rfl⟩

theorem bind {pass pass' : Rendering α} {next next' : α → Rendering β}
    (first : Settles u shown pass pass') (second : ∀ a, Settles u shown' (next a) (next' a)) :
    Settles u (fun v => shown v ∨ shown' v) (pass >>= next) (pass' >>= next') := by
  intro before known
  obtain ⟨a, ran, ran'⟩ := first before fun v here => known v (.inl here)
  obtain ⟨b, ended, ended'⟩ := second a before fun v here => known v (.inr here)
  refine ⟨b, ?_, ?_⟩
  · rw [Rendering.runFrom_bind, ran, ← ended]
  · rw [Rendering.runFrom_bind, ran', ← ended']

theorem sequential : Sequential (Settles u) := ⟨pure, bind⟩

end Settles

section write

variable {bounds bounds' : VarRef → Rendering String}

theorem settles_writeFree (defines : naming.bare = false) (v : VarRef) :
    Settles u (· = v) (writeFree u naming bounds v)
      (writeFree u naming.asBare bounds' v) := by
  intro before known
  refine ⟨nameOf u naming v, ?_, ?_⟩
  · rw [runFrom_writeFree defines, if_pos (known v rfl)]
  · rw [writeFree_bare rfl]
    rfl

/-- A type that shows defined variables only is written as if all variables counted as defined. -/
theorem settles_write (defines : naming.bare = false) (layered : u.Layered) (t : Ty) :
    Settles u (t.Shows u withVars) (t.write u naming withVars bounds)
      (t.write u naming.asBare withVars bounds') := by
  have imports : naming.asBare.imports = naming.imports := rfl
  exact Settles.sequential.write layered imports fun v _ => settles_writeFree defines v

end write

/-- A set of defined variables that has not grown has met no bound clause. -/
theorem Introduces.eq_nil {before : List String} {vars : List VarRef}
    (introduces : Introduces u before vars before) : vars = [] := by
  have none := List.self_eq_append_left.1 introduces.defines
  simpa using none

/-- A type is written in a context without any bound clause, as where all variables count as defined,
and the context stays as it is. -/
def Ty.RendersBare (u : Universe) (ctx : RenderContext) (withVars : Bool) (t : Ty) : Prop :=
  ∃ text, t.render u ctx withVars = (.ok text, ctx) ∧
    t.render u ctx.asBare withVars = (.ok text, ctx.asBare) ∧
    (withVars = true → text = t.bareText u ctx.naming) ∧
    ∃ layout, t.layout u ctx withVars = (.ok layout, ctx) ∧ layout.toText = text ∧
      layout.clauses = []

theorem Ty.rendersBare_of_defined (layered : u.Layered) {ctx : RenderContext}
    (defines : ctx.naming.bare = false) {t : Ty}
    (known : ∀ w, t.Shows u withVars w → u.varKey w ∈ ctx.defined) :
    t.RendersBare u ctx withVars := by
  let clauses (naming : Naming) :=
    writeBoundsUpTo u naming withVars (fun _ => return "") u.paramCount
  have settles : Settles u (t.Shows u withVars)
      (t.write u ctx.naming withVars (clauses ctx.naming))
      (t.write u ctx.naming.asBare withVars (clauses ctx.naming.asBare)) :=
    settles_write defines layered t
  obtain ⟨text, ran, ran'⟩ := settles ctx.defined known
  have written : t.render u ctx withVars = (.ok text, ctx) := by rw [t.render_eq_runFrom, ran]
  have written' : t.render u ctx.asBare withVars = (.ok text, ctx.asBare) :=
    (t.render_eq_runFrom _ _).trans (by simp only [RenderContext.asBare] at ran' ⊢; rw [ran'])
  obtain ⟨erased, marks⟩ := layered.render_eq_layout t defines withVars
  rw [written] at erased
  have unchanged : (t.layout u ctx withVars).2 = ctx := (congrArg Prod.snd erased).symm
  refine ⟨text, written, written', fun all => ?_, ?_⟩
  · subst all
    rw [Ty.write_bare rfl] at ran'
    exact (Except.ok.inj (congrArg Prod.fst ran')).symm
  · cases laid : (t.layout u ctx withVars).1 with
    | error e =>
      rw [laid] at erased
      cases congrArg Prod.fst erased
    | ok layout =>
      have introduces := (marks layout laid).1
      rw [unchanged] at introduces
      rw [laid] at erased
      exact ⟨layout, Prod.ext laid unchanged, (Except.ok.inj (congrArg Prod.fst erased)).symm,
        introduces.eq_nil⟩

namespace RenderContext

/-- A context after types have been written in it one after the other, each with or without the
variables of its classes. Some of the passes may have failed. -/
def afterPasses (u : Universe) (ctx : RenderContext) (passes : List (Ty × Bool)) : RenderContext :=
  passes.foldl (fun ctx pass => (pass.1.render u ctx pass.2).2) ctx

@[simp] theorem naming_afterPasses (ctx : RenderContext) (passes : List (Ty × Bool)) :
    (ctx.afterPasses u passes).naming = ctx.naming := by
  induction passes generalizing ctx with
  | nil => rfl
  | cons pass rest ih => exact (ih _).trans (Ty.naming_render _ _ _)

theorem defined_subset_afterPasses (layered : u.Layered) {ctx : RenderContext}
    (defines : ctx.naming.bare = false) (passes : List (Ty × Bool)) :
    ctx.defined ⊆ (ctx.afterPasses u passes).defined := by
  induction passes generalizing ctx with
  | nil => exact List.Subset.refl _
  | cons pass rest ih =>
    have first := (pass.1.leaves_render layered defines pass.2).grows
    have defines' : (pass.1.render u ctx pass.2).2.naming.bare = false := defines
    exact List.Subset.trans first (ih defines')

end RenderContext

/-- A type that shows only variables which have been defined is written without bound clauses from
then on, and the context stays as it is; so is a type that has been written before, whatever it
shows. -/
theorem Universe.Made.renders_bare (made : u.Made) {ctx : RenderContext}
    (defines : ctx.naming.bare = false) (t : Ty) (withVars : Bool) (later : List (Ty × Bool)) :
    ((∀ w, t.Shows u withVars w → u.varKey w ∈ ctx.defined) →
      t.RendersBare u (ctx.afterPasses u later) withVars) ∧
    ∀ text, (t.render u ctx withVars).1 = .ok text →
      t.RendersBare u ((t.render u ctx withVars).2.afterPasses u later) withVars := by
  have afterwards {ctx : RenderContext} (defines : ctx.naming.bare = false)
      (known : ∀ w, t.Shows u withVars w → u.varKey w ∈ ctx.defined) :
      t.RendersBare u (ctx.afterPasses u later) withVars := by
    refine Ty.rendersBare_of_defined made.layered (by rwa [RenderContext.naming_afterPasses])
      fun w shows => ?_
    exact RenderContext.defined_subset_afterPasses made.layered defines later (known w shows)
  refine ⟨afterwards defines, fun text written => afterwards (by rwa [Ty.naming_render]) ?_⟩
  exact fun w shows => made.layered.mem_defined defines written shows

namespace Knot

/-- `Pair` is written without bounds when it has been written once, also after `Node`, the bounds of
which have been written since. -/
theorem pair_rendersBare :
    let first := (Ty.ofClass pair).render classes {} true
    classes.Made ∧ first.1 = .ok "Pair<T extends Node<U extends Node<T>>, U>" ∧
      (Ty.ofClass pair).RendersBare classes
        (first.2.afterPasses classes [(.ofClass node, true)]) true ∧
      (Ty.ofClass pair).bareText classes {} = "Pair<T, U>" := by
  refine ⟨made, render_pair, ?_, by decide +kernel⟩
  exact (made.renders_bare rfl (.ofClass pair) true [(.ofClass node, true)]).2 _ render_pair

end Knot

end JavaTypes
