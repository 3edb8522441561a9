import JavaTypes.Proofs.Counting
import JavaTypes.Proofs.PassRelations

/-!
The variables a pass defines. A variable is defined before its bounds are written, so each clause
that is opened leaves one variable less to define, and clauses nest no deeper than there are type
parameters. A pass that ends well has defined what it has met; as it has also met what the bounds of
each newly defined variable show, nothing that can be reached is left out.
-/
namespace JavaTypes

variable {u : Universe} {naming : Naming} {withVars : Bool}

namespace Rendering

def runFrom {α : Type} (pass : Rendering α) (defined : List String) :
    Except ReflectionError α × List String :=
  StateT.run (ExceptT.run pass) defined

variable {α β : Type}

@[simp] theorem runFrom_pure (a : α) (defined : List String) :
    runFrom (pure a) defined = (.ok a, defined) := rfl

theorem runFrom_bind (pass : Rendering α) (next : α → Rendering β) (defined : List String) :
    (pass >>= next).runFrom defined =
      match pass.runFrom defined with
      | (.ok a, after) => (next a).runFrom after
      | (.error e, after) => (.error e, after) := by
  simp only [runFrom, ExceptT.run_bind, StateT.run_bind]
  rcases StateT.run (ExceptT.run pass) defined with ⟨_ | _, _⟩ <;> rfl

end Rendering

/-- Bound clauses that nest up to a limit, with something else in the place of those further in. -/
def writeBoundsUpTo (u : Universe) (naming : Naming) (withVars : Bool)
    (beyond : VarRef → Rendering String) : Nat → VarRef → Rendering String
  | 0, v => beyond v
  | limit + 1, v => do
    let bounds ← Rendering.ofExcept (u.varBounds v)
    let texts ← writeAll u naming withVars (writeBoundsUpTo u naming withVars beyond limit) bounds
    return boundClause " extends " texts

theorem writeBounds_eq_upTo (limit : Nat) : writeBounds u naming withVars limit =
    writeBoundsUpTo u naming withVars (fun _ => return "") limit := by
  induction limit with
  | zero => rfl
  | succ limit ih =>
    funext v
    simp only [writeBounds, writeBoundsUpTo, ih]

def Universe.undefined (u : Universe) (defined : List String) : Nat :=
  u.allVars.countP fun v => !defined.contains (u.varKey v)

/-- What is so of a pass that has ended well, if it met the variables `shown`. -/
structure Opened (u : Universe) (withVars : Bool) (shown : VarRef → Prop)
    (before after : List String) : Prop where
  grows : before ⊆ after
  shows : ∀ v, shown v → u.varKey v ∈ after
  closed : ∀ id ∈ after, id ∉ before → ∃ v bounds, u.Reaches withVars before shown v ∧
    u.varKey v = id ∧ u.varBounds v = .ok bounds ∧
      ∀ t ∈ bounds, ∀ w, t.Shows u withVars w → u.varKey w ∈ after

/-- What is so of a pass that met the variables `shown`, whether it has ended well or not. -/
def Visits (u : Universe) (withVars : Bool) (shown : VarRef → Prop) (before : List String) {α : Type} :
    Except ReflectionError α × List String → Prop
  | (.ok _, after) => Opened u withVars shown before after
  | (.error e, _) => ∃ v, u.Reaches withVars before shown v ∧ u.varBounds v = .error e

/-- Two passes do the same and visit the variables `shown`, wherever at most `limit` variables are
left to define. -/
def Agree (u : Universe) (withVars : Bool) (limit : Nat) (shown : VarRef → Prop) {α : Type}
    (pass pass' : Rendering α) : Prop :=
  ∀ before, u.undefined before ≤ limit → pass.runFrom before = pass'.runFrom before ∧
    Visits u withVars shown before (pass.runFrom before)

theorem Universe.undefined_mono {before after : List String} (grows : before ⊆ after) :
    u.undefined after ≤ u.undefined before := by
  refine List.countP_mono_left fun v _ left => ?_
  simp only [Bool.not_eq_true', List.contains_eq_mem, decide_eq_false_iff_not] at left ⊢
  exact fun known => left (grows known)

theorem Universe.undefined_cons {v : VarRef} (declared : v ∈ u.declaredVars) {before : List String}
    (new : u.varKey v ∉ before) : u.undefined (u.varKey v :: before) < u.undefined before := by
  refine countP_lt_countP (fun w _ left => ?_) (mem_allVars declared) (by simpa using new) (by simp)
  rw [List.contains_cons, Bool.not_or, Bool.and_eq_true] at left
  exact left.2

theorem map_getElem?_range {α β : Type} (f : Option α → β) (entries : List α) :
    (List.range entries.length).map (fun i => f entries[i]?) = entries.map fun x => f (some x) := by
  refine List.ext_getElem (by simp) fun i _ inside => ?_
  simp only [List.length_map] at inside
  simp [inside]

theorem Universe.map_decl_ids : u.ids.map u.decl = u.classes.toList := by
  refine List.ext_getElem (by simp [ids, size]) fun i _ inside => ?_
  simp [ids, decl, Array.getD_eq_getD_getElem?, Array.getElem?_eq_getElem (by simpa using inside)]

theorem ClassDecl.flatMap_owners (d : ClassDecl) (c : ClassId) :
    (d.owners c).flatMap d.typeParamsOf = d.allTypeParams := by
  have members {α : Type} (entries : List α) (params : α → List TypeParam) :
      (List.range entries.length).flatMap (fun i => (entries[i]?.map params).getD []) =
        entries.flatMap params := by
    rw [List.flatMap_def, map_getElem?_range (fun x => (x.map params).getD []), List.flatMap_def]
    rfl
  have methods := members d.methods (·.typeParams)
  have constructors := members d.constructors (·.typeParams)
  rw [allTypeParams, ← methods, ← constructors, owners, List.cons_append, List.flatMap_cons,
    List.flatMap_append, List.flatMap_map, List.flatMap_map, List.append_assoc]
  rfl

theorem ClassDecl.classId_of_mem_owners {d : ClassDecl} {c : ClassId} {owner : VarOwner}
    (member : owner ∈ d.owners c) : owner.classId = c := by
  simp only [owners, List.mem_append, List.mem_cons, List.mem_map] at member
  rcases member with (rfl | ⟨i, -, rfl⟩) | ⟨i, -, rfl⟩ <;> rfl

theorem Universe.length_allVars : u.allVars.length = u.paramCount := by
  have perClass (c : ClassId) :
      (((u.decl c).owners c).flatMap fun owner => (u.variablesOf owner).map TyVar.ref).length =
        (u.decl c).allTypeParams.length := by
    rw [← ClassDecl.flatMap_owners _ c, List.length_flatMap, List.length_flatMap]
    congr 1
    refine List.map_congr_left fun owner member => ?_
    rw [List.length_map, length_variablesOf, typeParams, ClassDecl.classId_of_mem_owners member]
  rw [allVars, paramCount, ← map_decl_ids, List.flatMap_assoc, List.length_flatMap,
    List.length_flatMap, List.map_map]
  congr 1
  exact List.map_congr_left fun c _ => perClass c

theorem Universe.undefined_le_paramCount (before : List String) :
    u.undefined before ≤ u.paramCount :=
  List.countP_le_length.trans_eq length_allVars

namespace Opened

variable {shown shown' : VarRef → Prop} {before mid after : List String}

theorem trans (first : Opened u withVars shown before mid) (second : Opened u withVars shown' mid after) :
    Opened u withVars (fun v => shown v ∨ shown' v) before after where
  grows := List.Subset.trans first.grows second.grows
  shows := fun v here => here.elim (fun here => second.grows (first.shows v here)) (second.shows v)
  closed := fun id inside new => by
    by_cases early : id ∈ mid
    · obtain ⟨v, bounds, reaches, key, resolved, shows⟩ := first.closed id early new
      exact ⟨v, bounds, reaches.mono (fun _ => .inl) (List.Subset.refl _), key, resolved,
        fun t member w here => second.grows (shows t member w here)⟩
    · obtain ⟨v, bounds, reaches, key, resolved, shows⟩ := second.closed id inside early
      exact ⟨v, bounds, reaches.mono (fun _ => .inr) first.grows, key, resolved, shows⟩

end Opened

namespace Agree

variable {limit : Nat} {shown shown' : VarRef → Prop} {α β : Type}

theorem pure (a : α) : Agree u withVars limit (fun _ => False) (pure a) (pure a) :=
  fun before _ => ⟨rfl, List.Subset.refl before, fun _ => False.elim, fun _ inside new => absurd inside new⟩

theorem bind {pass pass' : Rendering α} {next next' : α → Rendering β}
    (first : Agree u withVars limit shown pass pass')
    (second : ∀ a, Agree u withVars limit shown' (next a) (next' a)) :
    Agree u withVars limit (fun v => shown v ∨ shown' v) (pass >>= next) (pass' >>= next') := by
  intro before enough
  obtain ⟨same, visits⟩ := first before enough
  rw [Rendering.runFrom_bind, Rendering.runFrom_bind, ← same]
  rcases outcome : pass.runFrom before with ⟨e | a, mid⟩
  · rw [outcome] at visits
    obtain ⟨v, reaches, failed⟩ := visits
    exact ⟨rfl, v, reaches.mono (fun _ => .inl) (List.Subset.refl _), failed⟩
  · rw [outcome] at visits
    have opened : Opened u withVars shown before mid := visits
    obtain ⟨same, visits⟩ := second a mid ((Universe.undefined_mono opened.grows).trans enough)
    refine ⟨same, ?_⟩
    dsimp only
    rcases outcome : (next a).runFrom mid with ⟨e | b, after⟩
    · rw [outcome] at visits
      obtain ⟨v, reaches, failed⟩ := visits
      exact ⟨v, reaches.mono (fun _ => .inr) opened.grows, failed⟩
    · rw [outcome] at visits
      exact opened.trans visits

theorem sequential : Sequential (Agree u withVars limit) := ⟨pure, bind⟩

end Agree

theorem runFrom_writeFree (defines : naming.bare = false) (bounds : VarRef → Rendering String)
    (v : VarRef) (before : List String) : (writeFree u naming bounds v).runFrom before =
      if u.varKey v ∈ before then (.ok (nameOf u naming v), before)
      else Rendering.runFrom (do return nameOf u naming v ++ (← bounds v)) (u.varKey v :: before) := by
  have look : (writeFree u naming bounds v).runFrom before =
      (if before.contains (u.varKey v) then pure (nameOf u naming v)
        else do
          modify (u.varKey v :: ·)
          return nameOf u naming v ++ (← bounds v) : Rendering String).runFrom before := by
    simp only [writeFree, defines]
    rfl
  rw [look]
  by_cases known : u.varKey v ∈ before
  · simp [known]
  · simp only [List.contains_eq_mem, known, decide_false, if_false]
    rfl

theorem writeBoundsUpTo_of_error {beyond : VarRef → Rendering String} {limit : Nat} {v : VarRef}
    {e : ReflectionError} (failed : u.varBounds v = .error e) :
    writeBoundsUpTo u naming withVars beyond (limit + 1) v = throw e := by
  rw [writeBoundsUpTo, failed]
  rfl

theorem writeBoundsUpTo_of_ok {beyond : VarRef → Rendering String} {limit : Nat} {v : VarRef}
    {bounds : List Ty} (resolved : u.varBounds v = .ok bounds) :
    writeBoundsUpTo u naming withVars beyond (limit + 1) v = do
      return boundClause " extends " (← writeAll u naming withVars
        (writeBoundsUpTo u naming withVars beyond limit) bounds) := by
  have found : Rendering.ofExcept (Except.ok bounds) = (pure bounds : Rendering (List Ty)) := rfl
  rw [writeBoundsUpTo, resolved, found, pure_bind]

theorem Opened.known {v : VarRef} {before : List String} (known : u.varKey v ∈ before) :
    Opened u withVars (· = v) before before where
  grows := List.Subset.refl before
  shows := fun _ same => same ▸ known
  closed := fun _ inside new => absurd inside new

/-- A variable is through when its bounds are. -/
theorem Opened.of_bounds {v : VarRef} {bounds : List Ty} {before after : List String}
    (new : u.varKey v ∉ before) (resolved : u.varBounds v = .ok bounds)
    (opened : Opened u withVars (fun w => ∃ t ∈ bounds, t.Shows u withVars w)
      (u.varKey v :: before) after) : Opened u withVars (· = v) before after where
  grows := List.Subset.trans (List.subset_cons_self _ _) opened.grows
  shows := fun _ same => same ▸ opened.grows List.mem_cons_self
  closed := fun id inside fresh => by
    by_cases self : id = u.varKey v
    · exact ⟨v, bounds, .shown rfl new, self.symm, resolved,
        fun t member w here => opened.shows w ⟨t, member, here⟩⟩
    · obtain ⟨w, inner, reaches, facts⟩ := opened.closed id inside (by simp [self, fresh])
      exact ⟨w, inner, .of_bounds new resolved reaches, facts⟩

theorem Visits.of_bounds {α : Type} {v : VarRef} {bounds : List Ty} {before : List String}
    {outcome : Except ReflectionError α × List String} (new : u.varKey v ∉ before)
    (resolved : u.varBounds v = .ok bounds)
    (visits : Visits u withVars (fun w => ∃ t ∈ bounds, t.Shows u withVars w)
      (u.varKey v :: before) outcome) : Visits u withVars (· = v) before outcome := by
  rcases outcome with ⟨e | a, after⟩
  · obtain ⟨w, reaches, failed⟩ := visits
    exact ⟨w, .of_bounds new resolved reaches, failed⟩
  · exact Opened.of_bounds new resolved visits

section limits

variable (defines : naming.bare = false) (layered : u.Layered) (valid : u.BoundsDeclared)
  (beyond beyond' : VarRef → Rendering String)

include defines layered valid

/-- Where no more variables are left to define than clauses may nest, it does not matter what stands
beyond the limit. -/
theorem agree_writeFree (limit : Nat) {v : VarRef} (declared : v ∈ u.declaredVars) :
    Agree u withVars limit (· = v)
      (writeFree u naming (writeBoundsUpTo u naming withVars beyond limit) v)
      (writeFree u naming (writeBoundsUpTo u naming withVars beyond' limit) v) := by
  induction limit generalizing v with
  | zero =>
    intro before enough
    rw [runFrom_writeFree defines, runFrom_writeFree defines]
    by_cases known : u.varKey v ∈ before
    · rw [if_pos known, if_pos known]
      exact ⟨rfl, .known known⟩
    · -- No definition is left to write at this limit, yet `v` has none.
      have := Universe.undefined_cons declared known
      omega
  | succ limit ih =>
    intro before enough
    rw [runFrom_writeFree defines, runFrom_writeFree defines]
    by_cases known : u.varKey v ∈ before
    · rw [if_pos known, if_pos known]
      exact ⟨rfl, .known known⟩
    · rw [if_neg known, if_neg known]
      -- `v` is marked before its bounds are written, so fewer definitions are left for them.
      have fewer := Universe.undefined_cons declared known
      cases resolved : u.varBounds v with
      | error e =>
        rw [writeBoundsUpTo_of_error resolved, writeBoundsUpTo_of_error resolved]
        exact ⟨rfl, v, .shown rfl known, resolved⟩
      | ok bounds =>
        have each (t : Ty) (member : t ∈ bounds) :=
          Agree.sequential.write layered rfl fun w (shows : t.Shows u withVars w) =>
            ih ((valid.varBounds resolved t member).shows shows)
        have clause := Agree.sequential.map (boundClause " extends ") (Agree.sequential.writeAll each)
        have written := Agree.sequential.map (nameOf u naming v ++ ·) clause
        obtain ⟨same, visits⟩ := written (u.varKey v :: before) (by omega)
        rw [writeBoundsUpTo_of_ok resolved, writeBoundsUpTo_of_ok resolved]
        exact ⟨same, visits.of_bounds known resolved⟩

/-- The same of types, where the limit is the number of type parameters. -/
theorem agree_type (withVars : Bool) {t : Ty} (declared : t.Declared u) : Agree u withVars u.paramCount
    (t.Shows u withVars)
    (t.write u naming withVars (writeBoundsUpTo u naming withVars beyond u.paramCount))
    (t.write u naming withVars (writeBoundsUpTo u naming withVars beyond' u.paramCount)) :=
  Agree.sequential.write layered rfl fun _ shows =>
    agree_writeFree defines layered valid beyond beyond' _ (declared.shows shows)

end limits

section outcomes

variable (ids : Set.InjOn u.varKey u.declaredVars) (valid : u.BoundsDeclared)
  {shown : VarRef → Prop} (known : ∀ v, shown v → v ∈ u.declaredVars) {before : List String}

include ids valid known

/-- A pass that has ended well has defined all that is reached, and looked up its bounds. -/
theorem Opened.complete {after : List String} (opened : Opened u withVars shown before after)
    {v : VarRef} (reaches : u.Reaches withVars before shown v) :
    u.varKey v ∈ after ∧ ∃ bounds, u.varBounds v = .ok bounds := by
  have looked {v : VarRef} (reaches : u.Reaches withVars before shown v)
      (inside : u.varKey v ∈ after) : ∃ bounds, u.varBounds v = .ok bounds ∧
        ∀ s ∈ bounds, ∀ w, s.Shows u withVars w → u.varKey w ∈ after := by
    obtain ⟨w, bounds, reaches', key, resolved, shows⟩ := opened.closed _ inside reaches.not_mem
    have same := ids (reaches'.mem_declaredVars valid known)
      (reaches.mem_declaredVars valid known) key
    exact ⟨bounds, same ▸ resolved, shows⟩
  have inside : u.varKey v ∈ after := by
    induction reaches with
    | shown here _ => exact opened.shows _ here
    | bound reaches resolved member shows _ ih =>
      obtain ⟨bounds, resolved', shown⟩ := looked reaches ih
      cases resolved.symm.trans resolved'
      exact shown _ member _ shows
  obtain ⟨bounds, resolved, -⟩ := looked reaches inside
  exact ⟨inside, bounds, resolved⟩

namespace Visits

variable {α : Type} {outcome : Except ReflectionError α × List String}
  (visits : Visits u withVars shown before outcome)

include visits

theorem fails_iff : (∃ e, outcome.1 = .error e) ↔
    ∃ v, u.Reaches withVars before shown v ∧
      ∃ p, u.typeParam? v = some p ∧ ∃ b ∈ p.bounds, b.Unsupported := by
  rcases outcome with ⟨e | a, after⟩
  · obtain ⟨v, reaches, failed⟩ := visits
    refine ⟨fun _ => ⟨v, reaches, ?_⟩, fun _ => ⟨e, rfl⟩⟩
    by_contra supported
    obtain ⟨bounds, resolved⟩ := varBounds_eq_ok_iff.2 supported
    cases failed.symm.trans resolved
  · constructor
    · rintro ⟨_, failed⟩
      cases failed
    · rintro ⟨v, reaches, unsupported⟩
      have resolved := (Opened.complete ids valid known visits reaches).2
      exact absurd unsupported (varBounds_eq_ok_iff.1 resolved)

theorem mem_iff {a : α} (ended : outcome.1 = .ok a) (id : String) :
    id ∈ outcome.2 ↔ id ∈ before ∨
      ∃ v, u.Reaches withVars before shown v ∧ u.varKey v = id := by
  rcases outcome with ⟨e | a, after⟩
  · cases ended
  · have opened : Opened u withVars shown before after := visits
    constructor
    · intro inside
      by_cases old : id ∈ before
      · exact .inl old
      · obtain ⟨v, -, reaches, key, -⟩ := opened.closed id inside old
        exact .inr ⟨v, reaches, key⟩
    · rintro (old | ⟨v, reaches, rfl⟩)
      · exact opened.grows old
      · exact (opened.complete ids valid known reaches).1

end Visits

end outcomes

theorem Ty.render_eq_runFrom (t : Ty) (ctx : RenderContext) (withVars : Bool) :
    t.render u ctx withVars =
      let outcome := Rendering.runFrom (t.write u ctx.naming withVars (writeBoundsUpTo u ctx.naming
        withVars (fun _ => return "") u.paramCount)) ctx.defined
      (outcome.1, { ctx with defined := outcome.2 }) := by
  rw [Ty.render, RenderContext.run, Rendering.type, writeBounds_eq_upTo]
  rfl

/-- In a universe that the operations make, rendering ends: clauses never nest as deep as their
limit, so it does not matter what stands there. It fails exactly if a bound of a variable that is
reached is not supported, and otherwise defines exactly the variables that are reached. -/
theorem Universe.Made.render_defines (made : u.Made) (ids : Set.InjOn u.varKey u.declaredVars)
    (valid : u.BoundsDeclared) {t : Ty} (declared : t.Declared u) {ctx : RenderContext}
    (defines : ctx.naming.bare = false) (withVars : Bool) :
    (∀ beyond, ctx.run (fun naming => t.write u naming withVars
        (writeBoundsUpTo u naming withVars beyond u.paramCount)) = t.render u ctx withVars) ∧
    ((∃ e, (t.render u ctx withVars).1 = .error e) ↔
      ∃ v, u.Reaches withVars ctx.defined (t.Shows u withVars) v ∧
        ∃ p, u.typeParam? v = some p ∧ ∃ b ∈ p.bounds, b.Unsupported) ∧
    ∀ text, (t.render u ctx withVars).1 = .ok text → ∀ id,
      id ∈ (t.render u ctx withVars).2.defined ↔ id ∈ ctx.defined ∨
        ∃ v, u.Reaches withVars ctx.defined (t.Shows u withVars) v ∧ u.varKey v = id := by
  have enough := undefined_le_paramCount (u := u) ctx.defined
  have agree (beyond : VarRef → Rendering String) :=
    agree_type defines made.layered valid beyond (fun _ => return "") withVars declared _ enough
  have visits := (agree fun _ => return "").2
  rw [t.render_eq_runFrom]
  refine ⟨fun beyond => ?_, visits.fails_iff ids valid (fun _ => declared.shows),
    fun text ended => visits.mem_iff ids valid (fun _ => declared.shows) ended⟩
  rw [← (agree beyond).1]
  rfl

namespace Knot

def node : ClassId := ⟨10⟩
def pair : ClassId := ⟨11⟩
def varE : VarRef := ⟨.ofClass node, 0⟩
def varT : VarRef := ⟨.ofClass pair, 0⟩
def varU : VarRef := ⟨.ofClass pair, 1⟩

/-- `class Node<E extends Node<E>>` and `class Pair<T extends Node<U>, U extends Node<T>>`. -/
def classes : Universe :=
  (((Universe.initial.declare "Node").2.declare "Pair").2.define node
    [.typeParam "E" [.applied node [.variable varE]]]).define pair
    [.typeParam "T" [.applied node [.variable varU]],
      .typeParam "U" [.applied node [.variable varT]]]

theorem made : classes.Made :=
  .define (.define (.declare _ (.declare _ .initial)) (by decide) trivial) (by decide) trivial

theorem boundsDeclared : classes.BoundsDeclared := Universe.boundsDeclared_of_allVars (by decide)

/-- The bounds of the variables of `Pair` mention each other, and `E` is bound wherever they do. -/
theorem reaches_iff {v : VarRef} :
    classes.Reaches true [] ((Ty.ofClass pair).Shows classes true) v ↔ v = varT ∨ v = varU := by
  have boundsT : classes.varBounds varT =
      .ok [.applied node [.bound varE (.variable (.free varU))]] := rfl
  have boundsU : classes.varBounds varU =
      .ok [.applied node [.bound varE (.variable (.free varT))]] := rfl
  have own (w : VarRef) : (Ty.ofClass pair).Shows classes true w ↔ w = varT ∨ w = varU := by
    have vars : classes.classVariables (classes.innermost 11 pair).1 = [.free varT, .free varU] := rfl
    rw [made.layered.shows_ofClass (show pair.index ≤ 11 by decide), vars]
    simp [TyVar.ref, eq_comm]
  constructor
  · intro reaches
    induction reaches with
    | shown here _ => exact (own _).1 here
    | bound _ resolved member shows _ ih =>
      rcases ih with rfl | rfl
      · cases boundsT.symm.trans resolved
        rw [List.mem_singleton.1 member] at shows
        exact .inr (by simpa using shows)
      · cases boundsU.symm.trans resolved
        rw [List.mem_singleton.1 member] at shows
        exact .inl (by simpa using shows)
  · exact fun either => .shown ((own v).2 either) List.not_mem_nil

theorem render_pair : ((Ty.ofClass pair).render classes {} true).1 =
    .ok "Pair<T extends Node<U extends Node<T>>, U>" := by decide +kernel

/-- The variables of `Pair` are defined, each once, and that of `Node` is not. -/
theorem defined_pair : classes.Made ∧ Set.InjOn classes.varKey classes.declaredVars ∧
    classes.BoundsDeclared ∧ (Ty.ofClass pair).Declared classes ∧
    ∀ id, id ∈ ((Ty.ofClass pair).render classes {} true).2.defined ↔
      id = classes.varKey varT ∨ id = classes.varKey varU := by
  have ids : Set.InjOn classes.varKey classes.declaredVars := injOn_varKey (by decide)
  have declared : (Ty.ofClass pair).Declared classes := by simp [Ty.Declared, Ty.mentioned]
  have defines : ({} : RenderContext).naming.bare = false := rfl
  obtain ⟨-, -, defined⟩ := made.render_defines ids boundsDeclared declared defines true
  refine ⟨made, ids, boundsDeclared, declared, fun id => ?_⟩
  rw [defined _ render_pair id]
  simp [reaches_iff, eq_comm]

end Knot

end JavaTypes
