import JavaTypes.Proofs.PlainMembers

/-!
A class applied to its own variables. It is another type than the class, and the two stand for each
other: they are written alike, have the same super types and, but for what declares them, the same
members, and what one is asked fails where it fails for the other. Array classes are different: they
are written with the variables of their elements, which an applied type does not have.
-/
namespace JavaTypes

def Ty.selfApplied (u : Universe) (c : ClassId) : Ty :=
  .apply u c ((u.classVariables c).map .variable)

/-- An argument is the variable itself: free, and with its id. -/
def TyVar.Keeps (u : Universe) (v : TyVar) (a : Ty) : Prop :=
  ∃ r, a = .variable (.free r) ∧ u.varKey r = v.key u

variable {u : Universe} {c : ClassId}

section writing

variable {naming : Naming} {withVars : Bool} {bounds : VarRef → Rendering String}

theorem Universe.innermost_of_component_eq_none (plain : (u.decl c).component = none)
    (limit : Nat) : u.innermost limit c = (c, 0) := by
  cases limit with
  | zero => rfl
  | succ limit => simp only [innermost, plain]

/-- Free variables are written in the same way by the class that declares them and as arguments. -/
theorem writeVars_of_free {vars : List TyVar} (free : ∀ b ∈ vars, b.value? = none) :
    writeVars u naming withVars bounds vars = writeDeclared u naming bounds vars := by
  induction vars with
  | nil => rfl
  | cons b rest ih =>
    obtain ⟨none, others⟩ := List.forall_mem_cons.1 free
    cases b with
    | bound v t => cases none
    | free v => rw [writeVars, writeDeclared, ih others]; rfl

theorem Ty.write_applied_classVariables (plain : (u.decl c).component = none) :
    (Ty.applied c (u.classVariables c)).write u naming withVars bounds =
      (Ty.ofClass c).write u naming withVars bounds := by
  have text (s : String) : s ++ brackets 0 = s := String.append_empty
  have vars : writeVars u naming withVars bounds (u.classVariables c) =
      writeDeclared u naming bounds (u.classVariables c) :=
    writeVars_of_free fun _ own => value?_of_mem_variablesOf own
  simp only [Ty.write, Universe.innermost_of_component_eq_none plain, text, vars]

end writing

theorem bindVars_variablesOf (owner : VarOwner) :
    u.bindVars owner ((u.variablesOf owner).map .variable) = u.variablesOf owner := by
  rw [Universe.bindVars, List.zipWith_map_right, List.zipWith_self]
  refine (List.map_congr_left fun b own => ?_).trans (List.map_id _)
  obtain ⟨v, -, -, rfl⟩ := mem_variablesOf.1 own
  exact TyVar.bindTo_own rfl

theorem Ty.selfApplied_eq_applied : Ty.selfApplied u c = .applied c (u.classVariables c) :=
  congrArg (Ty.applied c) (bindVars_variablesOf (.ofClass c))

theorem Ty.render_selfApplied (plain : (u.decl c).component = none) (ctx : RenderContext)
    (withVars : Bool) :
    (Ty.selfApplied u c).render u ctx withVars = (Ty.ofClass c).render u ctx withVars := by
  simp only [Ty.render, Rendering.type, Ty.selfApplied_eq_applied,
    Ty.write_applied_classVariables plain]

namespace Declarer

def selfApplied (u : Universe) (c : ClassId) : Declarer := .applied c (u.classVariables c)

theorem toTy_selfApplied : (selfApplied u c).toTy = Ty.selfApplied u c :=
  Ty.selfApplied_eq_applied.symm

theorem sees_selfApplied {clause : DeclType} {t : Ty} (resolved : clause.resolve u = .ok t) :
    (selfApplied u c).sees u t = (ofClass c).sees u t := by
  rw [sees_eq_substitute _ resolved, sees_eq_substitute _ resolved]
  rfl

theorem superType_selfApplied : (selfApplied u c).superType u = (ofClass c).superType u := by
  rw [superType_eq_map, superType_eq_map]
  refine map_congr_ok fun super found => ?_
  cases super with
  | none => rfl
  | some t =>
    obtain ⟨clause, -, resolved⟩ := clause_of_classSuperType found
    exact congrArg some (sees_selfApplied resolved)

theorem interfaces_selfApplied : (selfApplied u c).interfaces u = (ofClass c).interfaces u := by
  rw [interfaces_eq_map, interfaces_eq_map]
  refine map_congr_ok fun types found => List.map_congr_left fun t member => ?_
  obtain ⟨clause, -, resolved⟩ := exists_left_of_mem (resolveAll_eq_ok.1 found) member
  exact sees_selfApplied resolved

theorem alike_selfApplied (plain : (u.decl c).component = none) :
    (ofClass c).Alike u (selfApplied u c) where
  classId := rfl
  typeVariables := rfl
  written := by
    rw [toTy_selfApplied]
    exact Ty.render_selfApplied plain {} true
  superType := superType_selfApplied
  interfaces := interfaces_selfApplied

theorem Ends.selfApplied (ends : (ofClass c).Ends u) : (selfApplied u c).Ends u := by
  refine ⟨_, ?_⟩
  rintro e ⟨clause, member, r, resolved, rfl⟩
  rw [sees_selfApplied resolved]
  exact ends.inv ⟨clause, member, r, resolved, rfl⟩

end Declarer

section filling

theorem TyVar.isBound_bindTo {v : TyVar} {a : Ty} :
    (v.bindTo u a).isBound = false ↔ v.Keeps u a := by
  constructor
  · intro dropped
    rcases TyVar.bindTo_cases (u := u) v a with ⟨r, eq, key, -⟩ | kept
    · exact ⟨r, eq, key⟩
    · rw [kept] at dropped
      cases dropped
  · rintro ⟨r, rfl, key⟩
    rw [TyVar.bindTo_own key]
    rfl

section arguments

variable {args : List Ty} (arity : args.length = (u.classVariables c).length)

include arity

theorem map_ref_bindVars :
    (u.bindVars (.ofClass c) args).map TyVar.ref = (u.classVariables c).map TyVar.ref := by
  have places : ((u.classVariables c).zip args).map Prod.fst = u.classVariables c :=
    List.map_fst_zip arity.ge
  rw [Universe.bindVars, List.map_zipWith, ← List.map_uncurry_zip_eq_zipWith]
  conv_rhs => rw [← places, List.map_map]
  exact List.map_congr_left fun _ _ => TyVar.ref_bindTo ..

/-- Bindings of a class have no values if each argument is the variable itself. -/
theorem any_isBound_bindVars : (u.bindVars (.ofClass c) args).any TyVar.isBound = false ↔
    List.Forall₂ (TyVar.Keeps u) (u.classVariables c) args := by
  rw [Universe.bindVars, ← List.map_uncurry_zip_eq_zipWith, List.any_map, List.any_eq_false,
    List.forall₂_iff_zip, and_iff_right arity.symm]
  constructor
  · intro free v a member
    exact TyVar.isBound_bindTo.1 (Bool.eq_false_iff.2 (free (v, a) member))
  · rintro keeps ⟨v, a⟩ member
    exact Bool.eq_false_iff.1 (TyVar.isBound_bindTo.2 (keeps member))

end arguments

variable (ids : Set.InjOn u.varKey u.declaredVars)

include ids

/-- Arguments over declared variables are all kept if they are the variables of the class. -/
theorem keeps_iff {args : List Ty} (declared : ∀ a ∈ args, a.Declared u) :
    List.Forall₂ (TyVar.Keeps u) (u.classVariables c) args ↔
      args = (u.classVariables c).map .variable := by
  have each {v : TyVar} {a : Ty} (member : (v, a) ∈ (u.classVariables c).zip args) :
      v.Keeps u a ↔ .variable v = a := by
    obtain ⟨own, arg⟩ := List.of_mem_zip member
    obtain ⟨w, bound, -, rfl⟩ := mem_variablesOf.1 own
    constructor
    · rintro ⟨r, rfl, key⟩
      rw [ids (declared _ arg r (by simp [Ty.mentioned])) bound key]
    · rintro rfl
      exact ⟨w, rfl, rfl⟩
  rw [eq_comm, ← List.forall₂_eq_eq_eq, List.forall₂_map_left_iff, List.forall₂_iff_zip,
    List.forall₂_iff_zip]
  exact and_congr_right fun _ => ⟨fun keeps _ _ member => (each member).1 (keeps member),
    fun same _ _ member => (each member).2 (same member)⟩

variable {args : List Ty} (arity : args.length = (u.classVariables c).length)

include arity

theorem nodup_key_bindVars : ((u.bindVars (.ofClass c) args).map (TyVar.key u)).Nodup := by
  have keys : (u.bindVars (.ofClass c) args).map (TyVar.key u) =
      ((u.classVariables c).map TyVar.ref).map u.varKey := by
    rw [← map_ref_bindVars arity, List.map_map]
    rfl
  rw [keys]
  refine List.Nodup.map_on ?_ ?_
  · intro v own w other
    obtain ⟨_, member, rfl⟩ := List.mem_map.1 own
    obtain ⟨_, member', rfl⟩ := List.mem_map.1 other
    obtain ⟨v, bound, -, rfl⟩ := mem_variablesOf.1 member
    obtain ⟨w, bound', -, rfl⟩ := mem_variablesOf.1 member'
    exact ids bound bound'
  · rw [Universe.classVariables, Universe.variablesOf, List.map_map]
    exact List.nodup_range.map fun i j same => congrArg VarRef.index same

/-- Each binding of a class is what its variable is bound to by all of them. -/
theorem rebindFree_of_mem_bindVars {b : TyVar} (member : b ∈ u.bindVars (.ofClass c) args) :
    rebindFree u (u.bindVars (.ofClass c) args) b.ref = b := by
  have apart := nodup_key_bindVars ids arity
  rw [rebindFree_eq]
  cases b with
  | free v =>
    -- No other binding has the id of this one.
    have none : valueFor? u (u.bindVars (.ofClass c) args) v = none := by
      cases found : valueFor? u (u.bindVars (.ofClass c) args) v with
      | none => rfl
      | some s =>
        obtain ⟨w, key, other⟩ := bound_mem_of_valueFor? found
        cases List.inj_on_of_nodup_map apart other member key
    have shown := valueOrSelf_of_none none
    exact (congrArg _ shown).trans (TyVar.bindTo_own rfl)
  | bound v s =>
    obtain ⟨_, own, a, -, made⟩ := mem_zipWith_bindTo member
    obtain ⟨w, -, -, rfl⟩ := mem_variablesOf.1 own
    obtain ⟨rfl, rfl⟩ := TyVar.of_bindTo_eq_bound made.symm
    have shown := valueOrSelf_of_some (valueFor?_of_mem apart member rfl)
    exact (congrArg _ shown).trans made.symm

/-- The bindings of a class put into its variables are these bindings. -/
theorem map_rebindFree_bindVars :
    (u.classVariables c).map (fun v => rebindFree u (u.bindVars (.ofClass c) args) v.ref) =
      u.bindVars (.ofClass c) args := by
  calc
    _ = ((u.bindVars (.ofClass c) args).map TyVar.ref).map
          (rebindFree u (u.bindVars (.ofClass c) args)) := by
      rw [map_ref_bindVars arity, List.map_map]
      rfl
    _ = (u.bindVars (.ofClass c) args).map id := by
      rw [List.map_map]
      exact List.map_congr_left fun _ => rebindFree_of_mem_bindVars ids arity
    _ = _ := List.map_id _

/-- Filling in the variables of a class applies it to the arguments, unless each argument is the
variable itself, which leaves the class as it is. -/
theorem Ty.substitute_ofClass_bindVars :
    (List.Forall₂ (TyVar.Keeps u) (u.classVariables c) args →
      (Ty.ofClass c).substitute u (u.bindVars (.ofClass c) args) = .ofClass c) ∧
    (¬ List.Forall₂ (TyVar.Keeps u) (u.classVariables c) args →
      (Ty.ofClass c).substitute u (u.bindVars (.ofClass c) args) = .apply u c args) := by
  simp only [Ty.substitute, Ty.subst, map_rebindFree_bindVars ids arity]
  rw [← any_isBound_bindVars arity, Bool.not_eq_false]
  exact ⟨fun free => by rw [if_neg (by simp [free])], fun bound => by rw [if_pos bound]; rfl⟩

end filling

/-- A class and the class applied to its own variables stand for each other. Both have the same
super types and interfaces. If the class is no array class and all ways up from it end, both are
written alike in every context, have the same members but for what declares these, and fail where
the other does. Filling in the variables of the class applies it to the arguments, unless these are
the variables themselves. -/
theorem Ty.selfApplied_stands (ids : Set.InjOn u.varKey u.declaredVars)
    (ends : (Declarer.ofClass c).Ends u) (skipBridges : Bool) :
    ((u.decl c).component = none →
      (∀ ctx withVars, (Ty.selfApplied u c).render u ctx withVars =
        (Ty.ofClass c).render u ctx withVars) ∧
      (∀ s e, (Ty.selfApplied u c).select u skipBridges s = .error e ↔
        (Ty.ofClass c).select u skipBridges s = .error e) ∧
      (Ty.ofClass c).SameMembers u skipBridges (Ty.selfApplied u c) ∧
      ((Ty.selfApplied u c).declaredFields u).map
          (List.map fun f => (f.name, f.type, f.display u)) =
        ((Ty.ofClass c).declaredFields u).map (List.map fun f => (f.name, f.type, f.display u)) ∧
      ((Ty.selfApplied u c).publicFields u).map
          (List.map fun f => (f.name, f.type, f.display u)) =
        ((Ty.ofClass c).publicFields u).map (List.map fun f => (f.name, f.type, f.display u)) ∧
      ((Ty.selfApplied u c).publicMethods u skipBridges).map
          (List.map fun m => (m.overrideKey, m.signature, m.display u)) =
        ((Ty.ofClass c).publicMethods u skipBridges).map
          (List.map fun m => (m.overrideKey, m.signature, m.display u))) ∧
    (Ty.selfApplied u c).superType u = (Ty.ofClass c).superType u ∧
    (Ty.selfApplied u c).interfaces u = (Ty.ofClass c).interfaces u ∧
    ∀ args, args.length = (u.classVariables c).length →
      (List.Forall₂ (TyVar.Keeps u) (u.classVariables c) args →
        (Ty.ofClass c).substitute u (u.bindVars (.ofClass c) args) = .ofClass c) ∧
      (¬ List.Forall₂ (TyVar.Keeps u) (u.classVariables c) args →
        (Ty.ofClass c).substitute u (u.bindVars (.ofClass c) args) = .apply u c args) ∧
      ((∀ a ∈ args, a.Declared u) → (List.Forall₂ (TyVar.Keeps u) (u.classVariables c) args ↔
        args = (u.classVariables c).map .variable)) := by
  have super : (Ty.selfApplied u c).superType u = (Ty.ofClass c).superType u := by
    rw [← Declarer.toTy_selfApplied, Declarer.superType_toTy]
    exact Declarer.superType_selfApplied
  have interfaces : (Ty.selfApplied u c).interfaces u = (Ty.ofClass c).interfaces u := by
    rw [← Declarer.toTy_selfApplied, Declarer.interfaces_toTy]
    exact Declarer.interfaces_selfApplied
  refine ⟨fun plain => ?_, super, interfaces, fun args arity => ?_⟩
  · have members : (Ty.ofClass c).SameMembers u skipBridges (Ty.selfApplied u c) := by
      rw [← Declarer.toTy_selfApplied]
      exact (Declarer.alike_selfApplied plain).sameMembers ends ends.selfApplied skipBridges
    exact ⟨Ty.render_selfApplied plain, members.select_eq_error_iff super interfaces rfl rfl,
      members, members.fields_shown.1, members.fields_shown.2, members.methods_shown⟩
  · obtain ⟨kept, filled⟩ := Ty.substitute_ofClass_bindVars ids arity
    exact ⟨kept, filled, keeps_iff ids⟩

namespace Wrappers

def base : ClassId := ⟨10⟩
def wrapper : ClassId := ⟨11⟩
def x : VarRef := ⟨.ofClass base, 0⟩
def t : VarRef := ⟨.ofClass wrapper, 0⟩

/-- `class p.Base<X>` with a public method `put(X)`, and `class p.Wrapper<T> extends p.Base<T[]>`
with a public field of type `T` -/
def classes : Universe :=
  let u := (Universe.initial.defineClass "p.Base" [.typeParam "X" [],
    .method "put" Modifiers.Flag.isPublic.set
      [.executable (.param { name := "element", type := .variable x })]]).2
  (u.defineClass "p.Wrapper" [.typeParam "T" [],
    .superclass (.applied base [.array (.variable t)]),
    .field { modifiers := Modifiers.Flag.isPublic.set, name := "value", type := .variable t }]).2

/-- `p.Wrapper` applied to `T` is written like `p.Wrapper` and inherits `put` from the same type. -/
theorem selfApplied_wrapper :
    Set.InjOn classes.varKey classes.declaredVars ∧ (Declarer.ofClass wrapper).Ends classes ∧
      (classes.decl wrapper).component = none ∧
      (Ty.selfApplied classes wrapper).display classes = .ok "p.Wrapper<T>" ∧
      ((Ty.selfApplied classes wrapper).publicMethods classes true).map
          (List.map fun m => (m.overrideKey, m.signature, m.display classes)) =
        .ok [("put(T[])", "void put(T[])", .ok "public void put(T[] element)")] ∧
      (Ty.ofClass wrapper).substitute classes
          (classes.bindVars (.ofClass wrapper) [.ofClass base]) =
        .apply classes wrapper [.ofClass base] := by
  have ids : Set.InjOn classes.varKey classes.declaredVars := injOn_varKey (by decide)
  have acyclic : classes.Acyclic := Universe.acyclic_of_earlier (by decide)
  have ends : (Declarer.ofClass wrapper).Ends classes := acyclic.ends (by decide) _
  obtain ⟨stands, -, -, fill⟩ := Ty.selfApplied_stands ids ends true
  obtain ⟨written, -, -, -, -, methods⟩ := stands rfl
  refine ⟨ids, ends, rfl, (congrArg Prod.fst (written {} true)).trans ?_, methods.trans ?_, ?_⟩
  · decide +kernel
  · decide +kernel
  · refine (fill [.ofClass base] rfl).2.1 fun keeps => ?_
    cases keeps with
    | cons kept => cases kept with | intro _ free => cases free.1

end Wrappers

namespace ArrayClasses

def int : ClassId := ⟨5⟩
def box : ClassId := ⟨10⟩
def boxes : ClassId := ⟨11⟩
def ints : ClassId := ⟨12⟩

/-- `class p.Box<X>`, the array class `p.Box[]`, and `int[]` with a type parameter -/
def classes : Universe :=
  let u := (Universe.initial.defineClass "p.Box" [.typeParam "X" []]).2
  let u := (u.arrayOf box).2
  let u := (u.arrayOf int).2
  u.define ints [.typeParam "T" []]

/-- Array classes show the variables of their elements only, and applied ones those of the class. -/
theorem display_selfApplied :
    classes.Acyclic ∧ Set.InjOn classes.varKey classes.declaredVars ∧
      (Ty.ofClass ints).display classes = .ok "int[]" ∧
      (Ty.selfApplied classes ints).display classes = .ok "int[]<T>" ∧
      (Ty.ofClass boxes).display classes = .ok "p.Box<X>[]" ∧
      (Ty.selfApplied classes boxes).display classes = .ok "p.Box[]" := by
  refine ⟨Universe.acyclic_of_earlier (by decide), injOn_varKey (by decide), ?_⟩
  decide +kernel

end ArrayClasses

end JavaTypes
