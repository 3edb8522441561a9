import JavaTypes.Proofs.NormalForms
import JavaTypes.Proofs.Reachable

/-!
What resolution keeps of a declared type. The declared type can be read off the resolved one, but for
the root classes among the bounds of its wildcards and for which of several variables of one id an
argument is. So two declared types are resolved alike exactly if nothing else tells them apart.
-/
namespace JavaTypes

mutual

/-- The declared type a type reads as. Arguments are what the bindings show. -/
def Ty.toDecl : Ty → DeclType
  | .ofClass c => .ofClass c
  | .applied c bindings => .applied c (bindingsToDecl bindings)
  | .variable (.free v) => .variable v
  | .variable (.bound _ t) => t.toDecl
  | .wildcard upper lower => .wildcard (allToDecl upper) (allToDecl lower)
  | .array element => .array element.toDecl

def allToDecl : List Ty → List DeclType
  | [] => []
  | t :: rest => t.toDecl :: allToDecl rest

def bindingsToDecl : List TyVar → List DeclType
  | [] => []
  | .free v :: rest => .variable v :: bindingsToDecl rest
  | .bound _ t :: rest => t.toDecl :: bindingsToDecl rest

end

mutual

/-- A declared type without the root classes among the upper bounds of its wildcards, and with
`lowerToo` without those among the lower bounds. -/
def DeclType.dropRoots (lowerToo : Bool) : DeclType → DeclType
  | .ofClass c => .ofClass c
  | .applied c args => .applied c (dropRootsAll lowerToo args)
  | .variable v => .variable v
  | .wildcard upper lower =>
    .wildcard (dropRootBounds lowerToo upper)
      (if lowerToo then dropRootBounds lowerToo lower else dropRootsAll lowerToo lower)
  | .array element => .array (element.dropRoots lowerToo)
  | .other shape => .other shape

def dropRootsAll (lowerToo : Bool) : List DeclType → List DeclType
  | [] => []
  | t :: rest => t.dropRoots lowerToo :: dropRootsAll lowerToo rest

def dropRootBounds (lowerToo : Bool) : List DeclType → List DeclType
  | [] => []
  | t :: rest =>
    if t.isRoot then dropRootBounds lowerToo rest
    else t.dropRoots lowerToo :: dropRootBounds lowerToo rest

end

/-- An argument as the variable it is for takes it: a variable of the same id is taken for the
variable itself. -/
def DeclType.asValueOf (u : Universe) (b : TyVar) : DeclType → DeclType
  | .variable v => if u.varKey v = b.key u then .variable b.ref else .variable v
  | t => t

mutual

/-- A declared type with its arguments as the variables take them, without surplus ones. -/
def DeclType.fitArguments (u : Universe) : DeclType → DeclType
  | .ofClass c => .ofClass c
  | .applied c args =>
    .applied c ((u.classVariables c).zipWith (DeclType.asValueOf u) (fitArgumentsAll u args))
  | .variable v => .variable v
  | .wildcard upper lower => .wildcard (fitArgumentsAll u upper) (fitArgumentsAll u lower)
  | .array element => .array (element.fitArguments u)
  | .other shape => .other shape

def fitArgumentsAll (u : Universe) : List DeclType → List DeclType
  | [] => []
  | t :: rest => t.fitArguments u :: fitArgumentsAll u rest

end

/-- A declared type of which resolution loses the root classes among upper bounds only. -/
structure DeclType.Kept (u : Universe) (t : DeclType) : Prop where
  /-- Each applied class has an argument for each of its variables. -/
  arity : ∀ c args, Part (.applied c args) t → args.length = (u.classVariables c).length
  /-- The root class is no lower bound. -/
  lower : ∀ upper lower, Part (.wildcard upper lower) t → ∀ b ∈ lower, b.isRoot = false
  /-- An argument with the id of the variable it is for is that variable. -/
  own : ∀ c args, Part (.applied c args) t → ∀ b v, (b, .variable v) ∈ (u.classVariables c).zip args →
    u.varKey v = b.key u → v = b.ref

section equations

theorem allToDecl_eq_map (types : List Ty) : allToDecl types = types.map Ty.toDecl := by
  induction types with
  | nil => rfl
  | cons t rest ih => simp [allToDecl, ih]

theorem bindingsToDecl_eq_map (bindings : List TyVar) :
    bindingsToDecl bindings = bindings.map fun b => b.shown.toDecl := by
  induction bindings with
  | nil => rfl
  | cons b rest ih => cases b <;> simp [bindingsToDecl, ih, Ty.toDecl]

@[simp] theorem Ty.toDecl_applied (c : ClassId) (bindings : List TyVar) :
    (Ty.applied c bindings).toDecl = .applied c (bindings.map fun b => b.shown.toDecl) := by
  rw [Ty.toDecl, bindingsToDecl_eq_map]

@[simp] theorem Ty.toDecl_wildcard (upper lower : List Ty) :
    (Ty.wildcard upper lower).toDecl = .wildcard (upper.map toDecl) (lower.map toDecl) := by
  rw [Ty.toDecl, allToDecl_eq_map, allToDecl_eq_map]

theorem dropRootsAll_eq_map (lowerToo : Bool) (types : List DeclType) :
    dropRootsAll lowerToo types = types.map (DeclType.dropRoots lowerToo) := by
  induction types with
  | nil => rfl
  | cons t rest ih => simp [dropRootsAll, ih]

theorem dropRootBounds_eq_map (lowerToo : Bool) (types : List DeclType) :
    dropRootBounds lowerToo types =
      (types.filter fun t => !t.isRoot).map (DeclType.dropRoots lowerToo) := by
  induction types with
  | nil => rfl
  | cons t rest ih => cases root : t.isRoot <;> simp [dropRootBounds, root, ih]

theorem fitArgumentsAll_eq_map (u : Universe) (types : List DeclType) :
    fitArgumentsAll u types = types.map (DeclType.fitArguments u) := by
  induction types with
  | nil => rfl
  | cons t rest ih => simp [fitArgumentsAll, ih]

namespace DeclType

@[simp] theorem dropRoots_applied (lowerToo : Bool) (c : ClassId) (args : List DeclType) :
    (applied c args).dropRoots lowerToo = .applied c (args.map (dropRoots lowerToo)) := by
  rw [dropRoots, dropRootsAll_eq_map]

theorem dropRoots_wildcard (lowerToo : Bool) (upper lower : List DeclType) :
    (wildcard upper lower).dropRoots lowerToo =
      .wildcard ((upper.filter fun t => !t.isRoot).map (dropRoots lowerToo))
        ((if lowerToo then lower.filter fun t => !t.isRoot else lower).map (dropRoots lowerToo)) := by
  cases lowerToo <;> simp [dropRoots, dropRootBounds_eq_map, dropRootsAll_eq_map]

@[simp] theorem fitArguments_applied (u : Universe) (c : ClassId) (args : List DeclType) :
    (applied c args).fitArguments u =
      .applied c ((u.classVariables c).zipWith (asValueOf u) (args.map (fitArguments u))) := by
  rw [fitArguments, fitArgumentsAll_eq_map]

@[simp] theorem fitArguments_wildcard (u : Universe) (upper lower : List DeclType) :
    (wildcard upper lower).fitArguments u =
      .wildcard (upper.map (fitArguments u)) (lower.map (fitArguments u)) := by
  rw [fitArguments, fitArgumentsAll_eq_map, fitArgumentsAll_eq_map]

theorem asValueOf_of_ne {u : Universe} {b : TyVar} {t : DeclType}
    (other : ∀ v, t = .variable v → u.varKey v ≠ b.key u) : t.asValueOf u b = t := by
  cases t with
  | «variable» v => exact if_neg (other v rfl)
  | _ => rfl

end DeclType

end equations

section readback

variable {u : Universe}

/-- A settled type reads as a variable only if it is one. -/
theorem Ty.Settled.eq_free_of_toDecl {t : Ty} (settled : t.Settled) {v : VarRef}
    (reads : t.toDecl = .variable v) : t = .variable (.free v) := by
  cases settled with
  | free w =>
    cases reads
    rfl
  | _ => cases reads

theorem Ty.Settled.eq_ofClass_of_toDecl {t : Ty} (settled : t.Settled) {c : ClassId}
    (reads : t.toDecl = .ofClass c) : t = .ofClass c := by
  cases settled with
  | ofClass d =>
    cases reads
    rfl
  | _ => cases reads

theorem toDecl_shown_bindTo {v : VarRef} {a : Ty} (settled : a.Settled) :
    ((TyVar.free v).bindTo u a).shown.toDecl = a.toDecl.asValueOf u (.free v) := by
  rcases TyVar.bindTo_cases (u := u) (.free v) a with ⟨r, rfl, key, dropped⟩ | kept
  · rw [dropped]
    exact (if_pos key).symm
  · rw [kept]
    refine (DeclType.asValueOf_of_ne fun w reads key => ?_).symm
    rw [settled.eq_free_of_toDecl reads, TyVar.bindTo_own key] at kept
    cases kept

/-- Binding a variable to what its binding shows makes the same binding. -/
theorem TyVar.bindTo_shown_bindTo (v : VarRef) (a : Ty) :
    (TyVar.free v).bindTo u ((TyVar.free v).bindTo u a).shown = (TyVar.free v).bindTo u a := by
  rcases TyVar.bindTo_cases (u := u) (.free v) a with ⟨r, rfl, key, dropped⟩ | kept
  · rw [dropped]
    exact TyVar.bindTo_own rfl
  · rw [kept]
    exact kept

/-- A class applied to what its bindings show has the same bindings. -/
theorem Ty.apply_shown (c : ClassId) (args : List Ty) :
    Ty.apply u c ((u.bindVars (.ofClass c) args).map TyVar.shown) = .apply u c args := by
  have again : ∀ (owner : List VarRef) (args : List Ty),
      (owner.map TyVar.free).zipWith (TyVar.bindTo u)
        (((owner.map TyVar.free).zipWith (TyVar.bindTo u) args).map TyVar.shown) =
      (owner.map TyVar.free).zipWith (TyVar.bindTo u) args := by
    intro owner
    induction owner with
    | nil => exact fun _ => rfl
    | cons v rest ih =>
      intro args
      cases args with
      | nil => rfl
      | cons a args =>
        simp only [List.map_cons, List.zipWith_cons_cons, TyVar.bindTo_shown_bindTo, ih]
  have vars : u.classVariables c =
      ((List.range (u.typeParams (.ofClass c)).length).map (VarRef.mk (.ofClass c))).map .free := by
    rw [List.map_map]
    rfl
  simp only [Ty.apply, Universe.bindVars, ← Universe.classVariables.eq_1, vars, again]

/-- The bindings of an applied class read as its variables take the arguments. -/
theorem Ty.toDecl_apply (c : ClassId) {args : List Ty} (settled : ∀ a ∈ args, a.Settled) :
    (Ty.apply u c args).toDecl =
      .applied c ((u.classVariables c).zipWith (DeclType.asValueOf u) (args.map toDecl)) := by
  rw [Ty.apply, Ty.toDecl_applied, List.map_zipWith, List.zipWith_map_right]
  congr 1
  rw [← List.map_uncurry_zip_eq_zipWith, ← List.map_uncurry_zip_eq_zipWith]
  refine List.map_congr_left ?_
  rintro ⟨b, a⟩ pair
  obtain ⟨own, arg⟩ := List.of_mem_zip pair
  obtain ⟨v, -, -, rfl⟩ := mem_variablesOf.1 own
  exact toDecl_shown_bindTo (settled a arg)

namespace DeclType

/-- Resolution loses root bounds, surplus arguments and which of several variables of one id an
argument is; the rest can be read off the type. -/
theorem toDecl_of_resolve {t : DeclType} {r : Ty} (resolved : t.resolve u = .ok r) :
    r.toDecl = (t.dropRoots true).fitArguments u := by
  have all {types : List DeclType} {rs : List Ty}
      (each : List.Forall₂ (fun t r => t.resolve u = .ok r ∧
        r.toDecl = (t.dropRoots true).fitArguments u) types rs) :
      rs.map Ty.toDecl = types.map fun t => (t.dropRoots true).fitArguments u := by
    rw [← List.forall₂_eq_eq_eq, List.forall₂_map_left_iff, List.forall₂_map_right_iff]
    exact each.flip.imp fun _ _ same => same.2
  refine resolve_induction ?ofClass ?applied ?free ?wildcard ?array t r resolved
  case ofClass => exact fun _ => rfl
  case free => exact fun _ => rfl
  case array => exact fun _ _ _ inner => congrArg DeclType.array inner
  case wildcard =>
    intro upper lower uppers lowers eachUpper eachLower
    rw [Ty.toDecl_wildcard, all eachUpper, all eachLower, dropRoots_wildcard, fitArguments_wildcard,
      List.map_map, List.map_map]
    rfl
  case applied =>
    intro c args types each
    have settled : ∀ a ∈ types, a.Settled := by
      intro a member
      obtain ⟨_, -, resolved, -⟩ := exists_left_of_mem each member
      exact settled_of_resolve resolved
    rw [Ty.toDecl_apply c settled, all each, dropRoots_applied, fitArguments_applied, List.map_map]
    rfl

/-- What a resolved type reads as is resolved to it again. -/
theorem resolve_toDecl {t : DeclType} {r : Ty} (resolved : t.resolve u = .ok r) :
    r.toDecl.resolve u = .ok r := by
  have bounds {types : List DeclType} {rs : List Ty}
      (each : List.Forall₂ (fun t r => t.resolve u = .ok r ∧ r.toDecl.resolve u = .ok r)
        (types.filter fun t => !t.isRoot) rs) :
      resolveBounds u (rs.map Ty.toDecl) = .ok rs := by
    -- What is left of the bounds does not read as the root class, so none of them is dropped now.
    have proper : ∀ r ∈ rs, r.toDecl.isRoot = false := by
      intro r member
      obtain ⟨t, kept, resolved, -⟩ := exists_left_of_mem each member
      refine Bool.eq_false_iff.2 fun root => ?_
      have bare := (settled_of_resolve resolved).eq_ofClass_of_toDecl (eq_of_isRoot root)
      rw [bare] at resolved
      rw [eq_ofClass_of_resolve resolved] at kept
      simpa [isRoot] using (List.mem_filter.1 kept).2
    rw [resolveBounds_eq, List.filter_eq_self.2 (by simpa using proper), resolveAll_eq_ok,
      List.forall₂_map_left_iff, List.forall₂_same]
    intro r member
    obtain ⟨_, -, -, again⟩ := exists_left_of_mem each member
    exact again
  refine resolve_induction ?ofClass ?applied ?free ?wildcard ?array t r resolved
  case ofClass => exact fun _ => rfl
  case free => exact fun _ => rfl
  case array => exact fun _ _ _ inner => bind_eq_ok.2 ⟨_, inner, rfl⟩
  case wildcard =>
    intro upper lower uppers lowers eachUpper eachLower
    rw [Ty.toDecl_wildcard]
    exact bind_eq_ok.2 ⟨uppers, bounds eachUpper, bind_eq_ok.2 ⟨lowers, bounds eachLower, rfl⟩⟩
  case applied =>
    intro c args types each
    have shown : resolveAll u
        (((u.bindVars (.ofClass c) types).map TyVar.shown).map Ty.toDecl) =
          .ok ((u.bindVars (.ofClass c) types).map TyVar.shown) := by
      rw [resolveAll_eq_ok, List.forall₂_map_left_iff, List.forall₂_same]
      rw [List.forall_mem_map]
      intro b member
      obtain ⟨v, -, -, a, arg, rfl⟩ := mem_bindings_apply member
      rcases TyVar.bindTo_cases (u := u) (.free v) a with ⟨_, _, _, dropped⟩ | kept
      · -- The argument was the variable itself, which the binding shows in its place.
        rw [dropped]
        rfl
      · rw [kept]
        obtain ⟨_, -, -, again⟩ := exists_left_of_mem each arg
        exact again
    have reads : (Ty.apply u c types).toDecl =
        .applied c (((u.bindVars (.ofClass c) types).map TyVar.shown).map Ty.toDecl) := by
      rw [List.map_map]
      exact Ty.toDecl_applied c _
    rw [reads]
    exact bind_eq_ok.2 ⟨_, shown, congrArg Except.ok (Ty.apply_shown c types)⟩

theorem resolve_lower_root (upper lower : List DeclType) :
    (wildcard upper (.ofClass Universe.object :: lower)).resolve u =
      (wildcard upper lower).resolve u := by
  simp [resolve, resolveBounds, isRoot]

end DeclType

end readback

namespace DeclType

variable {u : Universe}

section kept

variable {t : DeclType}

theorem Part.trans {p q t : DeclType} (outer : Part q t) (inner : Part p q) : Part p t := by
  induction outer with
  | self => exact inner
  | argument member _ ih => exact .argument member (ih)
  | upper member _ ih => exact .upper member (ih)
  | lower member _ ih => exact .lower member (ih)
  | element _ ih => exact .element (ih)

theorem Kept.part {s : DeclType} (kept : t.Kept u) (part : Part s t) : s.Kept u where
  arity c args inner := kept.arity c args (part.trans inner)
  lower upper lower inner := kept.lower upper lower (part.trans inner)
  own c args inner := kept.own c args (part.trans inner)

theorem kept_ofClass (c : ClassId) : (ofClass c).Kept u := ⟨nofun, nofun, nofun⟩

theorem kept_variable (v : VarRef) : (DeclType.variable v).Kept u := ⟨nofun, nofun, nofun⟩

theorem kept_wildcard {upper lower : List DeclType} (proper : ∀ b ∈ lower, b.isRoot = false)
    (uppers : ∀ t ∈ upper, t.Kept u) (lowers : ∀ t ∈ lower, t.Kept u) :
    (wildcard upper lower).Kept u where
  arity c args part := by
    cases part with
    | upper member inner => exact (uppers _ member).arity c args inner
    | lower member inner => exact (lowers _ member).arity c args inner
  lower upper' lower' part := by
    cases part with
    | self => exact proper
    | upper member inner => exact (uppers _ member).lower upper' lower' inner
    | lower member inner => exact (lowers _ member).lower upper' lower' inner
  own c args part := by
    cases part with
    | upper member inner => exact (uppers _ member).own c args inner
    | lower member inner => exact (lowers _ member).own c args inner

theorem kept_applied {c : ClassId} {args : List DeclType}
    (arity : args.length = (u.classVariables c).length)
    (own : ∀ b v, (b, .variable v) ∈ (u.classVariables c).zip args →
      u.varKey v = b.key u → v = b.ref)
    (inner : ∀ t ∈ args, t.Kept u) : (applied c args).Kept u where
  arity c' args' part := by
    cases part with
    | self => exact arity
    | argument member part => exact (inner _ member).arity c' args' part
  lower upper lower part := by
    cases part with
    | argument member part => exact (inner _ member).lower upper lower part
  own c' args' part := by
    cases part with
    | self => exact own
    | argument member part => exact (inner _ member).own c' args' part

/-- Where ids differ, it is enough that no class lacks an argument and no lower bound is the root. -/
theorem kept_of_injOn (ids : Set.InjOn u.varKey u.declaredVars)
    (declared : ∀ v, Part (.variable v) t → v ∈ u.declaredVars)
    (arity : ∀ c args, Part (.applied c args) t → args.length = (u.classVariables c).length)
    (lower : ∀ upper lower, Part (.wildcard upper lower) t → ∀ b ∈ lower, b.isRoot = false) :
    t.Kept u where
  arity := arity
  lower := lower
  own c args part b v pair key := by
    obtain ⟨own, arg⟩ := List.of_mem_zip pair
    obtain ⟨w, bound, -, rfl⟩ := mem_variablesOf.1 own
    exact ids (declared v (part.trans (.argument arg (.self _)))) bound key

theorem Kept.zipWith_asValueOf {c : ClassId} {args : List DeclType}
    (kept : (applied c args).Kept u) :
    (u.classVariables c).zipWith (asValueOf u) (args.map (dropRoots false)) =
      args.map (dropRoots false) := by
  have taken : ∀ pair ∈ (u.classVariables c).zip args,
      (pair.2.dropRoots false).asValueOf u pair.1 = pair.2.dropRoots false := by
    rintro ⟨b, arg⟩ member
    cases arg with
    | «variable» v =>
      by_cases key : u.varKey v = b.key u
      · rw [kept.own c args (.self _) b v member key]
        exact ite_self _
      · exact if_neg key
    | _ => rfl
  calc (u.classVariables c).zipWith (asValueOf u) (args.map (dropRoots false))
    _ = ((u.classVariables c).zip args).map fun pair =>
          (pair.2.dropRoots false).asValueOf u pair.1 := by
      rw [List.zipWith_map_right, ← List.map_uncurry_zip_eq_zipWith]
      rfl
    _ = (((u.classVariables c).zip args).map Prod.snd).map (dropRoots false) := by
      rw [List.map_map]
      exact List.map_congr_left taken
    _ = args.map (dropRoots false) := by
      rw [List.map_snd_zip (kept.arity c args (.self _)).le]

/-- Of a type that is kept, only root classes among upper bounds are lost. -/
theorem Kept.fitArguments_dropRoots {r : Ty} (resolved : t.resolve u = .ok r) :
    t.Kept u → (t.dropRoots true).fitArguments u = t.dropRoots false := by
  have all {types : List DeclType} {rs : List Ty}
      (each : List.Forall₂ (fun t r => t.resolve u = .ok r ∧
        (t.Kept u → (t.dropRoots true).fitArguments u = t.dropRoots false)) types rs)
      (kept : ∀ t ∈ types, t.Kept u) :
      (types.map (dropRoots true)).map (fitArguments u) = types.map (dropRoots false) := by
    rw [List.map_map]
    refine List.map_congr_left fun t member => ?_
    obtain ⟨_, -, -, same⟩ := exists_left_of_mem each.flip member
    exact same (kept t member)
  refine resolve_induction ?ofClass ?applied ?free ?wildcard ?array t r resolved
  case ofClass => exact fun _ _ => rfl
  case free => exact fun _ _ => rfl
  case array =>
    exact fun _ _ _ inner kept => congrArg DeclType.array (inner (kept.part (.element (.self _))))
  case wildcard =>
    intro upper lower uppers lowers eachUpper eachLower kept
    have noRoot : lower.filter (fun t => !t.isRoot) = lower :=
      List.filter_eq_self.2 fun t member => by simp [kept.lower _ _ (.self _) t member]
    rw [dropRoots_wildcard, dropRoots_wildcard, fitArguments_wildcard,
      all eachUpper fun t member => kept.part (.upper (List.mem_of_mem_filter member) (.self t))]
    rw [noRoot] at eachLower
    simp only [if_true, Bool.false_eq_true, if_false, noRoot,
      all eachLower fun t member => kept.part (.lower member (.self t))]
  case applied =>
    intro c args types each kept
    rw [dropRoots_applied, dropRoots_applied, fitArguments_applied,
      all each fun t member => kept.part (.argument member (.self t)), kept.zipWith_asValueOf]

end kept

/-- Two declared types are resolved alike exactly if they agree without root bounds, with arguments
as the variables take them. If nothing else can be lost, that is to agree without root classes among
the upper bounds of wildcards. -/
theorem resolve_eq_iff {t₁ t₂ : DeclType} (supported₁ : ¬ t₁.Unsupported)
    (supported₂ : ¬ t₂.Unsupported) :
    (t₁.resolve u = t₂.resolve u ↔
      (t₁.dropRoots true).fitArguments u = (t₂.dropRoots true).fitArguments u) ∧
    (t₁.Kept u → t₂.Kept u →
      (t₁.resolve u = t₂.resolve u ↔ t₁.dropRoots false = t₂.dropRoots false)) := by
  obtain ⟨r₁, resolved₁⟩ := exists_resolve t₁ supported₁ (u := u)
  obtain ⟨r₂, resolved₂⟩ := exists_resolve t₂ supported₂ (u := u)
  have reads : t₁.resolve u = t₂.resolve u ↔
      (t₁.dropRoots true).fitArguments u = (t₂.dropRoots true).fitArguments u := by
    rw [← toDecl_of_resolve resolved₁, ← toDecl_of_resolve resolved₂]
    constructor
    · intro same
      rw [resolved₁, resolved₂] at same
      rw [Except.ok.inj same]
    · intro same
      calc t₁.resolve u
        _ = r₁.toDecl.resolve u := by rw [resolve_toDecl resolved₁, resolved₁]
        _ = r₂.toDecl.resolve u := by rw [same]
        _ = t₂.resolve u := by rw [resolve_toDecl resolved₂, resolved₂]
  refine ⟨reads, fun kept₁ kept₂ => ?_⟩
  rw [reads, kept₁.fitArguments_dropRoots resolved₁, kept₂.fitArguments_dropRoots resolved₂]

end DeclType

namespace Pairs

/-- `Pair<B, ? extends bounds>` -/
def someB (bounds : List DeclType) : DeclType := .applied pair [.variable b, .wildcard bounds []]

def someA (upper lower : List DeclType) : DeclType :=
  .applied pair [.variable a, .wildcard upper lower]

theorem kept_pair {v : VarRef} {upper lower : List DeclType} (own : v = a ∨ v = b)
    (proper : ∀ t ∈ lower, t.isRoot = false) (uppers : ∀ t ∈ upper, t.Kept classes)
    (lowers : ∀ t ∈ lower, t.Kept classes) :
    (DeclType.applied pair [.variable v, .wildcard upper lower]).Kept classes := by
  refine DeclType.kept_applied rfl ?_ ?_
  · intro c w pair key
    have first : (c, DeclType.variable w) = (.free a, .variable v) := by
      have vars : classes.classVariables Pairs.pair = [.free a, .free b] := rfl
      simpa [vars] using pair
    cases first
    rcases own with rfl | rfl
    · rfl
    · exact absurd key (by decide)
  · rintro t member
    simp only [List.mem_cons, List.not_mem_nil, or_false] at member
    rcases member with rfl | rfl
    · exact DeclType.kept_variable v
    · exact DeclType.kept_wildcard proper uppers lowers

theorem kept_someB {bounds : List DeclType} (inner : ∀ t ∈ bounds, t.Kept classes) :
    (someB bounds).Kept classes := kept_pair (.inr rfl) nofun inner nofun

/-- Root classes among upper bounds make no difference, and upper and lower bounds differ, unless the
lower one is the root class. -/
theorem resolve_someA :
    (someA [.ofClass Universe.object, someB []] []).resolve classes =
        (someA [someB [.ofClass Universe.object]] []).resolve classes ∧
      (someA [] [someB []]).resolve classes ≠ (someA [someB []] []).resolve classes ∧
      (someA [] [.ofClass Universe.object]).resolve classes = (someA [] []).resolve classes ∧
      (someA [] [.ofClass Universe.object]).dropRoots false ≠ (someA [] []).dropRoots false := by
  have root : (DeclType.ofClass Universe.object).Kept classes := DeclType.kept_ofClass _
  have plain : (someB []).Kept classes := kept_someB nofun
  have bounded : (someB [.ofClass Universe.object]).Kept classes :=
    kept_someB (List.forall_mem_singleton.2 root)
  have above {upper : List DeclType} (uppers : ∀ t ∈ upper, t.Kept classes) :
      (someA upper []).Kept classes := kept_pair (.inl rfl) nofun uppers nofun
  have below : (someA [] [someB []]).Kept classes :=
    kept_pair (.inl rfl) (List.forall_mem_singleton.2 rfl) nofun (List.forall_mem_singleton.2 plain)
  have supported {t : DeclType} {r : Ty} (resolved : t.resolve classes = .ok r) :
      ¬ t.Unsupported := DeclType.not_unsupported_of_resolve resolved
  refine ⟨?_, ?_, ?_, nofun⟩
  · refine ((DeclType.resolve_eq_iff (supported rfl) (supported rfl)).2 ?_ ?_).2 rfl
    · exact above (List.forall_mem_cons.2 ⟨root, List.forall_mem_singleton.2 plain⟩)
    · exact above (List.forall_mem_singleton.2 bounded)
  · intro same
    have read := ((DeclType.resolve_eq_iff (supported rfl) (supported rfl)).2 below
      (above (List.forall_mem_singleton.2 plain))).1 same
    cases read
  · exact (DeclType.resolve_eq_iff (supported rfl) (supported rfl)).1.2 rfl

end Pairs

end JavaTypes
