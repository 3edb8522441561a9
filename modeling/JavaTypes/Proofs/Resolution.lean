import JavaTypes.Proofs.BareText
import JavaTypes.Ty.Resolution
import Mathlib.Data.List.Forall2

/-!
What resolution makes. Resolved types are settled and mention no variables but those written and
those of the classes applied. Replacing variables in a declared type and then resolving it gives the
resolved type with the replacements substituted; in particular, substituting nothing changes nothing.
-/
namespace JavaTypes

theorem bind_eq_ok {ε α β : Type} {x : Except ε α} {f : α → Except ε β} {b : β} :
    (x >>= f) = .ok b ↔ ∃ a, x = .ok a ∧ f a = .ok b := by
  cases x with
  | error e => simp [bind, Except.bind]
  | ok a => simp [bind, Except.bind]

theorem toOption_eq_some {ε α : Type} {x : Except ε α} {a : α} :
    x.toOption = some a ↔ x = .ok a := by
  cases x <;> simp [Except.toOption]

theorem toOption_map_eq_some {ε α β : Type} {x : Except ε α} {f : α → β} {b : β} :
    x.toOption.map f = some b ↔ ∃ a, x = .ok a ∧ f a = b := by
  simp only [Option.map_eq_some_iff, toOption_eq_some]

mutual

def DeclType.vars : DeclType → List VarRef
  | .ofClass _ => []
  | .applied _ args => varsOfAll args
  | .variable v => [v]
  | .wildcard upper lower => varsOfAll upper ++ varsOfAll lower
  | .array element => element.vars
  | .other _ => []

def varsOfAll : List DeclType → List VarRef
  | [] => []
  | t :: rest => t.vars ++ varsOfAll rest

def DeclType.replace (f : VarRef → DeclType) : DeclType → DeclType
  | .ofClass c => .ofClass c
  | .applied c args => .applied c (replaceAll f args)
  | .variable v => f v
  | .wildcard upper lower => .wildcard (replaceAll f upper) (replaceAll f lower)
  | .array element => .array (element.replace f)
  | .other shape => .other shape

def replaceAll (f : VarRef → DeclType) : List DeclType → List DeclType
  | [] => []
  | t :: rest => t.replace f :: replaceAll f rest

end

mutual

theorem DeclType.replace_self : ∀ t : DeclType, t.replace .variable = t
  | .ofClass _ => rfl
  | .applied _ args => by rw [DeclType.replace, replaceAll_self args]
  | .variable _ => rfl
  | .wildcard upper lower => by
    rw [DeclType.replace, replaceAll_self upper, replaceAll_self lower]
  | .array element => by rw [DeclType.replace, element.replace_self]
  | .other _ => rfl

theorem replaceAll_self : ∀ types : List DeclType, replaceAll .variable types = types
  | [] => rfl
  | t :: rest => by rw [replaceAll, t.replace_self, replaceAll_self rest]

end

theorem varsOfAll_eq_flatMap (types : List DeclType) :
    varsOfAll types = types.flatMap DeclType.vars := by
  induction types with
  | nil => rfl
  | cons t rest ih => simp [varsOfAll, ih]

theorem replaceAll_eq_map (f : VarRef → DeclType) (types : List DeclType) :
    replaceAll f types = types.map (DeclType.replace f) := by
  induction types with
  | nil => rfl
  | cons t rest ih => simp [replaceAll, ih]

namespace DeclType

@[simp] theorem vars_applied (c : ClassId) (args : List DeclType) :
    (applied c args).vars = args.flatMap vars := by
  simp [vars, varsOfAll_eq_flatMap]

@[simp] theorem vars_variable (v : VarRef) : (DeclType.variable v).vars = [v] := rfl

@[simp] theorem vars_wildcard (upper lower : List DeclType) :
    (wildcard upper lower).vars = upper.flatMap vars ++ lower.flatMap vars := by
  simp [vars, varsOfAll_eq_flatMap]

@[simp] theorem vars_array (t : DeclType) : (array t).vars = t.vars := rfl

theorem eq_of_isRoot {t : DeclType} (root : t.isRoot = true) : t = .ofClass Universe.object := by
  cases t with
  | ofClass c => exact congrArg ofClass (of_decide_eq_true root)
  | _ => cases root

section replace

variable (f : VarRef → DeclType)

@[simp] theorem replace_ofClass (c : ClassId) : (ofClass c).replace f = ofClass c := rfl

@[simp] theorem replace_applied (c : ClassId) (args : List DeclType) :
    (applied c args).replace f = applied c (args.map (replace f)) := by
  simp [replace, replaceAll_eq_map]

@[simp] theorem replace_variable (v : VarRef) : (DeclType.variable v).replace f = f v := rfl

@[simp] theorem replace_wildcard (upper lower : List DeclType) :
    (wildcard upper lower).replace f =
      wildcard (upper.map (replace f)) (lower.map (replace f)) := by
  simp [replace, replaceAll_eq_map]

@[simp] theorem replace_array (t : DeclType) : (array t).replace f = array (t.replace f) := rfl

variable {f}

theorem isRoot_replace {t : DeclType} (proper : ∀ v ∈ t.vars, (f v).isRoot = false) :
    (t.replace f).isRoot = t.isRoot := by
  cases t <;> try rfl
  exact proper _ (by simp)

end replace

end DeclType

section results

variable {u : Universe}

/-- Bounds are resolved like other types once those that are the root class are left out. -/
theorem resolveBounds_eq (types : List DeclType) :
    resolveBounds u types = resolveAll u (types.filter fun t => !t.isRoot) := by
  induction types with
  | nil => rfl
  | cons t rest ih => cases root : t.isRoot <;> simp [resolveBounds, resolveAll, root, ih]

theorem resolveAll_eq_ok {types : List DeclType} {resolved : List Ty} :
    resolveAll u types = .ok resolved ↔
      List.Forall₂ (fun t r => t.resolve u = .ok r) types resolved := by
  induction types generalizing resolved with
  | nil => simp [resolveAll, eq_comm]
  | cons t rest ih =>
    simp only [resolveAll, bind_eq_ok, ih, List.forall₂_cons_left_iff]
    constructor
    · rintro ⟨r, first, others, rest, same⟩
      cases same
      exact ⟨r, others, first, rest, rfl⟩
    · rintro ⟨r, others, first, rest, rfl⟩
      exact ⟨r, first, others, rest, rfl⟩

/-- What an induction over resolution needs: one case for each form of declared type that is resolved,
with a hypothesis for each type in it. -/
structure DeclType.ResolveCases (u : Universe) (motive : DeclType → Ty → Prop) : Prop where
  ofClass : ∀ c, motive (.ofClass c) (.ofClass c)
  applied : ∀ c args types, List.Forall₂ (fun t r => t.resolve u = .ok r ∧ motive t r) args types →
    motive (.applied c args) (.apply u c types)
  free : ∀ v, motive (.variable v) (.variable (.free v))
  wildcard : ∀ upper lower uppers lowers,
    List.Forall₂ (fun t r => t.resolve u = .ok r ∧ motive t r)
      (upper.filter fun t => !t.isRoot) uppers →
    List.Forall₂ (fun t r => t.resolve u = .ok r ∧ motive t r)
      (lower.filter fun t => !t.isRoot) lowers →
    motive (.wildcard upper lower) (.wildcard uppers lowers)
  array : ∀ t r, t.resolve u = .ok r → motive t r → motive (.array t) (.array r)

namespace DeclType.ResolveCases

variable {motive : DeclType → Ty → Prop}

mutual

theorem type (cases : ResolveCases u motive) :
    ∀ (t : DeclType) (r : Ty), t.resolve u = .ok r → motive t r
  | .ofClass c, r, resolved => by
    cases resolved
    exact cases.ofClass c
  | .applied c args, r, resolved => by
    obtain ⟨types, all, same⟩ := bind_eq_ok.1 resolved
    cases same
    exact cases.applied c args types (cases.types args types all)
  | .variable v, r, resolved => by
    cases resolved
    exact cases.free v
  | .wildcard upper lower, r, resolved => by
    obtain ⟨uppers, allUpper, resolved⟩ := bind_eq_ok.1 resolved
    obtain ⟨lowers, allLower, same⟩ := bind_eq_ok.1 resolved
    cases same
    exact cases.wildcard upper lower uppers lowers (cases.bounds upper uppers allUpper)
      (cases.bounds lower lowers allLower)
  | .array element, r, resolved => by
    obtain ⟨inner, found, same⟩ := bind_eq_ok.1 resolved
    cases same
    exact cases.array element inner found (cases.type element inner found)
  | .other shape, r, resolved => by cases resolved

theorem types (cases : ResolveCases u motive) :
    ∀ (types : List DeclType) (resolved : List Ty), resolveAll u types = .ok resolved →
      List.Forall₂ (fun t r => t.resolve u = .ok r ∧ motive t r) types resolved
  | [], resolved, all => by
    cases all
    exact .nil
  | t :: rest, resolved, all => by
    obtain ⟨first, found, tail⟩ := bind_eq_ok.1 all
    obtain ⟨others, allRest, same⟩ := bind_eq_ok.1 tail
    cases same
    exact .cons ⟨found, cases.type t first found⟩ (cases.types rest others allRest)

theorem bounds (cases : ResolveCases u motive) :
    ∀ (types : List DeclType) (resolved : List Ty), resolveBounds u types = .ok resolved →
      List.Forall₂ (fun t r => t.resolve u = .ok r ∧ motive t r)
        (types.filter fun t => !t.isRoot) resolved
  | [], resolved, all => by
    cases all
    exact .nil
  | t :: rest, resolved, all => by
    cases root : t.isRoot with
    | true =>
      simp only [resolveBounds, root, if_true] at all
      simpa [root] using cases.bounds rest resolved all
    | false =>
      simp only [resolveBounds, root] at all
      obtain ⟨first, found, tail⟩ := bind_eq_ok.1 all
      obtain ⟨others, allRest, same⟩ := bind_eq_ok.1 tail
      cases same
      simpa [root] using ⟨⟨found, cases.type t first found⟩, cases.bounds rest others allRest⟩

end

end DeclType.ResolveCases

/-- Induction over a declared type that is resolved, together with what it is resolved to. -/
@[elab_as_elim] theorem DeclType.resolve_induction {motive : DeclType → Ty → Prop}
    (ofClass : ∀ c, motive (.ofClass c) (.ofClass c))
    (applied : ∀ c args types,
      List.Forall₂ (fun t r => t.resolve u = .ok r ∧ motive t r) args types →
      motive (.applied c args) (.apply u c types))
    (free : ∀ v, motive (.variable v) (.variable (.free v)))
    (wildcard : ∀ upper lower uppers lowers,
      List.Forall₂ (fun t r => t.resolve u = .ok r ∧ motive t r)
        (upper.filter fun t => !t.isRoot) uppers →
      List.Forall₂ (fun t r => t.resolve u = .ok r ∧ motive t r)
        (lower.filter fun t => !t.isRoot) lowers →
      motive (.wildcard upper lower) (.wildcard uppers lowers))
    (array : ∀ t r, t.resolve u = .ok r → motive t r → motive (.array t) (.array r))
    (t : DeclType) (r : Ty) (resolved : t.resolve u = .ok r) : motive t r :=
  DeclType.ResolveCases.type ⟨ofClass, applied, free, wildcard, array⟩ t r resolved

end results

section resolved

variable {u : Universe}

theorem mem_variablesOf {owner : VarOwner} {b : TyVar} :
    b ∈ u.variablesOf owner ↔ ∃ v ∈ u.declaredVars, v.owner = owner ∧ b = .free v := by
  simp only [Universe.variablesOf, List.mem_map, List.mem_range, Universe.declaredVars,
    Set.mem_ofPred_eq, Universe.typeParam?, isSome_getElem?]
  constructor
  · rintro ⟨i, bound, rfl⟩
    exact ⟨⟨owner, i⟩, bound, rfl, rfl⟩
  · rintro ⟨⟨_, i⟩, bound, rfl, rfl⟩
    exact ⟨i, bound, rfl⟩

theorem mem_zipWith_bindTo {vars : List TyVar} {args : List Ty} {b : TyVar}
    (member : b ∈ vars.zipWith (TyVar.bindTo u) args) :
    ∃ v ∈ vars, ∃ a ∈ args, b = v.bindTo u a := by
  rw [← List.map_uncurry_zip_eq_zipWith] at member
  obtain ⟨⟨v, a⟩, pair, rfl⟩ := List.mem_map.1 member
  obtain ⟨left, right⟩ := List.of_mem_zip pair
  exact ⟨v, left, a, right, rfl⟩

/-- A binding of an applied class gives one of its variables one of the arguments. -/
theorem mem_bindings_apply {c : ClassId} {args : List Ty} {b : TyVar}
    (member : b ∈ (u.classVariables c).zipWith (TyVar.bindTo u) args) :
    ∃ v ∈ u.declaredVars, v.owner = .ofClass c ∧ ∃ a ∈ args, b = (TyVar.free v).bindTo u a := by
  obtain ⟨b', own, a, arg, rfl⟩ := mem_zipWith_bindTo member
  obtain ⟨v, declared, owner, rfl⟩ := mem_variablesOf.1 own
  exact ⟨v, declared, owner, a, arg, rfl⟩

theorem TyVar.of_bindTo_eq_bound {v w : VarRef} {a t : Ty}
    (eq : (TyVar.free v).bindTo u a = .bound w t) : w = v ∧ t = a := by
  rcases TyVar.bindTo_cases (u := u) (.free v) a with ⟨r, _, _, dropped⟩ | kept
  · rw [dropped] at eq
    cases eq
  · rw [kept] at eq
    cases eq
    exact ⟨rfl, rfl⟩

theorem TyVar.mentioned_bindTo {v w : VarRef} {a : Ty}
    (occurs : w ∈ (Ty.variable ((TyVar.free v).bindTo u a)).mentioned) :
    w = v ∨ w ∈ a.mentioned := by
  rcases TyVar.bindTo_cases (u := u) (.free v) a with ⟨r, _, _, dropped⟩ | kept
  · rw [dropped] at occurs
    exact .inl (by simpa [Ty.mentioned, TyVar.ref] using occurs)
  · rw [kept] at occurs
    simpa [Ty.mentioned, TyVar.ref] using occurs

/-- Where ids differ, binding a variable adds no free occurrence to those in the value. -/
theorem TyVar.freeVars_bindTo (ids : Set.InjOn u.varKey u.declaredVars) {v w : VarRef} {a : Ty}
    (bound : v ∈ u.declaredVars) (declared : a.Declared u)
    (occurs : w ∈ (Ty.variable ((TyVar.free v).bindTo u a)).freeVars) : w ∈ a.freeVars := by
  rcases TyVar.bindTo_cases (u := u) (.free v) a with ⟨r, rfl, key, dropped⟩ | kept
  · have same : r = v := ids (declared r (by simp [Ty.mentioned])) bound key
    rw [dropped] at occurs
    simpa [Ty.freeVars, TyVar.ref, same] using occurs
  · rw [kept] at occurs
    simpa [Ty.freeVars] using occurs

theorem Ty.subst_apply (raw : RawClasses) (bindings : List TyVar) (c : ClassId) (args : List Ty) :
    (Ty.apply u c args).subst u raw bindings =
      .apply u c (args.map (Ty.subst u raw bindings)) := by
  simp only [Ty.apply, Universe.classVariables, Universe.variablesOf, List.zipWith_map_left,
    List.zipWith_map_right, Ty.subst_applied, List.map_zipWith, rebind_bindTo]

theorem exists_left_of_mem {α β : Type} {R : α → β → Prop} {as : List α} {bs : List β}
    (each : List.Forall₂ R as bs) {b : β} (member : b ∈ bs) : ∃ a ∈ as, R a b := by
  induction each with
  | nil => cases member
  | cons first _ ih =>
    rcases List.mem_cons.1 member with rfl | member
    · exact ⟨_, List.mem_cons_self, first⟩
    · obtain ⟨a, inside, related⟩ := ih member
      exact ⟨a, List.mem_cons_of_mem _ inside, related⟩

/-- Two lists made from one, entry by entry, agree in what is read off them. -/
theorem map_eq_of_forall₂ {α β γ δ : Type} {R : α → β → Prop} {S : α → γ → Prop} {f : β → δ}
    {g : γ → δ} {as : List α} {bs : List β} {cs : List γ} (left : List.Forall₂ R as bs)
    (right : List.Forall₂ S as cs)
    (agree : ∀ a ∈ as, ∀ b, ∀ c ∈ cs, R a b → S a c → f b = g c) : bs.map f = cs.map g := by
  induction left generalizing cs with
  | nil =>
    cases right
    rfl
  | cons first _ ih =>
    cases right with
    | cons second others =>
      rw [List.map_cons, List.map_cons,
        agree _ List.mem_cons_self _ _ List.mem_cons_self first second,
        ih others fun a inside b c member =>
          agree a (List.mem_cons_of_mem _ inside) b c (List.mem_cons_of_mem _ member)]

namespace DeclType

theorem settled_of_resolve {t : DeclType} {r : Ty} (resolved : t.resolve u = .ok r) :
    r.Settled := by
  have all {args : List DeclType} {types : List Ty}
      (each : List.Forall₂ (fun t r => t.resolve u = .ok r ∧ r.Settled) args types) :
      ∀ s ∈ types, s.Settled := fun s member =>
    let ⟨_, _, _, settled⟩ := exists_left_of_mem each member
    settled
  refine resolve_induction ?ofClass ?applied ?free ?wildcard ?array t r resolved
  case ofClass => exact .ofClass
  case free => exact .free
  case array => exact fun _ r _ inner => .array r inner
  case wildcard => exact fun _ _ _ _ upper lower => .wildcard _ _ (all upper) (all lower)
  case applied =>
    refine fun c args types each => .applied _ _ fun v s member => ?_
    obtain ⟨w, _, _, a, arg, eq⟩ := mem_bindings_apply member
    obtain ⟨-, rfl⟩ := TyVar.of_bindTo_eq_bound eq.symm
    exact all each s arg

theorem mentioned_of_resolve {t : DeclType} {r : Ty} (resolved : t.resolve u = .ok r) :
    ∀ v ∈ r.mentioned, v ∈ t.vars ∨ v ∈ u.declaredVars := by
  refine resolve_induction ?ofClass ?applied ?free ?wildcard ?array t r resolved
  case ofClass => simp [Ty.mentioned]
  case free => simp [Ty.mentioned]
  case array => exact fun _ _ _ inner => by simpa [Ty.mentioned] using inner
  case wildcard =>
    intro upper lower uppers lowers eachUpper eachLower v occurs
    simp only [Ty.mentioned, Ty.gather_wildcard, List.mem_append, List.mem_flatMap] at occurs
    simp only [vars_wildcard, List.mem_append, List.mem_flatMap]
    rcases occurs with ⟨r, member, occurs⟩ | ⟨r, member, occurs⟩
    · obtain ⟨t, inside, _, inner⟩ := exists_left_of_mem eachUpper member
      exact (inner v occurs).imp_left fun written => .inl ⟨t, List.mem_of_mem_filter inside, written⟩
    · obtain ⟨t, inside, _, inner⟩ := exists_left_of_mem eachLower member
      exact (inner v occurs).imp_left fun written => .inr ⟨t, List.mem_of_mem_filter inside, written⟩
  case applied =>
    intro c args types each v occurs
    simp only [Ty.mentioned, Ty.apply, Ty.gather_applied, List.mem_flatMap] at occurs
    obtain ⟨b, member, occurs⟩ := occurs
    obtain ⟨w, declared, _, a, arg, rfl⟩ := mem_bindings_apply member
    rcases TyVar.mentioned_bindTo occurs with rfl | occurs
    · exact .inr declared
    · obtain ⟨t, inside, _, inner⟩ := exists_left_of_mem each arg
      refine (inner v occurs).imp_left fun written => ?_
      simpa using ⟨t, inside, written⟩

theorem declared_of_resolve {t : DeclType} {r : Ty} (resolved : t.resolve u = .ok r)
    (declared : ∀ v ∈ t.vars, v ∈ u.declaredVars) : r.Declared u := fun v occurs =>
  (mentioned_of_resolve resolved v occurs).elim (declared v) id

/-- Where ids differ, the free variables of a resolved type are among those that are written. -/
theorem freeVars_of_resolve (ids : Set.InjOn u.varKey u.declaredVars) {t : DeclType} {r : Ty}
    (resolved : t.resolve u = .ok r) :
    (∀ v ∈ t.vars, v ∈ u.declaredVars) → ∀ v ∈ r.freeVars, v ∈ t.vars := by
  refine resolve_induction ?ofClass ?applied ?free ?wildcard ?array t r resolved
  case ofClass => simp [Ty.freeVars]
  case free => simp [Ty.freeVars]
  case array => exact fun _ _ _ inner => by simpa [Ty.freeVars] using inner
  case wildcard =>
    intro upper lower uppers lowers eachUpper eachLower declared v occurs
    simp only [Ty.freeVars, Ty.gather_wildcard, List.mem_append, List.mem_flatMap] at occurs
    simp only [vars_wildcard, List.mem_append, List.mem_flatMap] at declared ⊢
    rcases occurs with ⟨r, member, occurs⟩ | ⟨r, member, occurs⟩
    · obtain ⟨t, inside, _, inner⟩ := exists_left_of_mem eachUpper member
      have inside := List.mem_of_mem_filter inside
      exact .inl ⟨t, inside, inner (fun w written => declared w (.inl ⟨t, inside, written⟩)) v occurs⟩
    · obtain ⟨t, inside, _, inner⟩ := exists_left_of_mem eachLower member
      have inside := List.mem_of_mem_filter inside
      exact .inr ⟨t, inside, inner (fun w written => declared w (.inr ⟨t, inside, written⟩)) v occurs⟩
  case applied =>
    intro c args types each declared v occurs
    simp only [Ty.freeVars, Ty.apply, Ty.gather_applied, List.mem_flatMap] at occurs
    simp only [vars_applied, List.mem_flatMap] at declared ⊢
    obtain ⟨b, member, occurs⟩ := occurs
    obtain ⟨w, bound, _, a, arg, rfl⟩ := mem_bindings_apply member
    obtain ⟨t, inside, resolved, inner⟩ := exists_left_of_mem each arg
    have written : ∀ w ∈ t.vars, w ∈ u.declaredVars := fun w written => declared w ⟨t, inside, written⟩
    exact ⟨t, inside, inner written v
      (TyVar.freeVars_bindTo ids bound (declared_of_resolve resolved written) occurs)⟩

/-- Replacing variables before resolution is substituting after it. -/
theorem resolve_replace {t : DeclType} {r : Ty} (resolved : t.resolve u = .ok r)
    {f : VarRef → DeclType} {bindings : List TyVar} :
    (∀ v ∈ t.vars, (f v).resolve u = .ok (valueOrSelf u bindings v) ∧ (f v).isRoot = false) →
      (t.replace f).resolve u = .ok (r.resolveInScope u bindings) := by
  -- The induction hypothesis at all types of a list, the variables of which are replaced properly.
  have all {args : List DeclType} {types : List Ty}
      (each : List.Forall₂ (fun t r => t.resolve u = .ok r ∧
        ((∀ v ∈ t.vars, (f v).resolve u = .ok (valueOrSelf u bindings v) ∧ (f v).isRoot = false) →
          (t.replace f).resolve u = .ok (r.resolveInScope u bindings))) args types)
      (values : ∀ t ∈ args, ∀ v ∈ t.vars,
        (f v).resolve u = .ok (valueOrSelf u bindings v) ∧ (f v).isRoot = false) :
      resolveAll u (args.map (replace f)) = .ok (types.map (Ty.subst u .kept bindings)) := by
    rw [resolveAll_eq_ok, List.forall₂_map_left_iff, List.forall₂_map_right_iff]
    refine ((List.forall₂_and_left _ _).2 ⟨values, each⟩).imp ?_
    rintro t r ⟨values, -, replaced⟩
    exact replaced values
  have bounds {types : List DeclType} (proper : ∀ t ∈ types, ∀ v ∈ t.vars, (f v).isRoot = false) :
      (types.map (replace f)).filter (fun t => !t.isRoot) =
        (types.filter fun t => !t.isRoot).map (replace f) := by
    rw [List.filter_map]
    congr 1
    refine List.filter_congr fun t member => ?_
    simp [isRoot_replace (proper t member)]
  refine resolve_induction ?ofClass ?applied ?free ?wildcard ?array t r resolved
  case ofClass => exact fun _ _ => rfl
  case free => exact fun v values => (values v (by simp)).1
  case array =>
    intro t r _ inner values
    exact bind_eq_ok.2 ⟨_, inner values, rfl⟩
  case wildcard =>
    intro upper lower uppers lowers eachUpper eachLower values
    simp only [vars_wildcard, List.mem_append, List.mem_flatMap] at values
    rw [replace_wildcard]
    refine bind_eq_ok.2 ⟨uppers.map (Ty.subst u .kept bindings), ?_,
      bind_eq_ok.2 ⟨lowers.map (Ty.subst u .kept bindings), ?_, by simp [Ty.resolveInScope]; rfl⟩⟩
    · rw [resolveBounds_eq, bounds fun t member v written => (values v (.inl ⟨t, member, written⟩)).2]
      exact all eachUpper fun t member v written =>
        values v (.inl ⟨t, List.mem_of_mem_filter member, written⟩)
    · rw [resolveBounds_eq, bounds fun t member v written => (values v (.inr ⟨t, member, written⟩)).2]
      exact all eachLower fun t member v written =>
        values v (.inr ⟨t, List.mem_of_mem_filter member, written⟩)
  case applied =>
    intro c args types each values
    simp only [vars_applied, List.mem_flatMap] at values
    rw [replace_applied, Ty.resolveInScope, Ty.subst_apply]
    exact bind_eq_ok.2 ⟨_, all each fun t member v written => values v ⟨t, member, written⟩, rfl⟩

/-- Substitution changes nothing in a resolved type whose variables and classes it keeps. -/
theorem subst_of_resolve {t : DeclType} {r : Ty} (resolved : t.resolve u = .ok r)
    {raw : RawClasses} {bindings : List TyVar}
    (values : ∀ v ∈ r.freeVars, valueOrSelf u bindings v = .variable (.free v))
    (classes : ∀ c ∈ r.rawClasses, (Ty.ofClass c).subst u raw bindings = .ofClass c) :
    r.subst u raw bindings = r := by
  have unchanged : r.resolveInScope u [] = r := by
    have replaced : (t.replace .variable).resolve u = .ok (r.resolveInScope u []) :=
      resolve_replace resolved fun v _ => ⟨rfl, rfl⟩
    rw [replace_self, resolved] at replaced
    exact (Except.ok.inj replaced).symm
  calc
    r.subst u raw bindings = (r.resolveInScope u []).subst u raw bindings := by rw [unchanged]
    _ = r.resolveInScope u [] := (settled_of_resolve resolved).subst_subst values classes
    _ = r := unchanged

end DeclType

end resolved

end JavaTypes
