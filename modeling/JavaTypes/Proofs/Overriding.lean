import JavaTypes.Proofs.Application
import JavaTypes.Proofs.MethodListing

/-!
Overriding through an applied super type. A class that declares a method of its super type with the
arguments of the clause written in place of the variables has a method of the same override key as
the inherited one, although one type is substituted after resolution and the other one before it.
-/
namespace JavaTypes

variable {u : Universe}

/-- What an overriding method writes for a variable of the inherited one: the argument for a
variable of the super type, and its own variable at the same position for one of the method. -/
def overriding (super : ClassId) (args : List DeclType) (source target : VarOwner) (v : VarRef) :
    DeclType :=
  if v.owner = .ofClass super then args.getD v.index (.variable v)
  else if v.owner = source then .variable ⟨target, v.index⟩
  else .variable v

/-- A class extends or implements a super type applied to arguments, and its method `j` is method
`i` of the super type as it reads there. -/
structure Universe.Overrides (u : Universe) (c super : ClassId) (args : List DeclType) (j i : Nat)
    (own inherited : MethodDecl) : Prop where
  clause : .applied super args ∈ (u.decl c).clauses
  arity : args.length = (u.decl super).typeParams.length
  notRoot : ∀ a ∈ args, a.isRoot = false
  argVars : ∀ a ∈ args, ∀ v ∈ a.vars, v.owner = .ofClass c ∧ v ∈ u.declaredVars
  inheritedAt : (u.decl super).methods[i]? = some inherited
  inheritedPublic : inherited.modifiers.isPublic = true
  inheritedInstance : inherited.modifiers.isStatic = false
  inheritedSource : inherited.bridge = false
  paramVars : ∀ p ∈ inherited.params, ∀ v ∈ p.type.vars,
    v ∈ u.declaredVars ∧ (v.owner = .ofClass super ∨ v.owner = .method super i)
  ownAt : (u.decl c).methods[j]? = some own
  ownPublic : own.modifiers.isPublic = true
  ownSource : own.bridge = false
  name : own.name = inherited.name
  generic : own.typeParams.length = inherited.typeParams.length
  params : own.params.map (·.type) = inherited.params.map fun p =>
    p.type.replace (overriding super args (.method super i) (.method c j))

namespace Universe.Overrides

variable {c super : ClassId} {args : List DeclType} {types : List Ty} {j i : Nat}
  {own inherited : MethodDecl} (ids : Set.InjOn u.varKey u.declaredVars)
  (overrides : u.Overrides c super args j i own inherited)
  (resolvedArgs : List.Forall₂ (fun a t => a.resolve u = .ok t) args types)

include overrides

theorem image (k : Nat) (declared : ⟨.method super i, k⟩ ∈ u.declaredVars) :
    ⟨.method c j, k⟩ ∈ u.declaredVars := by
  rw [mem_declaredVars_method overrides.inheritedAt] at declared
  rw [mem_declaredVars_method overrides.ownAt, overrides.generic]
  exact declared

include resolvedArgs

theorem declared_arg : ∀ t ∈ types, t.Declared u := fun _ member =>
  let ⟨a, inside, resolved⟩ := exists_left_of_mem resolvedArgs member
  DeclType.declared_of_resolve resolved fun v written => (overrides.argVars a inside v written).2

include ids

/-- Replacing a variable as the override does is binding it to the argument or renaming it. -/
theorem resolve_overriding {v : VarRef} (declared : v ∈ u.declaredVars)
    (owned : v.owner = .ofClass super ∨ v.owner = .method super i) :
    (overriding super args (.method super i) (.method c j) v).resolve u =
        .ok (valueOrSelf u (u.bindVars (.ofClass super) types ++
          renameVars u (.method super i) (.method c j)) v) ∧
      (overriding super args (.method super i) (.method c j) v).isRoot = false := by
  obtain ⟨owner, k⟩ := v
  simp only at owned
  rcases owned with rfl | rfl
  · have inside : k < args.length := overrides.arity ▸ mem_declaredVars.1 declared
    have within : k < types.length := resolvedArgs.length_eq ▸ inside
    have argument : overriding super args (.method super i) (.method c j) ⟨.ofClass super, k⟩ =
        args[k] := by
      simp [overriding, List.getElem?_eq_getElem inside]
    have value := valueOrSelf_bindVars_append ids declared (List.getElem?_eq_getElem within)
      (overrides.declared_arg resolvedArgs _ (List.getElem_mem within))
      (renameVars u (.method super i) (.method c j))
    rw [argument, value]
    exact ⟨resolvedArgs.get inside within, overrides.notRoot _ (List.getElem_mem inside)⟩
  · rw [valueOrSelf_bindVars_of_other ids declared (by simp),
      valueOrSelf_renameVars ids declared (overrides.image k declared)]
    simp [overriding, DeclType.resolve, DeclType.isRoot]

/-- An argument has one text in the keys of both methods: it mentions variables of the class only. -/
theorem bareText_arg {t : Ty} (member : t ∈ types) :
    t.bareText u (ownNaming u (.method c j)) = t.bareText u (ownNaming u (.method super i)) := by
  obtain ⟨a, inside, resolved⟩ := exists_left_of_mem resolvedArgs member
  have owners : ∀ v ∈ t.freeVars, v.owner = .ofClass c := fun v occurs =>
    (overrides.argVars a inside v (DeclType.freeVars_of_resolve ids resolved
      (fun w written => (overrides.argVars a inside w written).2) v occurs)).1
  have declared := overrides.declared_arg resolvedArgs t member
  rw [bareText_method ids declared fun v occurs => by simp [owners v occurs],
    bareText_method ids declared fun v occurs => by simp [owners v occurs]]

theorem bareText_param {p : ParamDecl} (member : p ∈ inherited.params) {r r' : Ty}
    (resolved : p.type.resolve u = .ok r)
    (replaced : (p.type.replace (overriding super args (.method super i) (.method c j))).resolve u =
      .ok r') :
    (r.resolveInScope u (u.bindVars (.ofClass super) types)).bareText u
        (ownNaming u (.method super i)) = r'.bareText u (ownNaming u (.method c j)) := by
  have written := overrides.paramVars p member
  have settled := DeclType.settled_of_resolve resolved
  have declared := DeclType.declared_of_resolve resolved fun v occurs => (written v occurs).1
  have seen : r' = r.resolveInScope u (u.bindVars (.ofClass super) types ++
      renameVars u (.method super i) (.method c j)) := by
    have both := DeclType.resolve_replace resolved fun v occurs =>
      overrides.resolve_overriding ids resolvedArgs (written v occurs).1 (written v occurs).2
    exact Except.ok.inj (replaced.symm.trans both)
  have argValues : ∀ s ∈ valuesOf (u.bindVars (.ofClass super) types), s.Declared u := by
    intro s value
    exact overrides.declared_arg resolvedArgs s (mem_valuesOf_bindVars value)
  have allValues : ∀ s ∈ valuesOf (u.bindVars (.ofClass super) types ++
      renameVars u (.method super i) (.method c j)), s.Declared u := by
    intro s value
    rw [valuesOf_append] at value
    rcases List.mem_append.1 value with value | value
    · exact argValues s value
    · exact declared_of_mem_valuesOf_renameVars value
  rw [seen, Ty.bareText_resolveInScope ids settled declared argValues,
    Ty.bareText_resolveInScope ids settled declared allValues]
  unfold Ty.textUnder
  refine Ty.textWith_congr (fun d _ => ?_) fun v occurs => ?_
  · rw [classText_method ids, classText_method ids]
  · obtain ⟨bound, owned⟩ := written v
      (DeclType.freeVars_of_resolve ids resolved (fun w occurs => (written w occurs).1) v occurs)
    obtain ⟨owner, k⟩ := v
    simp only at owned
    rcases owned with rfl | rfl
    · -- A variable of the super type shows its argument on both sides.
      have within : k < types.length := by
        rw [← resolvedArgs.length_eq, overrides.arity]
        exact mem_declaredVars.1 bound
      have argument := List.getElem?_eq_getElem within
      have inside := List.getElem_mem within
      have argDeclared := overrides.declared_arg resolvedArgs _ inside
      rw [valueOrSelf_bindVars ids bound argument argDeclared,
        valueOrSelf_bindVars_append ids bound argument argDeclared,
        overrides.bareText_arg ids resolvedArgs inside]
    · -- An own variable of the method is written as the one at its position.
      have image := overrides.image k bound
      rw [valueOrSelf_bindVars_of_foreign ids bound (by simp),
        valueOrSelf_bindVars_of_other ids bound (by simp), valueOrSelf_renameVars ids bound image]
      exact (nameOf_own ids bound).trans (nameOf_own ids image).symm

theorem overrideKey_eq {m m' : Method}
    (reflects : m.Reflects u (.applied super (u.bindVars (.ofClass super) types)) i inherited)
    (reflects' : m'.Reflects u (.ofClass c) j own) : m.overrideKey = m'.overrideKey := by
  have ownParams : List.Forall₂ (fun t s => ∃ r, t.resolve u = .ok r ∧
      s = r.resolveInScope u ((Declarer.ofClass c).varsAt u j own))
      (own.params.map (·.type)) m'.paramTypes := List.forall₂_map_left_iff.2 reflects'.params
  rw [overrides.params, List.forall₂_map_left_iff] at ownParams
  have texts : m.paramTypes.map (Ty.bareText u (ownNaming u (.method super i))) =
      m'.paramTypes.map (Ty.bareText u (ownNaming u (.method c j))) := by
    refine map_eq_of_forall₂ reflects.params ownParams fun p member t t' _ seen seen' => ?_
    obtain ⟨r, resolved, rfl⟩ := seen
    obtain ⟨r', replaced, rfl⟩ := seen'
    rw [Declarer.resolveInScope_varsAt overrides.inheritedInstance,
      Declarer.resolveInScope_varsAt_ofClass replaced]
    exact overrides.bareText_param ids resolvedArgs member resolved replaced
  rw [reflects.overrideKey_eq, reflects'.overrideKey_eq, overrides.name]
  exact congrArg (inherited.name ++ Executable.inParentheses ·) texts

end Universe.Overrides

/-- A class that writes out a method of an applied super type has a method of the same override key,
and its listing of public methods shows no other method under that key. -/
theorem Universe.Overrides.publicMethods_replaced {c super : ClassId} {args : List DeclType}
    {j i : Nat} {own inherited : MethodDecl} {skipBridges : Bool} {methods : List Method}
    (ids : Set.InjOn u.varKey u.declaredVars)
    (overrides : u.Overrides c super args j i own inherited)
    (listed : (Ty.ofClass c).publicMethods u skipBridges = .ok methods) :
    ∃ bindings seen declared, (DeclType.applied super args).resolve u = .ok (.applied super bindings) ∧
      (Ty.applied super bindings).declaredMethods u skipBridges = .ok seen ∧
      (Ty.ofClass c).declaredMethods u skipBridges = .ok declared ∧
      ∃ m ∈ seen, ∃ m' ∈ declared, (Declarer.applied super bindings).Declares u i m ∧
        (Declarer.ofClass c).Declares u j m' ∧ m'.overrideKey = m.overrideKey ∧
        ∃ x ∈ declared, methods.filter (fun y => y.overrideKey == m.overrideKey) = [x] := by
  obtain ⟨declared, ownListed, replaced⟩ := Ty.publicMethods_own listed
  obtain ⟨limit, steps⟩ := Nat.exists_eq_add_of_lt (size_lt_walkLimit u (.ofClass c))
  have within : publicMethodsWithin u skipBridges (u.size + limit + 1 + 1) false (.ofClass c) =
      .ok methods := by
    rw [← listed, Ty.publicMethods, steps]
    congr 1
    omega
  obtain ⟨r, reached, inheritedMethods, resolved, above⟩ :=
    supers_of_publicMethodsWithin within overrides.clause
  obtain ⟨types, resolvedAll, same⟩ := bind_eq_ok.1 resolved
  cases same
  have resolvedArgs := resolveAll_eq_ok.1 resolvedAll
  obtain ⟨seen, superListed⟩ := declaredMethods_of_publicMethodsWithin above
  obtain ⟨m, member, declares⟩ :=
    Declarer.declaredMethods_complete superListed overrides.inheritedAt
      (by rw [overrides.inheritedSource, Bool.and_false])
  obtain ⟨m', member', declares'⟩ :=
    Declarer.declaredMethods_complete ownListed overrides.ownAt
      (by rw [overrides.ownSource, Bool.and_false])
  have reflects := declares.reflects overrides.inheritedAt
  have reflects' := declares'.reflects overrides.ownAt
  have isPublic : m'.isPublic = true :=
    (congrArg Modifiers.isPublic reflects'.modifiers_eq).trans overrides.ownPublic
  obtain ⟨x, owned, only⟩ := replaced m' member' isPublic
  have keys : m'.overrideKey = m.overrideKey :=
    (overrides.overrideKey_eq ids resolvedArgs reflects reflects').symm
  exact ⟨_, seen, declared, resolved, superListed, ownListed, m, member, m', member', declares,
    declares', keys, x, owned, keys ▸ only⟩

namespace Copies

/-- `interface Source<X>` declares `<V> put(Source<? extends X>, V[])`, and
`class Copy<T> implements Source<T[]>` declares `<U> put(Source<? extends T[]>, U[])`. -/
def source : ClassId := ⟨10⟩
def copy : ClassId := ⟨11⟩

def put (element typeVar : DeclType) (typeVarName : String) : ClassEdit :=
  .method "put" Modifiers.Flag.isPublic.set
    [.executable (.typeParam typeVarName []),
      .executable (.param { name := "from", type := .applied source [.wildcard [element] []] }),
      .executable (.param { name := "to", type := .array typeVar })]

def arg : DeclType := .array (.variable ⟨.ofClass copy, 0⟩)

def classes : Universe :=
  let u := (Universe.initial.defineClass "Source" [.kind .interface, .typeParam "X" [],
    put (.variable ⟨.ofClass source, 0⟩) (.variable ⟨.method source 0, 0⟩) "V"]).2
  (u.defineClass "Copy" [.typeParam "T" [], .interface (.applied source [arg]),
    put arg (.variable ⟨.method copy 0, 0⟩) "U"]).2

def own : MethodDecl := ((classes.decl copy).methods[0]?).getD default
def inherited : MethodDecl := ((classes.decl source).methods[0]?).getD default

theorem overrides_put : classes.Overrides copy source [arg] 0 0 own inherited where
  clause := .tail _ (.head _)
  arity := rfl
  notRoot := by decide
  argVars := by
    change ∀ a ∈ [arg], ∀ v ∈ a.vars, v.owner = .ofClass copy ∧ (classes.typeParam? v).isSome
    decide
  inheritedAt := rfl
  inheritedPublic := rfl
  inheritedInstance := rfl
  inheritedSource := rfl
  paramVars := by
    change ∀ p ∈ inherited.params, ∀ v ∈ p.type.vars, (classes.typeParam? v).isSome ∧
      (v.owner = .ofClass source ∨ v.owner = .method source 0)
    decide
  ownAt := rfl
  ownPublic := rfl
  ownSource := rfl
  name := rfl
  generic := rfl
  params := rfl

/-- `Copy` lists its own `put` only. -/
theorem publicMethods_put :
    classes.Overrides copy source [arg] 0 0 own inherited ∧
      ∃ methods bindings seen declared,
        (Ty.ofClass copy).publicMethods classes true = .ok methods ∧
        (DeclType.applied source [arg]).resolve classes = .ok (.applied source bindings) ∧
        (Ty.applied source bindings).declaredMethods classes true = .ok seen ∧
        (Ty.ofClass copy).declaredMethods classes true = .ok declared ∧
        ∃ m ∈ seen, ∃ m' ∈ declared, (Declarer.applied source bindings).Declares classes 0 m ∧
          (Declarer.ofClass copy).Declares classes 0 m' ∧ m'.overrideKey = m.overrideKey ∧
          ∃ x ∈ declared, methods.filter (fun y => y.overrideKey == m.overrideKey) = [x] := by
  have ids : Set.InjOn classes.varKey classes.declaredVars := injOn_varKey (by decide)
  have succeeds : ((Ty.ofClass copy).publicMethods classes true).toBool = true := by
    decide +kernel
  cases listed : (Ty.ofClass copy).publicMethods classes true with
  | error e => rw [listed] at succeeds; cases succeeds
  | ok methods =>
    obtain ⟨bindings, seen, declared, found⟩ := overrides_put.publicMethods_replaced ids listed
    exact ⟨overrides_put, methods, bindings, seen, declared, rfl, found⟩

end Copies

end JavaTypes
