import JavaTypes.Proofs.Overriding
import JavaTypes.Proofs.Tracking

/-!
Overrides on an applied class. A method that replaces an inherited one on a class replaces it on the
class applied to arguments, unless an argument brings in own variables of the two methods, the class
written without arguments in its own clause reaches the parameter types, or variables of the class
are mentioned where they have no meaning. Those exceptions are real: substitution renames nothing,
and it fills in classes in clauses only.
-/
namespace JavaTypes

variable {u : Universe}

/-- A method stands for an inherited one: they share the name and the number of type parameters, and
their parameter types agree once own variables of the inherited one are exchanged by position. -/
structure Method.StandsFor (u : Universe) (target source : VarOwner) (m m' : Method) : Prop where
  name : m.name = m'.name
  generic : (u.typeParams target).length = (u.typeParams source).length
  params : m.paramTypes = m'.paramTypes.map fun t => t.resolveInScope u (renameVars u source target)
  fresh : ∀ t ∈ m'.paramTypes, ∀ v ∈ t.freeVars, v.owner ≠ target

/-- Nothing that inherited method `i` of a super type `e` reads through the applied class is lost on
own method `j`: a static method mentions no variables of the class, no argument that reaches the
parameters brings own variables in, the class without arguments does not reach the parameters
through the first clause, and super types do not mention variables of the class. -/
structure Method.Undisturbed (u : Universe) (c : ClassId) (args : List Ty) (first : DeclType)
    (rest : List DeclType) (e : Declarer) (j i : Nat) (m m' : Method) : Prop where
  static : m.isStatic = true → ∀ t ∈ m.paramTypes, ∀ v ∈ t.freeVars, v.owner ≠ .ofClass c
  foreign : ∀ t ∈ m'.paramTypes, ∀ k a, ⟨.ofClass c, k⟩ ∈ t.freeVars → args[k]? = some a →
    ∀ w ∈ a.freeVars, w.owner ≠ .method c j ∧ w.owner ≠ .method e.classId i
  raw : (∀ t, first.resolve u = .ok t → c ∉ t.rawClasses) ∨
    ∀ p ∈ m'.decl.params, ∀ t, p.type.resolve u = .ok t →
      ∀ v ∈ t.freeVars, c ∉ (valueOrSelf u (e.typeVariables u) v).rawClasses
  clauses : ∀ clause ∈ rest, ∀ v ∈ clause.vars, v.owner ≠ .ofClass c
  params : ∀ p ∈ m'.decl.params, ∀ v ∈ p.type.vars, v.owner ≠ .ofClass c

section texts

variable (ids : Set.InjOn u.varKey u.declaredVars) {c : ClassId} {args : List Ty}
  (declaredArgs : ∀ a ∈ args, a.Declared u)

include ids declaredArgs

/-- A parameter type of an own method on the applied class is the one on the class, with the
arguments in place of the variables. -/
theorem bareText_own {j : Nat} {decl : MethodDecl} {p : ParamDecl} {r : Ty}
    (resolved : p.type.resolve u = .ok r) (written : ∀ v ∈ p.type.vars, v ∈ u.declaredVars)
    (isStatic : decl.modifiers.isStatic = true → ∀ v ∈ r.freeVars, v.owner ≠ .ofClass c)
    (naming : Naming) :
    (r.resolveInScope u ((Declarer.applied c (u.bindVars (.ofClass c) args)).varsAt u j
        decl)).bareText u naming = r.textUnder u naming (u.bindVars (.ofClass c) args) := by
  have settled := DeclType.settled_of_resolve resolved
  have declared := DeclType.declared_of_resolve resolved written
  cases static : decl.modifiers.isStatic with
  | true =>
    rw [Declarer.resolveInScope_varsAt_static static resolved]
    refine Ty.textWith_congr (fun _ _ => rfl) fun v occurs => ?_
    have bound := declared v (r.freeVars_subset_mentioned occurs)
    rw [valueOrSelf_bindVars_of_foreign ids bound (isStatic static v occurs)]
    rfl
  | false =>
    rw [Declarer.resolveInScope_varsAt static]
    exact Ty.bareText_resolveInScope ids settled declared fun s value =>
      declaredArgs s (mem_valuesOf_bindVars value)

/-- Types that agree up to own variables are written alike in the keys of the two methods, if no
argument brings own variables in. -/
theorem textUnder_renamed {x : ClassId} {j i : Nat} {t : Ty} (settled : t.Settled)
    (declared : t.Declared u)
    (generic : (u.typeParams (.method c j)).length = (u.typeParams (.method x i)).length)
    (fresh : ∀ v ∈ t.freeVars, v.owner ≠ .method c j)
    (foreign : ∀ k a, ⟨.ofClass c, k⟩ ∈ t.freeVars → args[k]? = some a →
      ∀ w ∈ a.freeVars, w.owner ≠ .method c j ∧ w.owner ≠ .method x i) :
    (t.resolveInScope u (renameVars u (.method x i) (.method c j))).textUnder u
        (ownNaming u (.method c j)) (u.bindVars (.ofClass c) args) =
      t.textUnder u (ownNaming u (.method x i)) (u.bindVars (.ofClass c) args) := by
  unfold Ty.textUnder Ty.resolveInScope
  rw [Ty.textWith_subst ids settled declared fun s => declared_of_mem_valuesOf_renameVars]
  refine Ty.textWith_congr (fun d _ => ?_) fun v occurs => ?_
  · exact (classText_method ids c j d).trans (classText_method ids x i d).symm
  · have bound := declared v (t.freeVars_subset_mentioned occurs)
    by_cases own : v.owner = .method x i
    · obtain ⟨owner, k⟩ := v
      simp only at own
      subst own
      have image : ⟨.method c j, k⟩ ∈ u.declaredVars :=
        mem_declaredVars.2 (generic ▸ mem_declaredVars.1 bound)
      rw [valueOrSelf_renameVars ids bound image, Ty.textWith_free,
        valueOrSelf_bindVars_of_foreign ids image (by simp),
        valueOrSelf_bindVars_of_foreign ids bound (by simp)]
      exact (nameOf_own ids image).trans (nameOf_own ids bound).symm
    · have other := fresh v occurs
      have value : valueOrSelf u (renameVars u (.method x i) (.method c j)) v =
          .variable (.free v) := valueOrSelf_bindVars_of_foreign ids bound own
      rw [value, Ty.textWith_free]
      -- What stands for the variable, an argument or the variable itself, has no own variables.
      have apart : ∀ w ∈ (valueOrSelf u (u.bindVars (.ofClass c) args) v).freeVars,
          w.owner ≠ .method c j ∧ w.owner ≠ .method x i := by
        intro w inside
        rcases mem_freeVars_bindVars ids bound declaredArgs inside with rfl | ⟨k, a, rfl, found, inside⟩
        · exact ⟨other, own⟩
        · exact foreign k a occurs found w inside
      have inner : (valueOrSelf u (u.bindVars (.ofClass c) args) v).Declared u :=
        declared_valueOrSelf (fun s value => declaredArgs s (mem_valuesOf_bindVars value)) bound
      rw [bareText_method ids inner fun w inside => (apart w inside).1,
        bareText_method ids inner fun w inside => (apart w inside).2]

end texts

section keys

variable (ids : Set.InjOn u.varKey u.declaredVars) (valid : u.Valid) {c : ClassId}
  {e e' : Declarer} {j i : Nat} {own inherited : MethodDecl} {m m' : Method} {args : List Ty}
  (declaredArgs : ∀ a ∈ args, a.Declared u)
  (ownAt : (u.decl c).methods[j]? = some own)
  (inheritedAt : (u.decl e.classId).methods[i]? = some inherited)
  (owns : m.Reflects u (.ofClass c) j own) (inherits : m'.Reflects u e i inherited)

include ids valid

include declaredArgs ownAt owns in
theorem texts_own (isStatic : own.modifiers.isStatic = true →
      ∀ t ∈ m.paramTypes, ∀ v ∈ t.freeVars, v.owner ≠ .ofClass c)
    {n : Method} (owns' : n.Reflects u (.applied c (u.bindVars (.ofClass c) args)) j own)
    (naming : Naming) :
    n.paramTypes.map (Ty.bareText u naming) =
      m.paramTypes.map (Ty.textUnder u naming (u.bindVars (.ofClass c) args)) := by
  refine map_eq_of_forall₂ owns'.params owns.params fun p inside t s member seen seen' => ?_
  obtain ⟨r, resolved, rfl⟩ := seen
  obtain ⟨r', resolved', same⟩ := seen'
  cases resolved.symm.trans resolved'
  rw [Declarer.resolveInScope_varsAt_ofClass resolved] at same
  subst same
  exact bareText_own ids declaredArgs resolved
    (valid.params c own (List.mem_of_getElem? ownAt) p inside)
    (fun static => isStatic static s member) naming

include inheritedAt inherits in
theorem texts_inherited {harmless : Prop} {naming : Naming}
    (tracks : Tracks u naming harmless c (u.bindVars (.ofClass c) args) e e')
    (instance_ : inherited.modifiers.isStatic = false)
    (inScope : ∀ p ∈ inherited.params, ∀ v ∈ p.type.vars, v.owner ≠ .ofClass c)
    (spares : ∀ p ∈ inherited.params, ∀ t, p.type.resolve u = .ok t →
      ∀ v ∈ t.freeVars, (valueOrSelf u (e.typeVariables u) v).Spares harmless c)
    {n : Method} (inherits' : n.Reflects u e' i inherited) :
    n.paramTypes.map (Ty.bareText u naming) =
      m'.paramTypes.map (Ty.textUnder u naming (u.bindVars (.ofClass c) args)) := by
  refine map_eq_of_forall₂ inherits'.params inherits.params fun p inside t s member seen seen' => ?_
  obtain ⟨r, resolved, rfl⟩ := seen
  obtain ⟨r', resolved', same⟩ := seen'
  cases resolved.symm.trans resolved'
  have written := valid.params e.classId inherited (List.mem_of_getElem? inheritedAt) p inside
  rw [Declarer.resolveInScope_varsAt instance_] at same ⊢
  subst same
  refine tracks.text ids valid
    (fun v bound other => valueOrSelf_bindVars_of_foreign ids bound other) .kept
    (DeclType.settled_of_resolve resolved) (DeclType.declared_of_resolve resolved written)
    (fun v occurs bottom => ?_) (fun kept => nomatch kept) (spares p inside r resolved)
    fun kept => nomatch kept
  exact absurd bottom (inScope p inside v
    (DeclType.freeVars_of_resolve ids resolved written v occurs))

include declaredArgs ownAt inheritedAt owns inherits in
/-- The two methods have one key on the applied class if they stand for each other on the class. -/
theorem overrideKey_applied {first : DeclType} {rest : List DeclType}
    (notStatic : m'.isStatic = false)
    (stands : m.StandsFor u (.method c j) (.method e.classId i) m')
    (undisturbed : m.Undisturbed u c args first rest e j i m')
    (tracks : Tracks u (ownNaming u (.method e.classId i))
      (∀ t, first.resolve u = .ok t → c ∉ t.rawClasses) c (u.bindVars (.ofClass c) args) e e')
    {n n' : Method} (owns' : n.Reflects u (.applied c (u.bindVars (.ofClass c) args)) j own)
    (inherits' : n'.Reflects u e' i inherited) : n.overrideKey = n'.overrideKey := by
  have instance_ : inherited.modifiers.isStatic = false :=
    (congrArg Modifiers.isStatic inherits.modifiers_eq).symm.trans notStatic
  have left := texts_own ids valid declaredArgs ownAt owns
    (fun static => undisturbed.static
      ((congrArg Modifiers.isStatic owns.modifiers_eq).trans static)) owns'
    (ownNaming u (.method c j))
  have right := texts_inherited ids valid inheritedAt inherits tracks instance_
    (inherits.decl_eq ▸ undisturbed.params) (fun p inside t resolved v occurs =>
      undisturbed.raw.imp_right fun absent =>
        absent p (inherits.decl_eq ▸ inside) t resolved v occurs) inherits'
  have between : m.paramTypes.map (Ty.textUnder u (ownNaming u (.method c j))
      (u.bindVars (.ofClass c) args)) =
      m'.paramTypes.map (Ty.textUnder u (ownNaming u (.method e.classId i))
        (u.bindVars (.ofClass c) args)) := by
    rw [stands.params, List.map_map]
    refine List.map_congr_left fun t member => ?_
    obtain ⟨p, inside, r, resolved, seen⟩ := exists_left_of_mem inherits.params member
    have written := valid.params e.classId inherited (List.mem_of_getElem? inheritedAt) p inside
    rw [Declarer.resolveInScope_varsAt instance_] at seen
    have settled : t.Settled := by
      rw [seen]
      exact (DeclType.settled_of_resolve resolved).subst tracks.settled
    have declared : t.Declared u := by
      rw [seen]
      exact (DeclType.declared_of_resolve resolved written).subst
        (DeclType.settled_of_resolve resolved) tracks.declared
    exact textUnder_renamed ids declaredArgs settled declared stands.generic
      (stands.fresh t member) (undisturbed.foreign t member)
  have names : own.name = inherited.name := by
    rw [← owns.decl_eq, ← inherits.decl_eq]
    exact stands.name
  rw [owns'.overrideKey_eq, inherits'.overrideKey_eq, tracks.classId_eq, names]
  exact congrArg (inherited.name ++ Executable.inParentheses ·) ((left.trans between).trans right.symm)

end keys

/-- A method that stands for an inherited one on a class, undisturbed, has its override key on the
class applied to arguments too. There the listing shows one method under the key, an own one. -/
theorem Method.Undisturbed.publicMethods_applied {c : ClassId} {first : DeclType}
    {rest : List DeclType} {e : Declarer} {j i : Nat} {m m' : Method} {args : List Ty}
    (ids : Set.InjOn u.varKey u.declaredVars) (valid : u.Valid) (acyclic : u.Acyclic)
    (leads : Declarer.Leads u (.ofClass c) (first :: rest) e)
    (owns : (Declarer.ofClass c).Declares u j m) (inherits : e.Declares u i m')
    (isPublic : m.isPublic = true) (notStatic : m'.isStatic = false)
    (stands : m.StandsFor u (.method c j) (.method e.classId i) m')
    (declaredArgs : ∀ a ∈ args, a.Declared u)
    (undisturbed : m.Undisturbed u c args first rest e j i m') :
    ∃ e', Declarer.Leads u (.applied c (u.bindVars (.ofClass c) args)) (first :: rest) e' ∧
      e'.classId = e.classId ∧
      (∀ n n', (Declarer.applied c (u.bindVars (.ofClass c) args)).Declares u j n →
        e'.Declares u i n' → n.overrideKey = n'.overrideKey) ∧
      ∀ skipBridges methods, (skipBridges && m.decl.bridge) = false →
        (skipBridges && m'.decl.bridge) = false →
        (Ty.apply u c args).publicMethods u skipBridges = .ok methods →
        ∃ declared seen, (Ty.apply u c args).declaredMethods u skipBridges = .ok declared ∧
          e'.toTy.declaredMethods u skipBridges = .ok seen ∧
          ∃ n ∈ declared, ∃ n' ∈ seen,
            (Declarer.applied c (u.bindVars (.ofClass c) args)).Declares u j n ∧
            e'.Declares u i n' ∧ n.overrideKey = n'.overrideKey ∧
            ∃ x ∈ declared, methods.filter (fun y => y.overrideKey == n'.overrideKey) = [x] := by
  have ⟨_, _, own, _, ownAt, _⟩ := owns
  have ⟨_, _, inherited, _, inheritedAt, _⟩ := inherits
  have reflects := owns.reflects ownAt
  have reflects' := inherits.reflects inheritedAt
  obtain ⟨e', leads', tracks⟩ := Tracks.of_leads ids (ownNaming u (.method e.classId i)) valid
    acyclic leads declaredArgs undisturbed.clauses
  have inheritedAt' : (u.decl e'.classId).methods[i]? = some inherited := by
    rw [tracks.classId_eq, inheritedAt]
  have keys : ∀ n n', (Declarer.applied c (u.bindVars (.ofClass c) args)).Declares u j n →
      e'.Declares u i n' → n.overrideKey = n'.overrideKey := by
    intro n n' declares declares'
    exact overrideKey_applied ids valid declaredArgs ownAt inheritedAt reflects reflects'
      notStatic stands undisturbed tracks (declares.reflects ownAt)
      (declares'.reflects inheritedAt')
  refine ⟨e', leads', tracks.classId_eq, keys, fun skipBridges methods kept kept' listed => ?_⟩
  obtain ⟨declared, ownListed, replaced⟩ := Ty.publicMethods_own listed
  obtain ⟨seen, superListed⟩ := leads'.declaredMethods acyclic listed
  rw [reflects.decl_eq] at kept
  rw [reflects'.decl_eq] at kept'
  obtain ⟨n, member, declares⟩ := Declarer.declaredMethods_complete ownListed ownAt kept
  obtain ⟨n', member', declares'⟩ := Declarer.declaredMethods_complete superListed
    (by rwa [Declarer.methodDeclarer_toTy]) kept'
  rw [Declarer.methodDeclarer_toTy] at declares'
  -- Only a public own method is put in the place of inherited ones with its key.
  have shown : n.isPublic = true := by
    rw [← isPublic]
    exact congrArg Modifiers.isPublic
      ((declares.reflects ownAt).modifiers_eq.trans reflects.modifiers_eq.symm)
  obtain ⟨x, owned, only⟩ := replaced n member shown
  have same := keys n n' declares declares'
  exact ⟨declared, seen, ownListed, superListed, n, member, n', member', declares, declares', same,
    x, owned, same ▸ only⟩

namespace Copies

/-- `Copy<Object>` and, above it, `Source<Object[]>`. -/
def copyOfObject : Declarer :=
  .applied copy (classes.bindVars (.ofClass copy) [.ofClass Universe.object])

def sourceOnCopy : Declarer :=
  .applied source (classes.bindVars (.ofClass source)
    [.array (.variable (.free ⟨.ofClass copy, 0⟩))])

def putOf (d : Declarer) : Method := (d.methodAt? classes 0).getD default

theorem undisturbed_put :
    (putOf (.ofClass copy)).Undisturbed classes copy [.ofClass Universe.object]
      (.applied source [arg]) [] sourceOnCopy 0 0 (putOf sourceOnCopy) where
  static isStatic := by cases isStatic
  foreign := by
    intro t member k a occurs found w inside
    cases k with
    | zero =>
      cases found
      simp [Ty.freeVars] at inside
    | succ k => cases found
  raw := by
    left
    intro t resolved
    cases resolved
    decide
  clauses := by simp
  params := by
    change ∀ p ∈ inherited.params, ∀ v ∈ p.type.vars, v.owner ≠ .ofClass copy
    decide

theorem standsFor_put :
    (putOf (.ofClass copy)).StandsFor classes (.method copy 0) (.method source 0)
      (putOf sourceOnCopy) where
  name := rfl
  generic := rfl
  params := rfl
  fresh := by decide +kernel

/-- `Copy<Object>` lists its own `put` only, as `Copy` does. -/
theorem publicMethods_copyOfObject :
    (putOf (.ofClass copy)).Undisturbed classes copy [.ofClass Universe.object]
        (.applied source [arg]) [] sourceOnCopy 0 0 (putOf sourceOnCopy) ∧
      ∃ e methods declared seen, Declarer.Leads classes copyOfObject [.applied source [arg]] e ∧
        copyOfObject.toTy.publicMethods classes true = .ok methods ∧
        copyOfObject.toTy.declaredMethods classes true = .ok declared ∧
        e.toTy.declaredMethods classes true = .ok seen ∧
        ∃ n ∈ declared, ∃ n' ∈ seen, n.overrideKey = n'.overrideKey ∧
          ∃ x ∈ declared, methods.filter (fun y => y.overrideKey == n'.overrideKey) = [x] := by
  have ids : Set.InjOn classes.varKey classes.declaredVars := injOn_varKey (by decide)
  have valid : classes.Valid := Universe.valid_of_ids (by decide) (by decide) (by decide)
  have acyclic : classes.Acyclic := Universe.acyclic_of_earlier (by decide)
  have leads : Declarer.Leads classes (.ofClass copy) [.applied source [arg]] sourceOnCopy :=
    .up (e := sourceOnCopy) overrides_put.clause rfl rfl (.here _)
  have owns : (Declarer.ofClass copy).Declares classes 0 (putOf (.ofClass copy)) :=
    Declarer.declares_of_methodAt? rfl
  have inherits : sourceOnCopy.Declares classes 0 (putOf sourceOnCopy) :=
    Declarer.declares_of_methodAt? rfl
  have args : ∀ a ∈ [Ty.ofClass Universe.object], a.Declared classes := by
    simp [Ty.Declared, Ty.mentioned]
  have succeeds : (copyOfObject.toTy.publicMethods classes true).toBool = true := by
    decide +kernel
  obtain ⟨e, up, -, -, shown⟩ := undisturbed_put.publicMethods_applied ids valid acyclic leads owns
    inherits rfl rfl standsFor_put args
  cases listed : copyOfObject.toTy.publicMethods classes true with
  | error error => rw [listed] at succeeds; cases succeeds
  | ok methods =>
    obtain ⟨declared, seen, ownListed, superListed, n, member, n', member', -, -, same, only⟩ :=
      shown true methods rfl rfl listed
    exact ⟨undisturbed_put, e, methods, declared, seen, up, rfl, ownListed, superListed, n, member,
      n', member', same, only⟩

end Copies

namespace Cells

/-- `interface Sink<X, Y>` declares `<V> put(X, V)`, `self(Y)`, `set(X)` and `out(T)` with the
variable of `Cell`; `interface Far<Z>` declares `far(Z)`, and `interface Near` extends `Far<T>` with
that variable; `class Cell<T> implements Sink<T, Cell>, Near` declares `<U> put(T, U)`,
`self(Cell)`, static `set(T)`, `out(T)` and `far(T)`. -/
def sink : ClassId := ⟨10⟩
def far : ClassId := ⟨11⟩
def near : ClassId := ⟨12⟩
def cell : ClassId := ⟨13⟩

def method (name : String) (flags : List Modifiers.Flag) (own : List String)
    (params : List DeclType) : ClassEdit :=
  .method name (.ofFlags flags) (own.map (fun v => .executable (.typeParam v [])) ++
    params.map fun t => .executable (.param { name := "a", type := t }))

def paramT : DeclType := .variable ⟨.ofClass cell, 0⟩
def toSink : DeclType := .applied sink [paramT, .ofClass cell]
def toFar : DeclType := .applied far [paramT]

def classes : Universe :=
  let x : DeclType := .variable ⟨.ofClass sink, 0⟩
  let y : DeclType := .variable ⟨.ofClass sink, 1⟩
  let z : DeclType := .variable ⟨.ofClass far, 0⟩
  let u := (Universe.initial.defineClass "Sink" [.kind .interface, .typeParam "X" [],
    .typeParam "Y" [], method "put" [.isPublic] ["V"] [x, .variable ⟨.method sink 0, 0⟩],
    method "self" [.isPublic] [] [y], method "set" [.isPublic] [] [x],
    method "out" [.isPublic] [] [paramT]]).2
  let u := (u.defineClass "Far" [.kind .interface, .typeParam "Z" [],
    method "far" [.isPublic] [] [z]]).2
  let u := (u.defineClass "Near" [.kind .interface, .interface toFar]).2
  (u.defineClass "Cell" [.typeParam "T" [], .interface toSink, .interface (.ofClass near),
    method "put" [.isPublic] ["U"] [paramT, .variable ⟨.method cell 0, 0⟩],
    method "self" [.isPublic] [] [.ofClass cell], method "set" [.isPublic, .isStatic] [] [paramT],
    method "out" [.isPublic] [] [paramT], method "far" [.isPublic] [] [paramT]]).2

def listing (d : Declarer) : List Method :=
  match d.toTy.declaredMethods classes true with
  | .ok methods => methods
  | .error _ => []

def keys (d : Declarer) : List String := (listing d).map (·.overrideKey)

def freeT : Ty := .variable (.free ⟨.ofClass cell, 0⟩)
def freeU : Ty := .variable (.free ⟨.method cell 0, 0⟩)
def freeV : Ty := .variable (.free ⟨.method sink 0, 0⟩)

def cellOfU : Declarer := .applied cell (classes.bindVars (.ofClass cell) [freeU])

def sinkOnCell : Declarer :=
  .applied sink (classes.bindVars (.ofClass sink) [freeT, .ofClass cell])

def sinkOnCellOfU : Declarer :=
  .applied sink (classes.bindVars (.ofClass sink) [freeU, cellOfU.toTy])

def farOnCell : Declarer := .applied far (classes.bindVars (.ofClass far) [freeT])

/-- On `Cell` each method stands for the one of its name in a super type; on `Cell<U>` none does. -/
theorem keys_cellOfU :
    classes.Acyclic ∧ Set.InjOn classes.varKey classes.declaredVars ∧ classes.Valid ∧
      Declarer.Leads classes (.ofClass cell) [toSink] sinkOnCell ∧
      Declarer.Leads classes cellOfU [toSink] sinkOnCellOfU ∧
      Declarer.Leads classes (.ofClass cell) [.ofClass near, toFar] farOnCell ∧
      Declarer.Leads classes cellOfU [.ofClass near, toFar] farOnCell ∧
      (listing (.ofClass cell)).map Method.paramTypes =
        [[freeT, freeU], [.ofClass cell], [freeT], [freeT], [freeT]] ∧
      (listing sinkOnCell ++ listing farOnCell).map Method.paramTypes =
        [[freeT, freeV], [.ofClass cell], [freeT], [freeT], [freeT]] ∧
      keys (.ofClass cell) = ["put(T, #0)", "self(Cell<T>)", "set(T)", "out(T)", "far(T)"] ∧
      keys sinkOnCell ++ keys farOnCell =
        ["put(T, #0)", "self(Cell<T>)", "set(T)", "out(T)", "far(T)"] ∧
      keys cellOfU = ["put(#0, #0)", "self(Cell<T>)", "set(T)", "out(U)", "far(U)"] ∧
      keys sinkOnCellOfU ++ keys farOnCell =
        ["put(U, #0)", "self(Cell<U>)", "set(U)", "out(T)", "far(T)"] := by
  have ids : Set.InjOn classes.varKey classes.declaredVars := injOn_varKey (by decide)
  have valid : classes.Valid := Universe.valid_of_ids (by decide) (by decide) (by decide)
  have acyclic : classes.Acyclic := Universe.acyclic_of_earlier (by decide)
  have implementsSink : toSink ∈ (classes.decl cell).clauses := .tail _ (.head _)
  have implementsNear : .ofClass near ∈ (classes.decl cell).clauses := .tail _ (.tail _ (.head _))
  have extendsFar : toFar ∈ (classes.decl near).clauses := .head _
  have fromNear : Declarer.Leads classes (.ofClass near) [toFar] farOnCell :=
    .up (e := farOnCell) extendsFar rfl rfl (.here _)
  exact ⟨acyclic, ids, valid, .up (e := sinkOnCell) implementsSink rfl rfl (.here _),
    .up (e := sinkOnCell) implementsSink rfl rfl (.here _),
    .up (e := .ofClass near) implementsNear rfl rfl fromNear,
    .up (e := .ofClass near) implementsNear rfl rfl fromNear, rfl, rfl, by decide +kernel,
    by decide +kernel, by decide +kernel, by decide +kernel⟩

end Cells

end JavaTypes
