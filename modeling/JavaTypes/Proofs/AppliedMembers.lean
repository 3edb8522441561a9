import JavaTypes.Proofs.AppliedFields
import JavaTypes.Proofs.MethodListing

/-!
Members of an applied type beside those of its class. Arguments are filled in at members that are
not static, and no others change. What a member shows then comes from the declaration or from the
arguments, so it can be listed if the member of the class can and the applied type can be written.
-/
namespace JavaTypes

variable {u : Universe}

/-- A type at a member that is seen with bindings; static members do not see them. -/
def Ty.seenWith (u : Universe) (bindings : List TyVar) (isStatic : Bool) (t : Ty) : Ty :=
  if isStatic then t else t.resolveInScope u bindings

def Declarer.DeclaresConstructor (u : Universe) (d : Declarer) (index : Nat) (k : Constructor) :
    Prop :=
  ∃ anchored scope decl, Scope.of u anchored d = .ok scope ∧
    (u.decl d.classId).constructors[index]? = some decl ∧ Constructor.ofDecl u scope index decl = .ok k

/-- A method of a class and the same one of the class applied to arguments. -/
def Method.FilledIn (u : Universe) (c : ClassId) (args : List Ty) (m m' : Method) : Prop :=
  ∃ i, (Declarer.ofClass c).Declares u i m ∧
    (Declarer.applied c (u.bindVars (.ofClass c) args)).Declares u i m' ∧
    m'.paramTypes = m.paramTypes.map (Ty.seenWith u (u.bindVars (.ofClass c) args) m.isStatic) ∧
    m'.returnType = m.returnType.seenWith u (u.bindVars (.ofClass c) args) m.isStatic

def Constructor.FilledIn (u : Universe) (c : ClassId) (args : List Ty) (k k' : Constructor) : Prop :=
  ∃ i, (Declarer.ofClass c).DeclaresConstructor u i k ∧
    (Declarer.applied c (u.bindVars (.ofClass c) args)).DeclaresConstructor u i k' ∧
    k'.executable.paramTypes = k.executable.paramTypes.map
      (Ty.seenWith u (u.bindVars (.ofClass c) args) k.modifiers.isStatic)

/-- Two scopes over a class and over the class applied to arguments. -/
structure Scope.AppliedTo (u : Universe) (c : ClassId) (args : List Ty) (scope scope' : Scope) :
    Prop where
  declaring : scope.declaring = .ofClass c
  declaring' : scope'.declaring = .applied c (u.bindVars (.ofClass c) args)

structure Universe.ExecutablesDeclared (u : Universe) (c : ClassId) : Prop where
  params : ∀ m ∈ (u.decl c).methods, ∀ p ∈ m.params, ∀ v ∈ p.type.vars, v ∈ u.declaredVars
  returns : ∀ m ∈ (u.decl c).methods, ∀ v ∈ m.returnType.vars, v ∈ u.declaredVars
  constructors : ∀ k ∈ (u.decl c).constructors, ∀ p ∈ k.params, ∀ v ∈ p.type.vars,
    v ∈ u.declaredVars

theorem Executable.ofDecl_eq_ok {scope : Scope} {owner : VarOwner} {decl : ExecutableDecl}
    {e : Executable} : ofDecl u scope owner decl = .ok e ↔ ∃ parameters exceptions,
      resolveParams u (scope.effective u decl.modifiers (u.variablesOf owner)) decl.params =
        .ok parameters ∧ resolveAll u decl.exceptions = .ok exceptions ∧
      e = { scope, modifiers := decl.modifiers, ownVariables := u.variablesOf owner,
            typeVariables := scope.effective u decl.modifiers (u.variablesOf owner), parameters,
            exceptions, annotations := decl.annotations } := by
  constructor
  · intro made
    obtain ⟨parameters, resolved, made⟩ := bind_eq_ok.1 made
    obtain ⟨exceptions, thrown, same⟩ := bind_eq_ok.1 made
    exact ⟨parameters, exceptions, resolved, thrown, (Except.ok.inj same).symm⟩
  · rintro ⟨parameters, exceptions, resolved, thrown, rfl⟩
    exact bind_eq_ok.2 ⟨parameters, resolved, bind_eq_ok.2 ⟨exceptions, thrown, rfl⟩⟩

section members

variable {c : ClassId} {args : List Ty} {scope scope' : Scope}
  (applied : scope.AppliedTo u c args scope')

namespace Scope.AppliedTo

include applied

theorem classId_eq : scope'.classId = scope.classId := by
  rw [classId, classId, applied.declaring, applied.declaring']
  rfl

theorem classDecl_eq : scope.classDecl u = u.decl c := by
  rw [Scope.classDecl, classId, applied.declaring]
  rfl

theorem classDecl_eq' : scope'.classDecl u = u.decl c := by
  rw [Scope.classDecl, applied.classId_eq]
  exact applied.classDecl_eq

/-- At members of the class all variables in scope are free, so types stay as they are resolved. -/
theorem resolve_eq_ok {t : DeclType} {modifiers : Modifiers} {owner : VarOwner} {r : Ty} :
    resolve u (scope.effective u modifiers (u.variablesOf owner)) t = .ok r ↔ t.resolve u = .ok r := by
  have free : ∀ b ∈ scope.effective u modifiers (u.variablesOf owner), b.value? = none := by
    intro b inside
    simp only [effective, typeVariables, applied.declaring, Declarer.typeVariables_ofClass,
      List.mem_append] at inside
    rcases inside with inside | inside
    · split at inside
      · cases inside
      · exact value?_of_mem_variablesOf inside
    · exact value?_of_mem_variablesOf inside
  constructor
  · intro seen
    obtain ⟨r', resolved, same⟩ := bind_eq_ok.1 seen
    rw [DeclType.resolveInScope_of_free resolved free] at same
    cases same
    exact resolved
  · intro resolved
    refine bind_eq_ok.2 ⟨r, resolved, ?_⟩
    rw [DeclType.resolveInScope_of_free resolved free]
    rfl

/-- At members of the applied class arguments are filled in. -/
theorem resolve_applied {t : DeclType} {r : Ty} (resolved : t.resolve u = .ok r)
    (modifiers : Modifiers) (owner : VarOwner) :
    resolve u (scope'.effective u modifiers (u.variablesOf owner)) t =
      .ok (r.seenWith u (u.bindVars (.ofClass c) args) modifiers.isStatic) := by
  refine bind_eq_ok.2 ⟨r, resolved, congrArg Except.ok ?_⟩
  cases isStatic : modifiers.isStatic with
  | true =>
    simp only [effective, isStatic, if_true, List.nil_append, Ty.seenWith]
    exact DeclType.resolveInScope_of_free resolved fun _ inside => value?_of_mem_variablesOf inside
  | false =>
    simp only [effective, typeVariables, isStatic, applied.declaring', Ty.seenWith,
      Bool.false_eq_true, if_false]
    exact Ty.resolveInScope_append_variablesOf ..

theorem resolveParams_eq_ok {modifiers : Modifiers} {owner : VarOwner} {params : List ParamDecl}
    {parameters : List Parameter}
    (resolved : Executable.resolveParams u (scope.effective u modifiers (u.variablesOf owner)) params =
      .ok parameters) :
    List.Forall₂ (fun p t => p.type.resolve u = .ok t) params (parameters.map (·.type)) ∧
    ∃ parameters', Executable.resolveParams u
      (scope'.effective u modifiers (u.variablesOf owner)) params = .ok parameters' ∧
        parameters'.map (·.type) = (parameters.map (·.type)).map
          (Ty.seenWith u (u.bindVars (.ofClass c) args) modifiers.isStatic) := by
  induction params generalizing parameters with
  | nil =>
    cases resolved
    exact ⟨.nil, [], rfl, rfl⟩
  | cons p rest ih =>
    obtain ⟨type, first, resolved⟩ := bind_eq_ok.1 resolved
    obtain ⟨others, tail, same⟩ := bind_eq_ok.1 resolved
    cases same
    rw [applied.resolve_eq_ok] at first
    obtain ⟨each, others', tail', types⟩ := ih tail
    have first' := applied.resolve_applied first modifiers owner
    refine ⟨.cons first each, _, bind_eq_ok.2 ⟨_, first', bind_eq_ok.2 ⟨others', tail', rfl⟩⟩, ?_⟩
    simp only [List.map_cons, types]

theorem ofDecl {owner : VarOwner} {decl : ExecutableDecl} {e : Executable}
    (made : Executable.ofDecl u scope owner decl = .ok e) :
    List.Forall₂ (fun p t => p.type.resolve u = .ok t) decl.params e.paramTypes ∧
    ∃ e', Executable.ofDecl u scope' owner decl = .ok e' ∧ e'.paramTypes =
      e.paramTypes.map (Ty.seenWith u (u.bindVars (.ofClass c) args) decl.modifiers.isStatic) := by
  obtain ⟨parameters, exceptions, resolved, thrown, rfl⟩ := Executable.ofDecl_eq_ok.1 made
  obtain ⟨each, parameters', resolved', types⟩ := applied.resolveParams_eq_ok resolved
  exact ⟨each, _, Executable.ofDecl_eq_ok.2 ⟨parameters', exceptions, resolved', thrown, rfl⟩, types⟩

end Scope.AppliedTo

variable (layered : u.Layered) (ids : Set.InjOn u.varKey u.declaredVars) (valid : u.BoundsDeclared)
  (declaredArgs : ∀ a ∈ args, a.Declared u)
  (written : u.Writable ((Ty.apply u c args).Shows u true))

include layered ids valid declaredArgs written

/-- With arguments filled in a signature can be written if the arguments can. -/
theorem Executable.signature_seenWith {e e' : Executable} {owner : VarOwner}
    (own : e.ownVariables = u.variablesOf owner) (own' : e'.ownVariables = u.variablesOf owner)
    {isStatic : Bool} (types : e'.paramTypes =
      e.paramTypes.map (Ty.seenWith u (u.bindVars (.ofClass c) args) isStatic)) {returns : Option Ty}
    (settled : ∀ t ∈ returns.toList ++ e.paramTypes, t.Settled)
    (declared : ∀ t ∈ returns.toList ++ e.paramTypes, t.Declared u) {name text : String}
    (signed : e.signature u returns name = .ok text) :
    ∃ text', e'.signature u (returns.map (Ty.seenWith u (u.bindVars (.ofClass c) args) isStatic))
      name = .ok text' := by
  have seen : (returns.map (Ty.seenWith u (u.bindVars (.ofClass c) args) isStatic)).toList ++
      e'.paramTypes = (returns.toList ++ e.paramTypes).map
        (Ty.seenWith u (u.bindVars (.ofClass c) args) isStatic) := by
    cases returns <;> simp [types]
  rw [signature_ok_iff layered ids valid own', seen]
  · have before := (signature_ok_iff layered ids valid own declared name).1 ⟨text, signed⟩
    refine (before.or written).mono ?_
    rintro w (⟨b, inside, shows⟩ | ⟨t', inside, shows⟩)
    · exact .inl (.inl ⟨b, inside, shows⟩)
    · obtain ⟨t, member, rfl⟩ := List.mem_map.1 inside
      cases isStatic with
      | true => exact .inl (.inr ⟨t, member, shows⟩)
      | false =>
        obtain ⟨v, here, origin⟩ := Ty.shows_subst ids (declared_bindVars declaredArgs)
          (settled t member) (declared t member) (fun _ _ => rfl) shows
        rcases origin with rfl | shows
        · exact .inl (.inr ⟨t, member, here⟩)
        · rcases shows_valueOrSelf_bindVars shows with rfl | shown
          · exact .inl (.inr ⟨t, member, here⟩)
          · exact .inr shown
  · rw [seen]
    intro t' inside
    obtain ⟨t, member, rfl⟩ := List.mem_map.1 inside
    cases isStatic with
    | true => exact declared t member
    | false =>
      exact (declared t member).subst (settled t member) (declared_bindVars declaredArgs)

omit layered ids valid declaredArgs written in
theorem DeclType.settled_declared_of_resolve {params : List ParamDecl} {types : List Ty}
    (each : List.Forall₂ (fun p t => p.type.resolve u = .ok t) params types)
    (declared : ∀ p ∈ params, ∀ v ∈ p.type.vars, v ∈ u.declaredVars) :
    ∀ t ∈ types, t.Settled ∧ t.Declared u := by
  intro t member
  obtain ⟨p, inside, resolved⟩ := exists_left_of_mem each member
  exact ⟨settled_of_resolve resolved, declared_of_resolve resolved (declared p inside)⟩

theorem Method.ofDecl_applied {i : Nat} {decl : MethodDecl}
    (params : ∀ p ∈ decl.params, ∀ v ∈ p.type.vars, v ∈ u.declaredVars)
    (returns : ∀ v ∈ decl.returnType.vars, v ∈ u.declaredVars) {m : Method}
    (applied : scope.AppliedTo u c args scope') (made : ofDecl u scope i decl = .ok m) :
    ∃ m', ofDecl u scope' i decl = .ok m' ∧
      m'.paramTypes = m.paramTypes.map (Ty.seenWith u (u.bindVars (.ofClass c) args) m.isStatic) ∧
      m'.returnType = m.returnType.seenWith u (u.bindVars (.ofClass c) args) m.isStatic := by
  obtain ⟨e, executable, made⟩ := bind_eq_ok.1 made
  obtain ⟨returnType, returned, made⟩ := bind_eq_ok.1 made
  obtain ⟨signature, signed, made⟩ := bind_eq_ok.1 made
  obtain ⟨key, -, same⟩ := bind_eq_ok.1 made
  cases same
  obtain ⟨each, e', executable', types⟩ := applied.ofDecl executable
  have known := DeclType.settled_declared_of_resolve each params
  obtain ⟨_, _, -, -, here⟩ := Executable.ofDecl_eq_ok.1 executable
  obtain ⟨_, _, -, -, there⟩ := Executable.ofDecl_eq_ok.1 executable'
  have isStatic : decl.modifiers.isStatic = e.modifiers.isStatic := by rw [here]
  have vars : e.typeVariables =
      scope.effective u decl.modifiers (u.variablesOf (.method scope.classId i)) := by rw [here]
  have vars' : e'.typeVariables =
      scope'.effective u decl.modifiers (u.variablesOf (.method scope.classId i)) := by rw [there]
  rw [vars] at returned
  have resolved := applied.resolve_eq_ok.1 returned
  have returned' := applied.resolve_applied resolved decl.modifiers (.method scope.classId i)
  rw [← vars'] at returned'
  have settled : ∀ t ∈ (some returnType).toList ++ e.paramTypes, t.Settled :=
    List.forall_mem_cons.2 ⟨DeclType.settled_of_resolve resolved, fun t inside => (known t inside).1⟩
  have declared : ∀ t ∈ (some returnType).toList ++ e.paramTypes, t.Declared u :=
    List.forall_mem_cons.2 ⟨DeclType.declared_of_resolve resolved returns,
      fun t inside => (known t inside).2⟩
  obtain ⟨text, signed'⟩ := Executable.signature_seenWith layered ids valid declaredArgs written
    (by rw [here]) (by rw [there]) types settled declared signed
  obtain ⟨key', keyed⟩ : ∃ key', e'.overrideKey u decl.name = .ok key' :=
    ⟨_, Executable.overrideKey_eq ..⟩
  rw [isStatic] at types returned' signed'
  refine ⟨⟨e', decl, _, text, key'⟩, ?_, types, rfl⟩
  rw [ofDecl, applied.classId_eq]
  exact bind_eq_ok.2 ⟨e', executable', bind_eq_ok.2 ⟨_, returned', bind_eq_ok.2 ⟨text, signed',
    bind_eq_ok.2 ⟨key', keyed, rfl⟩⟩⟩⟩

theorem Constructor.ofDecl_applied {i : Nat} {decl : ExecutableDecl}
    (params : ∀ p ∈ decl.params, ∀ v ∈ p.type.vars, v ∈ u.declaredVars) {k : Constructor}
    (applied : scope.AppliedTo u c args scope') (made : ofDecl u scope i decl = .ok k) :
    ∃ k', ofDecl u scope' i decl = .ok k' ∧ k'.executable.paramTypes = k.executable.paramTypes.map
      (Ty.seenWith u (u.bindVars (.ofClass c) args) k.modifiers.isStatic) := by
  obtain ⟨e, executable, made⟩ := bind_eq_ok.1 made
  obtain ⟨signature, signed, same⟩ := bind_eq_ok.1 made
  cases same
  obtain ⟨each, e', executable', types⟩ := applied.ofDecl executable
  have known := DeclType.settled_declared_of_resolve each params
  obtain ⟨_, _, -, -, here⟩ := Executable.ofDecl_eq_ok.1 executable
  obtain ⟨_, _, -, -, there⟩ := Executable.ofDecl_eq_ok.1 executable'
  have isStatic : decl.modifiers.isStatic = e.modifiers.isStatic := by rw [here]
  have settled : ∀ t ∈ (none : Option Ty).toList ++ e.paramTypes, t.Settled :=
    fun t inside => (known t inside).1
  have declared : ∀ t ∈ (none : Option Ty).toList ++ e.paramTypes, t.Declared u :=
    fun t inside => (known t inside).2
  obtain ⟨text, signed'⟩ := Executable.signature_seenWith layered ids valid declaredArgs written
    (by rw [here]) (by rw [there]) types settled declared signed
  rw [isStatic] at types
  refine ⟨⟨e', (scope.classDecl u).simpleName, text⟩, ?_, types⟩
  rw [ofDecl, Scope.classDecl, applied.classId_eq]
  exact bind_eq_ok.2 ⟨e', executable', bind_eq_ok.2 ⟨text, signed', rfl⟩⟩

theorem Scope.exists_appliedTo {anchored : Bool} (found : Scope.of u anchored (.ofClass c) = .ok scope)
    (anchored' : Bool) :
    ∃ scope', Scope.of u anchored' (.applied c (u.bindVars (.ofClass c) args)) = .ok scope' ∧
      scope.AppliedTo u c args scope' := by
  obtain ⟨scope', found'⟩ :=
    (Fills.start declaredArgs).scope layered ids valid written found anchored'
  exact ⟨scope', found', declaring_of_scope found, declaring_of_scope found'⟩

omit layered ids valid declaredArgs written in
theorem Declarer.methodsFrom_related {skipBridges : Bool} {R : Method → Method → Prop} {start : Nat}
    {decls : List MethodDecl} {methods : List Method}
    (listed : methodsFrom u skipBridges scope start decls = .ok methods)
    (each : ∀ i decl m, decls[i]? = some decl → Method.ofDecl u scope (start + i) decl = .ok m →
      ∃ m', Method.ofDecl u scope' (start + i) decl = .ok m' ∧ R m m') :
    ∃ methods', methodsFrom u skipBridges scope' start decls = .ok methods' ∧
      List.Forall₂ R methods methods' := by
  induction decls generalizing start methods with
  | nil =>
    cases listed
    exact ⟨[], rfl, .nil⟩
  | cons decl rest ih =>
    have further (i : Nat) (d : MethodDecl) (m : Method) (found : rest[i]? = some d)
        (made : Method.ofDecl u scope (start + 1 + i) d = .ok m) :
        ∃ m', Method.ofDecl u scope' (start + 1 + i) d = .ok m' ∧ R m m' := by
      have place : start + 1 + i = start + (i + 1) := by omega
      rw [place] at made ⊢
      exact each (i + 1) d m found made
    unfold methodsFrom at listed ⊢
    split
    · next skipped =>
      rw [if_pos skipped] at listed
      exact ih listed further
    · next kept =>
      rw [if_neg kept] at listed
      obtain ⟨m, first, listed⟩ := bind_eq_ok.1 listed
      obtain ⟨others, tail, same⟩ := bind_eq_ok.1 listed
      cases same
      obtain ⟨m', first', related⟩ := each 0 decl m rfl first
      obtain ⟨others', tail', relateds⟩ := ih tail further
      exact ⟨m' :: others', bind_eq_ok.2 ⟨m', first', bind_eq_ok.2 ⟨others', tail', rfl⟩⟩,
        .cons related relateds⟩

variable (executables : u.ExecutablesDeclared c)

include executables

theorem Declarer.declaredMethods_applied {skipBridges anchored : Bool} {methods : List Method}
    (listed : (Declarer.ofClass c).declaredMethods u skipBridges anchored = .ok methods)
    (anchored' : Bool) :
    ∃ methods', (Declarer.applied c (u.bindVars (.ofClass c) args)).declaredMethods u skipBridges
        anchored' = .ok methods' ∧ List.Forall₂ (Method.FilledIn u c args) methods methods' := by
  obtain ⟨scope, found, listed⟩ := bind_eq_ok.1 listed
  obtain ⟨scope', found', applied⟩ :=
    Scope.exists_appliedTo layered ids valid declaredArgs written found anchored'
  rw [applied.classDecl_eq] at listed
  have each : ∃ methods', methodsFrom u skipBridges scope' 0 (u.decl c).methods = .ok methods' ∧
      List.Forall₂ (Method.FilledIn u c args) methods methods' := by
    refine methodsFrom_related listed fun i decl m inside made => ?_
    have member := List.mem_of_getElem? inside
    obtain ⟨m', made', params, returns⟩ := Method.ofDecl_applied layered ids valid declaredArgs
      written (executables.params decl member) (executables.returns decl member) applied made
    rw [Nat.zero_add] at made made' ⊢
    exact ⟨m', made', i, ⟨anchored, scope, decl, found, inside, made⟩,
      ⟨anchored', scope', decl, found', inside, made'⟩, params, returns⟩
  obtain ⟨methods', listed', related⟩ := each
  refine ⟨methods', bind_eq_ok.2 ⟨scope', found', ?_⟩, related⟩
  rw [applied.classDecl_eq']
  exact listed'

theorem Declarer.declaredConstructors_applied {anchored : Bool} {constructors : List Constructor}
    (listed : (Declarer.ofClass c).declaredConstructors u anchored = .ok constructors)
    (anchored' : Bool) :
    ∃ constructors', (Declarer.applied c (u.bindVars (.ofClass c) args)).declaredConstructors u
        anchored' = .ok constructors' ∧
      List.Forall₂ (Constructor.FilledIn u c args) constructors constructors' := by
  obtain ⟨scope, found, listed⟩ := bind_eq_ok.1 listed
  obtain ⟨scope', found', applied⟩ :=
    Scope.exists_appliedTo layered ids valid declaredArgs written found anchored'
  rw [applied.classDecl_eq] at listed
  have each : ∃ constructors', listEach (Constructor.ofDecl u scope') 0 (u.decl c).constructors =
      .ok constructors' ∧ List.Forall₂ (Constructor.FilledIn u c args) constructors constructors' := by
    refine listEach_related listed fun i decl k inside made => ?_
    have member := List.mem_of_getElem? inside
    obtain ⟨k', made', params⟩ := Constructor.ofDecl_applied layered ids valid declaredArgs written
      (executables.constructors decl member) applied made
    rw [Nat.zero_add] at made made' ⊢
    exact ⟨k', made', i, ⟨anchored, scope, decl, found, inside, made⟩,
      ⟨anchored', scope', decl, found', inside, made'⟩, params⟩
  obtain ⟨constructors', listed', related⟩ := each
  refine ⟨constructors', bind_eq_ok.2 ⟨scope', found', ?_⟩, related⟩
  rw [applied.classDecl_eq']
  exact listed'

end members

/-- Members seen through a class applied to arguments are those of the class with the arguments
filled in, those of super classes included. Whatever the class lists is listed, as long as the
applied class can be written. -/
theorem Universe.Made.members_applied (made : u.Made) (ids : Set.InjOn u.varKey u.declaredVars)
    (valid : u.BoundsDeclared) (acyclic : u.Acyclic) {c : ClassId}
    (inScope : ∀ d, Relation.ReflTransGen u.SuperClass c d → u.Scoped d)
    (executables : u.ExecutablesDeclared c) {args : List Ty} (declaredArgs : ∀ a ∈ args, a.Declared u)
    {text : String} (written : (Ty.apply u c args).display u = .ok text) :
    (∀ fields, (Ty.ofClass c).publicFields u = .ok fields →
      ∃ fields', (Ty.apply u c args).publicFields u = .ok fields' ∧
        List.Forall₂ (Field.FilledIn u (u.bindVars (.ofClass c) args)) fields fields') ∧
    (∀ skipBridges methods, (Ty.ofClass c).declaredMethods u skipBridges = .ok methods →
      ∃ methods', (Ty.apply u c args).declaredMethods u skipBridges = .ok methods' ∧
        List.Forall₂ (Method.FilledIn u c args) methods methods') ∧
    ∀ constructors, (Ty.ofClass c).declaredConstructors u = .ok constructors →
      ∃ constructors', (Ty.apply u c args).declaredConstructors u = .ok constructors' ∧
        List.Forall₂ (Constructor.FilledIn u c args) constructors constructors' := by
  have layered := made.layered
  have declared : (Ty.apply u c args).Declared u := declared_apply declaredArgs
  have writable := (Ty.display_ok_iff layered ids valid declared).1 ⟨text, written⟩
  refine ⟨fun fields listed => ?_, fun skipBridges methods listed => ?_,
    fun constructors listed => ?_⟩
  · have fills : Fills u c args (.ofClass c) (.applied c (u.bindVars (.ofClass c) args)) :=
      .start declaredArgs
    exact fills.publicFieldsWithin ids declaredArgs acyclic inScope layered valid writable .refl
      (acyclic.chainWithin c) (size_lt_walkLimit u _) (size_lt_walkLimit u _) listed false
  · exact Declarer.declaredMethods_applied layered ids valid declaredArgs writable executables listed
      false
  · exact Declarer.declaredConstructors_applied layered ids valid declaredArgs writable executables
      listed false

namespace Racks

open Modifiers (Flag)

def shelf : ClassId := ⟨10⟩
def rack : ClassId := ⟨11⟩
def varX : DeclType := .variable ⟨.ofClass shelf, 0⟩
def varT : DeclType := .variable ⟨.ofClass rack, 0⟩

/-- `Shelf<X>` has a field `X top` and a static field `Object count`, and `Rack<T> extends Shelf<T[]>`
has a field `T first`, a constructor `Rack(T)`, a method `T swap(T)` and a static method `V of(V)`. -/
def classes : Universe :=
  (((Universe.initial.declare "Shelf").2.declare "Rack").2.define shelf
    [.typeParam "X" [], .field { name := "top", modifiers := Flag.isPublic.set, type := varX },
      .field { name := "count", modifiers := .ofFlags [.isPublic, .isStatic],
               type := .ofClass Universe.object }]).define rack
    [.typeParam "T" [], .superclass (.applied shelf [.array varT]),
      .field { name := "first", modifiers := Flag.isPublic.set, type := varT },
      .constructor Flag.isPublic.set [.param { name := "first", type := varT }],
      .method "swap" Flag.isPublic.set [.executable (.param { name := "next", type := varT }),
        .returns varT],
      .method "of" (.ofFlags [.isPublic, .isStatic]) [.executable (.typeParam "V" []),
        .executable (.param { name := "only", type := .variable ⟨.method rack 1, 0⟩ }),
        .returns (.variable ⟨.method rack 1, 0⟩)]]

def object : Ty := .ofClass Universe.object

theorem made : classes.Made :=
  .define (.define (.declare _ (.declare _ .initial)) (by decide) trivial) (by decide) trivial

theorem boundsDeclared : classes.BoundsDeclared := Universe.boundsDeclared_of_allVars (by decide)

def rackOfObject : Ty := .apply classes rack [object]

def fieldTexts (fields : List Field) : List (String × Option String) :=
  fields.map fun f => (f.name, (f.type.display classes).toOption)

def methodTexts (methods : List Method) : List (List (Option String) × Option String) :=
  methods.map fun m => (m.paramTypes.map fun t => (t.display classes).toOption,
    (m.returnType.display classes).toOption)

def constructorTexts (constructors : List Constructor) : List (List (Option String)) :=
  constructors.map fun k => k.executable.paramTypes.map fun t => (t.display classes).toOption

/-- `Rack<Object>` inherits an array of objects, and its own members show objects. -/
theorem members_rack :
    (∃ fields fields', (Ty.ofClass rack).publicFields classes = .ok fields ∧
      rackOfObject.publicFields classes = .ok fields' ∧
      List.Forall₂ (Field.FilledIn classes (classes.bindVars (.ofClass rack) [object])) fields fields' ∧
      fieldTexts fields = [("count", some "java.lang.Object"), ("first", some "T"), ("top", some "T[]")] ∧
      fieldTexts fields' = [("count", some "java.lang.Object"), ("first", some "java.lang.Object"),
        ("top", some "java.lang.Object[]")]) ∧
    (∃ methods methods', (Ty.ofClass rack).declaredMethods classes true = .ok methods ∧
      rackOfObject.declaredMethods classes true = .ok methods' ∧
      List.Forall₂ (Method.FilledIn classes rack [object]) methods methods' ∧
      methodTexts methods = [([some "T"], some "T"), ([some "V"], some "V")] ∧
      methodTexts methods' =
        [([some "java.lang.Object"], some "java.lang.Object"), ([some "V"], some "V")]) ∧
    ∃ constructors constructors',
      (Ty.ofClass rack).declaredConstructors classes = .ok constructors ∧
      rackOfObject.declaredConstructors classes = .ok constructors' ∧
      List.Forall₂ (Constructor.FilledIn classes rack [object]) constructors constructors' ∧
      constructorTexts constructors = [[some "T"]] ∧
      constructorTexts constructors' = [[some "java.lang.Object"]] := by
  have ids : Set.InjOn classes.varKey classes.declaredVars := injOn_varKey (by decide)
  have acyclic : classes.Acyclic := Universe.acyclic_of_earlier (by decide)
  have inScope : ∀ c, classes.Scoped c := Universe.scoped_of_ids (by decide) (by decide)
  have params : ∀ m ∈ (classes.decl rack).methods, ∀ p ∈ m.params, ∀ v ∈ p.type.vars,
      (classes.typeParam? v).isSome := by decide
  have returns : ∀ m ∈ (classes.decl rack).methods, ∀ v ∈ m.returnType.vars,
      (classes.typeParam? v).isSome := by decide
  have constructed : ∀ k ∈ (classes.decl rack).constructors, ∀ p ∈ k.params, ∀ v ∈ p.type.vars,
      (classes.typeParam? v).isSome := by decide
  have executables : classes.ExecutablesDeclared rack := ⟨params, returns, constructed⟩
  have declared : ∀ t ∈ [object], t.Declared classes := by simp [object, Ty.Declared, Ty.mentioned]
  have written : rackOfObject.display classes = .ok "Rack<java.lang.Object>" :=
    toOption_eq_some.1 (by decide +kernel)
  obtain ⟨ofFields, ofMethods, ofConstructors⟩ :=
    made.members_applied ids boundsDeclared acyclic (fun c _ => inScope c) executables declared written
  refine ⟨?_, ?_, ?_⟩
  · have texts : ((Ty.ofClass rack).publicFields classes).toOption.map fieldTexts =
        some [("count", some "java.lang.Object"), ("first", some "T"), ("top", some "T[]")] := by
      decide +kernel
    have texts' : (rackOfObject.publicFields classes).toOption.map fieldTexts =
        some [("count", some "java.lang.Object"), ("first", some "java.lang.Object"),
          ("top", some "java.lang.Object[]")] := by decide +kernel
    obtain ⟨fields, listed, texts⟩ := toOption_map_eq_some.1 texts
    obtain ⟨fields', listed', texts'⟩ := toOption_map_eq_some.1 texts'
    obtain ⟨_, same, filled⟩ := ofFields fields listed
    cases listed'.symm.trans same
    exact ⟨fields, fields', listed, listed', filled, texts, texts'⟩
  · have texts : ((Ty.ofClass rack).declaredMethods classes true).toOption.map methodTexts =
        some [([some "T"], some "T"), ([some "V"], some "V")] := by decide +kernel
    have texts' : (rackOfObject.declaredMethods classes true).toOption.map methodTexts = some
        [([some "java.lang.Object"], some "java.lang.Object"), ([some "V"], some "V")] := by
      decide +kernel
    obtain ⟨methods, listed, texts⟩ := toOption_map_eq_some.1 texts
    obtain ⟨methods', listed', texts'⟩ := toOption_map_eq_some.1 texts'
    obtain ⟨_, same, filled⟩ := ofMethods true methods listed
    cases listed'.symm.trans same
    exact ⟨methods, methods', listed, listed', filled, texts, texts'⟩
  · have texts : ((Ty.ofClass rack).declaredConstructors classes).toOption.map constructorTexts =
        some [[some "T"]] := by decide +kernel
    have texts' : (rackOfObject.declaredConstructors classes).toOption.map constructorTexts =
        some [[some "java.lang.Object"]] := by decide +kernel
    obtain ⟨constructors, listed, texts⟩ := toOption_map_eq_some.1 texts
    obtain ⟨constructors', listed', texts'⟩ := toOption_map_eq_some.1 texts'
    obtain ⟨_, same, filled⟩ := ofConstructors constructors listed
    cases listed'.symm.trans same
    exact ⟨constructors, constructors', listed, listed', filled, texts, texts'⟩

end Racks

namespace Heirs

open Modifiers (Flag)

def base : ClassId := ⟨10⟩
def heir : ClassId := ⟨11⟩
def box : ClassId := ⟨12⟩
def odd : ClassId := ⟨13⟩

/-- `Base` has a field `x`, `Heir<T> extends T` has none, `Box<T>` has a field `T item`, and the
variable of `Odd` has a bound that is no type. -/
def classes : Universe :=
  ((((Universe.initial.declare "Base").2.declare "Heir").2.declare "Box").2.declare "Odd").2
    |>.define base [.field { name := "x", modifiers := Flag.isPublic.set, type := .ofClass base }]
    |>.define heir [.typeParam "T" [], .superclass (.variable ⟨.ofClass heir, 0⟩)]
    |>.define box [.typeParam "T" [], .field
      { name := "item", modifiers := Flag.isPublic.set, type := .variable ⟨.ofClass box, 0⟩ }]
    |>.define odd [.typeParam "U" [.other "?"]]

def fieldNames (t : Ty) : Except ReflectionError (List String) :=
  (t.publicFields classes).map (List.map Field.name)

/-- A class below its own variable has no fields to inherit until the variable is filled in, and with
an argument that can not be written there is no list. -/
theorem publicFields_heir :
    classes.Made ∧ classes.Acyclic ∧ Set.InjOn classes.varKey classes.declaredVars ∧
      (∀ c ∈ classes.ids, ∀ clause ∈ (classes.decl c).superClass.toList, clause.OwnedBy classes c) ∧
      (∀ c ∈ classes.ids, ∀ f ∈ (classes.decl c).fields, ∀ v ∈ f.type.vars, v.owner = .ofClass c) ∧
      (fieldNames (.ofClass heir)).toOption = some [] ∧
      (fieldNames (.apply classes heir [.ofClass base])).toOption = some ["x"] ∧
      (fieldNames (.ofClass box)).toOption = some ["item"] ∧
      (fieldNames (.apply classes box [.variable (.free ⟨.ofClass odd, 0⟩)])).toOption = none := by
  have made : classes.Made := by
    refine .define (.define (.define (.define ?_ ?_ trivial) ?_ trivial) ?_ trivial) ?_ trivial
    · exact .declare _ (.declare _ (.declare _ (.declare _ .initial)))
    all_goals decide
  have acyclic : classes.Acyclic := Universe.acyclic_of_earlier (by decide)
  have ids : Set.InjOn classes.varKey classes.declaredVars := injOn_varKey (by decide)
  refine ⟨made, acyclic, ids, by decide, by decide, ?_, ?_, ?_, ?_⟩
  all_goals decide +kernel

end Heirs

end JavaTypes
