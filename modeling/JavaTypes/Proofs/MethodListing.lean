import JavaTypes.Member.Listing
import JavaTypes.Proofs.KeyedTables
import JavaTypes.Proofs.OverrideKeys

/-!
Listings of methods. A table of public methods has one entry for each override key, and an own
method is entered last, so it replaces what super types hand on. A listing succeeds only if the
listings of all super types on the way do.
-/
namespace JavaTypes

variable {u : Universe} {skipBridges : Bool}

theorem declaring_of_scope {anchored : Bool} {d : Declarer} {scope : Scope}
    (found : Scope.of u anchored d = .ok scope) : scope.declaring = d := by
  unfold Scope.of at found
  split at found
  split at found
  · cases found
    rfl
  · cases found

theorem Scope.of_reanchored {anchored : Bool} {d : Declarer} {scope : Scope}
    (found : Scope.of u anchored d = .ok scope) (other : Bool) :
    Scope.of u other d = .ok { scope with anchored := other } := by
  unfold Scope.of at found ⊢
  split at found
  split at found
  · cases found
    rfl
  · cases found

/-- Which way a declaring type was reached is all that another scope over it can change. -/
theorem Method.ofDecl_rescoped {scope other : Scope} {index : Nat} {decl : MethodDecl} {m : Method}
    (same : other.declaring = scope.declaring) (made : ofDecl u scope index decl = .ok m) :
    ofDecl u other index decl =
      .ok { m with executable := { m.executable with scope := other } } := by
  obtain ⟨e, executable, made⟩ := bind_eq_ok.1 made
  obtain ⟨returnType, returned, made⟩ := bind_eq_ok.1 made
  obtain ⟨signature, signed, made⟩ := bind_eq_ok.1 made
  obtain ⟨key, written, made⟩ := bind_eq_ok.1 made
  obtain ⟨parameters, resolved, executable⟩ := bind_eq_ok.1 executable
  obtain ⟨exceptions, thrown, executable⟩ := bind_eq_ok.1 executable
  cases executable
  cases made
  have effective (modifiers : Modifiers) (own : List TyVar) :
      other.effective u modifiers own = scope.effective u modifiers own := by
    simp only [Scope.effective, Scope.typeVariables, same]
  have owner : VarOwner.method other.classId index = .method scope.classId index := by
    simp only [Scope.classId, same]
  refine bind_eq_ok.2 ⟨_, bind_eq_ok.2 ⟨parameters, ?_, bind_eq_ok.2 ⟨exceptions, thrown, rfl⟩⟩,
    bind_eq_ok.2 ⟨returnType, ?_, bind_eq_ok.2 ⟨signature, ?_, bind_eq_ok.2 ⟨key, ?_, ?_⟩⟩⟩⟩
  · rw [effective, owner]
    exact resolved
  · rw [effective, owner]
    exact returned
  · rw [owner]
    exact signed
  · rw [owner]
    exact written
  · rw [effective, owner]
    rfl

/-- A method without the record of which way led to its declaring type. -/
def Method.unanchored (m : Method) : Method :=
  { m with
    executable := { m.executable with scope := { m.executable.scope with anchored := false } } }

theorem Method.ofDecl_reanchored {scope : Scope} {index : Nat} {decl : MethodDecl} {m : Method}
    (made : ofDecl u scope index decl = .ok m) (anchored : Bool) :
    ∃ m', ofDecl u { scope with anchored } index decl = .ok m' ∧ m'.unanchored = m.unanchored := by
  have own : m.executable.scope = scope := by
    obtain ⟨e, executable, made⟩ := bind_eq_ok.1 made
    obtain ⟨_, -, made⟩ := bind_eq_ok.1 made
    obtain ⟨_, -, made⟩ := bind_eq_ok.1 made
    obtain ⟨_, -, made⟩ := bind_eq_ok.1 made
    obtain ⟨_, -, executable⟩ := bind_eq_ok.1 executable
    obtain ⟨_, -, executable⟩ := bind_eq_ok.1 executable
    cases executable
    cases made
    rfl
  have same : ({ scope with anchored } : Scope).declaring = scope.declaring := rfl
  exact ⟨_, ofDecl_rescoped same made, by simp only [unanchored, own]⟩

/-- A method is the one with number `index` of those a class or applied type declares. -/
def Declarer.Declares (u : Universe) (d : Declarer) (index : Nat) (m : Method) : Prop :=
  ∃ anchored scope decl, Scope.of u anchored d = .ok scope ∧
    (u.decl d.classId).methods[index]? = some decl ∧ Method.ofDecl u scope index decl = .ok m

/-- The method with a number is one and the same, whichever way leads to its declaring type. -/
theorem Declarer.Declares.unanchored_eq {d : Declarer} {index : Nat} {m m' : Method}
    (declares : d.Declares u index m) (declares' : d.Declares u index m') :
    m'.unanchored = m.unanchored := by
  obtain ⟨anchored, scope, decl, inScope, found, made⟩ := declares
  obtain ⟨anchored', scope', decl', inScope', found', made'⟩ := declares'
  cases found.symm.trans found'
  cases (Scope.of_reanchored inScope anchored').symm.trans inScope'
  obtain ⟨_, again, same⟩ := Method.ofDecl_reanchored made anchored'
  cases made'.symm.trans again
  exact same

def Declarer.methodAt? (u : Universe) (d : Declarer) (index : Nat) : Option Method := do
  let scope ← (Scope.of u true d).toOption
  let decl ← (u.decl d.classId).methods[index]?
  (Method.ofDecl u scope index decl).toOption

theorem Declarer.declares_of_methodAt? {d : Declarer} {index : Nat} {m : Method}
    (found : d.methodAt? u index = some m) : d.Declares u index m := by
  obtain ⟨scope, inScope, found⟩ := Option.bind_eq_some_iff.1 found
  obtain ⟨decl, written, made⟩ := Option.bind_eq_some_iff.1 found
  exact ⟨true, scope, decl, toOption_eq_some.1 inScope, written, toOption_eq_some.1 made⟩

theorem Declarer.Declares.reflects {d : Declarer} {index : Nat} {m : Method} {decl : MethodDecl}
    (declares : d.Declares u index m) (found : (u.decl d.classId).methods[index]? = some decl) :
    m.Reflects u d index decl := by
  obtain ⟨anchored, scope, decl', inScope, found', made⟩ := declares
  cases found'.symm.trans found
  exact declaring_of_scope inScope ▸ Method.reflects_of_ofDecl made

namespace Declarer

theorem methodsFrom_origin {scope : Scope} {start : Nat} {decls : List MethodDecl}
    {methods : List Method} (listed : methodsFrom u skipBridges scope start decls = .ok methods) :
    ∀ m ∈ methods, ∃ i decl, decls[i]? = some decl ∧ (skipBridges && decl.bridge) = false ∧
      Method.ofDecl u scope (start + i) decl = .ok m := by
  induction decls generalizing start methods with
  | nil =>
    cases listed
    simp
  | cons first rest ih =>
    have later {others : List Method}
        (listed : methodsFrom u skipBridges scope (start + 1) rest = .ok others) :
        ∀ m ∈ others, ∃ i decl, (first :: rest)[i]? = some decl ∧
          (skipBridges && decl.bridge) = false ∧
          Method.ofDecl u scope (start + i) decl = .ok m := fun m member => by
      obtain ⟨i, decl, found, kept, made⟩ := ih listed m member
      exact ⟨i + 1, decl, by simpa using found, kept, by rw [← made]; congr 1; omega⟩
    unfold methodsFrom at listed
    split at listed
    · exact later listed
    · next kept =>
      obtain ⟨m, made, listed⟩ := bind_eq_ok.1 listed
      obtain ⟨others, tail, same⟩ := bind_eq_ok.1 listed
      cases same
      exact List.forall_mem_cons.2 ⟨⟨0, first, rfl, by simpa using kept, made⟩, later tail⟩

/-- A declaration that is kept stands in the list before what later ones make. -/
theorem methodsFrom_split {scope : Scope} {start : Nat} {decls : List MethodDecl}
    {methods : List Method} (listed : methodsFrom u skipBridges scope start decls = .ok methods)
    {i : Nat} {decl : MethodDecl} (found : decls[i]? = some decl)
    (kept : (skipBridges && decl.bridge) = false) :
    ∃ before m after, methods = before ++ m :: after ∧
      Method.ofDecl u scope (start + i) decl = .ok m ∧
      ∀ x ∈ after, ∃ j later, i < j ∧ decls[j]? = some later ∧
        (skipBridges && later.bridge) = false ∧ Method.ofDecl u scope (start + j) later = .ok x := by
  induction decls generalizing start methods i with
  | nil => simp at found
  | cons first rest ih =>
    unfold methodsFrom at listed
    cases i with
    | zero =>
      cases found
      rw [if_neg (by simp [kept])] at listed
      obtain ⟨m, made, listed⟩ := bind_eq_ok.1 listed
      obtain ⟨others, tail, same⟩ := bind_eq_ok.1 listed
      cases same
      refine ⟨[], m, others, rfl, made, fun x member => ?_⟩
      obtain ⟨j, later, written, keeps, makes⟩ := methodsFrom_origin tail x member
      have place : start + 1 + j = start + (j + 1) := by omega
      rw [place] at makes
      exact ⟨j + 1, later, j.succ_pos, written, keeps, makes⟩
    | succ i =>
      -- Of the two ways to list `first`, skipped or made, neither matters for what comes after it.
      have further {others : List Method}
          (tail : methodsFrom u skipBridges scope (start + 1) rest = .ok others) :
          ∃ before m after, others = before ++ m :: after ∧
            Method.ofDecl u scope (start + (i + 1)) decl = .ok m ∧
            ∀ x ∈ after, ∃ j later, i + 1 < j ∧ (first :: rest)[j]? = some later ∧
              (skipBridges && later.bridge) = false ∧
              Method.ofDecl u scope (start + j) later = .ok x := by
        obtain ⟨before, m, after, split, made, beyond⟩ := ih tail found
        have place (j : Nat) : start + 1 + j = start + (j + 1) := by omega
        rw [place] at made
        refine ⟨before, m, after, split, made, fun x member => ?_⟩
        obtain ⟨j, later, less, written, keeps, makes⟩ := beyond x member
        rw [place] at makes
        exact ⟨j + 1, later, Nat.succ_lt_succ less, written, keeps, makes⟩
      split at listed
      · exact further listed
      · obtain ⟨m, -, listed⟩ := bind_eq_ok.1 listed
        obtain ⟨others, tail, same⟩ := bind_eq_ok.1 listed
        cases same
        obtain ⟨before, m', after, split, rest⟩ := further tail
        exact ⟨m :: before, m', after, congrArg (List.cons m) split, rest⟩

theorem methodsFrom_complete {scope : Scope} {start : Nat} {decls : List MethodDecl}
    {methods : List Method} (listed : methodsFrom u skipBridges scope start decls = .ok methods)
    {i : Nat} {decl : MethodDecl} (found : decls[i]? = some decl)
    (kept : (skipBridges && decl.bridge) = false) :
    ∃ m ∈ methods, Method.ofDecl u scope (start + i) decl = .ok m := by
  obtain ⟨before, m, after, rfl, made, -⟩ := methodsFrom_split listed found kept
  exact ⟨m, List.mem_append_right before List.mem_cons_self, made⟩

theorem methodsFrom_reanchored {scope : Scope} {start : Nat} {decls : List MethodDecl}
    {methods : List Method} (listed : methodsFrom u skipBridges scope start decls = .ok methods)
    (anchored : Bool) :
    ∃ others, methodsFrom u skipBridges { scope with anchored } start decls = .ok others ∧
      others.map Method.unanchored = methods.map Method.unanchored := by
  induction decls generalizing start methods with
  | nil =>
    cases listed
    exact ⟨[], rfl, rfl⟩
  | cons first rest ih =>
    unfold methodsFrom at listed ⊢
    split
    · rename_i skipped
      rw [if_pos skipped] at listed
      exact ih listed
    · rename_i kept
      rw [if_neg kept] at listed
      obtain ⟨m, made, listed⟩ := bind_eq_ok.1 listed
      obtain ⟨others, tail, same⟩ := bind_eq_ok.1 listed
      cases same
      obtain ⟨m', made', same⟩ := Method.ofDecl_reanchored made anchored
      obtain ⟨others', tail', agree⟩ := ih tail
      exact ⟨_, bind_eq_ok.2 ⟨m', made', bind_eq_ok.2 ⟨others', tail', rfl⟩⟩, by simp [same, agree]⟩

section declared

variable {anchored : Bool} {d : Declarer} {methods : List Method}
  (listed : d.declaredMethods u skipBridges anchored = .ok methods)

include listed

theorem declaredMethods_origin : ∀ m ∈ methods, ∃ i, d.Declares u i m := by
  obtain ⟨scope, found, listed⟩ := bind_eq_ok.1 listed
  intro m member
  obtain ⟨i, decl, written, -, made⟩ := methodsFrom_origin listed m member
  rw [Nat.zero_add] at made
  rw [Scope.classDecl, Scope.classId, declaring_of_scope found] at written
  exact ⟨i, anchored, scope, decl, found, written, made⟩

theorem declaredMethods_complete {i : Nat} {decl : MethodDecl}
    (written : (u.decl d.classId).methods[i]? = some decl)
    (kept : (skipBridges && decl.bridge) = false) :
    ∃ m ∈ methods, d.Declares u i m := by
  obtain ⟨scope, found, listed⟩ := bind_eq_ok.1 listed
  have own : (scope.classDecl u).methods[i]? = some decl := by
    rw [Scope.classDecl, Scope.classId, declaring_of_scope found, written]
  obtain ⟨m, member, made⟩ := methodsFrom_complete listed own kept
  rw [Nat.zero_add] at made
  exact ⟨m, member, anchored, scope, decl, found, written, made⟩

theorem declaredMethods_reanchored (other : Bool) :
    ∃ others, d.declaredMethods u skipBridges other = .ok others ∧
      others.map Method.unanchored = methods.map Method.unanchored := by
  obtain ⟨scope, found, listed⟩ := bind_eq_ok.1 listed
  obtain ⟨others, listed, same⟩ := methodsFrom_reanchored listed other
  exact ⟨others, bind_eq_ok.2 ⟨_, Scope.of_reanchored found other, listed⟩, same⟩

end declared

/-- A clause of a class as a super type of what declares with it: applied types fill in their
bindings. -/
def sees (u : Universe) : Declarer → Ty → Ty
  | ofClass _, t => t
  | applied _ bindings, t => t.substitute u bindings

theorem interfaces_eq_ok {d : Declarer} {interfaces : List Ty} :
    d.interfaces u = .ok interfaces ↔ ∃ types, u.classInterfaces d.classId = .ok types ∧
      types.map (d.sees u) = interfaces := by
  cases d with
  | ofClass c =>
    have unchanged : sees u (ofClass c) = id := rfl
    simp [Declarer.interfaces, classId, unchanged]
  | applied c bindings =>
    simp only [Declarer.interfaces, bind_eq_ok, pure, Except.pure, Except.ok.injEq]
    rfl

theorem superType_eq_ok {d : Declarer} {superType : Option Ty} :
    d.superType u = .ok superType ↔ ∃ super, u.classSuperType d.classId = .ok super ∧
      super.map (d.sees u) = superType := by
  cases d with
  | ofClass c =>
    have unchanged : sees u (ofClass c) = id := rfl
    simp [Declarer.superType, classId, unchanged]
  | applied c bindings =>
    simp only [Declarer.superType, bind_eq_ok, pure, Except.pure, Except.ok.injEq]
    rfl

theorem sees_mem_supers {d : Declarer} {interfaces : List Ty} {superType : Option Ty}
    (found : d.interfaces u = .ok interfaces) (foundSuper : d.superType u = .ok superType)
    {clause : DeclType} (member : clause ∈ (u.decl d.classId).clauses) :
    ∃ t, clause.resolve u = .ok t ∧ d.sees u t ∈ interfaces ++ superType.toList := by
  obtain ⟨types, resolved, seen⟩ := interfaces_eq_ok.1 found
  obtain ⟨super, resolvedSuper, seenSuper⟩ := superType_eq_ok.1 foundSuper
  rcases List.mem_append.1 member with inSuper | inInterfaces
  · rw [Option.mem_toList] at inSuper
    simp only [Universe.classSuperType, inSuper] at resolvedSuper
    obtain ⟨t, clauseResolved, same⟩ := bind_eq_ok.1 resolvedSuper
    cases same
    exact ⟨t, clauseResolved, by simp [← seenSuper]⟩
  · obtain ⟨i, inside, rfl⟩ := List.getElem_of_mem inInterfaces
    have each := resolveAll_eq_ok.1 resolved
    have within : i < types.length := each.length_eq ▸ inside
    refine ⟨types[i], each.get inside within, ?_⟩
    rw [← seen]
    exact List.mem_append_left _ (List.mem_map.2 ⟨_, List.getElem_mem within, rfl⟩)

end Declarer

theorem exists_right_of_mem {α β : Type} {R : α → β → Prop} {as : List α} {bs : List β}
    (each : List.Forall₂ R as bs) {a : α} (member : a ∈ as) : ∃ b ∈ bs, R a b :=
  exists_left_of_mem each.flip member

section inherited

variable {methodsOf : Ty → Except ReflectionError (List Method)}

/-- What super types hand on, where a list stands for the public methods of each. -/
def handedOn (listings : List (List Method)) : List Method :=
  listings.flatten.filter fun m => !m.isStatic

/-- Public methods by override key: those handed on by interfaces, then those handed on by the super
type, then own ones. -/
def publicTable (own : List Method) (fromSuper fromInterfaces : List (List Method)) :
    List (String × Method) :=
  Keyed.insertAll Method.overrideKey (own.filter (·.isPublic))
    (Keyed.insertAll Method.overrideKey (handedOn fromSuper)
      (Keyed.insertAll Method.overrideKey (handedOn fromInterfaces) []))

def publicListing (own : List Method) (fromSuper fromInterfaces : List (List Method)) :
    List Method :=
  sortBySignature ((publicTable own fromSuper fromInterfaces).map (·.2))

/-- What a listing of public methods is made of: the methods a type declares and the public methods
of each of its super types. -/
structure Declarer.Collects (u : Universe) (skipBridges anchored : Bool)
    (methodsOf : Ty → Except ReflectionError (List Method)) (d : Declarer) (own : List Method)
    (fromSuper fromInterfaces : List (List Method)) : Prop where
  declared : d.declaredMethods u skipBridges anchored = .ok own
  superType : ∃ superType, d.superType u = .ok superType ∧
    List.Forall₂ (fun t methods => methodsOf t = .ok methods) superType.toList fromSuper
  interfaces : ∃ interfaces, d.interfaces u = .ok interfaces ∧
    List.Forall₂ (fun t methods => methodsOf t = .ok methods) interfaces fromInterfaces

theorem inheritMethods_eq_ok {types : List Ty} {table result : List (String × Method)} :
    inheritMethods methodsOf types table = .ok result ↔ ∃ listings,
      List.Forall₂ (fun t methods => methodsOf t = .ok methods) types listings ∧
        Keyed.insertAll Method.overrideKey (handedOn listings) table = result := by
  induction types generalizing table with
  | nil => simp [inheritMethods, handedOn, Keyed.insertAll]
  | cons t rest ih =>
    simp only [inheritMethods, bind_eq_ok, ih, List.forall₂_cons_left_iff]
    constructor
    · rintro ⟨methods, listed, listings, each, rfl⟩
      exact ⟨methods :: listings, ⟨methods, listings, listed, each, rfl⟩,
        by simp [handedOn, Keyed.insertAll, List.foldl_append]⟩
    · rintro ⟨_, ⟨methods, listings, listed, each, rfl⟩, rfl⟩
      exact ⟨methods, listed, listings, each,
        by simp [handedOn, Keyed.insertAll, List.foldl_append]⟩

section publicListing

variable (own : List Method) (fromSuper fromInterfaces : List (List Method))

theorem indexed_publicTable :
    Keyed.Indexed Method.overrideKey (publicTable own fromSuper fromInterfaces) :=
  have empty : Keyed.Indexed Method.overrideKey [] := ⟨.nil, by simp⟩
  ((empty.insertAll _).insertAll _).insertAll _

theorem publicListing_perm : (publicListing own fromSuper fromInterfaces).Perm
    ((publicTable own fromSuper fromInterfaces).map (·.2)) :=
  List.mergeSort_perm _ _

theorem nodup_publicListing :
    ((publicListing own fromSuper fromInterfaces).map Method.overrideKey).Nodup :=
  ((publicListing_perm own fromSuper fromInterfaces).map _).nodup_iff.2
    (indexed_publicTable own fromSuper fromInterfaces).nodup

theorem pairwise_publicListing :
    (publicListing own fromSuper fromInterfaces).Pairwise fun a b => a.signature ≤ b.signature := by
  have ordered (a b : Method) :
      (!decide (b.signature < a.signature)) = true ↔ a.signature ≤ b.signature := by
    rw [Bool.not_eq_true', decide_eq_false_iff_not, String.not_lt]
  have sorted : (publicListing own fromSuper fromInterfaces).Pairwise fun a b =>
      (!decide (b.signature < a.signature)) = true := by
    refine List.pairwise_mergeSort (fun a b c => ?_) (fun a b => ?_) _
    · rw [ordered, ordered, ordered]
      exact String.le_trans
    · rw [Bool.or_eq_true, ordered, ordered]
      exact String.le_total _ _
  exact sorted.imp fun {a b} => (ordered a b).1

/-- Under a key a listing has the last own public method with it, or else what the super type hands
on, or else what the last interface that has it hands on. -/
theorem find?_publicListing (key : String) :
    (publicListing own fromSuper fromInterfaces).find? (fun m => m.overrideKey == key) =
      (own.findRev? fun m => m.isPublic && m.overrideKey == key).or
        ((fromSuper.flatten.findRev? fun m => !m.isStatic && m.overrideKey == key).or
          (fromInterfaces.flatten.findRev? fun m => !m.isStatic && m.overrideKey == key)) := by
  rw [Keyed.find?_eq_of_perm (publicListing_perm own fromSuper fromInterfaces)
    (nodup_publicListing own fromSuper fromInterfaces),
    (indexed_publicTable own fromSuper fromInterfaces).find?_eq]
  simp only [publicTable, handedOn, Keyed.lookup_insertAll, Keyed.findRev?_filter, List.lookup_nil,
    Option.or_none]

variable {fromSuper fromInterfaces}

/-- What a super type hands on is listed or replaced. -/
theorem exists_find?_publicListing {methods : List Method}
    (listing : methods ∈ fromSuper ∨ methods ∈ fromInterfaces) {m : Method} (inside : m ∈ methods)
    (instance_ : m.isStatic = false) : ∃ x, (publicListing own fromSuper fromInterfaces).find?
      (fun y => y.overrideKey == m.overrideKey) = some x := by
  have handed {listings : List (List Method)} (listing : methods ∈ listings) :
      ∃ x, (listings.flatten.findRev? fun y => !y.isStatic && y.overrideKey == m.overrideKey) =
        some x :=
    Keyed.exists_findRev? (List.mem_flatten.2 ⟨methods, listing, inside⟩) (by simp [instance_])
  rw [find?_publicListing, ← Option.isSome_iff_exists, Option.isSome_or, Option.isSome_or]
  rcases listing with listing | listing
  · obtain ⟨x, last⟩ := handed listing
    simp only [last, Option.isSome_some, Bool.true_or, Bool.or_true]
  · obtain ⟨x, last⟩ := handed listing
    simp only [last, Option.isSome_some, Bool.or_true]

variable {own}

/-- A listed method is an own public one, or a super type lists it and it is no static one. -/
theorem mem_publicListing {m : Method} (member : m ∈ publicListing own fromSuper fromInterfaces) :
    m ∈ own ∧ m.isPublic = true ∨
      ∃ methods, (methods ∈ fromSuper ∨ methods ∈ fromInterfaces) ∧ m ∈ methods ∧
        m.isStatic = false := by
  have found := find?_publicListing own fromSuper fromInterfaces m.overrideKey
  rw [Keyed.find?_of_mem (nodup_publicListing own fromSuper fromInterfaces) member] at found
  rcases Option.or_eq_some_iff.1 found.symm with last | ⟨-, handed⟩
  · obtain ⟨inside, shown⟩ := Keyed.mem_of_findRev? last
    exact .inl ⟨inside, (Bool.and_eq_true_iff.1 shown).1⟩
  · have inherited {listings : List (List Method)}
        (last : (listings.flatten.findRev? fun x => !x.isStatic && x.overrideKey == m.overrideKey) =
          some m) : ∃ methods ∈ listings, m ∈ methods ∧ m.isStatic = false := by
      obtain ⟨inside, shown⟩ := Keyed.mem_of_findRev? last
      obtain ⟨methods, listing, inside⟩ := List.mem_flatten.1 inside
      exact ⟨methods, listing, inside, by simpa using (Bool.and_eq_true_iff.1 shown).1⟩
    rcases Option.or_eq_some_iff.1 handed with last | ⟨-, last⟩
    · obtain ⟨methods, listing, rest⟩ := inherited last
      exact .inr ⟨methods, .inl listing, rest⟩
    · obtain ⟨methods, listing, rest⟩ := inherited last
      exact .inr ⟨methods, .inr listing, rest⟩

end publicListing

variable {anchored : Bool} {d : Declarer} {methods : List Method}

theorem Declarer.publicMethods_eq_ok :
    d.publicMethods u skipBridges anchored methodsOf = .ok methods ↔
      ∃ own fromSuper fromInterfaces,
        d.Collects u skipBridges anchored methodsOf own fromSuper fromInterfaces ∧
          publicListing own fromSuper fromInterfaces = methods := by
  simp only [Declarer.publicMethods, bind_eq_ok, inheritMethods_eq_ok]
  constructor
  · rintro ⟨interfaces, found, _, ⟨fromInterfaces, each, rfl⟩, superType, foundSuper, _,
      ⟨fromSuper, eachSuper, rfl⟩, own, declared, same⟩
    cases same
    exact ⟨own, fromSuper, fromInterfaces,
      ⟨declared, ⟨superType, foundSuper, eachSuper⟩, interfaces, found, each⟩, rfl⟩
  · rintro ⟨own, fromSuper, fromInterfaces,
      ⟨declared, ⟨superType, foundSuper, eachSuper⟩, interfaces, found, each⟩, rfl⟩
    exact ⟨interfaces, found, _, ⟨fromInterfaces, each, rfl⟩, superType, foundSuper, _,
      ⟨fromSuper, eachSuper, rfl⟩, own, declared, rfl⟩

variable (listed : d.publicMethods u skipBridges anchored methodsOf = .ok methods)

include listed

theorem Declarer.publicMethods_supers {clause : DeclType}
    (member : clause ∈ (u.decl d.classId).clauses) :
    ∃ t inherited, clause.resolve u = .ok t ∧ methodsOf (d.sees u t) = .ok inherited := by
  obtain ⟨own, fromSuper, fromInterfaces, collects, -⟩ := publicMethods_eq_ok.1 listed
  obtain ⟨superType, foundSuper, eachSuper⟩ := collects.superType
  obtain ⟨interfaces, found, each⟩ := collects.interfaces
  obtain ⟨t, resolved, super⟩ := Declarer.sees_mem_supers found foundSuper member
  rcases List.mem_append.1 super with inside | inside
  · obtain ⟨inherited, -, methods⟩ := exists_right_of_mem each inside
    exact ⟨t, inherited, resolved, methods⟩
  · obtain ⟨inherited, -, methods⟩ := exists_right_of_mem eachSuper inside
    exact ⟨t, inherited, resolved, methods⟩

theorem Declarer.publicMethods_own :
    ∃ own, d.declaredMethods u skipBridges anchored = .ok own ∧
      ∀ m ∈ own, m.isPublic = true → ∃ x ∈ own,
        methods.filter (fun y => y.overrideKey == m.overrideKey) = [x] := by
  obtain ⟨own, fromSuper, fromInterfaces, collects, rfl⟩ := publicMethods_eq_ok.1 listed
  refine ⟨own, collects.declared, fun m member isPublic => ?_⟩
  obtain ⟨x, last⟩ := Keyed.exists_findRev?
    (p := fun y => y.isPublic && y.overrideKey == m.overrideKey) member (by simp [isPublic])
  refine ⟨x, (Keyed.mem_of_findRev? last).1,
    Keyed.filter_eq_of_find? (nodup_publicListing own fromSuper fromInterfaces) ?_⟩
  rw [find?_publicListing, last]
  rfl

end inherited

theorem le_foldl_declSizes (decls : List ClassDecl) (n : Nat) :
    n ≤ decls.foldl (fun n d => n + declSizes d.clauses) n := by
  induction decls generalizing n with
  | nil => exact le_rfl
  | cons d rest ih => exact (Nat.le_add_right _ _).trans (ih _)

theorem two_le_clauseSize (u : Universe) : 2 ≤ u.clauseSize := le_foldl_declSizes _ 2

/-- A walk to super types may go on for more steps than there are classes. -/
theorem size_lt_walkLimit (u : Universe) (t : Ty) : u.size + 1 < u.walkLimit t :=
  calc
    u.size + 1 < 2 ^ (u.size + 1) := Nat.lt_two_pow_self
    _ ≤ u.clauseSize ^ (u.size + 1) := Nat.pow_le_pow_left (two_le_clauseSize u) _
    _ ≤ u.walkLimit t := Nat.le_mul_of_pos_left _ (Nat.succ_pos _)

section walk

variable {limit : Nat} {anchored : Bool} {t : Ty} {methods : List Method}

theorem declaredMethods_of_publicMethodsWithin
    (listed : publicMethodsWithin u skipBridges (limit + 1) anchored t = .ok methods) :
    ∃ own, t.declaredMethods u skipBridges = .ok own := by
  rw [publicMethodsWithin_succ] at listed
  obtain ⟨own, declared, -⟩ := Declarer.publicMethods_own listed
  obtain ⟨seen, declared, -⟩ := Declarer.declaredMethods_reanchored declared _
  exact ⟨seen, declared⟩

theorem supers_of_publicMethodsWithin
    (listed : publicMethodsWithin u skipBridges (limit + 1) anchored t = .ok methods)
    {clause : DeclType} (member : clause ∈ (u.decl t.methodDeclarer.classId).clauses) :
    ∃ r reached inherited, clause.resolve u = .ok r ∧
      publicMethodsWithin u skipBridges limit reached (t.methodDeclarer.sees u r) =
        .ok inherited := by
  rw [publicMethodsWithin_succ] at listed
  obtain ⟨r, inherited, resolved, found⟩ := Declarer.publicMethods_supers listed member
  exact ⟨r, _, inherited, resolved, found⟩

/-- Under the key of a public method it declares, a type lists one method, which it declares. -/
theorem Ty.publicMethods_own (listed : t.publicMethods u skipBridges = .ok methods) :
    ∃ own, t.declaredMethods u skipBridges = .ok own ∧
      ∀ m ∈ own, m.isPublic = true → ∃ x ∈ own,
        methods.filter (fun y => y.overrideKey == m.overrideKey) = [x] := by
  obtain ⟨limit, steps⟩ := Nat.exists_eq_add_of_lt (size_lt_walkLimit u t)
  rw [Ty.publicMethods, steps, publicMethodsWithin_succ, Bool.false_or] at listed
  exact Declarer.publicMethods_own listed

end walk

end JavaTypes
