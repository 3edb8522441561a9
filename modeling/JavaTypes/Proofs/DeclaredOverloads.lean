import JavaTypes.Proofs.Inheritance
import JavaTypes.Proofs.KeyTexts

/-!
Overloads a class declares. Behind each parameter type stands a core, a class or a variable, with
some number of brackets, and both decide what the type erases to. The key of a method shows the name
of each core: own type parameters by their position, everything else as it is called. A method is
therefore listed, if later ones of its name differ in an erasure, as long as different cores are
written differently.
-/
namespace JavaTypes

/-- What a parameter type is without its brackets and its arguments. -/
inductive Core where
  | ofClass (c : ClassId)
  | ofVar (v : VarRef)
  deriving DecidableEq

variable {u : Universe}

/-- The core of a type and the number of its dimensions. Wildcards have none, and array classes
take no arguments. -/
def Ty.core? (u : Universe) : Ty → Option (Core × Nat)
  | .ofClass c =>
    let (bottom, depth) := u.innermost c.index c
    some (.ofClass bottom, depth)
  | .applied c _ => if (u.decl c).component.isNone then some (.ofClass c, 0) else none
  | .variable (.free v) => some (.ofVar v, 0)
  | .variable (.bound _ t) => t.core? u
  | .wildcard _ _ => none
  | .array t => (t.core? u).map fun (e, n) => (e, n + 1)

def DeclType.core? (u : Universe) : DeclType → Option (Core × Nat)
  | .ofClass c =>
    let (bottom, depth) := u.innermost c.index c
    some (.ofClass bottom, depth)
  | .applied c _ => if (u.decl c).component.isNone then some (.ofClass c, 0) else none
  | .variable v => some (.ofVar v, 0)
  | .array t => (t.core? u).map fun (e, n) => (e, n + 1)
  | .wildcard _ _ | .other _ => none

namespace Core

/-- The class that a core erases to and the number of its dimensions. A variable erases to what its
leftmost declared bound erases to, also where that is the root class and other bounds follow. -/
inductive ErasesTo (u : Universe) : Core → ClassId → Nat → Prop where
  | ofClass (c : ClassId) : ErasesTo u (.ofClass c) c 0
  | unbounded {v : VarRef} {p : TypeParam} : u.typeParam? v = some p → p.bounds = [] →
      ErasesTo u (.ofVar v) Universe.object 0
  | bound {v : VarRef} {p : TypeParam} {first : DeclType} {rest : List DeclType} {e : Core}
      {c : ClassId} {k n : Nat} : u.typeParam? v = some p → p.bounds = first :: rest →
      first.core? u = some (e, n) → ErasesTo u e c k → ErasesTo u (.ofVar v) c (k + n)

def name (u : Universe) : Core → String
  | ofClass c => u.className {} c
  | ofVar v => u.varName v

/-- A core as a key writes it, given what owns the type parameters without a name. -/
def keyName (u : Universe) (owner : VarOwner) : Core → String
  | ofClass c => u.className {} c
  | ofVar v => nameOf u (ownNaming u owner) v

def isOwn (u : Universe) (owner : VarOwner) : Core → Bool
  | ofClass _ => false
  | ofVar v => v.owner = owner && (u.typeParam? v).isSome

end Core

section core

variable {t : Ty} {e : Core} {n : Nat}

theorem DeclType.core?_of_resolve {t : DeclType} {r : Ty} (resolved : t.resolve u = .ok r) :
    r.core? u = t.core? u := by
  refine resolve_induction ?ofClass ?applied ?free ?wildcard ?array t r resolved
  case ofClass | applied | free | wildcard => intros; rfl
  case array =>
    intro t r _ same
    rw [Ty.core?, same, DeclType.core?]

theorem Core.ErasesTo.unique {e : Core} {c c' : ClassId} {k k' : Nat} (erases : e.ErasesTo u c k)
    (erases' : e.ErasesTo u c' k') : c' = c ∧ k' = k := by
  induction erases generalizing c' k' with
  | ofClass =>
    cases erases'
    exact ⟨rfl, rfl⟩
  | unbounded declared none =>
    cases erases' with
    | unbounded => exact ⟨rfl, rfl⟩
    | bound declared' listed =>
      cases declared.symm.trans declared'
      cases none.symm.trans listed
  | bound declared listed found _ ih =>
    cases erases' with
    | unbounded declared' none =>
      cases declared.symm.trans declared'
      cases none.symm.trans listed
    | bound declared' listed' found' inner =>
      cases declared.symm.trans declared'
      cases listed.symm.trans listed'
      cases found.symm.trans found'
      obtain ⟨rfl, rfl⟩ := ih inner
      exact ⟨rfl, rfl⟩

/-- A key writes the name of the core, arguments if there are any, and the brackets. -/
theorem Ty.bareText_of_core? (found : t.core? u = some (e, n)) (owner : VarOwner) :
    ∃ texts, t.bareText u (ownNaming u owner) = e.keyName u owner ++ angled texts ++ brackets n := by
  induction t using Ty.inductionOn generalizing n with
  | ofClass c =>
    cases found
    exact ⟨_, rfl⟩
  | free v =>
    cases found
    exact ⟨[], by simp [bareText, Core.keyName, angled, brackets]⟩
  | bound v t ih => exact ih found
  | wildcard => cases found
  | applied c vars =>
    unfold core? at found
    split at found
    · cases found
      refine ⟨vars.map fun b => b.shown.bareText u (ownNaming u owner), ?_⟩
      have flat : brackets 0 = "" := rfl
      rw [flat, String.append_empty]
      exact textWith_applied c vars
    · cases found
  | array t ih =>
    obtain ⟨⟨e', k⟩, inner, same⟩ := Option.map_eq_some_iff.1 found
    cases same
    obtain ⟨texts, below⟩ := ih inner
    refine ⟨texts, ?_⟩
    have more : brackets (k + 1) = brackets k ++ "[]" := by
      rw [← String.toList_inj, String.toList_append, toList_brackets, toList_brackets,
        bracketPairs_succ]
      rfl
    rw [bareText, textWith_array, more, ← String.append_assoc, ← below]
    rfl

end core

/-- A public method of a name that a type declares and its listing keeps, with its number. -/
structure Declarer.Overload (u : Universe) (skipBridges : Bool) (d : Declarer) (name : String)
    (index : Nat) (m : Method) : Prop where
  declares : d.Declares u index m
  isPublic : m.isPublic = true
  kept : (skipBridges && m.decl.bridge) = false
  name_eq : m.name = name

/-- Cores of the parameter types of overloads, without the type parameters a method has itself. -/
def Declarer.namedCores (u : Universe) (skipBridges : Bool) (d : Declarer) (name : String) :
    Set Core :=
  {e | ∃ i m, d.Overload u skipBridges name i m ∧ e.isOwn u (.method d.classId i) = false ∧
    ∃ t ∈ m.paramTypes, ∃ n, t.core? u = some (e, n)}

/-- No two things that parameter types of overloads are made of are written the same. -/
structure Declarer.Readable (u : Universe) (skipBridges : Bool) (d : Declarer) (name : String) :
    Prop where
  cores : ∀ i m, d.Overload u skipBridges name i m → ∀ t ∈ m.paramTypes, (t.core? u).isSome
  names : ∀ e ∈ d.namedCores u skipBridges name,
    e.name u ≠ "" ∧ Unbroken ['<', '[', '#'] (e.name u).toList
  distinct : Set.InjOn (Core.name u) (d.namedCores u skipBridges name)

def MethodDecl.cores (u : Universe) (decl : MethodDecl) : List (Option (Core × Nat)) :=
  decl.params.map fun p => p.type.core? u

/-- The class that a type erases to and the number of its dimensions, brackets included. -/
def Ty.Erases (u : Universe) (t : Ty) (c : ClassId) (dimensions : Nat) : Prop :=
  ∃ e n k, t.core? u = some (e, n) ∧ e.ErasesTo u c k ∧ dimensions = k + n

/-- Both types are the type parameter with one number of the methods they belong to, with equally many
brackets. -/
def Ty.SameOwn (u : Universe) (owner owner' : VarOwner) (t t' : Ty) : Prop :=
  ∃ k n, t.core? u = some (.ofVar ⟨owner, k⟩, n) ∧ t'.core? u = some (.ofVar ⟨owner', k⟩, n)

/-- Two methods with different numbers of parameters, or with different erasures of two parameters
that are not type parameters of theirs with one number. -/
def Declarer.Differ (u : Universe) (d : Declarer) (i j : Nat) (m m' : Method) : Prop :=
  m.paramTypes.length ≠ m'.paramTypes.length ∨
    ∃ (k : Nat) (t t' : Ty), m.paramTypes[k]? = some t ∧ m'.paramTypes[k]? = some t' ∧
      (∃ c c' n n', t.Erases u c n ∧ t'.Erases u c' n' ∧ (c, n) ≠ (c', n')) ∧
      ¬ Ty.SameOwn u (.method d.classId i) (.method d.classId j) t t'

/-- Types with one core and equally many brackets have one erasure. -/
theorem Ty.Erases.eq_of_core?_eq {t t' : Ty} {c c' : ClassId} {n n' : Nat} (erases : t.Erases u c n)
    (same : t.core? u = t'.core? u) (erases' : t'.Erases u c' n') : (c, n) = (c', n') := by
  obtain ⟨e, brackets, k, core, inner, rfl⟩ := erases
  obtain ⟨e', brackets', k', core', inner', rfl⟩ := erases'
  cases (core.symm.trans same).trans core'
  obtain ⟨rfl, rfl⟩ := inner.unique inner'
  rfl

theorem Declarer.Declares.overrideKey_eq {d : Declarer} {i : Nat} {m : Method}
    (declares : d.Declares u i m) : m.overrideKey = m.name ++ Executable.inParentheses
      (m.paramTypes.map (Ty.bareText u (ownNaming u (.method d.classId i)))) := by
  obtain ⟨-, -, decl, -, found, -⟩ := id declares
  have reflects := declares.reflects found
  rw [reflects.overrideKey_eq, Method.name, reflects.decl_eq]

section keys

variable {d : Declarer} {skipBridges : Bool} {name : String} {i j : Nat} {m m' : Method}

theorem Universe.Lettered.name_eq_of_key_eq (lettered : u.Lettered) (declares : d.Declares u i m)
    (declares' : d.Declares u j m') (same : m.overrideKey = m'.overrideKey) :
    m.name = m'.name ∧
      Executable.inParentheses
          (m.paramTypes.map (Ty.bareText u (ownNaming u (.method d.classId i)))) =
        Executable.inParentheses
          (m'.paramTypes.map (Ty.bareText u (ownNaming u (.method d.classId j)))) := by
  rw [declares.overrideKey_eq, declares'.overrideKey_eq] at same
  exact append_inParentheses_inj (lettered.bareTexts _ _) (lettered.bareTexts _ _) same

variable (ids : Set.InjOn u.varKey u.declaredVars)

include ids

theorem Core.keyName_own {owner : VarOwner} {e : Core} (own : e.isOwn u owner = true) :
    ∃ k, e = .ofVar ⟨owner, k⟩ ∧ e.keyName u owner = "#" ++ toString k := by
  cases e with
  | ofClass c => cases own
  | ofVar v =>
    obtain ⟨same, declared⟩ := Bool.and_eq_true_iff.1 own
    obtain rfl : v.owner = owner := of_decide_eq_true same
    exact ⟨v.index, rfl, nameOf_own ids declared⟩

theorem Core.keyName_other {owner : VarOwner} {e : Core} (other : e.isOwn u owner = false)
    (named : e.name u ≠ "") : e.keyName u owner = e.name u := by
  cases e with
  | ofClass c => rfl
  | ofVar v =>
    have declared : v ∈ u.declaredVars := by
      by_contra unknown
      have none : u.typeParam? v = none := by simpa [Universe.declaredVars] using unknown
      exact named (by simp [name, Universe.varName, none])
    refine nameOf_other ids declared fun same => ?_
    have own : (Core.ofVar v).isOwn u owner = true :=
      Bool.and_eq_true_iff.2 ⟨decide_eq_true same, declared⟩
    exact Bool.false_ne_true (other.symm.trans own)

variable (readable : d.Readable u skipBridges name)

include readable

/-- The core of a parameter type is either an own type parameter, written by position, or one of those
that are written by name. -/
theorem Declarer.Readable.keyName_cases (overload : d.Overload u skipBridges name i m) {t : Ty}
    (inside : t ∈ m.paramTypes) {e : Core} {n : Nat} (found : t.core? u = some (e, n)) :
    (∃ k, e = .ofVar ⟨.method d.classId i, k⟩ ∧
        e.keyName u (.method d.classId i) = "#" ++ toString k) ∨
      e ∈ d.namedCores u skipBridges name ∧ e.keyName u (.method d.classId i) = e.name u := by
  cases own : e.isOwn u (.method d.classId i) with
  | true => exact .inl (Core.keyName_own ids own)
  | false =>
    have member : e ∈ d.namedCores u skipBridges name := ⟨i, m, overload, own, t, inside, n, found⟩
    exact .inr ⟨member, Core.keyName_other ids own (readable.names e member).1⟩

theorem Declarer.Readable.keyName (overload : d.Overload u skipBridges name i m) {t : Ty}
    (inside : t ∈ m.paramTypes) {e : Core} {n : Nat} (found : t.core? u = some (e, n)) :
    e.keyName u (.method d.classId i) ≠ "" ∧
      Unbroken ['<', '['] (e.keyName u (.method d.classId i)).toList := by
  rcases readable.keyName_cases ids overload inside found with ⟨k, -, shown⟩ | ⟨member, shown⟩
  · rw [shown]
    have mark : Unbroken ['<', '['] "#".toList := by decide
    have digits := unbroken_toString ['<', '['] k (by decide)
    refine ⟨fun empty => ?_, ?_⟩
    · have letters := congrArg String.toList empty
      simp at letters
    · rw [String.toList_append]
      exact List.forall_mem_append.2 ⟨mark, digits⟩
  · rw [shown]
    obtain ⟨written, unbroken⟩ := readable.names e member
    refine ⟨written, fun c occurs separator => unbroken c occurs ?_⟩
    simp only [List.mem_cons, List.not_mem_nil, or_false] at separator ⊢
    rcases separator with rfl | rfl
    · exact .inl rfl
    · exact .inr (.inl rfl)

/-- Parameter types that are written the same have one core, or they are type parameters of their
methods with one number. -/
theorem Declarer.Readable.core_eq_of_text_eq (overload : d.Overload u skipBridges name i m)
    (overload' : d.Overload u skipBridges name j m') {t t' : Ty} (inside : t ∈ m.paramTypes)
    (inside' : t' ∈ m'.paramTypes)
    (same : t.bareText u (ownNaming u (.method d.classId i)) =
      t'.bareText u (ownNaming u (.method d.classId j))) :
    t.core? u = t'.core? u ∨
      Ty.SameOwn u (.method d.classId i) (.method d.classId j) t t' := by
  obtain ⟨⟨e, n⟩, found⟩ := Option.isSome_iff_exists.1 (readable.cores i m overload t inside)
  obtain ⟨⟨e', n'⟩, found'⟩ := Option.isSome_iff_exists.1 (readable.cores j m' overload' t' inside')
  obtain ⟨texts, written⟩ := Ty.bareText_of_core? found (.method d.classId i)
  obtain ⟨texts', written'⟩ := Ty.bareText_of_core? found' (.method d.classId j)
  rw [written, written'] at same
  obtain ⟨names, rfl⟩ := name_brackets_inj (readable.keyName ids overload inside found).2
    (readable.keyName ids overload' inside' found').2 same
  -- A name by position opens with a mark that no other name has.
  have apart {k : Nat} {e : Core} (member : e ∈ d.namedCores u skipBridges name)
      (same : "#" ++ toString k = e.name u) : False := by
    refine (readable.names e member).2 '#' ?_ (by decide)
    rw [← same, String.toList_append]
    exact List.mem_cons_self
  have first := readable.keyName_cases ids overload inside found
  have second := readable.keyName_cases ids overload' inside' found'
  rcases first with ⟨k, rfl, shown⟩ | ⟨member, shown⟩
  · rcases second with ⟨k', rfl, shown'⟩ | ⟨member', shown'⟩
    · rw [shown, shown'] at names
      have numbers : k = k' := toString_inj ((String.append_right_inj "#").1 names)
      subst numbers
      exact .inr ⟨k, n, found, found'⟩
    · rw [shown, shown'] at names
      exact (apart member' names).elim
  · rcases second with ⟨k', rfl, shown'⟩ | ⟨member', shown'⟩
    · rw [shown, shown'] at names
      exact (apart member names.symm).elim
    · rw [shown, shown'] at names
      have cores : e = e' := readable.distinct member member' names
      subst cores
      exact .inl (found.trans found'.symm)

theorem Declarer.Readable.key_ne (lettered : u.Lettered)
    (overload : d.Overload u skipBridges name i m) (overload' : d.Overload u skipBridges name j m')
    (differ : d.Differ u i j m m') : m.overrideKey ≠ m'.overrideKey := by
  intro same
  obtain ⟨-, lists⟩ := lettered.name_eq_of_key_eq overload.declares overload'.declares same
  have written {k : Nat} {x : Method} (overload : d.Overload u skipBridges name k x) :
      "" ∉ x.paramTypes.map (Ty.bareText u (ownNaming u (.method d.classId k))) := by
    intro member
    obtain ⟨t, inside, empty⟩ := List.mem_map.1 member
    obtain ⟨⟨e, n⟩, found⟩ := Option.isSome_iff_exists.1 (readable.cores k x overload t inside)
    obtain ⟨texts, shown⟩ := Ty.bareText_of_core? found (.method d.classId k)
    rw [shown, String.append_assoc] at empty
    exact (readable.keyName ids overload inside found).1 (String.append_eq_empty_iff.1 empty).1
  have texts := inParentheses_inj (lettered.bareTexts _ _) (lettered.bareTexts _ _)
    (written overload) (written overload') lists
  rcases differ with count | ⟨k, t, t', here, here', ⟨c, c', n, n', erases, erases', apart⟩, other⟩
  · have lengths := congrArg List.length texts
    rw [List.length_map, List.length_map] at lengths
    exact count lengths
  · have position := congrArg (fun list => list[k]?) texts
    simp only [List.getElem?_map, here, here', Option.map_some, Option.some.injEq] at position
    rcases readable.core_eq_of_text_eq ids overload overload' (List.mem_of_getElem? here)
      (List.mem_of_getElem? here') position with equal | own
    · exact apart (erases.eq_of_core?_eq equal erases')
    · exact other own

end keys

section written

variable {c : ClassId} {skipBridges : Bool} {name : String}

/-- On a class without arguments the cores are those that are written. -/
theorem Declarer.Declares.cores_eq {i : Nat} {m : Method} {decl : MethodDecl}
    (declares : (Declarer.ofClass c).Declares u i m) (found : (u.decl c).methods[i]? = some decl) :
    m.paramTypes.map (Ty.core? u) = decl.cores u := by
  have each : List.Forall₂ (· = ·) (decl.cores u) (m.paramTypes.map (Ty.core? u)) := by
    rw [MethodDecl.cores, List.forall₂_map_left_iff, List.forall₂_map_right_iff]
    refine (declares.reflects found).params.imp fun p t seen => ?_
    obtain ⟨r, resolved, rfl⟩ := seen
    rw [resolveInScope_varsAt_ofClass resolved, DeclType.core?_of_resolve resolved]
  rw [List.forall₂_eq_eq_eq] at each
  exact each.symm

theorem Declarer.differ_of_cores {d : Declarer} {i j k : Nat} {m m' : Method} {e e' : Core} {n n' : Nat}
    (here : (m.paramTypes.map (Ty.core? u))[k]? = some (some (e, n)))
    (here' : (m'.paramTypes.map (Ty.core? u))[k]? = some (some (e', n')))
    {c c' : ClassId} {l l' : Nat} (erases : e.ErasesTo u c l) (erases' : e'.ErasesTo u c' l')
    (apart : (c, l + n) ≠ (c', l' + n'))
    (other : ∀ v, e' = .ofVar v → v.owner ≠ .method d.classId j) : d.Differ u i j m m' := by
  rw [List.getElem?_map] at here here'
  obtain ⟨t, at_, core⟩ := Option.map_eq_some_iff.1 here
  obtain ⟨t', at', core'⟩ := Option.map_eq_some_iff.1 here'
  refine .inr ⟨k, t, t', at_, at', ⟨c, c', l + n, l' + n', ?_, ?_, apart⟩, ?_⟩
  · exact ⟨e, n, l, core, erases, rfl⟩
  · exact ⟨e', n', l', core', erases', rfl⟩
  · rintro ⟨index, _, -, own⟩
    cases core'.symm.trans own
    exact other _ rfl rfl

/-- Whether the overloads of a class can be read can be checked declaration by declaration. -/
theorem Declarer.readable_of_cores (cores : List Core)
    (covered : ∀ i < (u.decl c).methods.length, ∀ decl ∈ (u.decl c).methods[i]?,
      ∀ o ∈ decl.cores u, o.any (fun p => p.1.isOwn u (.method c i) || p.1 ∈ cores))
    (names : ∀ e ∈ cores, e.name u ≠ "" ∧ Unbroken ['<', '[', '#'] (e.name u).toList)
    (distinct : (cores.map (Core.name u)).Nodup) :
    (Declarer.ofClass c).Readable u skipBridges name := by
  have each {i : Nat} {m : Method} (overload : (Declarer.ofClass c).Overload u skipBridges name i m)
      {t : Ty} (inside : t ∈ m.paramTypes) :
      ∃ e n, t.core? u = some (e, n) ∧ (e.isOwn u (.method c i) = true ∨ e ∈ cores) := by
    obtain ⟨-, -, decl, -, found, -⟩ := id overload.declares
    have member : t.core? u ∈ decl.cores u := by
      rw [← overload.declares.cores_eq found]
      exact List.mem_map_of_mem inside
    have bound : i < (u.decl c).methods.length := (List.getElem?_eq_some_iff.1 found).1
    have shown := covered i bound decl found _ member
    cases found : t.core? u with
    | none =>
      rw [found] at shown
      cases shown
    | some p =>
      obtain ⟨e, n⟩ := p
      rw [found, Option.any_some, Bool.or_eq_true, decide_eq_true_iff] at shown
      exact ⟨e, n, rfl, shown⟩
  have covers : (Declarer.ofClass c).namedCores u skipBridges name ⊆ {e | e ∈ cores} := by
    rintro e ⟨i, m, overload, other, t, inside, n, found⟩
    obtain ⟨e', n', found', fits⟩ := each overload inside
    cases found.symm.trans found'
    exact fits.resolve_left fun own => Bool.false_ne_true (other.symm.trans own)
  refine ⟨?_, ?_, ?_⟩
  · intro i m overload t inside
    obtain ⟨e, n, found, -⟩ := each overload inside
    exact Option.isSome_iff_exists.2 ⟨(e, n), found⟩
  · exact fun e member => names e (covers member)
  · intro e member e' member' same
    exact List.inj_on_of_nodup_map distinct (covers member) (covers member') same

end written

section listing

variable {d : Declarer} {skipBridges : Bool} {i : Nat} {m : Method}

/-- An overload stands in the list of declared methods before those declared after it. -/
theorem Declarer.declaredMethods_split {anchored : Bool} {own : List Method}
    (listed : d.declaredMethods u skipBridges anchored = .ok own)
    {name : String} (overload : d.Overload u skipBridges name i m) :
    ∃ before x after, own = before ++ x :: after ∧ d.Declares u i x ∧
      ∀ y ∈ after, ∃ j, i < j ∧ d.Declares u j y ∧ (skipBridges && y.decl.bridge) = false := by
  obtain ⟨scope, inScope, listed⟩ := bind_eq_ok.1 listed
  obtain ⟨-, -, decl, -, written, -⟩ := id overload.declares
  have own := (overload.declares.reflects written).decl_eq
  have decls : (scope.classDecl u).methods = (u.decl d.classId).methods := by
    rw [Scope.classDecl, Scope.classId, declaring_of_scope inScope]
  rw [decls] at listed
  obtain ⟨before, x, after, split, made, beyond⟩ :=
    methodsFrom_split listed written (own ▸ overload.kept)
  rw [Nat.zero_add] at made
  refine ⟨before, x, after, split, ⟨anchored, scope, decl, inScope, written, made⟩, ?_⟩
  intro y member
  obtain ⟨j, later, less, found, kept, makes⟩ := beyond y member
  rw [Nat.zero_add] at makes
  have declares : d.Declares u j y := ⟨anchored, scope, later, inScope, found, makes⟩
  exact ⟨j, less, declares, (declares.reflects found).decl_eq ▸ kept⟩

theorem Keyed.findRev?_append_cons {α : Type} {p : α → Bool} {x : α} (fits : p x = true)
    {after : List α} (last : ∀ y ∈ after, p y = false) (before : List α) :
    (before ++ x :: after).findRev? p = some x := by
  have none : after.reverse.find? p = none := by
    rw [List.find?_eq_none]
    intro y member
    rw [last y (List.mem_reverse.1 member)]
    exact Bool.false_ne_true
  rw [List.findRev?_eq_find?_reverse, List.reverse_append, List.reverse_cons, List.append_assoc,
    List.find?_append, none, Option.none_or, List.singleton_append, List.find?_cons_of_pos fits]

end listing

/-- A declared overload is listed, if those after it differ from it. -/
theorem Declarer.Readable.mem_publicMethods (lettered : u.Lettered)
    (ids : Set.InjOn u.varKey u.declaredVars) {d : Declarer} {skipBridges : Bool} {name : String}
    {i : Nat} {m : Method} (overload : d.Overload u skipBridges name i m)
    (readable : d.Readable u skipBridges name)
    (differ : ∀ j m', i < j → d.Overload u skipBridges name j m' → d.Differ u i j m m')
    {methods : List Method} (listed : d.toTy.publicMethods u skipBridges = .ok methods) :
    ∃ x ∈ methods, d.Declares u i x ∧ x.unanchored = m.unanchored := by
  obtain ⟨limit, steps⟩ := Nat.exists_eq_add_of_lt (size_lt_walkLimit u d.toTy)
  rw [Ty.publicMethods, steps, publicMethodsWithin_succ, methodDeclarer_toTy] at listed
  obtain ⟨own, fromSuper, fromInterfaces, collects, rfl⟩ := publicMethods_eq_ok.1 listed
  obtain ⟨before, x, after, rfl, declares, beyond⟩ :=
    declaredMethods_split collects.declared overload
  have same : x.unanchored = m.unanchored := overload.declares.unanchored_eq declares
  have key : x.overrideKey = m.overrideKey := by
    change x.unanchored.overrideKey = m.unanchored.overrideKey
    rw [same]
  have shown : x.isPublic = true := by
    change x.unanchored.isPublic = true
    rw [same]
    exact overload.isPublic
  -- Nothing that is declared later takes the place of the method.
  have last : ∀ y ∈ after, (y.isPublic && y.overrideKey == m.overrideKey) = false := by
    intro y member
    obtain ⟨j, less, later, kept⟩ := beyond y member
    by_contra replaces
    obtain ⟨isPublic, sameKey⟩ := Bool.and_eq_true_iff.1 (Bool.not_eq_false _ ▸ replaces)
    have sameKey : m.overrideKey = y.overrideKey := (beq_iff_eq.1 sameKey).symm
    obtain ⟨named, -⟩ := lettered.name_eq_of_key_eq overload.declares later sameKey
    have overload' : d.Overload u skipBridges name j y :=
      ⟨later, isPublic, kept, named.symm.trans overload.name_eq⟩
    exact readable.key_ne ids lettered overload overload' (differ j y less overload') sameKey
  have fits : (x.isPublic && x.overrideKey == m.overrideKey) = true := by
    rw [shown, key, Bool.true_and, beq_self_eq_true]
  have found := Keyed.findRev?_append_cons
    (p := fun y => y.isPublic && y.overrideKey == m.overrideKey) fits last before
  have entry := find?_publicListing (before ++ x :: after) fromSuper fromInterfaces m.overrideKey
  rw [found, Option.some_or] at entry
  exact ⟨x, List.mem_of_find?_eq_some entry, declares, same⟩

namespace Sinks

open Modifiers (Flag)

def cmp : ClassId := ⟨10⟩
def sink : ClassId := ⟨11⟩

def put (edits : List ExecutableEdit) : ClassEdit :=
  .method "put" Flag.isPublic.set (edits.map .executable)

def taking (t : DeclType) : ExecutableEdit := .param { name := "element", type := t }

/-- `Sink<T>` declares `<U extends Object & Cmp<U>> put(U)`, `put(Cmp<Object>)`, `put(T[])`, `put(int)`
and `put(int, T)`. -/
def classes : Universe :=
  let varT : DeclType := .variable ⟨.ofClass sink, 0⟩
  let varU : DeclType := .variable ⟨.method sink 0, 0⟩
  let root : DeclType := .ofClass Universe.object
  let int : DeclType := .ofClass ⟨5⟩
  ((Universe.initial.defineClass "Cmp" [.kind .interface, .typeParam "X" []]).2.defineClass "Sink"
    [.typeParam "T" [], put [.typeParam "U" [root, .applied cmp [varU]], taking varU],
      put [taking (.applied cmp [root])], put [taking (.array varT)], put [taking int],
      put [taking int, taking varT]]).2

theorem lettered : classes.Lettered where
  classes := by decide
  params := by
    have checked : ∀ v ∈ classes.allVars, Unbroken nameBreaks (classes.varName v).toList := by
      decide
    exact fun v declared => checked v (mem_allVars declared)

def varT : Core := .ofVar ⟨.ofClass sink, 0⟩
def varU : Core := .ofVar ⟨.method sink 0, 0⟩
def int : Core := .ofClass ⟨5⟩

def cores : List (List (Option (Core × Nat))) :=
  [[some (varU, 0)], [some (.ofClass cmp, 0)], [some (varT, 1)], [some (int, 0)],
    [some (int, 0), some (varT, 0)]]

theorem cores_sink : (classes.decl sink).methods.map (MethodDecl.cores classes) = cores := by
  decide

section overload

variable {skipBridges : Bool} {name : String} {i : Nat} {m : Method}
  (overload : (Declarer.ofClass sink).Overload classes skipBridges name i m)

include overload

theorem cores_overload : cores[i]? = some (m.paramTypes.map (Ty.core? classes)) := by
  obtain ⟨-, -, decl, -, found, -⟩ := id overload.declares
  rw [← cores_sink, List.getElem?_map, show (classes.decl sink).methods[i]? = some decl from found,
    overload.declares.cores_eq found]
  rfl

theorem core_overload {k : Nat} {core : Option (Core × Nat)}
    (written : (cores[i]?.bind fun row => row[k]?) = some core) :
    (m.paramTypes.map (Ty.core? classes))[k]? = some core := by
  rwa [cores_overload overload, Option.bind_some] at written

theorem arity_overload : cores[i]?.map List.length = some m.paramTypes.length := by
  rw [cores_overload overload, Option.map_some, List.length_map]

end overload

theorem readable : (Declarer.ofClass sink).Readable classes true "put" :=
  Declarer.readable_of_cores [.ofClass cmp, varT, int] (by decide) (by decide) (by decide)

/-- The first of five overloads is listed: its parameter erases to the root class, which is the leftmost
bound of `U`. -/
theorem publicMethods_sink : ∃ m methods,
    (Declarer.ofClass sink).Overload classes true "put" 0 m ∧
      m.signature = "<U extends Cmp<U>> void put(U)" ∧
      (∀ j m', 0 < j → (Declarer.ofClass sink).Overload classes true "put" j m' →
        (Declarer.ofClass sink).Differ classes 0 j m m') ∧
      (Ty.ofClass sink).publicMethods classes true = .ok methods ∧
      ∃ x ∈ methods, (Declarer.ofClass sink).Declares classes 0 x ∧ x.unanchored = m.unanchored := by
  have first : ((Declarer.ofClass sink).methodAt? classes 0).map
      (fun m => (m.name, m.signature, m.isPublic, m.decl.bridge)) =
        some ("put", "<U extends Cmp<U>> void put(U)", true, false) := by decide +kernel
  have found : ((Ty.ofClass sink).publicMethods classes true).toOption.isSome := by decide +kernel
  obtain ⟨m, made, texts⟩ := Option.map_eq_some_iff.1 first
  obtain ⟨methods, listed⟩ := Option.isSome_iff_exists.1 found
  rw [toOption_eq_some] at listed
  simp only [Prod.mk.injEq] at texts
  obtain ⟨name, signature, isPublic, bridge⟩ := texts
  have overload : (Declarer.ofClass sink).Overload classes true "put" 0 m :=
    ⟨Declarer.declares_of_methodAt? made, isPublic, by rw [bridge]; rfl, name⟩
  have ids : Set.InjOn classes.varKey classes.declaredVars := injOn_varKey (by decide)
  have differ : ∀ j m', 0 < j → (Declarer.ofClass sink).Overload classes true "put" j m' →
      (Declarer.ofClass sink).Differ classes 0 j m m' := by
    intro j m' less overload'
    have here : (m.paramTypes.map (Ty.core? classes))[0]? = some (some (varU, 0)) :=
      core_overload overload rfl
    have erases : varU.ErasesTo classes Universe.object 0 :=
      .bound (k := 0) (n := 0) rfl rfl rfl (.ofClass Universe.object)
    match j, less with
    | 1, _ =>
      have here' := core_overload overload' (k := 0) rfl
      exact Declarer.differ_of_cores here here' erases (.ofClass cmp) (by decide) nofun
    | 2, _ =>
      have here' := core_overload overload' (k := 0) rfl
      have erases' : varT.ErasesTo classes Universe.object 0 := .unbounded rfl rfl
      refine Declarer.differ_of_cores here here' erases erases' (by decide) ?_
      rintro v ⟨⟩
      nofun
    | 3, _ =>
      have here' := core_overload overload' (k := 0) rfl
      exact Declarer.differ_of_cores here here' erases (.ofClass ⟨5⟩) (by decide) nofun
    | 4, _ =>
      refine .inl fun count => ?_
      have same : some 1 = some 2 :=
        (arity_overload overload).trans (count ▸ (arity_overload overload').symm)
      cases same
    | j + 5, _ => cases cores_overload overload'
  refine ⟨m, methods, overload, signature, differ, listed, ?_⟩
  exact Declarer.Readable.mem_publicMethods lettered ids overload readable differ listed

end Sinks

namespace Lookalikes

open Modifiers (Flag)
open Sinks (put taking)

def a : DeclType := .ofClass ⟨10⟩
def b : DeclType := .ofClass ⟨11⟩
def dollar : DeclType := .ofClass ⟨12⟩
def dots : DeclType := .ofClass ⟨13⟩
def named : DeclType := .ofClass ⟨14⟩
def comma : DeclType := .ofClass ⟨15⟩

def bounded : ClassId := ⟨16⟩
def bridged : ClassId := ⟨17⟩
def nested : ClassId := ⟨18⟩
def generic : ClassId := ⟨19⟩
def wild : ClassId := ⟨20⟩
def listing : ClassId := ⟨21⟩
def twins : ClassId := ⟨22⟩

/-- Classes of two methods of one name that erase differently and have one key: bounds of own type
parameters and return types are no part of it, nested classes are written with dots, and neither
classes and variables, nor bounds of a wildcard and bounds of its bounds, nor a comma in a name and
one between parameters are told apart; of two own type parameters of one name the later one counts. -/
def classes : Universe :=
  let u := ["A", "B", "p.A$B", "p.A.B", "T", "A, B"].foldl (fun u name => (u.declare name).2)
    Universe.initial
  let own (method index : Nat) (c : ClassId) : ExecutableEdit :=
    taking (.variable ⟨.method c method, index⟩)
  let u := (u.defineClass "Bounded" [put [.typeParam "T" [a], own 0 0 bounded],
    put [.typeParam "T" [b], own 1 0 bounded]]).2
  let u := (u.defineClass "Bridged" [.method "get" Flag.isPublic.set [.returns a],
    .method "get" Flag.isPublic.set [.returns b, .bridge]]).2
  let u := (u.defineClass "Nested" [put [taking dollar], put [taking dots]]).2
  let u := (u.defineClass "Generic" [.typeParam "T" [],
    put [taking (.variable ⟨.ofClass generic, 0⟩)], put [taking named]]).2
  let u := (u.defineClass "Wild" [put [taking (.wildcard [] [.wildcard [a] []])],
    put [taking (.wildcard [a] [.wildcard [] []])]]).2
  let u := (u.defineClass "Listing" [put [taking comma], put [taking a, taking b]]).2
  (u.defineClass "Twins" [put [.typeParam "T" [a], .typeParam "T" [b], own 0 0 twins],
    put [.typeParam "T" [a], .typeParam "T" [b], own 1 1 twins]]).2

def signatures (skipBridges : Bool) (c : ClassId) : Option (List String × List String) := do
  let own ← ((Ty.ofClass c).declaredMethods classes skipBridges).toOption
  let listed ← ((Ty.ofClass c).publicMethods classes skipBridges).toOption
  return (own.map Method.signature, listed.map Method.signature)

/-- The erasures of the parameter types of declared methods. No bound is the root class, so these are
the erasures by leftmost bounds. -/
def erasures (c : ClassId) : Option (List (List (Option ClassId))) := do
  let own ← ((Ty.ofClass c).declaredMethods classes true).toOption
  return own.map fun m => m.paramTypes.map fun t => (t.erasure classes).toOption.join

/-- Erasures differ, or the later method is a bridge, and the listing has one method for two. -/
theorem signatures_lookalikes :
    erasures bounded = some [[some ⟨10⟩], [some ⟨11⟩]] ∧
      signatures true bounded = some (["<T extends A> void put(T)", "<T extends B> void put(T)"],
        ["<T extends B> void put(T)"]) ∧
      (classes.decl bridged).methods.map (·.bridge) = [false, true] ∧
      signatures false bridged = some (["A get()", "B get()"], ["B get()"]) ∧
      erasures nested = some [[some ⟨12⟩], [some ⟨13⟩]] ∧
      signatures true nested = some (["void put(p.A.B)", "void put(p.A.B)"], ["void put(p.A.B)"]) ∧
      erasures generic = some [[some Universe.object], [some ⟨14⟩]] ∧
      signatures true generic = some (["void put(T)", "void put(T)"], ["void put(T)"]) ∧
      erasures wild = some [[some Universe.object], [some ⟨10⟩]] ∧
      signatures true wild = some (["void put(? super ? extends A)", "void put(? super ? extends A)"],
        ["void put(? super ? extends A)"]) ∧
      erasures listing = some [[some ⟨15⟩], [some ⟨10⟩, some ⟨11⟩]] ∧
      signatures true listing = some (["void put(A, B)", "void put(A, B)"], ["void put(A, B)"]) ∧
      erasures twins = some [[some ⟨10⟩], [some ⟨11⟩]] ∧
      signatures true twins = some (["<T extends A, T> void put(T)", "<T extends A, T> void put(T)"],
        ["<T extends A, T> void put(T)"]) := by
  refine ⟨?_, ?_, ?_, ?_, ?_, ?_, ?_, ?_, ?_, ?_, ?_, ?_, ?_, ?_⟩
  all_goals decide +kernel

end Lookalikes

end JavaTypes
