import JavaTypes.Proofs.MethodListing
import JavaTypes.Proofs.Preservation

/-!
Own type parameters of generic methods on applied classes. They stay free there and have ids of
their own beside the parameters of the class, but nothing is renamed: an argument that has the own
parameter of a method in it puts that very parameter where the method mentions the class parameter.
-/
namespace JavaTypes

variable {u : Universe}

/-- The argument for the first class parameter with the id of a variable. -/
def argumentFor? (u : Universe) (c : ClassId) (args : List Ty) (v : VarRef) : Option Ty :=
  (((u.classVariables c).zip args).find? fun b => b.1.key u == u.varKey v).map Prod.snd

def Ty.SameVariable (u : Universe) (s t : Ty) : Prop :=
  ∃ b b', s = .variable b ∧ t = .variable b' ∧ b.key u = b'.key u

theorem varKey_method_ne {c : ClassId} {j : Nat} {v w : VarRef} (own : v.owner = .method c j)
    (other : w.owner = .ofClass c) : u.varKey v ≠ u.varKey w := by
  intro same
  have texts := congrArg String.toList same
  simp only [Universe.varKey, Universe.ownerKey, own, other, VarOwner.classId, String.toList_append,
    List.append_assoc] at texts
  simp at texts

section arguments

variable (c : ClassId) (args : List Ty)

theorem valueFor?_bindVars (v : VarRef) : valueFor? u (u.bindVars (.ofClass c) args) v =
    (((u.classVariables c).zip args).find? fun b => b.1.key u == u.varKey v).bind
      fun b => (b.1.bindTo u b.2).value? := by
  have entries : u.bindVars (.ofClass c) args =
      ((u.classVariables c).zip args).map fun b => b.1.bindTo u b.2 := by
    rw [Universe.bindVars, List.zip_eq_zipWith, List.map_zipWith]
    rfl
  rw [valueFor?, entries, List.find?_map, Option.bind_map]
  congr 2
  funext b
  exact congrArg (· == u.varKey v) (TyVar.key_bindTo b.1 b.2)

/-- What stands for a variable on an applied class: the argument for it, or else the variable. An
argument that is the variable already is not put in. -/
theorem valueOrSelf_arguments (v : VarRef) :
    argumentFor? u c args v = none ∧
        valueOrSelf u (u.bindVars (.ofClass c) args) v = .variable (.free v) ∨
      ∃ w a, w.owner = .ofClass c ∧ u.varKey w = u.varKey v ∧ argumentFor? u c args v = some a ∧
        (valueOrSelf u (u.bindVars (.ofClass c) args) v = a ∨ ∃ r, a = .variable (.free r) ∧
          u.varKey r = u.varKey v ∧
          valueOrSelf u (u.bindVars (.ofClass c) args) v = .variable (.free v)) := by
  have lookup := valueFor?_bindVars (u := u) c args v
  cases found : ((u.classVariables c).zip args).find? fun b => b.1.key u == u.varKey v with
  | none =>
    rw [found] at lookup
    exact .inl ⟨by simp [argumentFor?, found], valueOrSelf_of_none lookup⟩
  | some b =>
    obtain ⟨b, a⟩ := b
    rw [found] at lookup
    obtain ⟨own, -⟩ := List.of_mem_zip (List.mem_of_find?_eq_some found)
    obtain ⟨w, -, owner, rfl⟩ := mem_variablesOf.1 own
    have key : (TyVar.free w).key u = u.varKey v := by simpa using List.find?_some found
    refine .inr ⟨w, a, owner, key, by simp [argumentFor?, found], ?_⟩
    rcases TyVar.bindTo_cases (u := u) (.free w) a with ⟨r, rfl, same, dropped⟩ | kept
    · simp only [Option.bind_some, dropped] at lookup
      exact .inr ⟨r, rfl, same.trans key, valueOrSelf_of_none lookup⟩
    · simp only [Option.bind_some, kept] at lookup
      exact .inl (valueOrSelf_of_some lookup)

variable {c args}

theorem argumentFor?_eq (ids : Set.InjOn u.varKey u.declaredVars) {k : Nat}
    (declared : ⟨.ofClass c, k⟩ ∈ u.declaredVars) :
    argumentFor? u c args ⟨.ofClass c, k⟩ = args[k]? := by
  have position : ∀ b ∈ (u.classVariables c).zip args, b.1.key u = u.varKey ⟨.ofClass c, k⟩ →
      args[k]? = some b.2 := by
    intro b member key
    obtain ⟨i, inside, rfl⟩ := List.getElem_of_mem member
    obtain ⟨own, arg⟩ := List.getElem?_zip_eq_some.1 (List.getElem?_eq_getElem inside)
    obtain ⟨within, -⟩ := List.getElem?_eq_some_iff.1 own
    have bound : ⟨.ofClass c, i⟩ ∈ u.declaredVars :=
      mem_declaredVars.2 (by simpa [Universe.classVariables] using within)
    have here := Option.some.inj ((getElem?_variablesOf bound).symm.trans own)
    rw [← here] at key
    cases ids bound declared key
    exact arg
  cases found : ((u.classVariables c).zip args).find? fun b =>
      b.1.key u == u.varKey ⟨.ofClass c, k⟩ with
  | none =>
    cases arg : args[k]? with
    | none => simp [argumentFor?, found]
    | some a =>
      have entry : ((u.classVariables c).zip args)[k]? = some (.free ⟨.ofClass c, k⟩, a) :=
        List.getElem?_zip_eq_some.2 ⟨getElem?_variablesOf declared, arg⟩
      exact absurd BEq.rfl (List.find?_eq_none.1 found _ (List.mem_of_getElem? entry))
  | some b =>
    rw [position b (List.mem_of_find?_eq_some found) (by simpa using List.find?_some found)]
    simp [argumentFor?, found]

section own

variable {j : Nat} {v : VarRef} (own : v.owner = .method c j)

include own

theorem valueOrSelf_arguments_own :
    valueOrSelf u (u.bindVars (.ofClass c) args) v = .variable (.free v) := by
  rcases valueOrSelf_arguments (u := u) c args v with
    ⟨-, value⟩ | ⟨w, a, owner, key, -⟩
  · exact value
  · exact absurd key.symm (varKey_method_ne own owner)

/-- What stands for a class parameter is the own parameter exactly if the argument is. -/
theorem sameVariable_argument {w : VarRef} (other : w.owner = .ofClass c) :
    (valueOrSelf u (u.bindVars (.ofClass c) args) w).SameVariable u (.variable (.free v)) ↔
      ∃ a, argumentFor? u c args w = some a ∧ a.SameVariable u (.variable (.free v)) := by
  have differs {r : VarRef} (key : u.varKey r = u.varKey w) :
      ¬(Ty.variable (.free r)).SameVariable u (.variable (.free v)) := by
    rintro ⟨_, _, ⟨⟩, ⟨⟩, same⟩
    exact varKey_method_ne own other (same.symm.trans key)
  rcases valueOrSelf_arguments (u := u) c args w with
    ⟨none, value⟩ | ⟨_, a, -, -, found, value | ⟨r, rfl, key, value⟩⟩
  · simp [none, value, differs rfl]
  · simp [found, value]
  · simp [found, value, differs rfl, differs key]

/-- The own parameter occurs in what stands for a variable if it is that variable or occurs in the
argument for it. -/
theorem mem_freeIds_argument (w : VarRef) :
    u.varKey v ∈ (valueOrSelf u (u.bindVars (.ofClass c) args) w).freeIds u ↔
      u.varKey w = u.varKey v ∨
        ∃ a, argumentFor? u c args w = some a ∧ u.varKey v ∈ a.freeIds u := by
  have free (r : VarRef) : (Ty.variable (.free r)).freeIds u = [u.varKey r] := rfl
  rcases valueOrSelf_arguments (u := u) c args w with
    ⟨none, value⟩ | ⟨x, a, owner, key, found, value⟩
  · simp [none, value, free, eq_comm]
  · have differs : u.varKey w ≠ u.varKey v := fun same =>
      varKey_method_ne own owner (same.symm.trans key.symm)
    rcases value with value | ⟨r, rfl, same, value⟩
    · simp [found, value, differs]
    · simp [found, value, free, same, differs]

end own

end arguments

section parameters

variable {c : ClassId} {args : List Ty} {j : Nat} {decl : MethodDecl} {m : Method}
  (found : (u.decl c).methods[j]? = some decl) (instance_ : decl.modifiers.isStatic = false)
  (declares : (Declarer.applied c (u.bindVars (.ofClass c) args)).Declares u j m)

include found instance_ declares

/-- On an applied class the parameter types have the arguments in place of the class parameters, and
nothing else. -/
theorem Declarer.Declares.paramTypes_applied : List.Forall₂
    (fun p t => ∃ r, p.type.resolve u = .ok r ∧ t = r.resolveInScope u (u.bindVars (.ofClass c) args))
    decl.params m.paramTypes := by
  refine (declares.reflects found).params.imp fun p t seen => ?_
  obtain ⟨r, resolved, seen⟩ := seen
  exact ⟨r, resolved, seen.trans (Declarer.resolveInScope_varsAt instance_ r)⟩

/-- On an applied class an own parameter `v` of a method is there, free, where it is written, and it
is the type where a class parameter is written exactly if it is the argument. In all parameter types
it occurs where it is written and where an argument brings it in, and nowhere else. -/
theorem Declarer.Declares.own_parameter_fresh {v : VarRef} (own : v.owner = .method c j) :
    m.paramTypes.length = decl.params.length ∧
      (∀ (i k : Nat) (p q : ParamDecl) (s t : Ty) (w : VarRef),
        decl.params[i]? = some p → m.paramTypes[i]? = some s →
        p.type = .variable w → w.owner = .ofClass c →
        decl.params[k]? = some q → m.paramTypes[k]? = some t → q.type = .variable v →
          t = .variable (.free v) ∧ (s.SameVariable u t ↔
            ∃ a, argumentFor? u c args w = some a ∧ a.SameVariable u t)) ∧
      ∀ (i : Nat) (p : ParamDecl) (s : Ty), decl.params[i]? = some p → m.paramTypes[i]? = some s →
        ∃ r, p.type.resolve u = .ok r ∧ (u.varKey v ∈ s.freeIds u ↔ u.varKey v ∈ r.freeIds u ∨
          ∃ w ∈ r.freeVars, ∃ a, argumentFor? u c args w = some a ∧ u.varKey v ∈ a.freeIds u) := by
  have types := declares.paramTypes_applied found instance_
  have at_ {i : Nat} {p : ParamDecl} {s : Ty} (written : decl.params[i]? = some p)
      (seen : m.paramTypes[i]? = some s) : ∃ r, p.type.resolve u = .ok r ∧
        s = r.resolveInScope u (u.bindVars (.ofClass c) args) := by
    obtain ⟨inside, rfl⟩ := List.getElem?_eq_some_iff.1 written
    obtain ⟨inside', rfl⟩ := List.getElem?_eq_some_iff.1 seen
    exact types.get inside inside'
  refine ⟨types.length_eq.symm, ?_, ?_⟩
  · intro i k p q s t w written seen atClass other written' seen' atOwn
    obtain ⟨r, resolved, rfl⟩ := at_ written seen
    obtain ⟨r', resolved', rfl⟩ := at_ written' seen'
    rw [atClass] at resolved
    rw [atOwn] at resolved'
    cases resolved
    cases resolved'
    have stays : (Ty.variable (.free v)).resolveInScope u (u.bindVars (.ofClass c) args) =
        .variable (.free v) := valueOrSelf_arguments_own own
    rw [stays]
    exact ⟨rfl, sameVariable_argument own other⟩
  · intro i p s written seen
    obtain ⟨r, resolved, rfl⟩ := at_ written seen
    refine ⟨r, resolved, ?_⟩
    rw [Ty.mem_freeIds_resolveInScope (DeclType.settled_of_resolve resolved), Ty.mem_freeIds]
    simp only [mem_freeIds_argument own, and_or_left, exists_or]

end parameters

namespace Fluent

/-- `class Fluent<T>` declares `<U> Fluent<U> put(T, U)`. -/
def fluent : ClassId := ⟨10⟩

def paramT : VarRef := ⟨.ofClass fluent, 0⟩
def paramU : VarRef := ⟨.method fluent 0, 0⟩

def classes : Universe :=
  (Universe.initial.defineClass "Fluent" [.typeParam "T" [],
    .method "put" Modifiers.Flag.isPublic.set
      [.executable (.typeParam "U" []), .returns (.applied fluent [.variable paramU]),
        .executable (.param { name := "first", type := .variable paramT }),
        .executable (.param { name := "second", type := .variable paramU })]]).2

def freeU : Ty := .variable (.free paramU)

def fluentOf (arg : Ty) : Declarer := .applied fluent (classes.bindVars (.ofClass fluent) [arg])

def putOf (d : Declarer) : Method := (d.methodAt? classes 0).getD default
def putDecl : MethodDecl := ((classes.decl fluent).methods[0]?).getD default

/-- In `Fluent<U[]>` the parameters of `put` are of different types, though `U` occurs in both. -/
theorem put_fluentOfArray :
    (fluentOf (.array freeU)).Declares classes 0 (putOf (fluentOf (.array freeU))) ∧
      (putOf (fluentOf (.array freeU))).paramTypes = [.array freeU, freeU] ∧
      ¬(Ty.array freeU).SameVariable classes freeU ∧
      classes.varKey paramU ∈ (Ty.array freeU).freeIds classes := by
  have declares : (fluentOf (.array freeU)).Declares classes 0 (putOf (fluentOf (.array freeU))) :=
    Declarer.declares_of_methodAt? rfl
  have found : (classes.decl fluent).methods[0]? = some putDecl := rfl
  obtain ⟨-, apart, occurs⟩ := declares.own_parameter_fresh found rfl (v := paramU) rfl
  obtain ⟨-, same⟩ := apart 0 1 _ _ (.array freeU) freeU paramT rfl rfl rfl rfl rfl rfl rfl
  obtain ⟨r, resolved, inside⟩ := occurs 0 _ (.array freeU) rfl rfl
  refine ⟨declares, rfl, fun both => ?_, inside.2 (.inr ?_)⟩
  · obtain ⟨a, found, b, -, eq, -⟩ := same.1 both
    cases found
    cases eq
  · cases resolved
    exact ⟨paramT, by simp [Ty.freeVars], .array freeU, rfl, by simp [Ty.freeIds, freeU]⟩

/-- What `put` returns is `Fluent<U>`, and there both its parameters are of type `U`. -/
theorem put_fluentOfU :
    (putOf (.ofClass fluent)).returnType = (fluentOf freeU).toTy ∧
      putDecl.params.map (·.type) = [.variable paramT, .variable paramU] ∧
      (fluentOf freeU).Declares classes 0 (putOf (fluentOf freeU)) ∧
      (putOf (fluentOf freeU)).paramTypes = [freeU, freeU] ∧ freeU.SameVariable classes freeU :=
  ⟨rfl, rfl, Declarer.declares_of_methodAt? rfl, rfl, _, _, rfl, rfl, rfl⟩

end Fluent

end JavaTypes
