import JavaTypes.Proofs.Reachable
import JavaTypes.Ty.Hierarchy

/-!
How resolution fails. A declared type fails to resolve at the first form in it that no type stands
for, also where that form is in an argument that would be dropped. The clauses of a class and the
bounds of a variable fail at the first of their declared types that does.
-/
namespace JavaTypes

section failures

variable {ε α β γ : Type}

def failure? : Except ε α → Option ε
  | .error e => some e
  | .ok _ => none

@[simp] theorem failure?_error (e : ε) : failure? (.error e : Except ε α) = some e := rfl

@[simp] theorem failure?_ok (a : α) : failure? (.ok a : Except ε α) = none := rfl

@[simp] theorem failure?_eq_some {x : Except ε α} {e : ε} :
    failure? x = some e ↔ x = .error e := by
  cases x <;> simp

@[simp] theorem failure?_eq_none {x : Except ε α} : failure? x = none ↔ ∃ a, x = .ok a := by
  cases x <;> simp

theorem isSome_failure? {x : Except ε α} : (failure? x).isSome = true ↔ ∃ e, x = .error e := by
  simp [Option.isSome_iff_exists]

@[simp] theorem failure?_map (f : α → β) (x : Except ε α) : failure? (f <$> x) = failure? x := by
  cases x <;> rfl

/-- Of two computations in a row the second one is reached if the first one succeeds. -/
@[simp] theorem failure?_bind_map (x : Except ε α) (y : Except ε β) (f : α → β → γ) :
    failure? (x >>= fun a => f a <$> y) = (failure? x).or (failure? y) := by
  cases x with
  | error => rfl
  | ok a => exact failure?_map (f a) y

end failures

mutual

/-- The shapes of the forms in a declared type that no type stands for, in the order in which they
are written; the upper bounds of a wildcard come before the lower ones. -/
def DeclType.unsupportedShapes : DeclType → List String
  | .ofClass _ => []
  | .applied _ args => unsupportedShapesOf args
  | .variable _ => []
  | .wildcard upper lower => unsupportedShapesOf upper ++ unsupportedShapesOf lower
  | .array element => element.unsupportedShapes
  | .other shape => [shape]

def unsupportedShapesOf : List DeclType → List String
  | [] => []
  | t :: rest => t.unsupportedShapes ++ unsupportedShapesOf rest

end

/-- The form of type that a form of declared type is resolved to. -/
def DeclType.kind? : DeclType → Option TyKind
  | .ofClass _ => some .ofClass
  | .applied _ _ => some .applied
  | .variable _ => some .variable
  | .wildcard _ _ => some .wildcard
  | .array _ => some .array
  | .other _ => none

/-- An answer that is made from declared types fails where the first of them does that cannot be
resolved, and only there. -/
structure FailsAsFirst (u : Universe) (types : List DeclType) {α : Type}
    (answer : Except ReflectionError α) : Prop where
  fails : (∃ e, answer = .error e) ↔ ∃ t ∈ types, ∃ e, t.resolve u = .error e
  first : ∀ e, answer = .error e ↔ ∃ before t after, types = before ++ t :: after ∧
    t.resolve u = .error e ∧ ∀ s ∈ before, ∃ r, s.resolve u = .ok r

variable {u : Universe}

/-- Leaving out the bounds that are the root class makes no difference, as those do not fail. -/
theorem failure?_resolveBounds (types : List DeclType) :
    failure? (resolveBounds u types) = failure? (resolveAll u types) := by
  induction types with
  | nil => rfl
  | cons t rest ih =>
    cases root : t.isRoot with
    | true =>
      cases DeclType.eq_of_isRoot root
      simpa [resolveBounds, resolveAll, root, DeclType.resolve] using ih
    | false => simp [resolveBounds, resolveAll, root, ih]

mutual

theorem DeclType.failure?_resolve :
    ∀ t : DeclType, failure? (t.resolve u) = t.unsupportedShapes.head?.map .unsupported
  | .ofClass _ => rfl
  | .applied _ args => by
    simp [DeclType.resolve, DeclType.unsupportedShapes, failure?_resolveAll args]
  | .variable _ => rfl
  | .wildcard upper lower => by
    simp [DeclType.resolve, DeclType.unsupportedShapes, failure?_resolveBounds,
      failure?_resolveAll upper, failure?_resolveAll lower, Option.map_or]
  | .array element => by
    simp [DeclType.resolve, DeclType.unsupportedShapes, element.failure?_resolve]
  | .other _ => rfl

theorem failure?_resolveAll : ∀ types : List DeclType,
    failure? (resolveAll u types) = (unsupportedShapesOf types).head?.map .unsupported
  | [] => rfl
  | t :: rest => by
    simp [resolveAll, unsupportedShapesOf, t.failure?_resolve, failure?_resolveAll rest,
      Option.map_or]

end

theorem failure?_resolveAll_eq_findSome? (types : List DeclType) :
    failure? (resolveAll u types) = types.findSome? fun t => failure? (t.resolve u) := by
  induction types with
  | nil => rfl
  | cons t rest ih => cases failed : failure? (t.resolve u) <;> simp [resolveAll, ih, failed]

namespace DeclType

/-- A declared type fails to resolve with the first of its unsupported shapes. -/
theorem resolve_eq_error_iff {t : DeclType} {e : ReflectionError} : t.resolve u = .error e ↔
    ∃ shape, t.unsupportedShapes.head? = some shape ∧ e = .unsupported shape := by
  rw [← failure?_eq_some, failure?_resolve, Option.map_eq_some_iff]
  simp only [eq_comm]

theorem resolve_fails_iff {t : DeclType} : (∃ e, t.resolve u = .error e) ↔ t.Unsupported := by
  constructor
  · rintro ⟨e, failed⟩
    by_contra supported
    obtain ⟨r, resolved⟩ := t.exists_resolve supported
    exact absurd (failed.symm.trans resolved) nofun
  · intro unsupported
    cases resolved : t.resolve u with
    | error e => exact ⟨e, rfl⟩
    | ok r => exact absurd unsupported (not_unsupported_of_resolve resolved)

theorem kind_of_resolve {t : DeclType} {r : Ty} (resolved : t.resolve u = .ok r) :
    t.kind? = some r.kind := by
  refine resolve_induction ?ofClass ?applied ?free ?wildcard ?array t r resolved
  all_goals
    intros
    rfl

end DeclType

/-- What fails like a list of declared types fails at the first of them that does. -/
theorem failsAsFirst {types : List DeclType} {α : Type} {answer : Except ReflectionError α}
    (alike : failure? answer = failure? (resolveAll u types)) : FailsAsFirst u types answer := by
  rw [failure?_resolveAll_eq_findSome?] at alike
  constructor
  · rw [← isSome_failure?, alike, List.findSome?_isSome_iff]
    simp only [isSome_failure?]
  · intro e
    rw [← failure?_eq_some, alike, List.findSome?_eq_some_iff]
    simp only [failure?_eq_some, failure?_eq_none]

/-- A class fails to show its super type where the clause for it fails, also when the class is
applied. -/
theorem Declarer.superType_failsAsFirst (d : Declarer) :
    FailsAsFirst u (u.decl d.classId).superClass.toList (d.superType u) := by
  apply failsAsFirst
  have plain (c : ClassId) : failure? (u.classSuperType c) =
      failure? (resolveAll u (u.decl c).superClass.toList) := by
    unfold Universe.classSuperType
    cases (u.decl c).superClass with
    | none => rfl
    | some t => simp [failure?_resolveAll_eq_findSome?]
  cases d with
  | ofClass c => exact plain c
  | applied c bindings => simpa [superType, classId] using plain c

theorem Declarer.interfaces_failsAsFirst (d : Declarer) :
    FailsAsFirst u (u.decl d.classId).interfaces (d.interfaces u) := by
  apply failsAsFirst
  cases d with
  | ofClass c => rfl
  | applied c bindings => simp [interfaces, Universe.classInterfaces, classId]

theorem TyVar.upperBounds_failsAsFirst {v : TyVar} {p : TypeParam}
    (found : u.typeParam? v.ref = some p) :
    FailsAsFirst u p.bounds ((Ty.variable v).upperBounds u) := by
  apply failsAsFirst
  simp [Ty.upperBounds, Universe.varBounds, found, failure?_resolveBounds]

/-- A declared type resolves to a type of its kind, or it fails with the first unsupported form in
it, which the bounds of the variables in it have no part in. Classes and variables show their clauses
and bounds, or fail with the first of them that does not resolve. -/
theorem DeclType.resolve_fails_first (u : Universe) (t : DeclType) :
    ((∃ e, t.resolve u = .error e) ↔ t.Unsupported) ∧
    (∀ e, t.resolve u = .error e ↔
      ∃ shape, t.unsupportedShapes.head? = some shape ∧ e = .unsupported shape) ∧
    (∀ r, t.resolve u = .ok r → t.kind? = some r.kind) ∧
    (∀ d : Declarer, FailsAsFirst u (u.decl d.classId).superClass.toList (d.superType u) ∧
      FailsAsFirst u (u.decl d.classId).interfaces (d.interfaces u)) ∧
    ∀ v p, u.typeParam? v.ref = some p → FailsAsFirst u p.bounds ((Ty.variable v).upperBounds u) :=
  ⟨resolve_fails_iff, fun _ => resolve_eq_error_iff, fun _ => kind_of_resolve,
    fun d => ⟨d.superType_failsAsFirst, d.interfaces_failsAsFirst⟩,
    fun _ _ => TyVar.upperBounds_failsAsFirst⟩

namespace Misfits

def node : ClassId := ⟨10⟩

/-- `class Node<T>` where `T` is bounded by the root class, an intersection and a captured type. -/
def classes : Universe :=
  (Universe.initial.defineClass "p.Node" [.typeParam "T"
    [.ofClass Universe.object, .other "IntersectionType", .other "CapturedType"]]).2

/-- A node with one argument too many, a wildcard in which two forms are not supported. -/
def crowded : DeclType :=
  .applied node [.variable ⟨.ofClass node, 0⟩,
    .wildcard [.array (.other "CapturedType")] [.other "IntersectionType"]]

/-- The surplus argument is what `crowded` fails for, at the upper bound of its wildcard; the bounds
of `T` fail only where they are asked for. -/
theorem resolve_crowded :
    crowded.resolve classes = .error (.unsupported "CapturedType") ∧
      (DeclType.variable ⟨.ofClass node, 0⟩).kind? = some .variable ∧
      (Ty.variable (.free ⟨.ofClass node, 0⟩)).upperBounds classes =
        .error (.unsupported "IntersectionType") := by
  obtain ⟨-, failed, -, -, bounds⟩ := DeclType.resolve_fails_first classes crowded
  obtain ⟨-, -, kind, -, -⟩ :=
    DeclType.resolve_fails_first classes (.variable ⟨.ofClass node, 0⟩)
  refine ⟨(failed _).2 ⟨_, rfl, rfl⟩, kind _ rfl, ?_⟩
  refine ((bounds _ _ rfl).first _).2 ⟨[.ofClass Universe.object], _, _, rfl, rfl, ?_⟩
  simp [DeclType.resolve]

end Misfits

end JavaTypes
