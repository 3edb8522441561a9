import JavaTypes.Proofs.RenderedVars
import JavaTypes.Ty.Hierarchy

/-!
What a type erases to. The erasure of a variable is that of its first bound, which may be another
variable; the relation `Ty.ErasesTo` follows such bounds as far as they go. Where no variable leads to
itself, a chain of bounds passes each type parameter at most once, so it ends within the limit of the
erasure, and the two agree. As a bound that is the root class is dropped wherever it stands, the first
bound is the leftmost declared one unless the root class comes first and others follow.
-/
namespace JavaTypes

mutual

/-- The variables that the erasure of a declared type can come from: the type itself or, for a
wildcard, its upper bounds. -/
def DeclType.heads : DeclType → List VarRef
  | .variable v => [v]
  | .wildcard upper _ => headsOfAll upper
  | _ => []

def headsOfAll : List DeclType → List VarRef
  | [] => []
  | t :: rest => t.heads ++ headsOfAll rest

end

theorem headsOfAll_eq_flatMap (types : List DeclType) :
    headsOfAll types = types.flatMap DeclType.heads := by
  induction types with
  | nil => rfl
  | cons t rest ih => simp [headsOfAll, ih]

@[simp] theorem DeclType.heads_wildcard (upper lower : List DeclType) :
    (DeclType.wildcard upper lower).heads = upper.flatMap DeclType.heads :=
  headsOfAll_eq_flatMap upper

namespace Universe

/-- A bound of a type parameter is a variable, or a wildcard with the variable for an upper bound. -/
def FollowsBound (u : Universe) (v w : VarRef) : Prop :=
  ∃ p, u.typeParam? v = some p ∧ ∃ b ∈ p.bounds, w ∈ b.heads

/-- No type parameter reaches itself by following bounds that are variables. -/
def BoundsEnd (u : Universe) : Prop := ∀ v, ¬ Relation.TransGen u.FollowsBound v v

def BoundsSupported (u : Universe) : Prop :=
  ∀ v p, u.typeParam? v = some p → ∀ t ∈ p.bounds, ¬ t.Unsupported

def ExtendsVariable (u : Universe) (v w : VarRef) : Prop :=
  ∃ p rest, u.typeParam? v = some p ∧ p.bounds = .variable w :: rest

def leftmostErasure (u : Universe) : List DeclType → Except ReflectionError (Option ClassId)
  | [] => .ok (some object)
  | first :: _ => do
    let t ← first.resolve u
    t.erasure u

end Universe

/-- Where a type parameter is declared with the root class for its first bound, there are no other
bounds. -/
def TypeParam.RootAlone (p : TypeParam) : Prop :=
  ∀ first rest, p.bounds = first :: rest → first.isRoot = true → ∀ t ∈ rest, t.isRoot = true

namespace Ty

/-- The class a type erases to, if it has one, by way of first bounds however far they lead. -/
inductive ErasesTo (u : Universe) : Ty → Option ClassId → Prop where
  | ofClass (c : ClassId) : ErasesTo u (.ofClass c) (some c)
  | applied (c : ClassId) (bindings : List TyVar) : ErasesTo u (.applied c bindings) (some c)
  | array (t : Ty) : ErasesTo u (.array t) none
  | value {v : VarRef} {t : Ty} {c : Option ClassId} :
      t.ErasesTo u c → ErasesTo u (.variable (.bound v t)) c
  | bound {v : VarRef} {t : Ty} {rest : List Ty} {c : Option ClassId} :
      u.varBounds v = .ok (t :: rest) → t.ErasesTo u c → ErasesTo u (.variable (.free v)) c
  | unbounded {v : VarRef} :
      u.varBounds v = .ok [] → ErasesTo u (.variable (.free v)) (some Universe.object)
  | upper {t : Ty} {rest lower : List Ty} {c : Option ClassId} :
      t.ErasesTo u c → ErasesTo u (.wildcard (t :: rest) lower) c
  | unboundedWildcard (lower : List Ty) :
      ErasesTo u (.wildcard [] lower) (some Universe.object)

/-- A value behind variables that are bound to each other, one inside the other. -/
def boundThrough (vars : List VarRef) (t : Ty) : Ty :=
  vars.foldr (fun v t => .variable (.bound v t)) t

def head? : Ty → Option VarRef
  | .variable (.free v) => some v
  | .variable (.bound _ t) => t.head?
  | .wildcard (t :: _) _ => t.head?
  | _ => none

end Ty

variable {u : Universe}

theorem Ty.ErasesTo.unique {t : Ty} {c c' : Option ClassId} (erases : t.ErasesTo u c)
    (erases' : t.ErasesTo u c') : c' = c := by
  induction erases with
  | ofClass | applied | array | unboundedWildcard =>
    cases erases'
    rfl
  | value _ ih | upper _ ih =>
    cases erases' with
    | _ inner => exact ih inner
  | bound resolved _ ih =>
    cases erases' with
    | bound resolved' inner =>
      cases resolved.symm.trans resolved'
      exact ih inner
    | unbounded resolved' => cases resolved.symm.trans resolved'
  | unbounded resolved =>
    cases erases' with
    | bound resolved' => cases resolved.symm.trans resolved'
    | unbounded => rfl

/-- A type erases to what `ofFree` says, where that is the erasure of the variable it comes from. -/
theorem Ty.exists_eraseWith {ofFree : VarRef → Except ReflectionError (Option ClassId)} {t : Ty}
    (free : ∀ v, t.head? = some v →
      ∃ c, ofFree v = .ok c ∧ (Ty.variable (.free v)).ErasesTo u c) :
    ∃ c, t.eraseWith ofFree = .ok c ∧ t.ErasesTo u c := by
  induction t using Ty.inductionOn with
  | ofClass c => exact ⟨_, rfl, .ofClass c⟩
  | applied c bindings => exact ⟨_, rfl, .applied c bindings⟩
  | array t => exact ⟨_, rfl, .array t⟩
  | free v => exact free v rfl
  | bound v t ih =>
    obtain ⟨c, erased, erases⟩ := ih free
    exact ⟨c, erased, .value erases⟩
  | wildcard upper lower ih =>
    cases upper with
    | nil => exact ⟨_, rfl, .unboundedWildcard lower⟩
    | cons t rest =>
      obtain ⟨c, erased, erases⟩ := ih t List.mem_cons_self free
      exact ⟨c, erased, .upper erases⟩

/-- The variable that the erasure of a resolved type comes from is one the declared type has for it. -/
theorem DeclType.mem_heads_of_resolve {t : DeclType} {r : Ty} (resolved : t.resolve u = .ok r) :
    ∀ v, r.head? = some v → v ∈ t.heads := by
  refine resolve_induction ?ofClass ?applied ?free ?wildcard ?array t r resolved
  case ofClass | applied | array => exact fun _ => nofun
  case free =>
    rintro v _ ⟨⟩
    exact List.mem_singleton_self v
  case wildcard =>
    intro upper lower uppers lowers each _ v head
    cases uppers with
    | nil => cases head
    | cons first rest =>
      obtain ⟨t, member, -, inner⟩ := exists_left_of_mem each List.mem_cons_self
      rw [heads_wildcard, List.mem_flatMap]
      exact ⟨t, List.mem_of_mem_filter member, inner v head⟩

namespace Universe

theorem followsBound_of_varBounds {v w : VarRef} {t : Ty} {rest : List Ty}
    (resolved : u.varBounds v = .ok (t :: rest)) (head : t.head? = some w) : u.FollowsBound v w := by
  unfold varBounds at resolved
  cases found : u.typeParam? v with
  | none =>
    rw [found] at resolved
    cases resolved
  | some p =>
    simp only [found, resolveBounds_eq, resolveAll_eq_ok] at resolved
    obtain ⟨b, member, resolved⟩ := exists_left_of_mem resolved List.mem_cons_self
    exact ⟨p, found, b, List.mem_of_mem_filter member, DeclType.mem_heads_of_resolve resolved w head⟩

theorem exists_eraseVar_succ (supported : u.BoundsSupported) {limit : Nat} {v : VarRef}
    (further : ∀ w, u.FollowsBound v w →
      ∃ c, u.eraseVar limit w = .ok c ∧ (Ty.variable (.free w)).ErasesTo u c) :
    ∃ c, u.eraseVar (limit + 1) v = .ok c ∧ (Ty.variable (.free v)).ErasesTo u c := by
  obtain ⟨bounds, resolved⟩ := varBounds_eq_ok_iff.2 fun ⟨p, found, t, member, unsupported⟩ =>
    supported v p found t member unsupported
  cases bounds with
  | nil => exact ⟨_, bind_eq_ok.2 ⟨[], resolved, rfl⟩, .unbounded resolved⟩
  | cons t rest =>
    obtain ⟨c, erased, erases⟩ := Ty.exists_eraseWith fun w head =>
      further w (followsBound_of_varBounds resolved head)
    exact ⟨c, bind_eq_ok.2 ⟨t :: rest, resolved, erased⟩, .bound resolved erases⟩

section ends

variable (ends : u.BoundsEnd) (supported : u.BoundsSupported)

include ends supported

/-- The erasure of a variable ends within more steps than there are variables its bounds lead to. -/
theorem BoundsEnd.exists_eraseVar {limit : Nat} {v : VarRef}
    (enough : rankIn u.allVars (Relation.TransGen u.FollowsBound) v < limit) :
    ∃ c, u.eraseVar limit v = .ok c ∧ (Ty.variable (.free v)).ErasesTo u c := by
  induction limit generalizing v with
  | zero => cases enough
  | succ limit ih =>
    refine exists_eraseVar_succ supported fun w follows => ?_
    by_cases declared : w ∈ u.declaredVars
    · have lower := rankIn_lt .trans (mem_allVars declared) (.single follows) (ends w)
      exact ih (by omega)
    · -- What is no type parameter has no bounds, so it needs no steps.
      have none : u.typeParam? w = none := Option.not_isSome_iff_eq_none.1 declared
      have unbounded : u.varBounds w = .ok [] := by rw [varBounds, none]
      refine ⟨some object, ?_, .unbounded unbounded⟩
      cases limit with
      | zero => rfl
      | succ limit => exact bind_eq_ok.2 ⟨[], unbounded, rfl⟩

theorem BoundsEnd.exists_erasure (t : Ty) : ∃ c, t.erasure u = .ok c ∧ t.ErasesTo u c :=
  Ty.exists_eraseWith fun _ _ =>
    ends.exists_eraseVar supported
      (Nat.lt_succ_of_le (rankIn_le_length.trans_eq length_allVars))

theorem BoundsEnd.erasure_eq_iff {t : Ty} {c : Option ClassId} :
    t.erasure u = .ok c ↔ t.ErasesTo u c := by
  obtain ⟨c', erased, erases⟩ := ends.exists_erasure supported t
  rw [erased, Except.ok.injEq]
  exact ⟨fun same => same ▸ erases, fun erases' => erases'.unique erases⟩

theorem BoundsEnd.erasure_free {v : VarRef} {p : TypeParam} (declared : u.typeParam? v = some p) :
    (Ty.variable (.free v)).erasure u = u.leftmostErasure (p.bounds.filter fun t => !t.isRoot) := by
  have bounds : u.varBounds v = resolveAll u (p.bounds.filter fun t => !t.isRoot) := by
    rw [varBounds, declared]
    exact resolveBounds_eq p.bounds
  obtain ⟨c, erased, erases⟩ := ends.exists_erasure supported (.variable (.free v))
  rw [erased]
  cases erases with
  | unbounded resolved =>
    rw [bounds, resolveAll_eq_ok] at resolved
    rw [List.forall₂_nil_right_iff.1 resolved]
    rfl
  | bound resolved inner =>
    rw [bounds, resolveAll_eq_ok] at resolved
    obtain ⟨first, others, resolved, -, listed⟩ := List.forall₂_cons_right_iff.1 resolved
    rw [listed]
    exact (bind_eq_ok.2 ⟨_, resolved, (ends.erasure_eq_iff supported).2 inner⟩).symm

end ends

/-- Where no root class comes before other bounds, dropping those that are the root class does not
change what the leftmost bound erases to. -/
theorem leftmostErasure_filter {p : TypeParam} (alone : p.RootAlone) :
    u.leftmostErasure (p.bounds.filter fun t => !t.isRoot) = u.leftmostErasure p.bounds := by
  cases listed : p.bounds with
  | nil => rfl
  | cons first rest =>
    cases root : first.isRoot with
    | false => simp [root, leftmostErasure]
    | true =>
      have none : rest.filter (fun t => !t.isRoot) = [] :=
        List.filter_eq_nil_iff.2 fun t member => by simp [alone first rest listed root t member]
      rw [List.filter_cons_of_neg (by simp [root]), none, DeclType.eq_of_isRoot root]
      rfl

end Universe

namespace Universe.BoundsEnd

variable (ends : u.BoundsEnd) (supported : u.BoundsSupported)

include ends supported

theorem erasure_of_extendsVariable {v w : VarRef}
    (chain : Relation.ReflTransGen u.ExtendsVariable v w) :
    (Ty.variable (.free v)).erasure u = (Ty.variable (.free w)).erasure u := by
  induction chain using Relation.ReflTransGen.head_induction_on with
  | refl => rfl
  | head step _ ih =>
    obtain ⟨p, rest, declared, bounds⟩ := step
    rw [ends.erasure_free supported declared, bounds, ← ih]
    rfl

end Universe.BoundsEnd

theorem Ty.erasure_boundThrough (vars : List VarRef) (t : Ty) :
    (t.boundThrough vars).erasure u = t.erasure u := by
  induction vars with
  | nil => rfl
  | cons v rest ih => exact ih

/-- Where no type parameter leads to itself and all bounds are supported, the erasure of every type
ends and is what first bounds lead to. A free variable erases to its leftmost bound that is not the
root class, which is its leftmost bound unless the root class comes before others; so all variables on a
chain of leftmost bounds have one erasure. A variable with a value erases to it, through all variables
that are bound to each other. -/
theorem Universe.BoundsEnd.erasure_leftmost (ends : u.BoundsEnd) (supported : u.BoundsSupported) :
    (∀ t : Ty, ∃ c, t.erasure u = .ok c ∧ ∀ c', t.ErasesTo u c' ↔ c' = c) ∧
    (∀ v p, u.typeParam? v = some p →
      (Ty.variable (.free v)).erasure u = u.leftmostErasure (p.bounds.filter fun t => !t.isRoot) ∧
      (p.RootAlone → (Ty.variable (.free v)).erasure u = u.leftmostErasure p.bounds)) ∧
    (∀ v w, Relation.ReflTransGen u.ExtendsVariable v w →
      (Ty.variable (.free v)).erasure u = (Ty.variable (.free w)).erasure u) ∧
    ∀ (vars : List VarRef) (t : Ty), (t.boundThrough vars).erasure u = t.erasure u := by
  refine ⟨fun t => ?_, fun v p declared => ?_, fun v w chain => ?_, Ty.erasure_boundThrough⟩
  · obtain ⟨c, erased, erases⟩ := ends.exists_erasure supported t
    exact ⟨c, erased, fun c' => ⟨erases.unique, fun same => same ▸ erases⟩⟩
  · have leftmost := ends.erasure_free supported declared
    exact ⟨leftmost, fun alone => leftmost.trans (leftmostErasure_filter alone)⟩
  · exact ends.erasure_of_extendsVariable supported chain

namespace Clauses

def comparable : ClassId := ⟨10⟩
def box : ClassId := ⟨11⟩
def varT : VarRef := ⟨.ofClass box, 0⟩
def varU : VarRef := ⟨.ofClass box, 1⟩
def varV : VarRef := ⟨.ofClass box, 2⟩

def boxOver (params : List ClassEdit) : Universe :=
  (((Universe.initial.declare "Cmp").2.declare "Box").2.define comparable
    [.kind .interface, .typeParam "X" []]).define box params

/-- `class Box<T extends U, U extends V & Cmp<T>, V extends Cmp<V>>`. -/
def classes : Universe :=
  boxOver [.typeParam "T" [.variable varU],
    .typeParam "U" [.variable varV, .applied comparable [.variable varT]],
    .typeParam "V" [.applied comparable [.variable varV]]]

theorem boundsEnd : classes.BoundsEnd := by
  have checked : ∀ v ∈ classes.allVars, ∀ p ∈ classes.typeParam? v, ∀ b ∈ p.bounds, ∀ w ∈ b.heads,
      v.index < w.index := by decide
  have later {v w : VarRef} (chain : Relation.TransGen classes.FollowsBound v w) :
      v.index < w.index := by
    have step {v w : VarRef} (follows : classes.FollowsBound v w) : v.index < w.index := by
      obtain ⟨p, found, b, member, head⟩ := follows
      exact forall_typeParam checked v p found b member w head
    induction chain with
    | single follows => exact step follows
    | tail _ follows ih => exact ih.trans (step follows)
  exact fun v cycle => Nat.lt_irrefl _ (later cycle)

theorem boundsSupported : classes.BoundsSupported := by
  have checked : ∀ v ∈ classes.allVars, ∀ p ∈ classes.typeParam? v, ∀ t ∈ p.bounds,
      (t.resolve classes).isOk = true := by decide
  intro v p found t member
  have resolves := forall_typeParam checked v p found t member
  cases resolved : t.resolve classes with
  | ok r => exact DeclType.not_unsupported_of_resolve resolved
  | error e =>
    rw [resolved] at resolves
    cases resolves

/-- `T` and `U` erase to what `V` erases to, which is `Cmp`. -/
theorem erasure_varT : classes.BoundsEnd ∧ classes.BoundsSupported ∧
    (Ty.variable (.free varT)).erasure classes = .ok (some comparable) ∧
    ((Ty.variable (.free varT)).boundThrough [varV, varU]).erasure classes = .ok (some comparable) := by
  obtain ⟨-, leftmost, chains, values⟩ := boundsEnd.erasure_leftmost boundsSupported
  have chain : Relation.ReflTransGen classes.ExtendsVariable varT varV :=
    .head ⟨_, [], rfl, rfl⟩ (.single ⟨_, _, rfl, rfl⟩)
  have bottom : (Ty.variable (.free varV)).erasure classes = .ok (some comparable) := by
    refine ((leftmost varV _ rfl).2 ?_).trans rfl
    rintro first rest ⟨⟩ root
    cases root
  have erased := (chains _ _ chain).trans bottom
  exact ⟨boundsEnd, boundsSupported, erased, (values _ _).trans erased⟩

/-- In `class Box<T extends Object & Cmp<T>>` the leftmost bound of `T` is the root class, but `T` does
not erase to it. -/
theorem erasure_rootFirst :
    let u := boxOver [.typeParam "T" [.ofClass Universe.object, .applied comparable [.variable varT]]]
    (Ty.variable (.free varT)).erasure u = .ok (some comparable) ∧
      (u.typeParam? varT).map (fun p => u.leftmostErasure p.bounds) =
        some (.ok (some Universe.object)) := ⟨rfl, rfl⟩

end Clauses

end JavaTypes
