import JavaTypes.Proofs.NormalForms

/-!
Fixed points of substitution. Substitution acts on the variables that are open in a type: those that
occur free, by id, and those of the classes it would apply. It leaves a type alone in which no
variable with a value is open; and where none is open in the values either, doing it once does
everything, as what is open in the result was open before or came with a value.
-/
namespace JavaTypes

variable {u : Universe}

/-- Substitution applies a class without arguments if any of its variables has a value. -/
def RawClasses.openIds (u : Universe) : RawClasses → ClassId → List String
  | .kept, _ => []
  | .filled, c => (u.classVariables c).map (TyVar.key u)

namespace Ty

/-- The ids of the variables substitution looks up in a type. -/
def openIds (u : Universe) (raw : RawClasses) (t : Ty) : List String :=
  t.gather { rawClass := raw.openIds u, freeVar := fun v => [u.varKey v] }

/-- No variable with a value in the bindings is open in the type. -/
def Untouched (u : Universe) (raw : RawClasses) (bindings : List TyVar) (t : Ty) : Prop :=
  ∀ v s, .bound v s ∈ bindings → u.varKey v ∉ t.openIds u raw

/-- No variable of an applied class has its own free self as its value, as binding leaves such a
variable free. -/
def Rebound (u : Universe) (t : Ty) : Prop :=
  ∀ c bindings, Part (.applied c bindings) t →
    ∀ v r, .bound v (.variable (.free r)) ∈ bindings → u.varKey r ≠ u.varKey v

end Ty

section rebound

variable {raw : RawClasses} {bindings : List TyVar}

theorem TyVar.key_ne_of_bindTo_eq_bound {v w r : VarRef} {a : Ty}
    (eq : (TyVar.free v).bindTo u a = .bound w (.variable (.free r))) :
    u.varKey r ≠ u.varKey w := by
  obtain ⟨rfl, rfl⟩ := TyVar.of_bindTo_eq_bound eq
  intro key
  have own : (TyVar.free w).bindTo u (.variable (.free r)) = .free w := TyVar.bindTo_own key
  rw [own] at eq
  cases eq

/-- All bindings in a substituted type have been made anew, but for those in values. -/
theorem Ty.Settled.rebound_subst {t : Ty} (settled : t.Settled)
    (values : ∀ s ∈ valuesOf bindings, s.Rebound u) : (t.subst u raw bindings).Rebound u := by
  intro c made part v r member
  rcases settled.part_of_subst part with ⟨q, inside, eq⟩ | ⟨s, value, inside⟩
  · cases settled.part inside with
    | ofClass d =>
      cases raw with
      | kept => cases eq
      | filled =>
        rcases subst_ofClass_filled (u := u) bindings d with whole | ⟨whole, -⟩
        · rw [whole] at eq
          cases eq
          obtain ⟨w, -, bound⟩ := List.mem_map.1 member
          exact TyVar.key_ne_of_bindTo_eq_bound bound
        · rw [whole] at eq
          cases eq
    | applied d vars =>
      rw [Ty.subst_applied, TyVar.rebind_eq] at eq
      cases eq
      obtain ⟨b, -, bound⟩ := List.mem_map.1 member
      exact TyVar.key_ne_of_bindTo_eq_bound bound
    | free w =>
      cases found : valueFor? u bindings w with
      | some s =>
        rw [Ty.subst_free, valueOrSelf_of_some found] at eq
        subst eq
        exact values _ (mem_values_of_valueFor? found) c made (.self _) v r member
      | none =>
        rw [Ty.subst_free, valueOrSelf_of_none found] at eq
        cases eq
    | wildcard =>
      rw [Ty.subst_wildcard] at eq
      cases eq
    | array => cases eq
  · exact values s value c made inside v r member

theorem DeclType.rebound_of_resolve {t : DeclType} {r : Ty} (resolved : t.resolve u = .ok r) :
    r.Rebound u := by
  have unchanged : r.resolveInScope u [] = r :=
    subst_of_resolve resolved (fun _ _ => rfl) fun _ _ => rfl
  rw [← unchanged]
  exact (settled_of_resolve resolved).rebound_subst nofun

theorem Ty.rebound_apply (c : ClassId) {args : List Ty} (each : ∀ a ∈ args, a.Rebound u) :
    (Ty.apply u c args).Rebound u := by
  intro d vars part v r member
  cases part with
  | self =>
    obtain ⟨w, -, -, a, -, bound⟩ := mem_bindings_apply member
    exact TyVar.key_ne_of_bindTo_eq_bound bound.symm
  | argument inside part =>
    obtain ⟨w, -, -, a, arg, bound⟩ := mem_bindings_apply inside
    obtain ⟨-, rfl⟩ := TyVar.of_bindTo_eq_bound bound.symm
    exact each _ arg d vars part v r member

end rebound

section open'

variable {raw : RawClasses} {bindings : List TyVar} {id : String}

@[simp] theorem Ty.openIds_free (v : VarRef) :
    (Ty.variable (.free v)).openIds u raw = [u.varKey v] := rfl

@[simp] theorem Ty.openIds_ofClass (c : ClassId) :
    (Ty.ofClass c).openIds u raw = raw.openIds u c := rfl

theorem Ty.mem_openIds {t : Ty} : id ∈ t.openIds u raw ↔
    (∃ c ∈ t.rawClasses, id ∈ raw.openIds u c) ∨ ∃ v ∈ t.freeVars, u.varKey v = id := by
  rw [Ty.openIds, Ty.mem_gather fun _ => rfl]
  simp [eq_comm]

theorem openIds_valueOrSelf_congr {v w : VarRef} (key : u.varKey v = u.varKey w) :
    (valueOrSelf u bindings v).openIds u raw = (valueOrSelf u bindings w).openIds u raw := by
  have same := valueFor?_congr key bindings
  cases found : valueFor? u bindings w with
  | some s => rw [valueOrSelf_of_some found, valueOrSelf_of_some (same.trans found)]
  | none =>
    rw [valueOrSelf_of_none found, valueOrSelf_of_none (same.trans found)]
    exact congrArg (fun id => [id]) key

/-- A class without arguments shows what is open in the values of its open variables. -/
theorem mem_openIds_subst_ofClass {c : ClassId} :
    id ∈ ((Ty.ofClass c).subst u raw bindings).openIds u raw ↔
      ∃ v, u.varKey v ∈ raw.openIds u c ∧ id ∈ (valueOrSelf u bindings v).openIds u raw := by
  cases raw with
  | kept => simp [RawClasses.openIds]
  | filled =>
    have byOwn : (∃ v, u.varKey v ∈ RawClasses.filled.openIds u c ∧
        id ∈ (valueOrSelf u bindings v).openIds u .filled) ↔
          ∃ b ∈ u.classVariables c, id ∈ (valueOrSelf u bindings b.ref).openIds u .filled := by
      simp only [RawClasses.openIds, List.mem_map]
      constructor
      · rintro ⟨v, ⟨b, own, key⟩, inside⟩
        exact ⟨b, own, openIds_valueOrSelf_congr (u := u) key ▸ inside⟩
      · rintro ⟨b, own, inside⟩
        exact ⟨b.ref, ⟨b, own, rfl⟩, inside⟩
    rw [byOwn]
    rcases subst_ofClass_filled (u := u) bindings c with whole | ⟨whole, selves⟩
    · rw [whole, Ty.openIds, Ty.gather_applied, List.flatMap_map, List.mem_flatMap]
      refine exists_congr fun b => and_congr_right fun _ => ?_
      rw [TyVar.gather_bindTo (fun _ => rfl) fun r _ key => by simp [key]]
      rfl
    · rw [whole, Ty.openIds_ofClass, RawClasses.openIds, List.mem_map]
      refine exists_congr fun b => and_congr_right fun own => ?_
      obtain ⟨r, self, key⟩ := selves b own
      rw [self, Ty.openIds_free, List.mem_singleton, key, eq_comm]
      rfl

/-- What is open after substitution is what is open in the values of the variables open before. -/
theorem Ty.Settled.mem_openIds_subst {t : Ty} (settled : t.Settled) :
    id ∈ (t.subst u raw bindings).openIds u raw ↔
      ∃ v, u.varKey v ∈ t.openIds u raw ∧ id ∈ (valueOrSelf u bindings v).openIds u raw := by
  rw [Ty.openIds, Ty.gather_subst (fun _ => rfl) (fun _ _ same => by simp [same]) settled,
    Ty.mem_gather fun _ => rfl]
  simp only [Ty.mem_openIds (t := t)]
  constructor
  · rintro (⟨c, raw, inside⟩ | ⟨v, free, inside⟩)
    · obtain ⟨v, own, inside⟩ := mem_openIds_subst_ofClass.1 inside
      exact ⟨v, .inl ⟨c, raw, own⟩, inside⟩
    · exact ⟨v, .inr ⟨v, free, rfl⟩, inside⟩
  · rintro ⟨v, ⟨c, raw, own⟩ | ⟨w, free, key⟩, inside⟩
    · exact .inl ⟨c, raw, mem_openIds_subst_ofClass.2 ⟨v, own, inside⟩⟩
    · refine .inr ⟨w, free, ?_⟩
      rwa [← Ty.openIds, openIds_valueOrSelf_congr key]

theorem valueOrSelf_of_unbound {v : VarRef}
    (unbound : ∀ w s, .bound w s ∈ bindings → u.varKey w ≠ u.varKey v) :
    valueOrSelf u bindings v = .variable (.free v) := by
  cases found : valueFor? u bindings v with
  | none => exact valueOrSelf_of_none found
  | some s =>
    obtain ⟨w, key, member⟩ := bound_mem_of_valueFor? found
    exact absurd key (unbound w s member)

theorem map_eq_self {α : Type} {f : α → α} {l : List α} (each : ∀ x ∈ l, f x = x) : l.map f = l :=
  (List.map_congr_left each).trans (List.map_id l)

theorem Ty.Settled.subst_eq_self {t : Ty} (settled : t.Settled) :
    t.Rebound u → t.Untouched u raw bindings → t.subst u raw bindings = t := by
  -- A variable the id of which is noted down at some place keeps itself there.
  have self {v : VarRef} {ids : List String} (looked : u.varKey v ∈ ids)
      (untouched : ∀ w s, .bound w s ∈ bindings → u.varKey w ∉ ids) :
      valueOrSelf u bindings v = .variable (.free v) :=
    valueOrSelf_of_unbound fun w s member key => untouched w s member (key ▸ looked)
  induction settled with
  | ofClass c =>
    intro _ untouched
    cases raw with
    | kept => rfl
    | filled =>
      refine subst_ofClass_of_free fun b own => self ?_ untouched
      exact List.mem_map.2 ⟨b, own, rfl⟩
  | free v => exact fun _ untouched => self (List.mem_singleton.2 rfl) untouched
  | array t _ ih =>
    intro rebound untouched
    exact congrArg Ty.array (ih (fun c vars part => rebound c vars (.element part)) untouched)
  | wildcard upper lower _ _ ihUpper ihLower =>
    intro rebound untouched
    have each (s : Ty) (member : s ∈ upper ++ lower) : s.Untouched u raw bindings :=
      fun v value bound inside => untouched v value bound (by
        rw [Ty.openIds, Ty.gather_wildcard, ← List.flatMap_append]
        exact List.mem_flatMap.2 ⟨s, member, inside⟩)
    have uppers : upper.map (Ty.subst u raw bindings) = upper :=
      map_eq_self fun s member => ihUpper s member
        (fun c vars part => rebound c vars (.upper member part))
        (each s (List.mem_append_left _ member))
    have lowers : lower.map (Ty.subst u raw bindings) = lower :=
      map_eq_self fun s member => ihLower s member
        (fun c vars part => rebound c vars (.lower member part))
        (each s (List.mem_append_right _ member))
    rw [Ty.subst_wildcard, uppers, lowers]
  | applied c vars _ ih =>
    intro rebound untouched
    have each (b : TyVar) (member : b ∈ vars) : b.shown.Untouched u raw bindings :=
      fun v value bound inside => untouched v value bound (by
        rw [Ty.openIds, Ty.gather_applied]
        exact List.mem_flatMap.2 ⟨b, member, by cases b <;> exact inside⟩)
    rw [Ty.subst_applied]
    congr 1
    refine map_eq_self fun b member => ?_
    cases b with
    | free v =>
      change rebindFree u bindings v = .free v
      rw [rebindFree_eq, self (List.mem_singleton.2 rfl) (each _ member)]
      exact TyVar.bindTo_own rfl
    | bound v s =>
      change (TyVar.free v).bindTo u (s.subst u raw bindings) = .bound v s
      rw [ih v s member (fun c vars part => rebound c vars (.argument member part))
        (each _ member)]
      refine TyVar.bindTo_other fun r own key => ?_
      subst own
      exact rebound c vars (.self _) v r member key

end open'

section fixedPoints

variable {raw : RawClasses} {bindings : List TyVar} {t : Ty}

theorem Ty.Settled.openIds_subst_subset (settled : t.Settled) :
    ∀ id ∈ (t.subst u raw bindings).openIds u raw,
      id ∈ t.openIds u raw ∨ ∃ s ∈ valuesOf bindings, id ∈ s.openIds u raw := by
  intro id inside
  obtain ⟨v, before, inside⟩ := settled.mem_openIds_subst.1 inside
  cases found : valueFor? u bindings v with
  | some s =>
    rw [valueOrSelf_of_some found] at inside
    exact .inr ⟨s, mem_values_of_valueFor? found, inside⟩
  | none =>
    rw [valueOrSelf_of_none found] at inside
    cases List.mem_singleton.1 inside
    exact .inl before

/-- Where no variable with a value is open in a value, none is open in the result. -/
theorem Ty.Settled.untouched_subst (settled : t.Settled)
    (apart : (bindings.map (TyVar.key u)).Nodup)
    (inert : ∀ s ∈ valuesOf bindings, s.Untouched u raw bindings) :
    (t.subst u raw bindings).Untouched u raw bindings := by
  intro w value bound inside
  obtain ⟨v, -, inside⟩ := settled.mem_openIds_subst.1 inside
  cases found : valueFor? u bindings v with
  | some s =>
    rw [valueOrSelf_of_some found] at inside
    exact inert s (mem_values_of_valueFor? found) w value bound inside
  | none =>
    rw [valueOrSelf_of_none found] at inside
    rw [valueFor?_of_mem apart bound (List.mem_singleton.1 inside)] at found
    cases found

/-- Substitution has a fixed point: it leaves types alone that have none of its variables open; where
the values have none open, the result has none open and stays the same from then on; and nothing is
open in a result that was open neither before nor in a value. -/
theorem Ty.Settled.subst_reaches_fixedPoint (settled : t.Settled) (rebound : t.Rebound u)
    (values : ∀ s ∈ valuesOf bindings, s.Settled ∧ s.Rebound u)
    (apart : (bindings.map (TyVar.key u)).Nodup) (raw : RawClasses) :
    (t.Untouched u raw bindings → t.subst u raw bindings = t) ∧
    ((∀ s ∈ valuesOf bindings, s.Untouched u raw bindings) →
      (t.subst u raw bindings).Untouched u raw bindings ∧
        (t.subst u raw bindings).subst u raw bindings = t.subst u raw bindings) ∧
    ∀ id ∈ (t.subst u raw bindings).openIds u raw,
      id ∈ t.openIds u raw ∨ ∃ s ∈ valuesOf bindings, id ∈ s.openIds u raw := by
  refine ⟨settled.subst_eq_self rebound, fun inert => ?_, settled.openIds_subst_subset⟩
  have untouched := settled.untouched_subst apart inert
  have settledAfter : (t.subst u raw bindings).Settled := settled.subst fun s value => (values s value).1
  have reboundAfter : (t.subst u raw bindings).Rebound u :=
    settled.rebound_subst fun s value => (values s value).2
  exact ⟨untouched, settledAfter.subst_eq_self reboundAfter untouched⟩

end fixedPoints

namespace Pairs

/-- `Pair<Pair, A[]>`, with a pair without arguments. -/
def rawInPair : DeclType := .applied pair [.ofClass pair, .array (.variable a)]

def rawInPairType : Ty :=
  .applied pair [.bound a (.ofClass pair), .bound b (.array (.variable (.free a)))]

theorem resolve_rawInPair : rawInPair.resolve classes = .ok rawInPairType := rfl

/-- `Pair<Pair<Object, B>, Object[]>`: the pair without arguments is applied, and then nothing more
happens. In scope it stays as it is. -/
theorem subst_rawInPair :
    rawInPairType.substitute classes objectForA =
        .applied pair [.bound a (.applied pair [.bound a (.ofClass Universe.object), .free b]),
          .bound b (.array (.ofClass Universe.object))] ∧
      rawInPairType.resolveInScope classes objectForA =
        .applied pair [.bound a (.ofClass pair), .bound b (.array (.ofClass Universe.object))] ∧
      ∀ raw, (rawInPairType.subst classes raw objectForA).subst classes raw objectForA =
        rawInPairType.subst classes raw objectForA := by
  refine ⟨rfl, rfl, fun raw => ?_⟩
  have root : (DeclType.ofClass Universe.object).resolve classes =
      .ok (.ofClass Universe.object) := rfl
  have only : ∀ s ∈ valuesOf objectForA, s = .ofClass Universe.object :=
    fun s value => List.mem_singleton.1 value
  have values : ∀ s ∈ valuesOf objectForA, s.Settled ∧ s.Rebound classes := by
    intro s value
    rw [only s value]
    exact ⟨DeclType.settled_of_resolve root, DeclType.rebound_of_resolve root⟩
  have inert : ∀ s ∈ valuesOf objectForA, s.Untouched classes raw objectForA := by
    intro s value v w _
    rw [only s value]
    cases raw <;> exact List.not_mem_nil
  have apart : (objectForA.map (TyVar.key classes)).Nodup := by decide
  obtain ⟨-, settles, -⟩ := (DeclType.settled_of_resolve resolve_rawInPair).subst_reaches_fixedPoint
    (DeclType.rebound_of_resolve resolve_rawInPair) values apart raw
  exact (settles inert).2

end Pairs

end JavaTypes
