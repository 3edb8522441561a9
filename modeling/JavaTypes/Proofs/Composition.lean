import JavaTypes.Proofs.Occurrences
import JavaTypes.Universe.Edit
import Mathlib.Data.Set.Function

/-!
Substitution one variable at a time. Substituting and binding commute, whether or not a binding to
its own variable is dropped; so two substitutions in a row are one substitution wherever they agree
on free variables and on classes without arguments. In scope this gives a single binding list that
acts like two lists one after the other.
-/
namespace JavaTypes

variable (u : Universe)

/-- What bindings put in the place of a free variable. -/
def valueOrSelf (bindings : List TyVar) (v : VarRef) : Ty :=
  (valueFor? u bindings v).getD (.variable (.free v))

section lookup

variable {u}

@[simp] theorem valueFor?_nil (v : VarRef) : valueFor? u [] v = none := rfl

theorem valueFor?_cons (b : TyVar) (rest : List TyVar) (v : VarRef) :
    valueFor? u (b :: rest) v =
      if b.key u = u.varKey v then b.value? else valueFor? u rest v := by
  by_cases same : b.key u = u.varKey v <;> simp [valueFor?, same]

theorem valueFor?_congr {v w : VarRef} (same : u.varKey v = u.varKey w) (bindings : List TyVar) :
    valueFor? u bindings v = valueFor? u bindings w := by
  simp only [valueFor?, same]

theorem valueFor?_append_of_absent {first : List TyVar} {v : VarRef}
    (absent : ∀ b ∈ first, b.key u ≠ u.varKey v) (second : List TyVar) :
    valueFor? u (first ++ second) v = valueFor? u second v := by
  induction first with
  | nil => rfl
  | cons b rest ih =>
    rw [List.cons_append, valueFor?_cons, if_neg (absent b List.mem_cons_self)]
    exact ih fun b' member => absent b' (List.mem_cons_of_mem b member)

theorem valueFor?_append_of_free {second : List TyVar} (free : ∀ b ∈ second, b.value? = none)
    (first : List TyVar) (v : VarRef) : valueFor? u (first ++ second) v = valueFor? u first v := by
  induction first with
  | nil =>
    induction second with
    | nil => rfl
    | cons b rest ih =>
      obtain ⟨none, others⟩ := List.forall_mem_cons.1 free
      rw [List.nil_append, valueFor?_cons]
      split
      · exact none
      · exact ih others
  | cons b rest ih => rw [List.cons_append, valueFor?_cons, valueFor?_cons, ih]

theorem valueFor?_of_absent {bindings : List TyVar} {v : VarRef}
    (absent : ∀ b ∈ bindings, b.key u ≠ u.varKey v) : valueFor? u bindings v = none := by
  simpa using valueFor?_append_of_absent absent []

theorem bound_mem_of_valueFor? {bindings : List TyVar} {v : VarRef} {t : Ty}
    (found : valueFor? u bindings v = some t) :
    ∃ w, u.varKey w = u.varKey v ∧ .bound w t ∈ bindings := by
  induction bindings with
  | nil => simp at found
  | cons b rest ih =>
    rw [valueFor?_cons] at found
    by_cases same : b.key u = u.varKey v
    · rw [if_pos same] at found
      cases b with
      | free w => simp [TyVar.value?] at found
      | bound w s =>
        cases found
        exact ⟨w, same, List.mem_cons_self⟩
    · rw [if_neg same] at found
      obtain ⟨w, key, member⟩ := ih found
      exact ⟨w, key, List.mem_cons_of_mem b member⟩

/-- Where ids differ, a binding is found wherever it stands. -/
theorem valueFor?_of_mem {bindings : List TyVar} {v w : VarRef} {t : Ty}
    (apart : (bindings.map (TyVar.key u)).Nodup) (member : .bound w t ∈ bindings)
    (key : u.varKey w = u.varKey v) : valueFor? u bindings v = some t := by
  induction bindings with
  | nil => simp at member
  | cons b rest ih =>
    obtain ⟨fresh, apart⟩ := List.nodup_cons.1 apart
    rw [valueFor?_cons]
    rcases List.mem_cons.1 member with rfl | member
    · exact if_pos key
    · have other : b.key u ≠ u.varKey v := fun same =>
        fresh (List.mem_map.2 ⟨_, member, key.trans same.symm⟩)
      rw [if_neg other, ih apart member]

theorem mem_values_of_valueFor? {bindings : List TyVar} {v : VarRef} {t : Ty}
    (found : valueFor? u bindings v = some t) : t ∈ bindings.filterMap TyVar.value? := by
  obtain ⟨w, _, member⟩ := bound_mem_of_valueFor? found
  exact List.mem_filterMap.2 ⟨_, member, rfl⟩

theorem valueOrSelf_of_some {bindings : List TyVar} {v : VarRef} {t : Ty}
    (found : valueFor? u bindings v = some t) : valueOrSelf u bindings v = t := by
  simp [valueOrSelf, found]

theorem valueOrSelf_of_none {bindings : List TyVar} {v : VarRef}
    (absent : valueFor? u bindings v = none) :
    valueOrSelf u bindings v = .variable (.free v) := by
  simp [valueOrSelf, absent]

end lookup

namespace TyVar

variable {u}

@[simp] theorem value?_free (v : VarRef) : (free v).value? = none := rfl

@[simp] theorem value?_bound (v : VarRef) (t : Ty) : (bound v t).value? = some t := rfl

theorem bindTo_own {v : TyVar} {r : VarRef} (own : u.varKey r = v.key u) :
    v.bindTo u (.variable (.free r)) = .free v.ref := by
  simp [bindTo, own, unbound]

theorem bindTo_other {v : TyVar} {t : Ty}
    (other : ∀ r, t = .variable (.free r) → u.varKey r ≠ v.key u) :
    v.bindTo u t = .bound v.ref t := by
  unfold bindTo
  split
  · rename_i r
    rw [if_neg (other r rfl)]
  · rfl

/-- Binding gives a variable its value, or leaves it free where the value is the variable itself. -/
theorem bindTo_cases (v : TyVar) (t : Ty) :
    (∃ r, t = .variable (.free r) ∧ u.varKey r = v.key u ∧ v.bindTo u t = .free v.ref) ∨
      v.bindTo u t = .bound v.ref t := by
  by_cases own : ∃ r, t = .variable (.free r) ∧ u.varKey r = v.key u
  · obtain ⟨r, rfl, same⟩ := own
    exact .inl ⟨r, rfl, same, bindTo_own same⟩
  · exact .inr (bindTo_other fun r eq same => own ⟨r, eq, same⟩)

@[simp] theorem ref_bindTo (v : TyVar) (t : Ty) : (v.bindTo u t).ref = v.ref := by
  rcases bindTo_cases (u := u) v t with ⟨_, _, _, eq⟩ | eq <;> rw [eq] <;> rfl

@[simp] theorem key_bindTo (v : TyVar) (t : Ty) : (v.bindTo u t).key u = v.key u := by
  simp [key]

end TyVar

def TyVar.rebind (raw : RawClasses) (bindings : List TyVar) : TyVar → TyVar
  | .free v => rebindFree u bindings v
  | .bound v t => (TyVar.free v).bindTo u (t.subst u raw bindings)

section equations

variable {u} (raw : RawClasses) (bindings : List TyVar)

theorem rebindFree_eq (v : VarRef) :
    rebindFree u bindings v = (TyVar.free v).bindTo u (valueOrSelf u bindings v) := rfl

theorem substAll_eq_map (types : List Ty) :
    substAll u raw bindings types = types.map (Ty.subst u raw bindings) := by
  induction types with
  | nil => rfl
  | cons t rest ih => simp [substAll, ih]

theorem rebindAll_eq_map (vars : List TyVar) :
    rebindAll u raw bindings vars = vars.map (TyVar.rebind u raw bindings) := by
  induction vars with
  | nil => rfl
  | cons v rest ih => cases v <;> simp [rebindAll, TyVar.rebind, ih]

namespace Ty

@[simp] theorem subst_ofClass_kept (c : ClassId) :
    (Ty.ofClass c).subst u .kept bindings = .ofClass c := rfl

@[simp] theorem subst_applied (c : ClassId) (vars : List TyVar) :
    (Ty.applied c vars).subst u raw bindings =
      .applied c (vars.map (TyVar.rebind u raw bindings)) := by
  simp [Ty.subst, rebindAll_eq_map]

@[simp] theorem subst_free (v : VarRef) :
    (Ty.variable (.free v)).subst u raw bindings = valueOrSelf u bindings v := rfl

@[simp] theorem subst_wildcard (upper lower : List Ty) :
    (Ty.wildcard upper lower).subst u raw bindings =
      .wildcard (upper.map (Ty.subst u raw bindings)) (lower.map (Ty.subst u raw bindings)) := by
  simp [Ty.subst, substAll_eq_map]

@[simp] theorem subst_array (t : Ty) :
    (Ty.array t).subst u raw bindings = .array (t.subst u raw bindings) := rfl

end Ty

theorem Ty.subst_congr {bindings' : List TyVar}
    (same : ∀ v, valueFor? u bindings v = valueFor? u bindings' v) (t : Ty) :
    t.subst u raw bindings = t.subst u raw bindings' := by
  have free (v : VarRef) : rebindFree u bindings v = rebindFree u bindings' v := by
    simp only [rebindFree, same]
  induction t using Ty.inductionOn with
  | ofClass c => cases raw <;> simp only [Ty.subst, free]
  | free v => simp only [Ty.subst, same]
  | bound v t ih => simp only [Ty.subst, same, ih]
  | array t ih => simp only [Ty.subst_array, ih]
  | wildcard upper lower ihUpper ihLower =>
    rw [Ty.subst_wildcard, Ty.subst_wildcard, List.map_congr_left ihUpper,
      List.map_congr_left ihLower]
  | applied c vars ih =>
    rw [Ty.subst_applied, Ty.subst_applied]
    congr 1
    refine List.map_congr_left fun b member => ?_
    cases b with
    | free v => exact free v
    | bound v t => exact congrArg ((TyVar.free v).bindTo u) (ih v t member)

theorem rebind_bindTo (v : VarRef) (t : Ty) :
    ((TyVar.free v).bindTo u t).rebind u raw bindings =
      (TyVar.free v).bindTo u (t.subst u raw bindings) := by
  rcases TyVar.bindTo_cases (u := u) (.free v) t with ⟨r, rfl, same, eq⟩ | eq
  · rw [eq, Ty.subst_free]
    change rebindFree u bindings v = _
    rw [rebindFree_eq]
    -- Both look up the same id; without a value both leave the variable free.
    cases found : valueFor? u bindings v with
    | some s =>
      rw [valueOrSelf_of_some found, valueOrSelf_of_some ((valueFor?_congr same _).trans found)]
    | none =>
      rw [valueOrSelf_of_none found, valueOrSelf_of_none ((valueFor?_congr same _).trans found),
        TyVar.bindTo_own (v := .free v) (r := v) rfl, TyVar.bindTo_own same]
  · rw [eq]
    rfl

end equations

/-- Two substitutions in a row act like one that does what they do to free variables and to classes
without arguments. -/
theorem Ty.Settled.subst_subst {u : Universe} {t : Ty} (settled : t.Settled)
    {raw₁ raw₂ raw : RawClasses} {first second bindings : List TyVar}
    (values : ∀ v ∈ t.freeVars,
      (valueOrSelf u first v).subst u raw₂ second = valueOrSelf u bindings v)
    (classes : ∀ c ∈ t.rawClasses, ((Ty.ofClass c).subst u raw₁ first).subst u raw₂ second =
      (Ty.ofClass c).subst u raw bindings) :
    (t.subst u raw₁ first).subst u raw₂ second = t.subst u raw bindings := by
  induction settled with
  | ofClass c => exact classes c (by simp [Ty.rawClasses])
  | free v => exact values v (by simp [Ty.freeVars])
  | array t _ ih =>
    simp only [Ty.subst_array]
    rw [ih values classes]
  | wildcard upper lower _ _ ihUpper ihLower =>
    simp only [Ty.freeVars, Ty.rawClasses, Ty.gather_wildcard, List.mem_append,
      List.mem_flatMap] at values classes
    simp only [Ty.subst_wildcard, List.map_map]
    congr 1 <;> refine List.map_congr_left fun t member => ?_
    · exact ihUpper t member (fun v occurs => values v (.inl ⟨t, member, occurs⟩))
        fun c occurs => classes c (.inl ⟨t, member, occurs⟩)
    · exact ihLower t member (fun v occurs => values v (.inr ⟨t, member, occurs⟩))
        fun c occurs => classes c (.inr ⟨t, member, occurs⟩)
  | applied c bindings' _ ih =>
    simp only [Ty.freeVars, Ty.rawClasses, Ty.gather_applied, List.mem_flatMap] at values classes
    simp only [Ty.subst_applied, List.map_map]
    congr 1
    refine List.map_congr_left fun b member => ?_
    cases b with
    | free v =>
      have value := values v ⟨.free v, member, by simp⟩
      change (rebindFree u first v).rebind u raw₂ second = rebindFree u bindings v
      rw [rebindFree_eq, rebind_bindTo, value, rebindFree_eq]
    | bound v s =>
      have inner := ih v s member
        (fun w occurs => values w ⟨_, member, by simpa [Ty.freeVars] using occurs⟩)
        fun d occurs => classes d ⟨_, member, by simpa [Ty.rawClasses] using occurs⟩
      change ((TyVar.free v).bindTo u (s.subst u raw₁ first)).rebind u raw₂ second =
        (TyVar.free v).bindTo u (s.subst u raw bindings)
      rw [rebind_bindTo, inner]

def valuesOf (bindings : List TyVar) : List Ty := bindings.filterMap TyVar.value?

/-- A variable that is the whole result of a substitution was there before or came with a value. -/
theorem mem_freeVars_of_subst_eq_free {u : Universe} {t : Ty} {raw : RawClasses}
    {bindings : List TyVar} {r : VarRef}
    (result : t.subst u raw bindings = .variable (.free r)) :
    r ∈ t.freeVars ++ (valuesOf bindings).flatMap Ty.freeVars := by
  have found {v : VarRef} (value : valueFor? u bindings v = some (.variable (.free r))) :
      r ∈ (valuesOf bindings).flatMap Ty.freeVars :=
    List.mem_flatMap.2 ⟨_, mem_values_of_valueFor? value, by simp [Ty.freeVars]⟩
  induction t using Ty.inductionOn with
  | ofClass c => cases raw <;> simp only [Ty.subst] at result <;> grind
  | applied | wildcard | array => simp at result
  | free v =>
    cases value : valueFor? u bindings v with
    | some s =>
      rw [Ty.subst_free, valueOrSelf_of_some value] at result
      exact List.mem_append_right _ (found (result ▸ value))
    | none =>
      rw [Ty.subst_free, valueOrSelf_of_none value] at result
      cases result
      simp [Ty.freeVars]
  | bound v s ih =>
    cases value : valueFor? u bindings v with
    | some s =>
      simp only [Ty.subst, value, Option.getD_some] at result
      exact List.mem_append_right _ (found (result ▸ value))
    | none =>
      simp only [Ty.subst, value, Option.getD_none] at result
      simpa [Ty.freeVars] using ih result

/-- One binding list that acts in scope like two lists one after the other: the values of the first
go through the second, then the second follows. -/
def bindThen (first second : List TyVar) : List TyVar :=
  (first.filterMap fun b => b.value?.map fun t => b.bindTo u (t.resolveInScope u second)) ++ second

theorem valueOrSelf_bindThen {u : Universe} {first second : List TyVar} {v : VarRef}
    (apart : (first.map (TyVar.key u)).Nodup)
    (own : ∀ t ∈ valuesOf first, ∀ r,
      t.resolveInScope u second = .variable (.free r) → u.varKey r = u.varKey v → r = v) :
    (valueOrSelf u first v).resolveInScope u second =
      valueOrSelf u (bindThen u first second) v := by
  induction first with
  | nil => rfl
  | cons b rest ih =>
    obtain ⟨fresh, apart⟩ := List.nodup_cons.1 apart
    have tail := ih apart fun t member => own t (by
      cases b <;> simp [valuesOf, TyVar.value?] at member ⊢ <;> grind)
    by_cases same : b.key u = u.varKey v
    · cases b with
      | free w =>
        -- A free binding hides the variable from the rest of the first list only.
        have absent : ∀ b' ∈ rest, b'.key u ≠ u.varKey v := fun b' member eq =>
          fresh (List.mem_map.2 ⟨b', member, eq.trans same.symm⟩)
        rw [valueOrSelf_of_none (by rw [valueFor?_cons, if_pos same]; rfl)]
        rw [valueOrSelf_of_none (valueFor?_of_absent absent)] at tail
        exact tail
      | bound w t =>
        rw [valueOrSelf_of_some (by rw [valueFor?_cons, if_pos same]; rfl)]
        have lookup : valueFor? u (bindThen u (.bound w t :: rest) second) v =
            ((TyVar.bound w t).bindTo u (t.resolveInScope u second)).value? := by
          simp only [bindThen, List.filterMap_cons, TyVar.value?_bound, Option.map_some,
            List.cons_append]
          rw [valueFor?_cons, TyVar.key_bindTo, if_pos same]
        rcases TyVar.bindTo_cases (u := u) (.bound w t) (t.resolveInScope u second) with
          ⟨r, eq, key, dropped⟩ | kept
        · rw [dropped] at lookup
          rw [valueOrSelf_of_none lookup, eq,
            own t (by simp [valuesOf, TyVar.value?]) r eq (key.trans same)]
        · rw [kept] at lookup
          rw [valueOrSelf_of_some lookup]
    · have skip : valueOrSelf u (b :: rest) v = valueOrSelf u rest v := by
        simp only [valueOrSelf, valueFor?_cons, if_neg same]
      have skip' : valueOrSelf u (bindThen u (b :: rest) second) v =
          valueOrSelf u (bindThen u rest second) v := by
        cases b with
        | free w => rfl
        | bound w t =>
          simp only [bindThen, valueOrSelf, List.filterMap_cons, TyVar.value?_bound,
            Option.map_some, List.cons_append, valueFor?_cons, TyVar.key_bindTo, if_neg same]
      rw [skip, skip', tail]

/-- Substitution in scope composes, and its bindings act all at once: a value that takes the place of
a variable is not looked into again. -/
theorem Ty.resolveInScope_resolveInScope {u : Universe} {t : Ty} {first second : List TyVar}
    (settled : t.Settled) (apart : (first.map (TyVar.key u)).Nodup)
    (ids : Set.InjOn u.varKey {v | v ∈ t.freeVars ++ (valuesOf first).flatMap Ty.freeVars ++
      (valuesOf second).flatMap Ty.freeVars}) :
    (t.resolveInScope u first).resolveInScope u second =
        t.resolveInScope u (bindThen u first second) ∧
      ∀ v w s, .bound w s ∈ first → u.varKey w = u.varKey v →
        (Ty.variable (.free v)).resolveInScope u first = s := by
  constructor
  · refine settled.subst_subst (fun v occurs => valueOrSelf_bindThen apart ?_) fun c _ => rfl
    intro s value r result key
    have origin := mem_freeVars_of_subst_eq_free result
    refine ids ?_ ?_ key
    · rcases List.mem_append.1 origin with inside | inside
      · exact List.mem_append_left _ (List.mem_append_right _ (List.mem_flatMap.2 ⟨s, value, inside⟩))
      · exact List.mem_append_right _ inside
    · exact List.mem_append_left _ (List.mem_append_left _ occurs)
  · intro v w s member key
    exact valueOrSelf_of_some (valueFor?_of_mem apart member key)

namespace Pairs

def classes : Universe :=
  (Universe.initial.defineClass "Pair" [.typeParam "A" [], .typeParam "B" []]).2

def pair : ClassId := ⟨10⟩
def a : VarRef := ⟨.ofClass pair, 0⟩
def b : VarRef := ⟨.ofClass pair, 1⟩

/-- `Pair<B, A[]>` -/
def swappedPair : Ty :=
  .applied pair [.bound a (.variable (.free b)), .bound b (.array (.variable (.free a)))]

def swap : List TyVar := [.bound a (.variable (.free b)), .bound b (.variable (.free a))]

def objectForA : List TyVar := [.bound a (.ofClass Universe.object)]

theorem settled_swappedPair : swappedPair.Settled := by
  refine .applied _ _ fun v t member => ?_
  simp only [List.mem_cons, TyVar.bound.injEq, List.not_mem_nil, or_false] at member
  rcases member with ⟨rfl, rfl⟩ | ⟨rfl, rfl⟩
  · exact .free _
  · exact .array _ (.free _)

/-- The two substitutions meet in `Pair<Object, B[]>`, where one list alone would swap only. -/
theorem swap_resolveInScope_resolveInScope :
    (swap.map (TyVar.key classes)).Nodup ∧
      (swappedPair.resolveInScope classes swap).resolveInScope classes objectForA =
        .applied pair [.bound a (.ofClass Universe.object),
          .bound b (.array (.variable (.free b)))] ∧
      swappedPair.resolveInScope classes (bindThen classes swap objectForA) =
        .applied pair [.bound a (.ofClass Universe.object),
          .bound b (.array (.variable (.free b)))] ∧
      (Ty.variable (.free a)).resolveInScope classes swap = .variable (.free b) := by
  have apart : (swap.map (TyVar.key classes)).Nodup := by decide
  have each : ∀ v ∈ [b, a, b, a], ∀ w ∈ [b, a, b, a],
      classes.varKey v = classes.varKey w → v = w := by decide
  have ids : Set.InjOn classes.varKey {v | v ∈ swappedPair.freeVars ++
      (valuesOf swap).flatMap Ty.freeVars ++ (valuesOf objectForA).flatMap Ty.freeVars} :=
    fun v left w right => each v left w right
  obtain ⟨composed, once⟩ := Ty.resolveInScope_resolveInScope settled_swappedPair apart ids
  have twice : (swappedPair.resolveInScope classes swap).resolveInScope classes objectForA =
      .applied pair [.bound a (.ofClass Universe.object),
        .bound b (.array (.variable (.free b)))] := by rfl
  exact ⟨apart, twice, composed ▸ twice, once a a _ List.mem_cons_self rfl⟩

end Pairs

end JavaTypes
