import JavaTypes.Proofs.Preservation

/-!
Normal form. A type is in normal form if no wildcard in it is bounded by the root class and no
generic array in it has a class without arguments as its element. Resolution makes types in normal
form. Substitution does not look at what it puts into a bound or an element: the result is in normal
form exactly if no bound variable gets the root class and no element variable a bare class.
-/
namespace JavaTypes

namespace Ty

/-- The types that make up a type: the type itself and those in its bindings, its value, its bounds
and its element. -/
inductive Part : Ty → Ty → Prop where
  | self (t : Ty) : Part t t
  | argument {p s : Ty} {c : ClassId} {bindings : List TyVar} {v : VarRef} :
      .bound v s ∈ bindings → Part p s → Part p (.applied c bindings)
  | value {p s : Ty} {v : VarRef} : Part p s → Part p (.variable (.bound v s))
  | upper {p s : Ty} {upper lower : List Ty} :
      s ∈ upper → Part p s → Part p (.wildcard upper lower)
  | lower {p s : Ty} {upper lower : List Ty} :
      s ∈ lower → Part p s → Part p (.wildcard upper lower)
  | element {p s : Ty} : Part p s → Part p (.array s)

/-- Some wildcard in the type has the bound among its upper bounds. -/
def Bounds (t bound : Ty) : Prop :=
  ∃ upper lower, Part (.wildcard upper lower) t ∧ bound ∈ upper

def Holds (t element : Ty) : Prop := Part (.array element) t

/-- No wildcard repeats the bound every type has, and arrays of classes are classes. -/
structure Normal (t : Ty) : Prop where
  bounds : ¬ t.Bounds (.ofClass Universe.object)
  elements : ∀ c, ¬ t.Holds (.ofClass c)

theorem Settled.part {s t : Ty} (settled : t.Settled) (part : Part s t) : s.Settled := by
  induction part with
  | self => exact settled
  | argument member _ ih =>
    cases settled with
    | applied _ _ inner => exact ih (inner _ _ member)
  | value => cases settled
  | upper member _ ih =>
    cases settled with
    | wildcard _ _ uppers _ => exact ih (uppers _ member)
  | lower member _ ih =>
    cases settled with
    | wildcard _ _ _ lowers => exact ih (lowers _ member)
  | element _ ih =>
    cases settled with
    | array _ inner => exact ih inner

theorem normal_ofClass (c : ClassId) : (Ty.ofClass c).Normal := ⟨nofun, nofun⟩

theorem normal_free (v : VarRef) : (Ty.variable (.free v)).Normal := ⟨nofun, nofun⟩

theorem normal_applied {c : ClassId} {bindings : List TyVar}
    (values : ∀ v s, .bound v s ∈ bindings → s.Normal) : (Ty.applied c bindings).Normal where
  bounds := by
    rintro ⟨upper, lower, inside, member⟩
    cases inside with
    | argument bound inside => exact (values _ _ bound).bounds ⟨upper, lower, inside, member⟩
  elements := by
    intro c inside
    cases inside with
    | argument bound inside => exact (values _ _ bound).elements c inside

theorem normal_wildcard {upper lower : List Ty} (proper : .ofClass Universe.object ∉ upper)
    (uppers : ∀ s ∈ upper, s.Normal) (lowers : ∀ s ∈ lower, s.Normal) :
    (Ty.wildcard upper lower).Normal where
  bounds := by
    rintro ⟨upper', lower', inside, member⟩
    cases inside with
    | self => exact proper member
    | upper bound inside => exact (uppers _ bound).bounds ⟨upper', lower', inside, member⟩
    | lower bound inside => exact (lowers _ bound).bounds ⟨upper', lower', inside, member⟩
  elements := by
    intro c inside
    cases inside with
    | upper bound inside => exact (uppers _ bound).elements c inside
    | lower bound inside => exact (lowers _ bound).elements c inside

theorem normal_array {s : Ty} (proper : ∀ c, s ≠ .ofClass c) (normal : s.Normal) :
    (Ty.array s).Normal where
  bounds := by
    rintro ⟨upper, lower, inside, member⟩
    cases inside with
    | element inside => exact normal.bounds ⟨upper, lower, inside, member⟩
  elements := by
    intro c inside
    cases inside with
    | self => exact proper c rfl
    | element inside => exact normal.elements c inside

end Ty

namespace DeclType

inductive Part : DeclType → DeclType → Prop where
  | self (t : DeclType) : Part t t
  | argument {p s : DeclType} {c : ClassId} {args : List DeclType} :
      s ∈ args → Part p s → Part p (.applied c args)
  | upper {p s : DeclType} {upper lower : List DeclType} :
      s ∈ upper → Part p s → Part p (.wildcard upper lower)
  | lower {p s : DeclType} {upper lower : List DeclType} :
      s ∈ lower → Part p s → Part p (.wildcard upper lower)
  | element {p s : DeclType} : Part p s → Part p (.array s)

/-- Type variables, classes with arguments and arrays of such. -/
def isGeneric : DeclType → Bool
  | .applied _ _ => true
  | .variable _ => true
  | .array _ => true
  | .ofClass _ => false
  | .wildcard _ _ => false
  | .other _ => false

def GenericElements (t : DeclType) : Prop :=
  ∀ element, Part (.array element) t → element.isGeneric = true

variable {u : Universe}

theorem eq_ofClass_of_resolve {t : DeclType} {c : ClassId}
    (resolved : t.resolve u = .ok (.ofClass c)) : t = .ofClass c := by
  match t, resolved with
  | .ofClass _, resolved =>
    cases resolved
    rfl
  | .applied _ _, resolved =>
    obtain ⟨_, -, same⟩ := bind_eq_ok.1 resolved
    cases same
  | .wildcard _ _, resolved =>
    obtain ⟨_, -, rest⟩ := bind_eq_ok.1 resolved
    obtain ⟨_, -, same⟩ := bind_eq_ok.1 rest
    cases same
  | .array _, resolved =>
    obtain ⟨_, -, same⟩ := bind_eq_ok.1 resolved
    cases same

theorem normal_of_resolve {t : DeclType} {r : Ty} (resolved : t.resolve u = .ok r) :
    t.GenericElements → r.Normal := by
  have each {args : List DeclType} {types : List Ty}
      (all : List.Forall₂ (fun t r => t.resolve u = .ok r ∧ (t.GenericElements → r.Normal))
        args types) (generic : ∀ t ∈ args, t.GenericElements) :
      ∀ s ∈ types, s.Normal := fun s member =>
    let ⟨t, inside, _, normal⟩ := exists_left_of_mem all member
    normal (generic t inside)
  refine resolve_induction ?ofClass ?applied ?free ?wildcard ?array t r resolved
  case ofClass => exact fun c _ => Ty.normal_ofClass c
  case free => exact fun v _ => Ty.normal_free v
  case applied =>
    refine fun c args types all generic => Ty.normal_applied fun v s member => ?_
    obtain ⟨_, -, -, a, arg, eq⟩ := mem_bindings_apply member
    obtain ⟨-, rfl⟩ := TyVar.of_bindTo_eq_bound eq.symm
    exact each all (fun t inside e part => generic e (.argument inside part)) s arg
  case wildcard =>
    intro upper lower uppers lowers allUpper allLower generic
    refine Ty.normal_wildcard (fun root => ?_) ?_ ?_
    · obtain ⟨t, kept, resolved, -⟩ := exists_left_of_mem allUpper root
      rw [eq_ofClass_of_resolve resolved] at kept
      simpa [isRoot] using (List.mem_filter.1 kept).2
    · exact each allUpper fun t inside e part =>
        generic e (.upper (List.mem_of_mem_filter inside) part)
    · exact each allLower fun t inside e part =>
        generic e (.lower (List.mem_of_mem_filter inside) part)
  case array =>
    intro t r resolved normal generic
    refine Ty.normal_array (fun c bare => ?_) (normal fun e part => generic e (.element part))
    have element := generic t (.self _)
    subst bare
    rw [eq_ofClass_of_resolve resolved] at element
    cases element

end DeclType

section substitution

variable {u : Universe} {raw : RawClasses} {bindings : List TyVar}

theorem valueFor?_of_rebindFree_eq_bound {v w : VarRef} {s : Ty}
    (eq : rebindFree u bindings v = .bound w s) : valueFor? u bindings v = some s := by
  rw [rebindFree_eq] at eq
  cases found : valueFor? u bindings v with
  | some value =>
    rw [valueOrSelf_of_some found] at eq
    obtain ⟨-, rfl⟩ := TyVar.of_bindTo_eq_bound eq
    rfl
  | none =>
    have own : (TyVar.free v).bindTo u (.variable (.free v)) = .free v := TyVar.bindTo_own rfl
    rw [valueOrSelf_of_none found, own] at eq
    cases eq

/-- What a class becomes under substitution consists of itself and of values. -/
theorem Ty.Part.of_subst_ofClass {c : ClassId} {p : Ty}
    (part : Part p ((Ty.ofClass c).subst u raw bindings)) :
    p = (Ty.ofClass c).subst u raw bindings ∨ ∃ s ∈ valuesOf bindings, Part p s := by
  cases raw with
  | kept =>
    cases part
    exact .inl rfl
  | filled =>
    rcases subst_ofClass_filled (u := u) bindings c with eq | ⟨eq, -⟩
    · rw [eq] at part ⊢
      cases part with
      | self => exact .inl rfl
      | argument member inside =>
        obtain ⟨v, -, eq⟩ := List.mem_map.1 member
        have found := valueFor?_of_rebindFree_eq_bound eq
        exact .inr ⟨_, mem_values_of_valueFor? found, inside⟩
    · rw [eq] at part ⊢
      cases part
      exact .inl rfl

/-- A part of a substituted type is a part after substitution or part of a value. -/
theorem Ty.Settled.part_of_subst {t : Ty} (settled : t.Settled) {p : Ty}
    (part : Part p (t.subst u raw bindings)) :
    (∃ q, Part q t ∧ p = q.subst u raw bindings) ∨ ∃ s ∈ valuesOf bindings, Part p s := by
  induction settled with
  | ofClass c =>
    exact (Part.of_subst_ofClass part).imp_left fun eq => ⟨_, .self _, eq⟩
  | free v =>
    cases found : valueFor? u bindings v with
    | some s =>
      rw [Ty.subst_free, valueOrSelf_of_some found] at part
      exact .inr ⟨s, mem_values_of_valueFor? found, part⟩
    | none =>
      refine .inl ⟨_, .self _, ?_⟩
      rw [Ty.subst_free, valueOrSelf_of_none found] at part ⊢
      cases part
      rfl
  | array t _ ih =>
    cases part with
    | self => exact .inl ⟨_, .self _, rfl⟩
    | element inside => exact (ih inside).imp_left fun ⟨q, inside, eq⟩ => ⟨q, .element inside, eq⟩
  | wildcard upper lower _ _ ihUpper ihLower =>
    have whole := Ty.subst_wildcard (u := u) raw bindings upper lower
    rw [whole] at part
    cases part with
    | self => exact .inl ⟨_, .self _, whole.symm⟩
    | upper member inside =>
      obtain ⟨t, bound, rfl⟩ := List.mem_map.1 member
      exact (ihUpper t bound inside).imp_left fun ⟨q, inside, eq⟩ => ⟨q, .upper bound inside, eq⟩
    | lower member inside =>
      obtain ⟨t, bound, rfl⟩ := List.mem_map.1 member
      exact (ihLower t bound inside).imp_left fun ⟨q, inside, eq⟩ => ⟨q, .lower bound inside, eq⟩
  | applied c vars _ ih =>
    have whole := Ty.subst_applied (u := u) raw bindings c vars
    rw [whole] at part
    cases part with
    | self => exact .inl ⟨_, .self _, whole.symm⟩
    | argument member inside =>
      obtain ⟨b, bound, eq⟩ := List.mem_map.1 member
      cases b with
      | free v =>
        -- The binding had no value before, so the part is inside the one it was given.
        have found := valueFor?_of_rebindFree_eq_bound eq
        exact .inr ⟨_, mem_values_of_valueFor? found, inside⟩
      | bound v t =>
        obtain ⟨-, rfl⟩ := TyVar.of_bindTo_eq_bound eq
        exact (ih v t bound inside).imp_left fun ⟨q, inside, eq⟩ => ⟨q, .argument bound inside, eq⟩

/-- Substitution keeps the form of a type where it neither puts in a value nor applies a class. -/
theorem Ty.Settled.kind_subst {t : Ty} (settled : t.Settled) (raw : RawClasses)
    (bindings : List TyVar) :
    (∃ v, t = .variable (.free v) ∧ valueFor? u bindings v = some (t.subst u raw bindings)) ∨
      (t.subst u raw bindings).kind = t.kind ∨
      t.kind = .ofClass ∧ (t.subst u raw bindings).kind = .applied := by
  cases settled with
  | ofClass c =>
    cases raw with
    | kept => exact .inr (.inl rfl)
    | filled =>
      rcases subst_ofClass_filled (u := u) bindings c with eq | ⟨eq, -⟩ <;> rw [eq]
      · exact .inr (.inr ⟨rfl, rfl⟩)
      · exact .inr (.inl rfl)
  | free v =>
    cases found : valueFor? u bindings v with
    | some s => exact .inl ⟨v, rfl, by rw [Ty.subst_free, valueOrSelf_of_some found]; exact found⟩
    | none => exact .inr (.inl (by rw [Ty.subst_free, valueOrSelf_of_none found]))
  | applied => exact .inr (.inl rfl)
  | wildcard => exact .inr (.inl rfl)
  | array => exact .inr (.inl rfl)

section results

variable {t : Ty} (settled : t.Settled)

include settled

theorem Ty.Settled.eq_free_of_subst {r : VarRef}
    (result : t.subst u raw bindings = .variable (.free r)) : ∃ v, t = .variable (.free v) := by
  rcases settled.kind_subst (u := u) raw bindings with
    ⟨v, eq, -⟩ | kind | ⟨-, kind⟩
  · exact ⟨v, eq⟩
  · rw [result] at kind
    cases settled with
    | free v => exact ⟨v, rfl⟩
    | _ => cases kind
  · rw [result] at kind
    cases kind

theorem Ty.Settled.of_subst_eq_ofClass {c : ClassId}
    (result : t.subst u raw bindings = .ofClass c) :
    t = .ofClass c ∨ ∃ v, t = .variable (.free v) ∧ valueFor? u bindings v = some (.ofClass c) := by
  rcases settled.kind_subst (u := u) raw bindings with
    ⟨v, eq, found⟩ | kind | ⟨-, kind⟩
  · exact .inr ⟨v, eq, result ▸ found⟩
  · left
    rw [result] at kind
    cases settled with
    | ofClass d =>
      cases raw with
      | kept => exact result
      | filled =>
        rcases subst_ofClass_filled (u := u) bindings d with eq | ⟨eq, -⟩ <;> rw [eq] at result
        · cases result
        · exact result
    | _ => cases kind
  · rw [result] at kind
    cases kind

theorem Ty.Settled.of_subst_eq_wildcard {upper lower : List Ty}
    (result : t.subst u raw bindings = .wildcard upper lower) :
    (∃ upper' lower', t = .wildcard upper' lower' ∧ upper = upper'.map (Ty.subst u raw bindings)) ∨
      .wildcard upper lower ∈ valuesOf bindings := by
  rcases settled.kind_subst (u := u) raw bindings with
    ⟨v, -, found⟩ | kind | ⟨-, kind⟩
  · exact .inr (mem_values_of_valueFor? (result ▸ found))
  · rw [result] at kind
    cases settled with
    | wildcard upper' lower' =>
      rw [Ty.subst_wildcard] at result
      cases result
      exact .inl ⟨upper', lower', rfl, rfl⟩
    | _ => cases kind
  · rw [result] at kind
    cases kind

theorem Ty.Settled.of_subst_eq_array {s : Ty} (result : t.subst u raw bindings = .array s) :
    (∃ s', t = .array s' ∧ s = s'.subst u raw bindings) ∨ .array s ∈ valuesOf bindings := by
  rcases settled.kind_subst (u := u) raw bindings with
    ⟨v, -, found⟩ | kind | ⟨-, kind⟩
  · exact .inr (mem_values_of_valueFor? (result ▸ found))
  · rw [result] at kind
    cases settled with
    | array s' =>
      cases result
      exact .inl ⟨s', rfl, rfl⟩
    | _ => cases kind
  · rw [result] at kind
    cases kind

end results

/-- Parts stay parts under substitution, but for free variables, which a binding may drop. -/
theorem Ty.Part.subst {q t : Ty} (part : Part q t) (settled : t.Settled)
    (proper : ∀ v, q ≠ .variable (.free v)) (raw : RawClasses) (bindings : List TyVar) :
    Part (q.subst u raw bindings) (t.subst u raw bindings) := by
  induction part with
  | self => exact .self _
  | @argument s c vars v member inside ih =>
    have inner : s.Settled := settled.shown _ member
    have kept : (TyVar.bound v s).rebind u raw bindings = .bound v (s.subst u raw bindings) := by
      refine TyVar.bindTo_other fun r result => ?_
      obtain ⟨w, rfl⟩ := inner.eq_free_of_subst result
      cases inside
      exact absurd rfl (proper w)
    rw [Ty.subst_applied]
    exact .argument (List.mem_map.2 ⟨_, member, kept⟩) (ih inner)
  | value => cases settled
  | upper member _ ih =>
    cases settled with
    | wildcard _ _ uppers _ =>
      rw [Ty.subst_wildcard]
      exact .upper (List.mem_map.2 ⟨_, member, rfl⟩) (ih (uppers _ member))
  | lower member _ ih =>
    cases settled with
    | wildcard _ _ _ lowers =>
      rw [Ty.subst_wildcard]
      exact .lower (List.mem_map.2 ⟨_, member, rfl⟩) (ih (lowers _ member))
  | element _ ih =>
    cases settled with
    | array _ inner => exact .element (ih inner)

/-- Substituting types in normal form breaks it only where the root class becomes a bound or a class
becomes an element. -/
theorem Ty.Normal.subst_iff {t : Ty} (normal : t.Normal) (settled : t.Settled)
    (values : ∀ s ∈ valuesOf bindings, s.Normal) :
    (t.subst u raw bindings).Normal ↔
      (∀ v, t.Bounds (.variable (.free v)) →
        valueFor? u bindings v ≠ some (.ofClass Universe.object)) ∧
      ∀ v c, t.Holds (.variable (.free v)) → valueFor? u bindings v ≠ some (.ofClass c) := by
  constructor
  · refine fun kept => ⟨?_, ?_⟩
    · rintro v ⟨upper, lower, inside, member⟩ found
      have moved := inside.subst (u := u) settled nofun raw bindings
      rw [Ty.subst_wildcard] at moved
      refine kept.bounds ⟨_, _, moved, List.mem_map.2 ⟨_, member, ?_⟩⟩
      exact valueOrSelf_of_some found
    · rintro v c inside found
      have moved := inside.subst (u := u) settled nofun raw bindings
      rw [Ty.subst_array, Ty.subst_free, valueOrSelf_of_some found] at moved
      exact kept.elements c moved
  · rintro ⟨bounds, elements⟩
    constructor
    · rintro ⟨upper, lower, inside, member⟩
      rcases settled.part_of_subst inside with ⟨q, part, eq⟩ | ⟨s, value, part⟩
      · rcases (settled.part part).of_subst_eq_wildcard eq.symm with ⟨upper', _, rfl, rfl⟩ | value
        · obtain ⟨b, bound, result⟩ := List.mem_map.1 member
          have inner := (settled.part part).part (.upper bound (.self b))
          rcases inner.of_subst_eq_ofClass result with rfl | ⟨v, rfl, found⟩
          · exact normal.bounds ⟨_, _, part, bound⟩
          · exact bounds v ⟨_, _, part, bound⟩ found
        · exact (values _ value).bounds ⟨upper, lower, .self _, member⟩
      · exact (values s value).bounds ⟨upper, lower, part, member⟩
    · intro c inside
      rcases settled.part_of_subst inside with ⟨q, part, eq⟩ | ⟨s, value, part⟩
      · rcases (settled.part part).of_subst_eq_array eq.symm with ⟨s, rfl, result⟩ | value
        · have inner := (settled.part part).part (.element (.self s))
          rcases inner.of_subst_eq_ofClass result.symm with rfl | ⟨v, rfl, found⟩
          · exact normal.elements c part
          · exact elements v c part found
        · exact (values _ value).elements c (.self _)
      · exact (values s value).elements c part

end substitution

/-- A resolved type in which resolved types are substituted, with classes without arguments kept or
applied, is in normal form exactly if no upper bound of a wildcard takes the root class as its value
and no element of an array takes a class without arguments. -/
theorem DeclType.normal_subst_iff {u : Universe} {t : DeclType} {r : Ty}
    (resolved : t.resolve u = .ok r) (generic : t.GenericElements) {bindings : List TyVar}
    (values : ∀ s ∈ valuesOf bindings,
      ∃ e : DeclType, e.GenericElements ∧ e.resolve u = .ok s) (raw : RawClasses) :
    (r.subst u raw bindings).Normal ↔
      (∀ v, r.Bounds (.variable (.free v)) →
        valueFor? u bindings v ≠ some (.ofClass Universe.object)) ∧
      ∀ v c, r.Holds (.variable (.free v)) → valueFor? u bindings v ≠ some (.ofClass c) := by
  refine (normal_of_resolve resolved generic).subst_iff (settled_of_resolve resolved) ?_
  intro s value
  obtain ⟨e, written, found⟩ := values s value
  exact normal_of_resolve found written

namespace Pairs

/-- `Pair<A[], ? extends A>` -/
def slot : DeclType := .applied pair [.array (.variable a), .wildcard [.variable a] []]

def slotType : Ty :=
  .applied pair [.bound a (.array (.variable (.free a))),
    .bound b (.wildcard [.variable (.free a)] [])]

theorem resolve_slot : slot.resolve classes = .ok slotType := rfl

theorem genericElements_slot : slot.GenericElements := by
  intro e part
  cases part with
  | argument member part =>
    simp only [List.mem_cons, List.not_mem_nil, or_false] at member
    rcases member with rfl | rfl
    · cases part with
      | self => rfl
      | element part => cases part
    · cases part with
      | upper member part =>
        cases List.mem_singleton.1 member
        cases part
      | lower member => cases member

def objects : DeclType := .applied pair [.ofClass Universe.object, .ofClass Universe.object]

def objectsType : Ty :=
  .applied pair [.bound a (.ofClass Universe.object), .bound b (.ofClass Universe.object)]

def objectsForA : List TyVar := [.bound a objectsType]

/-- An applied class may take the place of a bound and of an element. -/
theorem normal_slotOfObjects :
    (slotType.substitute classes objectsForA).Normal ∧
      (slotType.resolveInScope classes objectsForA).Normal := by
  have plain : objects.GenericElements := by
    intro e part
    cases part with
    | argument member part =>
      simp only [List.mem_cons, List.not_mem_nil, or_false, or_self] at member
      cases member
      cases part
  have written : ∀ s ∈ valuesOf objectsForA,
      ∃ e : DeclType, e.GenericElements ∧ e.resolve classes = .ok s := by
    intro s value
    cases List.mem_singleton.1 value
    exact ⟨objects, plain, rfl⟩
  have value {v : VarRef} {c : ClassId} : valueFor? classes objectsForA v ≠ some (.ofClass c) := by
    intro found
    cases List.mem_singleton.1 (mem_values_of_valueFor? found)
  have normal (raw : RawClasses) : (slotType.subst classes raw objectsForA).Normal :=
    (DeclType.normal_subst_iff resolve_slot genericElements_slot written raw).2
      ⟨fun _ _ => value, fun _ _ _ => value⟩
  exact ⟨normal .filled, normal .kept⟩

/-- The root class becomes a bound, and the element of a generic array. -/
theorem bounds_slotOfObject (raw : RawClasses) :
    (slotType.subst classes raw objectForA).Bounds (.ofClass Universe.object) ∧
      (slotType.subst classes raw objectForA).Holds (.ofClass Universe.object) := by
  have result : slotType.subst classes raw objectForA =
      .applied pair [.bound a (.array (.ofClass Universe.object)),
        .bound b (.wildcard [.ofClass Universe.object] [])] := by
    cases raw <;> rfl
  rw [result]
  constructor
  · exact ⟨_, [], .argument (List.mem_cons_of_mem _ List.mem_cons_self) (.self _),
      List.mem_singleton.2 rfl⟩
  · exact .argument List.mem_cons_self (.self _)

end Pairs

end JavaTypes
