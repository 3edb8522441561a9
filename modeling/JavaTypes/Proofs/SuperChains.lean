import JavaTypes.Proofs.AppliedFields
import JavaTypes.Proofs.PublicMethods
import JavaTypes.Proofs.SubstitutedSupers

/-!
Following super types. A type argument never decides which class comes next: each clause leads to
its own class, however large the arguments become on the way. So the classes met by going up from a
type are those the clauses name, from class to class, and a listing goes no deeper than there are
classes. A clause with a form in it that no type stands for ends the way up with a failure.
-/
namespace JavaTypes

variable {u : Universe}

namespace Universe

/-- The super class of a class, the super class of that one, and so on. -/
inductive SuperChain (u : Universe) : ClassId → List ClassId → Prop where
  | top {c : ClassId} : (u.decl c).superClass = none → SuperChain u c []
  | up {c d : ClassId} {clause : DeclType} {rest : List ClassId} :
      (u.decl c).superClass = some clause → clause.named? = some d → SuperChain u d rest →
      SuperChain u c (d :: rest)

/-- The super class clause cannot be resolved: no type stands for it. -/
def Blocked (u : Universe) (c : ClassId) : Prop :=
  ∃ clause, (u.decl c).superClass = some clause ∧ clause.Unsupported

/-- All super types of classes are written as classes or applied classes. -/
def NamesSupers (u : Universe) : Prop :=
  ∀ c ∈ u.ids, ∀ clause ∈ (u.decl c).clauses, clause.named?.isSome

end Universe

/-- The types met by asking a type for its super type, that one for its own, and so on, until there
is none or asking fails. -/
inductive Ty.Climbs (u : Universe) : Ty → List Ty → Option ReflectionError → Prop where
  | top {t : Ty} : t.superType u = .ok none → Climbs u t [] none
  | stuck {t : Ty} {e : ReflectionError} : t.superType u = .error e → Climbs u t [] (some e)
  | up {t s : Ty} {met : List Ty} {stop : Option ReflectionError} :
      t.superType u = .ok (some s) → Climbs u s met stop → Climbs u t (s :: met) stop

theorem Universe.mem_ids_of_clause {c : ClassId} {clause : DeclType}
    (member : clause ∈ (u.decl c).clauses) : c ∈ u.ids := by
  by_contra outside
  rw [decl_of_not_mem_ids outside] at member
  cases member

theorem ClassDecl.mem_clauses_of_superClass {d : ClassDecl} {clause : DeclType}
    (written : d.superClass = some clause) : clause ∈ d.clauses := by
  simp [clauses, written]

namespace Universe.SuperChain

theorem above {c : ClassId} {chain : List ClassId} (super : u.SuperChain c chain) :
    ∀ d ∈ chain, Relation.TransGen u.Extends c d := by
  induction super with
  | top => nofun
  | up written named _ ih =>
    have first : u.Extends _ _ := ⟨_, ClassDecl.mem_clauses_of_superClass written, named⟩
    exact List.forall_mem_cons.2 ⟨.single first, fun d member => .head first (ih d member)⟩

theorem nodup (acyclic : u.Acyclic) {c : ClassId} {chain : List ClassId}
    (super : u.SuperChain c chain) : (c :: chain).Nodup := by
  induction super with
  | top => exact List.nodup_singleton _
  | up written named rest ih =>
    refine List.nodup_cons.2 ⟨fun cycle => ?_, ih⟩
    exact acyclic _ ((SuperChain.up written named rest).above _ cycle)

/-- Each class of the chain but the last has a super class, so it is one of the universe. -/
theorem known {c : ClassId} {chain : List ClassId} (super : u.SuperChain c chain) :
    ∀ d ∈ (c :: chain).dropLast, d ∈ u.ids := by
  induction super with
  | top => nofun
  | up written _ _ ih =>
    exact List.forall_mem_cons.2
      ⟨mem_ids_of_clause (ClassDecl.mem_clauses_of_superClass written), ih⟩

theorem length_le_size (acyclic : u.Acyclic) {c : ClassId} {chain : List ClassId}
    (super : u.SuperChain c chain) : chain.length ≤ u.size := by
  have distinct := (super.nodup acyclic).sublist (List.dropLast_sublist _)
  calc
    chain.length = (c :: chain).dropLast.length := by simp
    _ ≤ u.ids.length := (List.subperm_of_subset distinct super.known).length_le
    _ = u.size := length_ids

end Universe.SuperChain

theorem Universe.Acyclic.exists_superChain (acyclic : u.Acyclic) (names : u.NamesSupers)
    (c : ClassId) : ∃ chain, u.SuperChain c chain := by
  have within (n : Nat) (c : ClassId) (ends : u.ChainWithin n c) :
      ∃ chain, u.SuperChain c chain := by
    induction n generalizing c with
    | zero => exact ends.elim
    | succ n ih =>
      cases written : (u.decl c).superClass with
      | none => exact ⟨[], .top written⟩
      | some clause =>
        have member := ClassDecl.mem_clauses_of_superClass written
        obtain ⟨d, named⟩ :=
          Option.isSome_iff_exists.1 (names c (mem_ids_of_clause member) clause member)
        obtain ⟨rest, above⟩ := ih d (ends d ⟨clause, written, named⟩)
        exact ⟨d :: rest, .up written named above⟩
  exact within _ c (acyclic.chainWithin c)

namespace Declarer

/-- What a clause that names a class is seen as is a type of that class. -/
theorem exists_sees_of_named (d : Declarer) {clause : DeclType} {r : Ty} {c : ClassId}
    (resolved : clause.resolve u = .ok r) (named : clause.named? = some c) :
    ∃ f : Declarer, d.sees u r = f.toTy ∧ f.classId = c := by
  have proper : ∃ e : Declarer, r = e.toTy := by
    match clause with
    | .ofClass c =>
      cases resolved
      exact ⟨.ofClass c, rfl⟩
    | .applied c args =>
      obtain ⟨types, -, same⟩ := bind_eq_ok.1 resolved
      cases same
      exact ⟨.applied c _, rfl⟩
    | .variable _ | .wildcard _ _ | .array _ | .other _ => cases named
  obtain ⟨e, rfl⟩ := proper
  obtain ⟨f, result, same⟩ := exists_toTy_subst (u := u) e .filled (d.typeVariables u)
  refine ⟨f, (sees_eq_substitute d resolved).trans result, same.trans ?_⟩
  exact Option.some.inj ((named?_of_resolve resolved).symm.trans named)

/-- A type has no super type where its class has none, fails to tell it where the clause of the
class is unsupported, and else has one of the class that the clause names. -/
theorem superType_cases (names : u.NamesSupers) (d : Declarer) :
    ((u.decl d.classId).superClass = none ∧ d.superType u = .ok none) ∨
      (u.Blocked d.classId ∧ ∃ e, d.superType u = .error e) ∨
      ∃ clause f, (u.decl d.classId).superClass = some clause ∧ ¬ clause.Unsupported ∧
        clause.named? = some f.classId ∧ d.superType u = .ok (some f.toTy) ∧ d.Above u f := by
  rw [superType_eq_map]
  cases written : (u.decl d.classId).superClass with
  | none => exact .inl ⟨rfl, by simp [Universe.classSuperType, written]; rfl⟩
  | some clause =>
    right
    have member := ClassDecl.mem_clauses_of_superClass written
    cases resolved : clause.resolve u with
    | error e =>
      have unsupported : clause.Unsupported := by
        by_contra supported
        obtain ⟨r, found⟩ := clause.exists_resolve (u := u) supported
        cases resolved.symm.trans found
      refine .inl ⟨⟨clause, written, unsupported⟩, e, ?_⟩
      simp [Universe.classSuperType, written, resolved, bind, Except.bind]; rfl
    | ok r =>
      obtain ⟨c, named⟩ :=
        Option.isSome_iff_exists.1 (names _ (Universe.mem_ids_of_clause member) clause member)
      obtain ⟨f, seen, rfl⟩ := d.exists_sees_of_named resolved named
      refine .inr ⟨clause, f, rfl, DeclType.not_unsupported_of_resolve resolved, named, ?_,
        clause, member, r, resolved, by rw [seen, methodDeclarer_toTy]⟩
      rw [← seen]
      simp [Universe.classSuperType, written, resolved, bind, Except.bind]; rfl

theorem exists_superType_iff (names : u.NamesSupers) {d : Declarer} :
    (∃ super, d.superType u = .ok super) ↔ ¬ u.Blocked d.classId := by
  rcases superType_cases names d with
    ⟨none, found⟩ | ⟨blocked, e, found⟩ | ⟨clause, f, written, supported, -, found, -⟩
  · refine iff_of_true ⟨_, found⟩ ?_
    rintro ⟨clause, written, -⟩
    rw [none] at written
    cases written
  · refine iff_of_false ?_ (not_not_intro blocked)
    rintro ⟨super, found'⟩
    rw [found] at found'
    cases found'
  · refine iff_of_true ⟨_, found⟩ ?_
    rintro ⟨clause', written', unsupported⟩
    cases written.symm.trans written'
    exact supported unsupported

/-- Where all ways up end, the walk to super types comes to an end too. -/
theorem Ends.exists_climbs (names : u.NamesSupers) {d : Declarer} (ends : d.Ends u) :
    ∃ met stop, d.toTy.Climbs u met stop := by
  induction ends with
  | intro d _ ih =>
    rcases superType_cases names d with
      ⟨-, found⟩ | ⟨-, e, found⟩ | ⟨_, f, -, -, -, found, above⟩ <;> rw [← superType_toTy] at found
    · exact ⟨[], none, .top found⟩
    · exact ⟨[], some e, .stuck found⟩
    · obtain ⟨met, stop, climbs⟩ := ih f above
      exact ⟨f.toTy :: met, stop, .up found climbs⟩

@[simp] theorem declarer?_toTy (d : Declarer) : d.toTy.declarer? = some d := by
  cases d <;> rfl

@[simp] theorem rawClass?_toTy (d : Declarer) : d.toTy.rawClass? = some d.classId := by
  cases d <;> rfl

theorem exists_interfaces_iff {d : Declarer} : (∃ types, d.interfaces u = .ok types) ↔
    ∀ clause ∈ (u.decl d.classId).interfaces, ¬ clause.Unsupported := by
  constructor
  · rintro ⟨types, found⟩ clause member
    obtain ⟨resolved, all, -⟩ := interfaces_eq_ok.1 found
    obtain ⟨r, -, found⟩ := exists_right_of_mem (resolveAll_eq_ok.1 all) member
    exact DeclType.not_unsupported_of_resolve found
  · intro supported
    obtain ⟨resolved, all⟩ := exists_resolveAll (u := u) _ supported
    exact ⟨_, interfaces_eq_ok.2 ⟨resolved, all, rfl⟩⟩

/-- The interfaces of a type are of the classes that the clauses of its class name, in order. -/
theorem map_rawClass?_interfaces (names : u.NamesSupers) {d : Declarer} {types : List Ty}
    (found : d.interfaces u = .ok types) :
    types.map Ty.rawClass? = (u.decl d.classId).interfaces.map DeclType.named? := by
  obtain ⟨resolved, all, rfl⟩ := interfaces_eq_ok.1 found
  have itself : List.Forall₂ Eq (u.decl d.classId).interfaces (u.decl d.classId).interfaces :=
    List.forall₂_same.2 fun _ _ => rfl
  rw [List.map_map]
  refine map_eq_of_forall₂ (resolveAll_eq_ok.1 all) itself ?_
  rintro clause member r _ - found rfl
  have member : clause ∈ (u.decl d.classId).clauses := List.mem_append_right _ member
  obtain ⟨c, named⟩ :=
    Option.isSome_iff_exists.1 (names _ (Universe.mem_ids_of_clause member) clause member)
  obtain ⟨f, seen, rfl⟩ := d.exists_sees_of_named found named
  rw [Function.comp_apply, seen, rawClass?_toTy, named]

end Declarer

/-- What is met on the way up is of the classes of the chain, in order, until the chain ends or a
clause is unsupported. -/
theorem Ty.Climbs.agrees (names : u.NamesSupers) {c : ClassId} {chain : List ClassId}
    (super : u.SuperChain c chain) {d : Declarer} (own : d.classId = c) {met : List Ty}
    {stop : Option ReflectionError} (climbs : d.toTy.Climbs u met stop) :
    met.map Ty.rawClass? = (chain.take met.length).map some ∧
      (stop = none → met.length = chain.length) ∧
      (stop = none ↔ ∀ e ∈ c :: chain, ¬ u.Blocked e) := by
  -- A clause is missing, unsupported or names the next class; so much settles which of the three cases
  -- of `climbs` can be, as `found` says what asking for the super type gives.
  induction super generalizing d met with
  | @top c none =>
    subst own
    rcases d.superType_cases names with ⟨-, found⟩ | ⟨⟨_, written, -⟩, -⟩ | ⟨_, _, written, -⟩
    · rw [← Declarer.superType_toTy] at found
      have free : ¬ u.Blocked d.classId := by
        rintro ⟨clause, written, -⟩
        rw [none] at written
        cases written
      cases climbs with
      | top => simp [free]
      | stuck failed => rw [found] at failed; cases failed
      | up super => rw [found] at super; cases super
    · rw [none] at written; cases written
    · rw [none] at written; cases written
  | @up c e clause rest written named super ih =>
    subst own
    rcases d.superType_cases names with
      ⟨none, -⟩ | ⟨blocked, error, found⟩ | ⟨_, f, written', supported, named', found, -⟩
    · rw [none] at written; cases written
    · rw [← Declarer.superType_toTy] at found
      cases climbs with
      | top none => rw [found] at none; cases none
      | stuck => simp [blocked]
      | up super => rw [found] at super; cases super
    · cases written.symm.trans written'
      cases named.symm.trans named'
      rw [← Declarer.superType_toTy] at found
      have free : ¬ u.Blocked d.classId := by
        rintro ⟨clause, written', unsupported⟩
        cases written.symm.trans written'
        exact supported unsupported
      cases climbs with
      | top none => rw [found] at none; cases none
      | stuck failed => rw [found] at failed; cases failed
      | up super climbs =>
        cases found.symm.trans super
        obtain ⟨classes, whole, unblocked⟩ := ih rfl climbs
        refine ⟨by simp [classes], fun none => congrArg Nat.succ (whole none), ?_⟩
        rw [unblocked, List.forall_mem_cons (a := d.classId)]
        exact (and_iff_right free).symm

section limits

variable {skipBridges : Bool}

theorem bind_congr_ok {ε α β : Type} {x : Except ε α} {f g : α → Except ε β}
    (same : ∀ a, x = .ok a → f a = g a) : x >>= f = x >>= g := by
  cases x with
  | error => rfl
  | ok a => exact same a rfl

theorem inheritMethods_congr {f g : Ty → Except ReflectionError (List Method)} {types : List Ty}
    (same : ∀ t ∈ types, f t = g t) (table : List (String × Method)) :
    inheritMethods f types table = inheritMethods g types table := by
  induction types generalizing table with
  | nil => rfl
  | cons t rest ih =>
    obtain ⟨first, others⟩ := List.forall_mem_cons.1 same
    simp only [inheritMethods, first, ih others]

/-- A listing asks for the public methods of super types only. -/
theorem Declarer.publicMethods_congr {d : Declarer} {anchored : Bool}
    {f g : Ty → Except ReflectionError (List Method)}
    (same : ∀ t, d.Above u t.methodDeclarer → f t = g t) :
    d.publicMethods u skipBridges anchored f = d.publicMethods u skipBridges anchored g := by
  refine bind_congr_ok fun interfaces found => ?_
  rw [inheritMethods_congr fun t member => same t (above_of_interfaces found member)]
  refine bind_congr_ok fun table _ => bind_congr_ok fun superType found => ?_
  rw [inheritMethods_congr fun t member => same t (above_of_superType found member)]

/-- Once a walk reaches the ends of all ways up, more steps change nothing. -/
theorem publicMethodsWithin_of_endsWithin {n more : Nat} {t : Ty}
    (ends : t.methodDeclarer.EndsWithin u n) (enough : n ≤ more) (anchored : Bool) :
    publicMethodsWithin u skipBridges more anchored t =
      publicMethodsWithin u skipBridges n anchored t := by
  induction n generalizing more t anchored with
  | zero => exact ends.elim
  | succ n ih =>
    obtain ⟨more, rfl⟩ := Nat.exists_eq_add_of_le' (Nat.one_le_of_lt enough)
    rw [publicMethodsWithin_succ, publicMethodsWithin_succ]
    exact Declarer.publicMethods_congr fun s above =>
      ih (ends _ above) (Nat.le_of_succ_le_succ enough) _

theorem publicFieldsWithin_succ (d : Declarer) (limit : Nat) (anchored : Bool) :
    publicFieldsWithin u (limit + 1) anchored d.toTy = do
      let super ← d.superType u
      let inherited ← inheritedFields u limit (anchored || d.anchors) super
      let own ← d.declaredFields u (anchored || d.anchors)
      return (Keyed.insertAll Field.name (own.filter (·.modifiers.isPublic))
        (Keyed.insertAll Field.name inherited [])).map (·.2) := by
  rw [publicFieldsWithin, d.declarer?_toTy]
  refine bind_congr_ok fun super _ => ?_
  cases super <;> rfl

theorem publicFieldsWithin_of_declarer {t : Ty} {d : Declarer} (own : t.declarer? = some d)
    (limit : Nat) (anchored : Bool) : publicFieldsWithin u (limit + 1) anchored t =
      publicFieldsWithin u (limit + 1) anchored d.toTy := by
  simp only [publicFieldsWithin, own, d.declarer?_toTy]

theorem publicFieldsWithin_of_endsWithin {n more : Nat} {t : Ty}
    (ends : t.methodDeclarer.EndsWithin u n) (enough : n ≤ more) (anchored : Bool) :
    publicFieldsWithin u more anchored t = publicFieldsWithin u n anchored t := by
  induction n generalizing more t anchored with
  | zero => exact ends.elim
  | succ n ih =>
    obtain ⟨more, rfl⟩ := Nat.exists_eq_add_of_le' (Nat.one_le_of_lt enough)
    cases own : t.declarer? with
    | none => simp only [publicFieldsWithin, own]
    | some d =>
      have answers : t.methodDeclarer = d := by rw [Ty.methodDeclarer, own, Option.getD_some]
      rw [publicFieldsWithin_of_declarer own, publicFieldsWithin_of_declarer own,
        publicFieldsWithin_succ, publicFieldsWithin_succ]
      refine bind_congr_ok fun super found => ?_
      have inherited : inheritedFields u more (anchored || d.anchors) super =
          inheritedFields u n (anchored || d.anchors) super := by
        cases super with
        | none => rfl
        | some s =>
          have above := Declarer.above_of_superType found (Option.mem_toList.2 rfl)
          exact ih (ends _ (answers ▸ above)) (Nat.le_of_succ_le_succ enough) _
      rw [inherited]

section declarer

variable {d : Declarer} {n limit : Nat} (ends : d.EndsWithin u n)
  (deep : n ≤ u.walkLimit d.toTy) (enough : n ≤ limit)

include ends deep enough

/-- Where ways up end in time, every limit beyond that gives the public fields of a type. -/
theorem Declarer.EndsWithin.fields_of_limit :
    publicFieldsWithin u limit false d.toTy = d.toTy.publicFields u := by
  have answers : d.toTy.methodDeclarer.EndsWithin u n := d.methodDeclarer_toTy.symm ▸ ends
  rw [Ty.publicFields, publicFieldsWithin_of_endsWithin answers enough,
    publicFieldsWithin_of_endsWithin answers deep]

theorem Declarer.EndsWithin.methods_of_limit :
    publicMethodsWithin u skipBridges limit false d.toTy = d.toTy.publicMethods u skipBridges := by
  have answers : d.toTy.methodDeclarer.EndsWithin u n := d.methodDeclarer_toTy.symm ▸ ends
  rw [Ty.publicMethods, publicMethodsWithin_of_endsWithin answers enough,
    publicMethodsWithin_of_endsWithin answers deep]

end declarer

end limits

/-- Without cycles, ways up have fewer steps than one more than there are classes. -/
theorem Universe.Acyclic.endsWithin (acyclic : u.Acyclic) (names : u.NamesSupers) (d : Declarer) :
    d.EndsWithin u (u.size + 1) := by
  have top {e : Declarer} (unknown : e.classId ∉ u.ids) (n : Nat) : e.EndsWithin u (n + 1) := by
    rintro f ⟨clause, member, -⟩
    exact absurd (mem_ids_of_clause member) unknown
  have within (d : Declarer) : d.EndsWithin u
      (rankIn u.ids (Relation.TransGen u.Extends) d.classId + 2) := by
    induction bound : rankIn u.ids (Relation.TransGen u.Extends) d.classId using
      Nat.strong_induction_on generalizing d with
    | _ n ih =>
      rintro e ⟨clause, member, r, resolved, rfl⟩
      obtain ⟨c, named⟩ :=
        Option.isSome_iff_exists.1 (names _ (mem_ids_of_clause member) clause member)
      have same := Declarer.classId_of_named (d := d) resolved named
      by_cases known : c ∈ u.ids
      · have lower : rankIn u.ids (Relation.TransGen u.Extends) c < n :=
          bound ▸ rankIn_lt .trans known (.single ⟨clause, member, named⟩) (acyclic c)
        exact (ih _ lower _ (congrArg _ same)).mono (by omega)
      · exact top (same ▸ known) n
  by_cases known : d.classId ∈ u.ids
  · have below := rankIn_lt_length known (acyclic d.classId)
    rw [length_ids] at below
    exact (within d).mono (Nat.succ_le_succ below)
  · exact top known _

/-- Without cycles among classes, and with all super types written as classes or applied classes,
type arguments make no difference to the classes that are visited. Following super types from a type
meets types of the chain of super classes, in order and no class twice, up to the end of the chain
or to the first class whose clause is unsupported, where asking for the super type fails. Interfaces
are of the classes that the clauses name, in order, unless one of them is unsupported. No way up has
more steps than there are classes, so listings of public members reach no deeper. -/
theorem Universe.Acyclic.visits (acyclic : u.Acyclic) (names : u.NamesSupers) (skipBridges : Bool)
    (d : Declarer) :
    (∃ chain, u.SuperChain d.classId chain ∧ chain.length ≤ u.size ∧ (d.classId :: chain).Nodup) ∧
    (∃ met stop, d.toTy.Climbs u met stop) ∧
    (∀ chain met stop, u.SuperChain d.classId chain → d.toTy.Climbs u met stop →
      met.map Ty.rawClass? = (chain.take met.length).map some ∧
      (stop = none → met.length = chain.length) ∧
      (stop = none ↔ ∀ c ∈ d.classId :: chain, ¬ u.Blocked c)) ∧
    ((∃ super, d.toTy.superType u = .ok super) ↔ ¬ u.Blocked d.classId) ∧
    ((∃ types, d.toTy.interfaces u = .ok types) ↔
      ∀ clause ∈ (u.decl d.classId).interfaces, ¬ clause.Unsupported) ∧
    (∀ types, d.toTy.interfaces u = .ok types →
      types.map Ty.rawClass? = (u.decl d.classId).interfaces.map DeclType.named?) ∧
    d.EndsWithin u (u.size + 1) ∧
    ∀ limit, u.size + 1 ≤ limit →
      publicFieldsWithin u limit false d.toTy = d.toTy.publicFields u ∧
      publicMethodsWithin u skipBridges limit false d.toTy =
        d.toTy.publicMethods u skipBridges := by
  have ends := acyclic.endsWithin names d
  obtain ⟨chain, super⟩ := acyclic.exists_superChain names d.classId
  refine ⟨⟨chain, super, super.length_le_size acyclic, super.nodup acyclic⟩,
    (acyclic.ends names d).exists_climbs names,
    fun chain met stop super climbs => climbs.agrees names super rfl, ?_, ?_, ?_, ends, ?_⟩
  · rw [Declarer.superType_toTy]
    exact Declarer.exists_superType_iff names
  · rw [Declarer.interfaces_toTy]
    exact Declarer.exists_interfaces_iff
  · rw [Declarer.interfaces_toTy]
    exact fun types => Declarer.map_rawClass?_interfaces names
  · intro limit enough
    have deep : u.size + 1 ≤ u.walkLimit d.toTy := (size_lt_walkLimit u d.toTy).le
    exact ⟨ends.fields_of_limit deep enough, ends.methods_of_limit deep enough⟩

namespace Expansion

def box : ClassId := ⟨10⟩
def crate : ClassId := ⟨11⟩

/-- `class p.Box<X>` and `class p.Crate<T> extends p.Box<p.Crate<p.Crate<T>>>` -/
def classes : Universe :=
  let u := (Universe.initial.defineClass "p.Box" [.typeParam "X" []]).2
  (u.defineClass "p.Crate" [.typeParam "T" [],
    .superclass (.applied box [.applied crate [.applied crate [.variable ⟨.ofClass crate, 0⟩]]])]).2

def crateOfObject : Declarer :=
  .applied crate [.bound ⟨.ofClass crate, 0⟩ (.ofClass Universe.object)]

theorem acyclic : classes.Acyclic := Universe.acyclic_of_earlier (by decide)

theorem namesSupers : classes.NamesSupers := by unfold Universe.NamesSupers; decide

theorem superChain_crate : classes.SuperChain crate [box, Universe.object] :=
  .up rfl rfl (.up rfl rfl (.top rfl))

/-- Going up, the arguments grow, and the classes met are the same as from the class alone. -/
theorem climbs_crate : classes.Acyclic ∧ classes.NamesSupers ∧
    ∃ met, crateOfObject.toTy.Climbs classes met none ∧
      met.map Ty.rawClass? = [some box, some Universe.object] := by
  obtain ⟨-, ⟨met, stop, climbs⟩, agrees, -⟩ := acyclic.visits namesSupers false crateOfObject
  obtain ⟨classesMet, whole, free⟩ := agrees _ met stop superChain_crate climbs
  have answered {c : ClassId}
      (found : ∃ super, (Declarer.ofClass c).superType classes = .ok super) :
      ¬ classes.Blocked c := (Declarer.exists_superType_iff namesSupers).1 found
  have ends : stop = none := by
    refine free.2 (List.forall_mem_cons.2 ⟨answered ⟨_, rfl⟩, ?_⟩)
    exact List.forall_mem_cons.2
      ⟨answered ⟨_, rfl⟩, List.forall_mem_singleton.2 (answered ⟨_, rfl⟩)⟩
  subst ends
  refine ⟨acyclic, namesSupers, met, climbs, ?_⟩
  rw [classesMet, whole rfl]
  rfl

end Expansion

namespace Gaps

def base : ClassId := ⟨10⟩
def heir : ClassId := ⟨11⟩

/-- The super class of `p.Heir` is `p.Base` applied to a form that no type stands for. -/
def classes : Universe :=
  let u := (Universe.initial.defineClass "p.Base" []).2
  (u.defineClass "p.Heir" [.superclass (.applied base [.other "x"])]).2

/-- The chain goes on where the walk to super types fails. -/
theorem climbs_heir :
    classes.Acyclic ∧ classes.NamesSupers ∧ classes.SuperChain heir [base, Universe.object] ∧
      (Ty.ofClass heir).superType classes = .error (.unsupported "x") ∧
      ∀ met stop, (Ty.ofClass heir).Climbs classes met stop → met = [] := by
  have fails : (Ty.ofClass heir).superType classes = .error (.unsupported "x") := rfl
  refine ⟨Universe.acyclic_of_earlier (by decide), by unfold Universe.NamesSupers; decide,
    .up rfl rfl (.up rfl rfl (.top rfl)), fails, ?_⟩
  intro met stop climbs
  cases climbs with
  | top => rfl
  | stuck => rfl
  | up super =>
    rw [fails] at super
    cases super

end Gaps

end JavaTypes
