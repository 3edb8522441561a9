import JavaTypes.Member.Listing
import JavaTypes.Proofs.Walks
import JavaTypes.Proofs.WrittenTypes

/-!
Fields of an applied type beside those of its class. The super class of an applied type is the super
class of the class with the arguments filled in, and so on up to the end; on the way each type shows
no more than its counterpart and the applied type show, so it can be written if they can. Public
fields are therefore the same with the arguments filled in, wherever they are inherited from.
-/
namespace JavaTypes

variable {u : Universe}

/-- A type over declared variables that mentions no generic class without arguments. -/
structure Ty.Clean (u : Universe) (t : Ty) : Prop where
  settled : t.Settled
  declared : t.Declared u
  raw : ∀ c ∈ t.rawClasses, u.typeParams (.ofClass c) = []

/-- How classes without arguments are taken matters for those that occur. -/
theorem Ty.subst_congr_raw {t : Ty} {raw raw' : RawClasses} {bindings : List TyVar}
    (same : ∀ c ∈ t.rawClasses,
      (Ty.ofClass c).subst u raw bindings = (Ty.ofClass c).subst u raw' bindings) :
    t.subst u raw bindings = t.subst u raw' bindings := by
  induction t using Ty.inductionOn with
  | ofClass c => exact same c (by simp [Ty.rawClasses])
  | free v => rfl
  | bound v t ih =>
    have inner := ih fun c occurs => same c (by simpa [Ty.rawClasses] using occurs)
    rw [Ty.subst, Ty.subst, inner]
  | array t ih => rw [Ty.subst_array, Ty.subst_array, ih same]
  | wildcard upper lower ihUpper ihLower =>
    simp only [Ty.rawClasses, Ty.gather_wildcard, List.mem_append, List.mem_flatMap] at same
    rw [Ty.subst_wildcard, Ty.subst_wildcard]
    congr 1 <;> refine List.map_congr_left fun t member => ?_
    · exact ihUpper t member fun c occurs => same c (.inl ⟨t, member, occurs⟩)
    · exact ihLower t member fun c occurs => same c (.inr ⟨t, member, occurs⟩)
  | applied c vars ih =>
    simp only [Ty.rawClasses, Ty.gather_applied, List.mem_flatMap] at same
    rw [Ty.subst_applied, Ty.subst_applied]
    congr 1
    refine List.map_congr_left fun b member => ?_
    cases b with
    | free v => rfl
    | bound v t =>
      refine congrArg ((TyVar.free v).bindTo u) (ih v t member fun c occurs => ?_)
      exact same c ⟨_, member, by simpa [Ty.rawClasses] using occurs⟩

namespace Ty.Clean

variable {t : Ty} {raw : RawClasses} {bindings : List TyVar}

theorem of_resolve {c : ClassId} {clause : DeclType} (own : clause.OwnedBy u c)
    (resolved : clause.resolve u = .ok t) : t.Clean u where
  settled := DeclType.settled_of_resolve resolved
  declared := DeclType.declared_of_resolve resolved fun _ written => (own.var written).1
  raw := fun d occurs => own.raw d (DeclType.rawClasses_of_resolve resolved d occurs)

theorem free {v : VarRef} (declared : v ∈ u.declaredVars) : (Ty.variable (.free v)).Clean u where
  settled := .free v
  declared := by simpa [Ty.Declared, Ty.mentioned] using declared
  raw := by simp [Ty.rawClasses]

theorem valueOrSelf (values : ∀ s ∈ valuesOf bindings, s.Clean u) {v : VarRef}
    (declared : v ∈ u.declaredVars) : (JavaTypes.valueOrSelf u bindings v).Clean u := by
  cases found : valueFor? u bindings v with
  | some s => exact valueOrSelf_of_some found ▸ values s (mem_values_of_valueFor? found)
  | none => exact valueOrSelf_of_none found ▸ .free declared

theorem subst (clean : t.Clean u) (values : ∀ s ∈ valuesOf bindings, s.Clean u) :
    (t.subst u raw bindings).Clean u where
  settled := clean.settled.subst fun s member => (values s member).settled
  declared := clean.declared.subst clean.settled fun s member => (values s member).declared
  raw := by
    intro c occurs
    rcases (Ty.mem_rawClasses_subst clean.settled).1 occurs with
      ⟨d, inside, occurs⟩ | ⟨v, inside, occurs⟩
    · have plain := clean.raw d inside
      rw [subst_ofClass_of_plain plain] at occurs
      simp only [Ty.rawClasses, Ty.gather_ofClass, List.mem_singleton] at occurs
      exact occurs ▸ plain
    · have known := clean.declared v (t.freeVars_subset_mentioned inside)
      exact (valueOrSelf values known).raw c occurs

theorem value {c : ClassId} {vars : List TyVar} (clean : (Ty.applied c vars).Clean u) :
    ∀ s ∈ valuesOf vars, s.Clean u := by
  intro s member
  obtain ⟨b, inside, value⟩ := List.mem_filterMap.1 member
  cases b with
  | free v => cases value
  | bound v t =>
    cases value
    have known := clean.declared
    have plain := clean.raw
    simp only [Ty.Declared, Ty.mentioned, Ty.rawClasses, Ty.gather_applied,
      List.mem_flatMap] at known plain
    refine ⟨clean.settled.shown _ inside, fun w occurs => known w ⟨_, inside, ?_⟩,
      fun d occurs => plain d ⟨_, inside, ?_⟩⟩
    · exact List.mem_append_right _ occurs
    · simpa [Ty.rawClasses] using occurs

theorem substitute_eq (clean : t.Clean u) (bindings : List TyVar) :
    t.substitute u bindings = t.resolveInScope u bindings :=
  Ty.subst_congr_raw fun c occurs => subst_ofClass_of_plain (clean.raw c occurs) ..

end Ty.Clean

/-- A type of a class beside another type of that class: its variables show what they show there with
arguments for the variables of `c` filled in, and it shows nothing else than the other type and `c`
applied to the arguments show. -/
structure Fills (u : Universe) (c : ClassId) (args : List Ty) (d d' : Declarer) : Prop where
  classId_eq : d'.classId = d.classId
  values : ∀ v ∈ u.declaredVars, v.owner = .ofClass d.classId →
    valueOrSelf u (d'.typeVariables u) v =
      (valueOrSelf u (d.typeVariables u) v).resolveInScope u (u.bindVars (.ofClass c) args)
  clean : ∀ s ∈ valuesOf (d.typeVariables u), s.Clean u
  declared : d.toTy.Declared u
  declared' : d'.toTy.Declared u
  shows : ∀ w, d'.toTy.Shows u true w → d.toTy.Shows u true w ∨ (Ty.apply u c args).Shows u true w

section filled

variable {c : ClassId} {args : List Ty}

theorem shows_valueOrSelf_bindVars {v w : VarRef}
    (shows : (valueOrSelf u (u.bindVars (.ofClass c) args) v).Shows u true w) :
    w = v ∨ (Ty.apply u c args).Shows u true w := by
  cases found : valueFor? u (u.bindVars (.ofClass c) args) v with
  | none =>
    rw [valueOrSelf_of_none found] at shows
    exact .inl (Ty.shows_free.1 shows)
  | some s =>
    rw [valueOrSelf_of_some found] at shows
    obtain ⟨x, -, member⟩ := bound_mem_of_valueFor? found
    exact .inr (.binding rfl member shows)

variable (ids : Set.InjOn u.varKey u.declaredVars) (declaredArgs : ∀ a ∈ args, a.Declared u)

include declaredArgs

theorem declared_bindVars : ∀ s ∈ valuesOf (u.bindVars (.ofClass c) args), s.Declared u :=
  fun s member => declaredArgs s (mem_valuesOf_bindVars member)

theorem declared_apply : (Ty.apply u c args).Declared u := by
  intro w occurs
  simp only [Ty.apply, Ty.mentioned, Ty.gather_applied, List.mem_flatMap] at occurs
  obtain ⟨b, member, occurs⟩ := occurs
  obtain ⟨v, bound, -, a, arg, rfl⟩ := mem_bindings_apply member
  rcases TyVar.mentioned_bindTo occurs with rfl | occurs
  · exact bound
  · exact declaredArgs a arg w occurs

theorem Fills.start : Fills u c args (.ofClass c) (.applied c (u.bindVars (.ofClass c) args)) where
  classId_eq := rfl
  values := by
    intro v _ _
    rw [Declarer.typeVariables_ofClass, valueOrSelf_variablesOf]
    rfl
  clean := by simp
  declared := by simp [Declarer.toTy, Ty.Declared, Ty.mentioned]
  declared' := declared_apply declaredArgs
  shows := fun _ shows => .inr shows

include ids

theorem values_up {e e' : Declarer} (clean : e.toTy.Clean u) (apart : e.classId ≠ c)
    (result : e.toTy.substitute u (u.bindVars (.ofClass c) args) = e'.toTy) {v : VarRef}
    (bound : v ∈ u.declaredVars) (owner : v.owner = .ofClass e.classId) :
    valueOrSelf u (e'.typeVariables u) v =
      (valueOrSelf u (e.typeVariables u) v).resolveInScope u (u.bindVars (.ofClass c) args) := by
  cases e with
  | ofClass ce =>
    -- A class without arguments has no variables here.
    have plain : u.typeParams (.ofClass ce) = [] :=
      clean.raw ce (by simp [Declarer.toTy, Ty.rawClasses])
    exact absurd (owner ▸ plain) (typeParams_ne_nil bound)
  | applied ce vars =>
    rw [Declarer.toTy, Ty.substitute, Ty.subst_applied] at result
    cases Declarer.toTy_injective (d := .applied ce _) result
    have known : ∀ b ∈ vars, (Ty.variable b).Declared u := by
      intro b inside w occurs
      refine clean.declared w ?_
      simp only [Declarer.toTy, Ty.mentioned, Ty.gather_applied, List.mem_flatMap]
      exact ⟨b, inside, occurs⟩
    rw [Declarer.typeVariables_applied, Declarer.typeVariables_applied]
    by_cases listed : v ∈ vars.map TyVar.ref
    · rw [valueOrSelf_map_rebind ids (declared_bindVars declaredArgs) listed known]
      exact (Ty.Clean.valueOrSelf clean.value bound).substitute_eq _
    · have absent : ∀ b ∈ vars, b.key u ≠ u.varKey v := by
        intro b inside key
        exact listed (List.mem_map.2 ⟨b, inside, ids (known b inside).ref bound key⟩)
      have absent' : ∀ b ∈ vars.map (TyVar.rebind u .filled (u.bindVars (.ofClass c) args)),
          b.key u ≠ u.varKey v := by
        intro b' member
        obtain ⟨b, inside, rfl⟩ := List.mem_map.1 member
        rw [TyVar.rebind_eq, TyVar.key_bindTo]
        exact absent b inside
      have foreign : v.owner ≠ .ofClass c := by
        intro same
        cases owner.symm.trans same
        exact apart rfl
      rw [valueOrSelf_of_none (valueFor?_of_absent absent),
        valueOrSelf_of_none (valueFor?_of_absent absent')]
      exact (valueOrSelf_bindVars_of_foreign ids bound foreign).symm

/-- The super class of a type beside that of the other. -/
theorem Fills.up {d d' : Declarer} (fills : Fills u c args d d') {clause : DeclType}
    (own : clause.OwnedBy u d.classId) {r : Declarer} (resolved : clause.resolve u = .ok r.toTy)
    (apart : r.classId ≠ c) :
    ∃ e e', d.sees u r.toTy = e.toTy ∧ d'.sees u r.toTy = e'.toTy ∧ e.classId = r.classId ∧
      Fills u c args e e' := by
  obtain ⟨e, result, same⟩ :=
    Declarer.exists_toTy_subst (u := u) r .filled (d.typeVariables u)
  have seen : d.sees u r.toTy = e.toTy := (Declarer.sees_eq_substitute d resolved).trans result
  obtain ⟨e', result', same'⟩ :=
    Declarer.exists_toTy_subst (u := u) e .filled (u.bindVars (.ofClass c) args)
  have clean : e.toTy.Clean u := by
    rw [← result]
    exact (Ty.Clean.of_resolve own resolved).subst fills.clean
  have values : ∀ v ∈ u.declaredVars, v.owner = .ofClass d.classId →
      valueOrSelf u (d'.typeVariables u) v =
        (valueOrSelf u (d.typeVariables u) v).substitute u (u.bindVars (.ofClass c) args) := by
    intro v bound owner
    rw [(Ty.Clean.valueOrSelf fills.clean bound).substitute_eq]
    exact fills.values v bound owner
  have seen' : d'.sees u r.toTy = e'.toTy := by
    rw [Declarer.sees_of_values ids values own resolved, seen]
    exact result'
  refine ⟨e, e', seen, seen', same, same', ?_, ?_, clean.declared, ?_, ?_⟩
  · intro v bound owner
    exact values_up ids declaredArgs clean (same ▸ apart) result' bound owner
  · cases e with
    | ofClass ce => simp
    | applied ce vars => exact clean.value
  · rw [← result']
    exact clean.declared.subst clean.settled (declared_bindVars declaredArgs)
  · intro w shows
    rw [← result'] at shows
    obtain ⟨v, here, origin⟩ := Ty.shows_subst ids (declared_bindVars declaredArgs) clean.settled
      clean.declared (fun d occurs => subst_ofClass_of_plain (clean.raw d occurs) ..) shows
    rcases origin with rfl | shows
    · exact .inl here
    · rcases shows_valueOrSelf_bindVars shows with rfl | applied
      · exact .inl here
      · exact .inr applied

end filled

def DeclType.isVariable : DeclType → Bool
  | .variable _ => true
  | _ => false

def VarOwner.isClass : VarOwner → Bool
  | .ofClass _ => true
  | _ => false

/-- A class whose super class clause is no type variable, mentions the variables of the class only
and no generic class without arguments, and whose fields mention variables in scope: those of the
class, and no class variables if they are static. -/
structure Universe.Scoped (u : Universe) (c : ClassId) : Prop where
  super : ∀ clause ∈ (u.decl c).superClass.toList,
    clause.OwnedBy u c ∧ clause.isVariable = false
  fields : ∀ f ∈ (u.decl c).fields, ∀ v ∈ f.type.vars, v ∈ u.declaredVars ∧
    if f.modifiers.isStatic then v.owner.isClass = false else v.owner = .ofClass c

/-- Whether classes keep to their scopes can be checked class by class. -/
theorem Universe.scoped_of_ids
    (super : ∀ c ∈ u.ids, ∀ clause ∈ (u.decl c).superClass.toList,
      clause.OwnedBy u c ∧ clause.isVariable = false)
    (fields : ∀ c ∈ u.ids, ∀ f ∈ (u.decl c).fields, ∀ v ∈ f.type.vars, (u.typeParam? v).isSome ∧
      if f.modifiers.isStatic then v.owner.isClass = false else v.owner = .ofClass c)
    (c : ClassId) : u.Scoped c := by
  by_cases known : c ∈ u.ids
  · exact ⟨super c known, fields c known⟩
  · constructor
    · intro clause written
      rw [decl_of_not_mem_ids known] at written
      cases written
    · intro f member
      rw [decl_of_not_mem_ids known] at member
      cases member

def Declarer.DeclaresField (u : Universe) (d : Declarer) (index : Nat) (f : Field) : Prop :=
  ∃ anchored scope decl, Scope.of u anchored d = .ok scope ∧
    (u.decl d.classId).fields[index]? = some decl ∧ Field.ofDecl u scope decl = .ok f

/-- Two fields have one declaration, and the type of the second is that of the first with the values
of bindings filled in. -/
def Field.FilledIn (u : Universe) (bindings : List TyVar) (f f' : Field) : Prop :=
  ∃ (d d' : Declarer) (i : Nat), d.DeclaresField u i f ∧ d'.DeclaresField u i f' ∧
    d'.classId = d.classId ∧ f'.type = f.type.resolveInScope u bindings

theorem Field.decl_of_ofDecl {scope : Scope} {decl : FieldDecl} {f : Field}
    (made : ofDecl u scope decl = .ok f) : f.decl = decl := by
  obtain ⟨t, -, same⟩ := bind_eq_ok.1 made
  cases same
  rfl

theorem Field.FilledIn.decl_eq {bindings : List TyVar} {f f' : Field}
    (filled : f.FilledIn u bindings f') : f'.decl = f.decl := by
  obtain ⟨d, d', i, ⟨_, _, decl, -, found, made⟩, ⟨_, _, decl', -, found', made'⟩, same, -⟩ := filled
  rw [same, found] at found'
  cases found'
  rw [decl_of_ofDecl made, decl_of_ofDecl made']

/-- Two ways of making something of the same declarations, of which the second succeeds where the
first does. -/
theorem listEach_related {α β γ : Type} {make : Nat → α → Except ReflectionError β}
    {make' : Nat → α → Except ReflectionError γ} {R : β → γ → Prop} {start : Nat} {decls : List α}
    {made : List β} (listed : listEach make start decls = .ok made)
    (each : ∀ i d b, decls[i]? = some d → make (start + i) d = .ok b →
      ∃ b', make' (start + i) d = .ok b' ∧ R b b') :
    ∃ made', listEach make' start decls = .ok made' ∧ List.Forall₂ R made made' := by
  induction decls generalizing start made with
  | nil =>
    cases listed
    exact ⟨[], rfl, .nil⟩
  | cons d rest ih =>
    obtain ⟨b, first, listed⟩ := bind_eq_ok.1 listed
    obtain ⟨others, tail, same⟩ := bind_eq_ok.1 listed
    cases same
    obtain ⟨b', first', related⟩ := each 0 d b rfl first
    obtain ⟨others', tail', relateds⟩ := ih tail fun i d b found made => by
      have place : start + 1 + i = start + (i + 1) := by omega
      rw [place] at made ⊢
      exact each (i + 1) d b found made
    exact ⟨b' :: others', bind_eq_ok.2 ⟨b', first', bind_eq_ok.2 ⟨others', tail', rfl⟩⟩,
      .cons related relateds⟩

section walk

variable {c : ClassId} {args : List Ty} (layered : u.Layered)
  (ids : Set.InjOn u.varKey u.declaredVars) (valid : u.BoundsDeclared)
  (declaredArgs : ∀ a ∈ args, a.Declared u)

include layered ids valid

theorem Fills.scope {d d' : Declarer} (fills : Fills u c args d d')
    (written : u.Writable ((Ty.apply u c args).Shows u true)) {anchored : Bool} {scope : Scope}
    (found : Scope.of u anchored d = .ok scope) (anchored' : Bool) :
    ∃ scope', Scope.of u anchored' d' = .ok scope' := by
  rw [Scope.of_ok_iff layered ids valid fills.declared']
  have writable := (Scope.of_ok_iff layered ids valid fills.declared anchored).1 ⟨scope, found⟩
  exact (writable.or written).mono fills.shows

omit layered valid

theorem Fills.resolve_field {d d' : Declarer} (fills : Fills u c args d d')
    (inScope : u.Scoped d.classId) {decl : FieldDecl} (member : decl ∈ (u.decl d.classId).fields)
    {t : Ty} (resolved : decl.type.resolve u = .ok t) :
    t.resolveInScope u ((if decl.modifiers.isStatic then [] else d'.typeVariables u) ++ []) =
      (t.resolveInScope u ((if decl.modifiers.isStatic then [] else d.typeVariables u) ++
        [])).resolveInScope u (u.bindVars (.ofClass c) args) := by
  have written := inScope.fields decl member
  have occurring := DeclType.freeVars_of_resolve ids resolved fun v inside => (written v inside).1
  rw [List.append_nil, List.append_nil]
  symm
  refine (DeclType.settled_of_resolve resolved).subst_subst (fun v occurs => ?_) fun _ _ => rfl
  obtain ⟨bound, owner⟩ := written v (occurring v occurs)
  cases isStatic : decl.modifiers.isStatic with
  | true =>
    rw [isStatic, if_pos rfl] at owner
    have foreign : v.owner ≠ .ofClass c := by
      intro same
      rw [same] at owner
      cases owner
    exact valueOrSelf_bindVars_of_foreign ids bound foreign
  | false =>
    rw [isStatic] at owner
    exact (fills.values v bound owner).symm

theorem Fills.ofDecl_field {d d' : Declarer} (fills : Fills u c args d d')
    (inScope : u.Scoped d.classId) {scope scope' : Scope} (declaring : scope.declaring = d)
    (declaring' : scope'.declaring = d') {decl : FieldDecl}
    (member : decl ∈ (u.decl d.classId).fields) {f : Field}
    (made : Field.ofDecl u scope decl = .ok f) : ∃ f', Field.ofDecl u scope' decl = .ok f' ∧
      f'.type = f.type.resolveInScope u (u.bindVars (.ofClass c) args) := by
  obtain ⟨t, seen, same⟩ := bind_eq_ok.1 made
  obtain ⟨r, resolved, seen⟩ := bind_eq_ok.1 seen
  cases same
  cases seen
  refine ⟨_, bind_eq_ok.2 ⟨_, bind_eq_ok.2 ⟨r, resolved, rfl⟩, rfl⟩, ?_⟩
  subst declaring
  subst declaring'
  exact fills.resolve_field ids inScope member resolved

end walk

namespace Universe

def SuperClass (u : Universe) (c d : ClassId) : Prop :=
  ∃ clause, (u.decl c).superClass = some clause ∧ clause.named? = some d

/-- The super class, its super class and so on come to an end within a number of steps. -/
def ChainWithin (u : Universe) : Nat → ClassId → Prop
  | 0, _ => False
  | n + 1, c => ∀ d, u.SuperClass c d → u.ChainWithin n d

theorem SuperClass.extends {c d : ClassId} (super : u.SuperClass c d) : u.Extends c d := by
  obtain ⟨clause, written, named⟩ := super
  exact ⟨clause, by simp [ClassDecl.clauses, written], named⟩

theorem Acyclic.chainWithin (acyclic : u.Acyclic) (c : ClassId) : u.ChainWithin (u.size + 2) c := by
  have bounded (n : Nat) (c : ClassId) (bound : rankIn u.ids (Relation.TransGen u.Extends) c ≤ n) :
      u.ChainWithin (n + 2) c := by
    have ends {d : ClassId} (unknown : d ∉ u.ids) (n : Nat) : u.ChainWithin (n + 1) d := by
      intro e further
      obtain ⟨clause, written, -⟩ := further
      rw [decl_of_not_mem_ids unknown] at written
      cases written
    have lower {c d : ClassId} (super : u.SuperClass c d) (known : d ∈ u.ids) :
        rankIn u.ids (Relation.TransGen u.Extends) d < rankIn u.ids (Relation.TransGen u.Extends) c :=
      rankIn_lt .trans known (.single super.extends) (acyclic d)
    induction n generalizing c with
    | zero =>
      intro d super
      by_cases known : d ∈ u.ids
      · have := lower super known
        omega
      · exact ends known 0
    | succ n ih =>
      intro d super
      by_cases known : d ∈ u.ids
      · have := lower super known
        exact ih d (by omega)
      · exact ends known (n + 1)
  exact bounded u.size c (rankIn_le_length.trans_eq length_ids)

end Universe

theorem DeclType.declarer_of_resolve {clause : DeclType} {t : Ty}
    (resolved : clause.resolve u = .ok t) (proper : clause.isVariable = false) :
    (∃ r : Declarer, t = r.toTy ∧ clause.named? = some r.classId) ∨
      ∀ d : Declarer, (d.sees u t).declarer? = none := by
  match clause with
  | .ofClass c =>
    cases resolved
    exact .inl ⟨.ofClass c, rfl, rfl⟩
  | .applied c args =>
    obtain ⟨types, -, same⟩ := bind_eq_ok.1 resolved
    cases same
    exact .inl ⟨.applied c _, rfl, rfl⟩
  | .variable v => cases proper
  | .wildcard upper lower =>
    obtain ⟨uppers, -, resolved⟩ := bind_eq_ok.1 resolved
    obtain ⟨lowers, -, same⟩ := bind_eq_ok.1 resolved
    cases same
    exact .inr fun d => by cases d <;> rfl
  | .array element =>
    obtain ⟨inner, -, same⟩ := bind_eq_ok.1 resolved
    cases same
    exact .inr fun d => by cases d <;> rfl
  | .other shape => cases resolved

def inheritedFields (u : Universe) (limit : Nat) (anchored : Bool) :
    Option Ty → Except ReflectionError (List Field)
  | some s => publicFieldsWithin u limit anchored s
  | none => .ok []

theorem publicFieldsWithin_eq_ok {limit : Nat} {anchored : Bool} {d : Declarer} {fields : List Field} :
    publicFieldsWithin u (limit + 1) anchored d.toTy = .ok fields ↔ ∃ super inherited own,
      d.superType u = .ok super ∧
      inheritedFields u limit (anchored || d.anchors) super = .ok inherited ∧
      d.declaredFields u (anchored || d.anchors) = .ok own ∧
      (Keyed.insertAll Field.name (own.filter (·.modifiers.isPublic))
        (Keyed.insertAll Field.name inherited [])).map (·.2) = fields := by
  have own : d.toTy.declarer? = some d := by cases d <;> rfl
  rw [publicFieldsWithin, own]
  constructor
  · intro listed
    obtain ⟨super, found, listed⟩ := bind_eq_ok.1 listed
    cases super
    all_goals
      obtain ⟨inherited, above, listed⟩ := bind_eq_ok.1 listed
      obtain ⟨own, declared, same⟩ := bind_eq_ok.1 listed
      exact ⟨_, inherited, own, found, above, declared, Except.ok.inj same⟩
  · rintro ⟨super, inherited, own, found, above, declared, rfl⟩
    refine bind_eq_ok.2 ⟨super, found, ?_⟩
    cases super
    all_goals
      exact bind_eq_ok.2 ⟨inherited, above, bind_eq_ok.2 ⟨own, declared, rfl⟩⟩

theorem inheritedFields_of_classless {super : Option Ty} (classless : ∀ s ∈ super, s.declarer? = none)
    (limit : Nat) (anchored : Bool) : inheritedFields u limit anchored super = .ok [] := by
  cases super with
  | none => rfl
  | some s =>
    cases limit with
    | zero => rfl
    | succ limit => rw [inheritedFields, publicFieldsWithin, classless s rfl]

theorem publicFields_related {bindings : List TyVar} {inherited inherited' own own' : List Field}
    (above : List.Forall₂ (Field.FilledIn u bindings) inherited inherited')
    (declared : List.Forall₂ (Field.FilledIn u bindings) own own') :
    List.Forall₂ (Field.FilledIn u bindings)
      ((Keyed.insertAll Field.name (own.filter (·.modifiers.isPublic))
        (Keyed.insertAll Field.name inherited [])).map (·.2))
      ((Keyed.insertAll Field.name (own'.filter (·.modifiers.isPublic))
        (Keyed.insertAll Field.name inherited' [])).map (·.2)) := by
  have names : ∀ f f', Field.FilledIn u bindings f f' → Field.name f' = Field.name f :=
    fun f f' filled => congrArg FieldDecl.name filled.decl_eq
  have «public» : List.Forall₂ (Field.FilledIn u bindings) (own.filter (·.modifiers.isPublic))
      (own'.filter (·.modifiers.isPublic)) := by
    refine List.rel_filter (fun f f' filled => ?_) declared
    simp only [Field.modifiers, filled.decl_eq]
  rw [List.forall₂_map_left_iff, List.forall₂_map_right_iff]
  have table := Keyed.insertAll_related names above .nil
  exact (Keyed.insertAll_related names «public» table).imp fun _ _ => And.right

section walk

variable {c : ClassId} {args : List Ty} (layered : u.Layered)
  (ids : Set.InjOn u.varKey u.declaredVars) (valid : u.BoundsDeclared)

include layered ids valid

theorem Fills.declaredFields {d d' : Declarer} (fills : Fills u c args d d')
    (inScope : u.Scoped d.classId) (written : u.Writable ((Ty.apply u c args).Shows u true))
    {anchored : Bool} {own : List Field} (listed : d.declaredFields u anchored = .ok own)
    (anchored' : Bool) :
    ∃ own', d'.declaredFields u anchored' = .ok own' ∧
      List.Forall₂ (Field.FilledIn u (u.bindVars (.ofClass c) args)) own own' := by
  obtain ⟨scope, found, listed⟩ := bind_eq_ok.1 listed
  obtain ⟨scope', found'⟩ := fills.scope layered ids valid written found anchored'
  have declaring := declaring_of_scope found
  have declaring' := declaring_of_scope found'
  have same : scope'.classDecl u = scope.classDecl u := by
    rw [Scope.classDecl, Scope.classDecl, Scope.classId, Scope.classId, declaring, declaring',
      fills.classId_eq]
  have fields : (scope.classDecl u).fields = (u.decl d.classId).fields := by
    rw [Scope.classDecl, Scope.classId, declaring]
  have each : ∃ own', listEach (fun _ decl => Field.ofDecl u scope' decl) 0
      (scope.classDecl u).fields = .ok own' ∧
        List.Forall₂ (Field.FilledIn u (u.bindVars (.ofClass c) args)) own own' := by
    refine listEach_related listed fun i decl f inside made => ?_
    rw [fields] at inside
    obtain ⟨f', made', type⟩ := fills.ofDecl_field ids inScope declaring declaring'
      (List.mem_of_getElem? inside) made
    have inside' : (u.decl d'.classId).fields[i]? = some decl := by rwa [fills.classId_eq]
    exact ⟨f', made', d, d', i, ⟨anchored, scope, decl, found, inside, made⟩,
      ⟨anchored', scope', decl, found', inside', made'⟩, fills.classId_eq, type⟩
  obtain ⟨own', listed', related⟩ := each
  refine ⟨own', bind_eq_ok.2 ⟨scope', found', ?_⟩, related⟩
  rw [same]
  exact listed'

end walk

section chain

variable {c : ClassId} {args : List Ty} (ids : Set.InjOn u.varKey u.declaredVars)
  (declaredArgs : ∀ a ∈ args, a.Declared u) (acyclic : u.Acyclic)
  (inScope : ∀ e, Relation.ReflTransGen u.SuperClass c e → u.Scoped e)

include ids declaredArgs acyclic inScope

/-- One step up: both types have no super class, or they have super classes of which one fills in the
other. -/
theorem Fills.superType {d d' : Declarer} (fills : Fills u c args d d')
    (above : Relation.ReflTransGen u.SuperClass c d.classId) {super : Option Ty}
    (found : d.superType u = .ok super) :
    ∃ super', d'.superType u = .ok super' ∧
      ((∀ s ∈ super, s.declarer? = none) ∧ (∀ s ∈ super', s.declarer? = none) ∨
        ∃ e e' : Declarer, super = some e.toTy ∧ super' = some e'.toTy ∧
          u.SuperClass d.classId e.classId ∧ Fills u c args e e') := by
  obtain ⟨written, foundClause, rfl⟩ := Declarer.superType_eq_ok.1 found
  have found' : d'.superType u = .ok (written.map (d'.sees u)) :=
    Declarer.superType_eq_ok.2 ⟨_, by rwa [fills.classId_eq], rfl⟩
  refine ⟨_, found', ?_⟩
  cases written with
  | none => exact .inl ⟨nofun, nofun⟩
  | some t =>
    obtain ⟨clause, written, resolved⟩ := clause_of_classSuperType foundClause
    obtain ⟨own, proper⟩ := (inScope _ above).super clause (by simp [written])
    rcases DeclType.declarer_of_resolve resolved proper with ⟨r, rfl, named⟩ | classless
    · have super : u.SuperClass d.classId r.classId := ⟨clause, written, named⟩
      have apart : r.classId ≠ c := by
        intro same
        have round : Relation.TransGen u.SuperClass c c := .tail' above (same ▸ super)
        exact acyclic c (Relation.TransGen.mono (fun _ _ => Universe.SuperClass.extends) _ _ round)
      obtain ⟨e, e', seen, seen', same, fills'⟩ := fills.up ids declaredArgs own resolved apart
      refine .inr ⟨e, e', by rw [← seen]; rfl, by rw [← seen']; rfl, by rwa [same], fills'⟩
    · refine .inl ⟨fun s seen => ?_, fun s seen => ?_⟩
      · cases seen
        exact classless d
      · cases seen
        exact classless d'

variable (layered : u.Layered) (valid : u.BoundsDeclared)
  (written : u.Writable ((Ty.apply u c args).Shows u true))

include layered valid written

/-- The public fields of both types, where both walks go on to the end of the chain of super
classes. -/
theorem Fills.publicFieldsWithin {n : Nat} {d d' : Declarer} (fills : Fills u c args d d')
    (above : Relation.ReflTransGen u.SuperClass c d.classId) (ends : u.ChainWithin n d.classId)
    {limit limit' : Nat} (enough : n ≤ limit) (enough' : n ≤ limit') {anchored : Bool}
    {fields : List Field} (listed : publicFieldsWithin u limit anchored d.toTy = .ok fields)
    (anchored' : Bool) :
    ∃ fields', JavaTypes.publicFieldsWithin u limit' anchored' d'.toTy = .ok fields' ∧
      List.Forall₂ (Field.FilledIn u (u.bindVars (.ofClass c) args)) fields fields' := by
  induction n generalizing d d' limit limit' anchored fields anchored' with
  | zero => exact ends.elim
  | succ n ih =>
    obtain ⟨limit, rfl⟩ := Nat.exists_eq_add_of_le' (Nat.one_le_of_lt enough)
    obtain ⟨limit', rfl⟩ := Nat.exists_eq_add_of_le' (Nat.one_le_of_lt enough')
    obtain ⟨super, inherited, own, found, handedOn, declared, rfl⟩ :=
      publicFieldsWithin_eq_ok.1 listed
    obtain ⟨own', declared', ownRelated⟩ := fills.declaredFields layered ids valid
      (inScope _ above) written declared (anchored' || d'.anchors)
    obtain ⟨super', found', step⟩ := fills.superType ids declaredArgs acyclic inScope above found
    rcases step with ⟨classless, classless'⟩ | ⟨e, e', rfl, rfl, super, fills'⟩
    · rw [inheritedFields_of_classless classless] at handedOn
      cases handedOn
      exact ⟨_, publicFieldsWithin_eq_ok.2 ⟨super', [], own', found',
        inheritedFields_of_classless classless' .., declared', rfl⟩,
        publicFields_related .nil ownRelated⟩
    · obtain ⟨inherited', handedOn', related⟩ := ih fills' (above.tail super) (ends _ super)
        (Nat.le_of_succ_le_succ enough) (Nat.le_of_succ_le_succ enough') handedOn
        (anchored' || d'.anchors)
      exact ⟨_, publicFieldsWithin_eq_ok.2 ⟨_, inherited', own', found', handedOn', declared', rfl⟩,
        publicFields_related related ownRelated⟩

end chain

end JavaTypes
