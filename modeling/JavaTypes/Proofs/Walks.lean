import JavaTypes.Proofs.Counting
import JavaTypes.Proofs.Inheritance

/-!
How long a way up can be. What a class leads to depends on its clauses alone, so a class that leads
back to itself does so for ever; on a way that ends, the classes that follow from clauses therefore
lead to fewer and fewer others, until the end is reached or one of the arguments, which is a smaller
type. This bounds the length of ways by the limit of the walk to super types.
-/
namespace JavaTypes

namespace Declarer

/-- A super type clause of one type, as it is seen there, is answered for by the other. -/
def Above (u : Universe) (d e : Declarer) : Prop :=
  ∃ clause ∈ (u.decl d.classId).clauses, ∃ r, clause.resolve u = .ok r ∧
    (d.sees u r).methodDeclarer = e

def Ends (u : Universe) : Declarer → Prop := Acc fun e d => d.Above u e

/-- Every way up from a type has fewer steps than a number. -/
def EndsWithin (u : Universe) : Nat → Declarer → Prop
  | 0, _ => False
  | n + 1, d => ∀ e, d.Above u e → e.EndsWithin u n

/-- A type has the class and the values of variables that the class has when applied to arguments. -/
structure BoundTo (u : Universe) (d : Declarer) (c : ClassId) (args : List Ty) : Prop where
  classId : d.classId = c
  values : ∀ v, valueOrSelf u (d.typeVariables u) v =
    valueOrSelf u (u.bindVars (.ofClass c) args) v

end Declarer

variable {u : Universe}

namespace Declarer

theorem EndsWithin.mono {n m : Nat} {d : Declarer} (ends : d.EndsWithin u n) (more : n ≤ m) :
    d.EndsWithin u m := by
  induction n generalizing m d with
  | zero => exact ends.elim
  | succ n ih =>
    obtain ⟨k, rfl⟩ := Nat.exists_eq_add_of_le' (Nat.one_le_of_lt more)
    exact fun e above => ih (ends e above) (by omega)

theorem Ends.up {d e : Declarer} (ends : d.Ends u) (above : Relation.TransGen (Above u) d e) :
    e.Ends u := by
  induction above with
  | single first => exact ends.inv first
  | tail _ last ih => exact ih.inv last

theorem ends_of_clauses_eq_nil {d : Declarer} (none : (u.decl d.classId).clauses = []) : d.Ends u := by
  refine ⟨d, ?_⟩
  rintro e ⟨clause, member, -⟩
  rw [none] at member
  cases member

/-- Where all ways end, no way goes on for ever among types with a property. -/
theorem Ends.not_forever {d : Declarer} (ends : d.Ends u) (among : Declarer → Prop)
    (further : ∀ e, among e → ∃ f, among f ∧ Relation.TransGen (Above u) e f) : ¬ among d := by
  have ways : Acc (Relation.TransGen fun f e : Declarer => e.Above u f) d := ends.transGen
  induction ways with
  | intro d _ ih =>
    intro inside
    obtain ⟨e, inside', above⟩ := further d inside
    exact ih e (Relation.transGen_swap.1 above) (ends.up above) inside'

theorem Ends.not_above_self {d : Declarer} (ends : d.Ends u) :
    ¬ Relation.TransGen (Above u) d d := fun cycle =>
  ends.not_forever (· = d) (by rintro e rfl; exact ⟨e, rfl, cycle⟩) rfl

end Declarer

section values

theorem valueOrSelf_cons (b : TyVar) (rest : List TyVar) (v : VarRef) :
    valueOrSelf u (b :: rest) v =
      if b.key u = u.varKey v then b.value?.getD (.variable (.free v)) else valueOrSelf u rest v := by
  simp only [valueOrSelf, valueFor?_cons]
  split <;> rfl

/-- A look-up in bindings made from arguments gives the argument at one place, whatever the arguments
are, or none at all. -/
theorem valueOrSelf_zipWith_place (vars : List TyVar) (count : Nat) (v : VarRef) :
    (∃ i, i < count ∧ ∀ args : List Ty, args.length = count → ∀ a, args[i]? = some a →
      (valueOrSelf u (vars.zipWith (TyVar.bindTo u) args) v).methodDeclarer = a.methodDeclarer) ∨
    ∀ args : List Ty, args.length = count →
      valueOrSelf u (vars.zipWith (TyVar.bindTo u) args) v = .variable (.free v) := by
  induction vars generalizing count with
  | nil => exact .inr fun _ _ => by simp [valueOrSelf]
  | cons b vars ih =>
    cases count with
    | zero => exact .inr fun args none => by simp [List.length_eq_zero_iff.1 none, valueOrSelf]
    | succ count =>
      by_cases own : b.key u = u.varKey v
      · refine .inl ⟨0, Nat.succ_pos count, fun args length a first => ?_⟩
        obtain ⟨rest, rfl⟩ : ∃ rest, args = a :: rest := by
          cases args with
          | nil => cases length
          | cons a' rest => exact ⟨rest, by simpa using first⟩
        rw [List.zipWith_cons_cons, valueOrSelf_cons, TyVar.key_bindTo, if_pos own]
        rcases TyVar.bindTo_cases (u := u) b a with ⟨r, rfl, -, dropped⟩ | kept
        · rw [dropped]
          rfl
        · rw [kept]
          rfl
      · have tail {args : List Ty} (length : args.length = count + 1) : ∃ a rest, args = a :: rest ∧
            rest.length = count ∧ valueOrSelf u ((b :: vars).zipWith (TyVar.bindTo u) args) v =
              valueOrSelf u (vars.zipWith (TyVar.bindTo u) rest) v := by
          obtain ⟨a, rest, rfl⟩ := List.exists_cons_of_length_eq_add_one length
          refine ⟨a, rest, rfl, by simpa using length, ?_⟩
          rw [List.zipWith_cons_cons, valueOrSelf_cons, TyVar.key_bindTo, if_neg own]
        rcases ih count with ⟨i, inside, value⟩ | none
        · refine .inl ⟨i + 1, Nat.succ_lt_succ inside, fun args length a arg => ?_⟩
          obtain ⟨a', rest, rfl, short, same⟩ := tail length
          rw [same]
          exact value rest short a (by simpa using arg)
        · refine .inr fun args length => ?_
          obtain ⟨a', rest, rfl, short, same⟩ := tail length
          rw [same]
          exact none rest short

namespace Declarer

theorem boundTo_apply (c : ClassId) (args : List Ty) :
    (Ty.apply u c args).methodDeclarer.BoundTo u c args :=
  ⟨rfl, fun _ => rfl⟩

theorem boundTo_ofClass (c : ClassId) (bindings : List TyVar) :
    ((Ty.ofClass c).substitute u bindings).methodDeclarer.BoundTo u c
      ((u.classVariables c).map fun b => valueOrSelf u bindings b.ref) := by
  have bound : (u.classVariables c).map (fun b => (TyVar.free b.ref).bindTo u
      (valueOrSelf u bindings b.ref)) = u.bindVars (.ofClass c)
        ((u.classVariables c).map fun b => valueOrSelf u bindings b.ref) := by
    simp only [Universe.bindVars, Universe.classVariables, Universe.variablesOf, List.map_map,
      List.zipWith_map_left, List.zipWith_map_right, List.zipWith_self]
    rfl
  rcases subst_ofClass_filled (u := u) bindings c with filled | ⟨kept, free⟩
  · rw [Ty.substitute, filled, bound]
    exact boundTo_apply c _
  · rw [Ty.substitute, kept]
    refine ⟨rfl, fun v => ?_⟩
    rw [← bound]
    refine (valueOrSelf_variablesOf _ v).trans (valueOrSelf_of_values_none ?_ v).symm
    intro b member
    obtain ⟨w, own, rfl⟩ := List.mem_map.1 member
    obtain ⟨r, value, key⟩ := free w own
    rw [value, TyVar.bindTo_own (v := .free w.ref) key]
    rfl

end Declarer

end values

namespace Declarer

theorem classId_of_named {d : Declarer} {clause : DeclType} {r : Ty} {c : ClassId}
    (resolved : clause.resolve u = .ok r) (named : clause.named? = some c) :
    (d.sees u r).methodDeclarer.classId = c := by
  rw [sees_eq_substitute d resolved]
  match clause with
  | .ofClass c =>
    cases resolved
    cases named
    exact (boundTo_ofClass c _).classId
  | .applied c args =>
    obtain ⟨types, -, same⟩ := bind_eq_ok.1 resolved
    cases same
    cases named
    rw [Ty.substitute, Ty.subst_apply]
    rfl
  | .variable _ | .wildcard _ _ | .array _ | .other _ => cases named

end Declarer

theorem Universe.Acyclic.ends (acyclic : u.Acyclic)
    (named : ∀ c ∈ u.ids, ∀ clause ∈ (u.decl c).clauses, clause.named?.isSome) (d : Declarer) :
    d.Ends u := by
  induction bound : rankIn u.ids (Relation.TransGen u.Extends) d.classId using Nat.strong_induction_on
    generalizing d with
  | _ n ih =>
    refine ⟨d, ?_⟩
    rintro e ⟨clause, member, r, resolved, rfl⟩
    have top {f : Declarer} (unknown : f.classId ∉ u.ids) : f.Ends u :=
      Declarer.ends_of_clauses_eq_nil (by rw [decl_of_not_mem_ids unknown]; rfl)
    by_cases own : d.classId ∈ u.ids
    · obtain ⟨c, name⟩ := Option.isSome_iff_exists.1 (named _ own clause member)
      have same := Declarer.classId_of_named (d := d) resolved name
      by_cases known : c ∈ u.ids
      · refine ih _ ?_ _ (congrArg _ same)
        rw [← bound]
        exact rankIn_lt .trans known (.single ⟨clause, member, name⟩) (acyclic c)
      · exact top (same ▸ known)
    · rw [decl_of_not_mem_ids own] at member
      cases member

/-- From every type of a class a way leads up to what answers for another type as it is seen
there. -/
def Universe.LeadsTo (u : Universe) (c : ClassId) (r : Ty) : Prop :=
  ∀ d : Declarer, d.classId = c →
    Relation.TransGen (Declarer.Above u) d (r.substitute u (d.typeVariables u)).methodDeclarer

/-- From every type of one class a way leads up to a type of the other. -/
def Universe.Uses (u : Universe) (c c' : ClassId) : Prop :=
  ∀ d : Declarer, d.classId = c → ∃ e : Declarer, e.classId = c' ∧
    Relation.TransGen (Declarer.Above u) d e

namespace Universe

theorem Uses.trans {c c' c'' : ClassId} (first : u.Uses c c') (second : u.Uses c' c'') :
    u.Uses c c'' := by
  intro d own
  obtain ⟨e, own', above⟩ := first d own
  obtain ⟨f, own'', further⟩ := second e own'
  exact ⟨f, own'', above.trans further⟩

theorem not_uses_self {d : Declarer} (ends : d.Ends u) : ¬ u.Uses d.classId d.classId := fun uses =>
  ends.not_forever (fun e => e.classId = d.classId) uses rfl

end Universe

theorem size_le_declSizes {types : List DeclType} {t : DeclType} (member : t ∈ types) :
    t.size ≤ declSizes types := by
  induction types with
  | nil => cases member
  | cons first rest ih =>
    rw [declSizes]
    rcases List.mem_cons.1 member with rfl | later
    · exact Nat.le_add_right _ _
    · exact (ih later).trans (Nat.le_add_left _ _)

theorem size_le_bindingSizes {bindings : List TyVar} {v : VarRef} {t : Ty}
    (member : .bound v t ∈ bindings) : t.size ≤ bindingSizes bindings := by
  induction bindings with
  | nil => cases member
  | cons first rest ih =>
    rcases List.mem_cons.1 member with rfl | later
    · rw [bindingSizes]
      omega
    · have := ih later
      cases first <;> rw [bindingSizes] <;> omega

theorem Universe.clauseSize_pos (u : Universe) : 0 < u.clauseSize :=
  Nat.zero_lt_of_lt (two_le_clauseSize u)

/-- Where there is a clause, the universe counts its forms. -/
theorem Universe.size_of_mem_clauses {c : ClassId} {clause : DeclType}
    (member : clause ∈ (u.decl c).clauses) : clause.size + 2 ≤ u.clauseSize := by
  have counted (decls : List ClassDecl) (n : Nat) (d : ClassDecl) (inside : d ∈ decls) :
      declSizes d.clauses + n ≤ decls.foldl (fun n d => n + declSizes d.clauses) n := by
    induction decls generalizing n with
    | nil => cases inside
    | cons first rest ih =>
      rw [List.foldl_cons]
      rcases List.mem_cons.1 inside with rfl | later
      · rw [Nat.add_comm]
        exact le_foldl_declSizes rest _
      · exact (Nat.add_le_add_left (Nat.le_add_right n _) _).trans (ih _ later)
  have known : c.index < u.classes.size := by
    by_contra outside
    rw [Universe.decl_of_size_le (Nat.le_of_not_lt outside)] at member
    cases member
  have place : u.decl c ∈ u.classes.toList := by
    rw [Universe.decl, Array.getD_eq_getD_getElem?, Array.getElem?_eq_getElem known]
    exact Array.getElem_mem_toList known
  exact (Nat.add_le_add_right (size_le_declSizes member) 2).trans (counted _ 2 _ place)

/-- The values of variables a class leads to from a type of it end within a number of steps. -/
def Declarer.ValuesEndWithin (u : Universe) (d : Declarer) (n : Nat) : Prop :=
  ∀ v, u.LeadsTo d.classId (.variable (.free v)) →
    (valueOrSelf u (d.typeVariables u) v).methodDeclarer.EndsWithin u n

/-- From types of a class, ways that end are so many steps longer than those from the values of
variables. -/
def Universe.Adds (u : Universe) (c : ClassId) (m : Nat) : Prop :=
  ∀ d : Declarer, d.classId = c → d.Ends u → ∀ n, d.ValuesEndWithin u n → d.EndsWithin u (n + m)

namespace Universe

theorem Adds.mono {c : ClassId} {m k : Nat} (adds : u.Adds c m) (more : m ≤ k) : u.Adds c k :=
  fun d own ends n values => (adds d own ends n values).mono (Nat.add_le_add_left more n)

/-- Ways from the root class are those from any type that answers like it. -/
theorem Adds.root {m : Nat} (adds : u.Adds object m)
    (ends : (Declarer.ofClass object).Ends u) : (Declarer.ofClass object).EndsWithin u m := by
  rw [← Nat.zero_add m]
  refine adds (.ofClass object) rfl ends 0 fun v leads => ?_
  -- The variables of the root class are free and answer like the root class itself.
  have cycle := leads (.ofClass object) rfl
  have free : (Ty.variable (.free v)).substitute u ((Declarer.ofClass object).typeVariables u) =
      .variable (.free v) := valueOrSelf_variablesOf _ v
  rw [free] at cycle
  exact (ends.not_above_self cycle).elim

section step

variable {c : ClassId} {m : Nat} (used : ∀ c', u.Uses c c' → u.Adds c' m)
  {d : Declarer} (own : d.classId = c) (ends : d.Ends u)

include used own ends

theorem endsWithin_root
    (leads : ∀ e : Declarer, e.classId = c → Relation.TransGen (Declarer.Above u) e (.ofClass object)) :
    (Declarer.ofClass object).EndsWithin u m :=
  (used object fun e own => ⟨_, rfl, leads e own⟩).root (ends.up (leads d own))

/-- Where a class leads to one applied to arguments, ways are longer than those from the arguments
it leads to. -/
theorem endsWithin_bound {r : Ty} (leads : u.LeadsTo c r) (c' : ClassId) (args : List Ty)
    (bound : ∀ bindings, (r.substitute u bindings).methodDeclarer.BoundTo u c'
      (args.map fun a => a.substitute u bindings)) {n : Nat} (far : m ≤ n)
    (each : ∀ a ∈ args, u.LeadsTo c a →
      (a.substitute u (d.typeVariables u)).methodDeclarer.EndsWithin u n) :
    (r.substitute u (d.typeVariables u)).methodDeclarer.EndsWithin u (n + m) := by
  have uses : u.Uses c c' := fun e own => ⟨_, (bound _).classId, leads e own⟩
  refine used c' uses _ (bound _).classId (ends.up (leads d own)) n fun v further => ?_
  rw [(bound _).classId] at further
  -- From types of the first class, a way goes on to the value of the variable.
  have onward (e : Declarer) (own : e.classId = c) : Relation.TransGen (Declarer.Above u) e
      (valueOrSelf u ((r.substitute u (e.typeVariables u)).methodDeclarer.typeVariables u)
        v).methodDeclarer :=
    (leads e own).trans (further _ (bound _).classId)
  rcases valueOrSelf_zipWith_place (u := u) (u.classVariables c') args.length v with
    ⟨i, inside, value⟩ | free
  · have arg (bindings : List TyVar) : (valueOrSelf u
        ((r.substitute u bindings).methodDeclarer.typeVariables u) v).methodDeclarer =
          (args[i].substitute u bindings).methodDeclarer := by
      rw [(bound bindings).values]
      exact value _ (by simp) _ (by simp [inside])
    rw [arg]
    exact each _ (List.getElem_mem inside) fun e own => arg _ ▸ onward e own
  · have root (bindings : List TyVar) : valueOrSelf u
        ((r.substitute u bindings).methodDeclarer.typeVariables u) v = .variable (.free v) := by
      rw [(bound bindings).values]
      exact free _ (by simp)
    rw [root]
    refine (endsWithin_root used own ends fun e own => ?_).mono far
    have onward := onward e own
    rwa [root] at onward

/-- Where a class leads to a resolved type, ways from it are bounded by its form and the ways from
the values of variables. -/
theorem endsWithin_resolved {n : Nat} (values : d.ValuesEndWithin u n) {clause : DeclType} {r : Ty}
    (resolved : clause.resolve u = .ok r) : u.LeadsTo c r →
      (r.substitute u (d.typeVariables u)).methodDeclarer.EndsWithin u
        (n + (clause.size + 1) * m) := by
  have root {k : Nat} (leads : ∀ e : Declarer, e.classId = c →
      Relation.TransGen (Declarer.Above u) e (.ofClass object)) :
      (Declarer.ofClass object).EndsWithin u (n + (k + 1) * m) :=
    (endsWithin_root used own ends leads).mono
      ((Nat.le_mul_of_pos_left m k.succ_pos).trans (Nat.le_add_left _ n))
  refine DeclType.resolve_induction ?ofClass ?applied ?free ?wildcard ?array clause r resolved
  case wildcard => exact fun _ _ _ _ _ _ leads => root leads
  case array => exact fun _ _ _ _ leads => root leads
  case free =>
    intro v leads
    subst own
    exact (values v leads).mono (Nat.le_add_right _ _)
  case ofClass =>
    intro c' leads
    -- A class without arguments is one applied to its own variables.
    have bound (bindings : List TyVar) :
        ((Ty.ofClass c').substitute u bindings).methodDeclarer.BoundTo u c'
          (((u.classVariables c').map fun b => Ty.variable (.free b.ref)).map fun a =>
            a.substitute u bindings) := by
      rw [List.map_map]
      exact Declarer.boundTo_ofClass c' bindings
    refine (endsWithin_bound used own ends leads c' _ bound (Nat.le_add_left m n) ?_).mono
      (by simp only [DeclType.size]; omega)
    intro a member leads
    obtain ⟨b, -, rfl⟩ := List.mem_map.1 member
    subst own
    exact (values b.ref leads).mono (Nat.le_add_right _ _)
  case applied =>
    intro c' args types each leads
    have bound (bindings : List TyVar) :
        ((Ty.apply u c' types).substitute u bindings).methodDeclarer.BoundTo u c'
          (types.map fun a => a.substitute u bindings) := by
      rw [Ty.substitute, Ty.subst_apply]
      exact Declarer.boundTo_apply c' _
    have far : m ≤ n + (DeclType.applied c' args).size * m := by
      rw [DeclType.size]
      exact (Nat.le_mul_of_pos_left m (by omega)).trans (Nat.le_add_left _ n)
    refine (endsWithin_bound used own ends leads c' types bound far ?_).mono
      (by rw [Nat.succ_mul, Nat.add_assoc])
    intro a member leads
    obtain ⟨t, inside, -, inner⟩ := exists_left_of_mem each member
    have smaller : t.size + 1 ≤ (DeclType.applied c' args).size := by
      rw [DeclType.size, Nat.add_comm]
      exact Nat.add_le_add_left (size_le_declSizes inside) 1
    exact (inner leads).mono (Nat.add_le_add_left (Nat.mul_le_mul_right m smaller) n)

/-- A way from a class goes by way of a clause, whose forms the universe counts. -/
theorem endsWithin_step (positive : 0 < m) {n : Nat} (values : d.ValuesEndWithin u n) :
    d.EndsWithin u (n + u.clauseSize * m) := by
  match walk : n + u.clauseSize * m with
  | 0 =>
    have := Nat.mul_pos (clauseSize_pos u) positive
    omega
  | k + 1 =>
    rintro e ⟨clause, member, r, resolved, rfl⟩
    have leads : u.LeadsTo c r := fun f same => .single ⟨clause, by rwa [same, ← own], r, resolved,
      by rw [Declarer.sees_eq_substitute f resolved]⟩
    rw [Declarer.sees_eq_substitute d resolved]
    refine (endsWithin_resolved used own ends values resolved leads).mono ?_
    have counted : (clause.size + 2) * m ≤ u.clauseSize * m :=
      Nat.mul_le_mul_right m (size_of_mem_clauses member)
    rw [Nat.add_mul] at counted ⊢
    omega

end step

/-- What a class adds to the length of ways is bounded by how many classes it leads to. -/
theorem adds_rank (c : ClassId) : u.Adds c (u.clauseSize.pow (rankIn u.ids u.Uses c + 1)) := by
  induction bound : rankIn u.ids u.Uses c using Nat.strong_induction_on generalizing c with
  | _ r ih =>
    intro d own ends n values
    have positive : 0 < u.clauseSize.pow r := Nat.pow_pos (clauseSize_pos u)
    have longer : u.clauseSize.pow (r + 1) = u.clauseSize * u.clauseSize.pow r := Nat.pow_succ'
    rw [longer]
    refine endsWithin_step (fun c' uses => ?_) own ends positive values
    obtain ⟨e, rfl, above⟩ := uses d own
    have ends' := ends.up above
    by_cases known : e.classId ∈ u.ids
    · have lower := rankIn_lt .trans known uses (not_uses_self ends')
      exact (ih _ (bound ▸ lower) e.classId rfl).mono
        (Nat.pow_le_pow_right (clauseSize_pos u) (by omega))
    · intro f same _ k _
      have top : f.EndsWithin u 1 := by
        rintro g ⟨clause, member, -⟩
        rw [same, decl_of_not_mem_ids known] at member
        cases member
      exact top.mono (by omega)

end Universe

namespace Ty

/-- Ways up from a type that end take fewer steps than the limit of the walk. -/
theorem endsWithin_walkLimit (t : Ty) (ends : t.methodDeclarer.Ends u) :
    t.methodDeclarer.EndsWithin u (u.walkLimit t) := by
  have adds (c : ClassId) : u.Adds c (u.clauseSize.pow (u.size + 1)) :=
    (Universe.adds_rank c).mono (Nat.pow_le_pow_right (Universe.clauseSize_pos u)
      (Nat.succ_le_succ (rankIn_le_length.trans_eq Universe.length_ids)))
  have limit (s : Ty) : u.walkLimit s = (s.size + 1) * u.clauseSize.pow (u.size + 1) := rfl
  -- From here on it only counts that no class adds more than `most` steps.
  generalize u.clauseSize.pow (u.size + 1) = most at adds limit
  simp only [limit]
  have root {k : Nat} (ends : (Declarer.ofClass Universe.object).Ends u) :
      (Declarer.ofClass Universe.object).EndsWithin u ((k + 1) * most) :=
    ((adds _).root ends).mono (Nat.le_mul_of_pos_left most k.succ_pos)
  induction t using Ty.inductionOn with
  | ofClass c =>
    refine (adds c _ rfl ends most fun v leads => ?_).mono (by simp only [Ty.size]; omega)
    have value : valueOrSelf u (u.classVariables c) v = .variable (.free v) :=
      valueOrSelf_variablesOf _ v
    have above := leads (.ofClass c) rfl
    change Relation.TransGen _ _ (valueOrSelf u (u.classVariables c) v).methodDeclarer at above
    change (valueOrSelf u (u.classVariables c) v).methodDeclarer.EndsWithin u most
    rw [value] at above ⊢
    exact (adds _).root (ends.up above)
  | applied c bindings inner =>
    refine (adds c _ rfl ends ((Ty.applied c bindings).size * most) fun v leads => ?_).mono
      (by rw [Nat.succ_mul])
    have above := leads (.applied c bindings) rfl
    change Relation.TransGen _ _ (valueOrSelf u bindings v).methodDeclarer at above
    change (valueOrSelf u bindings v).methodDeclarer.EndsWithin u _
    rw [Ty.size, Nat.add_comm]
    cases found : valueFor? u bindings v with
    | none =>
      rw [valueOrSelf_of_none found] at above ⊢
      exact root (ends.up above)
    | some s =>
      rw [valueOrSelf_of_some found] at above ⊢
      obtain ⟨w, -, member⟩ := bound_mem_of_valueFor? found
      exact (inner w s member (ends.up above)).mono
        (Nat.mul_le_mul_right most (Nat.succ_le_succ (size_le_bindingSizes member)))
  | free v => exact root ends
  | bound v s inner => exact (inner ends).mono (Nat.mul_le_mul_right _ (by simp only [Ty.size]; omega))
  | wildcard upper lower => exact root ends
  | array s => exact root ends

end Ty

end JavaTypes
