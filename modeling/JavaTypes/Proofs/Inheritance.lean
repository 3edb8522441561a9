import JavaTypes.Proofs.MethodListing
import JavaTypes.Proofs.Preservation
import Mathlib.Data.List.Perm.Subperm
import Mathlib.Logic.Relation

/-!
Ways up to super types. A way is a list of clauses, and a class or applied type sees the same
clauses whatever its arguments are. Without cycles no way is longer than there are classes, so a
listing of public methods reaches the end of each.
-/
namespace JavaTypes

def DeclType.named? : DeclType → Option ClassId
  | .ofClass c => some c
  | .applied c _ => some c
  | _ => none

def Universe.Extends (u : Universe) (c d : ClassId) : Prop :=
  ∃ clause ∈ (u.decl c).clauses, clause.named? = some d

def Universe.Acyclic (u : Universe) : Prop := ∀ c, ¬ Relation.TransGen u.Extends c c

/-- One type is a super type of the other by way of clauses that name classes. -/
inductive Declarer.Leads (u : Universe) : Declarer → List DeclType → Declarer → Prop where
  | here (d : Declarer) : Leads u d [] d
  | up {d e f g : Declarer} {clause : DeclType} {way : List DeclType} :
      clause ∈ (u.decl d.classId).clauses → clause.resolve u = .ok e.toTy →
      d.sees u e.toTy = f.toTy → Leads u f way g → Leads u d (clause :: way) g

variable {u : Universe}

/-- A universe has no cycles if each class names only classes that were declared before it. -/
theorem Universe.acyclic_of_earlier (earlier : ∀ c ∈ u.ids, ∀ clause ∈ (u.decl c).clauses,
    clause.named?.all fun d => d.index < c.index) : u.Acyclic := by
  have descends {c d : ClassId} (extension : u.Extends c d) : d.index < c.index := by
    obtain ⟨clause, member, named⟩ := extension
    have known : c ∈ u.ids := by
      rw [Universe.mem_ids]
      by_contra outside
      rw [Universe.decl_of_size_le (Nat.le_of_not_lt outside)] at member
      cases member
    simpa [named] using earlier c known clause member
  have chain {c d : ClassId} (above : Relation.TransGen u.Extends c d) : d.index < c.index := by
    induction above with
    | single first => exact descends first
    | tail _ last ih => exact (descends last).trans ih
  exact fun c cycle => lt_irrefl c.index (chain cycle)

namespace Declarer

@[simp] theorem methodDeclarer_toTy (d : Declarer) : d.toTy.methodDeclarer = d := by
  cases d <;> rfl

theorem toTy_injective {d e : Declarer} (same : d.toTy = e.toTy) : d = e := by
  cases d <;> cases e <;> cases same <;> rfl

/-- A clause that names a class is the class or the class applied to arguments. -/
theorem clause_of_resolve {clause : DeclType} {e : Declarer}
    (resolved : clause.resolve u = .ok e.toTy) :
    (∃ c, clause = .ofClass c ∧ e = .ofClass c) ∨
      ∃ c args types, clause = .applied c args ∧
        List.Forall₂ (fun a t => a.resolve u = .ok t) args types ∧
        e = .applied c (u.bindVars (.ofClass c) types) := by
  match clause with
  | .ofClass c =>
    cases e <;> cases resolved
    exact .inl ⟨c, rfl, rfl⟩
  | .applied c args =>
    obtain ⟨types, all, same⟩ := bind_eq_ok.1 resolved
    cases e <;> cases same
    exact .inr ⟨c, args, types, rfl, resolveAll_eq_ok.1 all, rfl⟩
  | .variable v => cases e <;> cases resolved
  | .wildcard upper lower =>
    obtain ⟨uppers, -, resolved⟩ := bind_eq_ok.1 resolved
    obtain ⟨lowers, -, same⟩ := bind_eq_ok.1 resolved
    cases e <;> cases same
  | .array t =>
    obtain ⟨inner, -, same⟩ := bind_eq_ok.1 resolved
    cases e <;> cases same
  | .other shape => cases resolved

theorem named?_of_resolve {clause : DeclType} {e : Declarer}
    (resolved : clause.resolve u = .ok e.toTy) : clause.named? = some e.classId := by
  rcases clause_of_resolve resolved with ⟨c, rfl, rfl⟩ | ⟨c, args, types, rfl, -, rfl⟩ <;> rfl

theorem exists_toTy_subst (e : Declarer) (raw : RawClasses) (bindings : List TyVar) :
    ∃ f : Declarer, e.toTy.subst u raw bindings = f.toTy ∧ f.classId = e.classId := by
  cases e with
  | applied c vars =>
    exact ⟨.applied c (vars.map (TyVar.rebind u raw bindings)), Ty.subst_applied .., rfl⟩
  | ofClass c =>
    cases raw with
    | kept => exact ⟨.ofClass c, rfl, rfl⟩
    | filled =>
      rcases subst_ofClass_filled (u := u) bindings c with eq | ⟨eq, -⟩
      · exact ⟨.applied c _, eq, rfl⟩
      · exact ⟨.ofClass c, eq, rfl⟩

/-- A class sees its clauses as if it were applied to its own variables. -/
theorem sees_eq_substitute (d : Declarer) {clause : DeclType} {t : Ty}
    (resolved : clause.resolve u = .ok t) : d.sees u t = t.substitute u (d.typeVariables u) := by
  cases d with
  | applied c bindings => rfl
  | ofClass c =>
    have free (v : VarRef) : valueOrSelf u (u.classVariables c) v = .variable (.free v) :=
      valueOrSelf_variablesOf _ v
    exact (DeclType.subst_of_resolve resolved (fun v _ => free v)
      fun d _ => subst_ofClass_of_free fun v _ => free v.ref).symm

namespace Leads

theorem extends_first {d e f : Declarer} {clause : DeclType}
    (member : clause ∈ (u.decl d.classId).clauses) (resolved : clause.resolve u = .ok e.toTy)
    (seen : d.sees u e.toTy = f.toTy) : u.Extends d.classId f.classId := by
  refine ⟨clause, member, (named?_of_resolve resolved).trans ?_⟩
  rw [sees_eq_substitute d resolved] at seen
  obtain ⟨f', result, same⟩ := exists_toTy_subst (u := u) e .filled (d.typeVariables u)
  cases toTy_injective (result.symm.trans seen)
  rw [same]

/-- The classes a way goes through, each above the ones before. -/
theorem exists_chain {d g : Declarer} {way : List DeclType} (leads : Leads u d way g) :
    ∃ chain : List ClassId, chain.length = way.length ∧ (∀ c ∈ chain, c.index < u.size) ∧
      chain.Pairwise (Relation.TransGen u.Extends) ∧
      ∀ c ∈ chain, c = d.classId ∨ Relation.TransGen u.Extends d.classId c := by
  induction leads with
  | here d => exact ⟨[], rfl, by simp, .nil, by simp⟩
  | @up d e f g clause way member resolved seen _ ih =>
    obtain ⟨chain, length, inside, ascending, reached⟩ := ih
    have first := extends_first member resolved seen
    have above : ∀ c ∈ chain, Relation.TransGen u.Extends d.classId c := fun c member => by
      rcases reached c member with rfl | later
      · exact .single first
      · exact .head first later
    have known : d.classId.index < u.size := by
      by_contra outside
      rw [Universe.decl_of_size_le (Nat.le_of_not_lt outside)] at member
      cases member
    refine ⟨d.classId :: chain, by simp [length], List.forall_mem_cons.2 ⟨known, inside⟩,
      List.pairwise_cons.2 ⟨above, ascending⟩, List.forall_mem_cons.2 ⟨.inl rfl, ?_⟩⟩
    exact fun c member => .inr (above c member)

theorem length_le_size (acyclic : u.Acyclic) {d g : Declarer} {way : List DeclType}
    (leads : Leads u d way g) : way.length ≤ u.size := by
  obtain ⟨chain, length, inside, ascending, -⟩ := leads.exists_chain
  have distinct : (chain.map ClassId.index).Nodup := by
    refine List.pairwise_map.2 (ascending.imp fun {a b} above same => ?_)
    cases a
    cases b
    cases same
    exact acyclic _ above
  have within : chain.map ClassId.index ⊆ List.range u.size := by
    intro i member
    obtain ⟨c, place, rfl⟩ := List.mem_map.1 member
    exact List.mem_range.2 (inside c place)
  have bound := (List.subperm_of_subset distinct within).length_le
  rwa [List.length_map, List.length_range, length] at bound

/-- A listing that goes far enough lists the methods at the end of a way. -/
theorem declaredMethods_of_within {skipBridges : Bool} {d g : Declarer} {way : List DeclType}
    (leads : Leads u d way g) {limit : Nat} {anchored : Bool} {methods : List Method}
    (listed : publicMethodsWithin u skipBridges (limit + 1) anchored d.toTy = .ok methods)
    (far : way.length ≤ limit) : ∃ own, g.toTy.declaredMethods u skipBridges = .ok own := by
  induction leads generalizing limit anchored methods with
  | here d => exact declaredMethods_of_publicMethodsWithin listed
  | @up d e f g clause way member resolved seen _ ih =>
    obtain ⟨further, rfl⟩ := Nat.exists_eq_add_of_le' (Nat.one_le_of_lt far)
    obtain ⟨r, reached, inherited, resolved', above⟩ := supers_of_publicMethodsWithin listed
      (by rwa [methodDeclarer_toTy])
    cases resolved.symm.trans resolved'
    rw [methodDeclarer_toTy, seen] at above
    exact ih above (Nat.le_of_succ_le_succ far)

theorem declaredMethods (acyclic : u.Acyclic) {skipBridges : Bool} {d g : Declarer}
    {way : List DeclType} (leads : Leads u d way g) {methods : List Method}
    (listed : d.toTy.publicMethods u skipBridges = .ok methods) :
    ∃ own, g.toTy.declaredMethods u skipBridges = .ok own := by
  obtain ⟨more, steps⟩ := Nat.exists_eq_add_of_lt (size_lt_walkLimit u d.toTy)
  rw [Ty.publicMethods, steps] at listed
  exact leads.declaredMethods_of_within listed (by have := leads.length_le_size acyclic; omega)

end Leads

end Declarer

end JavaTypes
