import JavaTypes.Member.Executable
import JavaTypes.Proofs.Application

/-!
Override keys as functions of parameter types. A key writes own variables by position and all other
variables by name, so what a method calls its variables is lost in it, and a type over other
variables has one text in the keys of all methods.
-/
namespace JavaTypes

variable {u : Universe}

/-- The naming of the override keys of a declaration. -/
def ownNaming (u : Universe) (owner : VarOwner) : Naming :=
  Executable.keyNaming u (u.variablesOf owner)

theorem mem_aliases {owner : VarOwner} {entry : String × String} :
    entry ∈ (ownNaming u owner).aliases ↔
      ∃ i, ⟨owner, i⟩ ∈ u.declaredVars ∧ entry = (u.varKey ⟨owner, i⟩, "#" ++ toString i) := by
  simp only [ownNaming, Executable.keyNaming, Universe.variablesOf, List.mem_reverse,
    List.mem_mapIdx, List.length_map, List.length_range, List.getElem_map, List.getElem_range,
    Universe.declaredVars, Set.mem_ofPred_eq, Universe.typeParam?, isSome_getElem?]
  constructor
  · rintro ⟨i, bound, rfl⟩
    exact ⟨i, bound, rfl⟩
  · rintro ⟨i, bound, rfl⟩
    exact ⟨i, bound, rfl⟩

/-- A key writes the name of a variable if it has none of its id among the own ones. -/
theorem nameOf_keyNaming {own : List TyVar} {v : VarRef}
    (absent : ∀ b ∈ own, b.key u ≠ u.varKey v) :
    nameOf u (Executable.keyNaming u own) v = u.varName v := by
  have unknown : (Executable.keyNaming u own).aliases.lookup (u.varKey v) = none := by
    refine List.lookup_eq_none_iff.2 fun entry listed => ?_
    obtain ⟨i, inside, rfl⟩ := List.mem_mapIdx.1 (List.mem_reverse.1 listed)
    simp only [bne_iff_ne, ne_eq]
    exact fun same => absent _ (List.getElem_mem inside) same.symm
  rw [nameOf, unknown, Option.getD_none]

section names

variable (ids : Set.InjOn u.varKey u.declaredVars)

include ids

theorem nameOf_own {owner : VarOwner} {i : Nat} (own : ⟨owner, i⟩ ∈ u.declaredVars) :
    nameOf u (ownNaming u owner) ⟨owner, i⟩ = "#" ++ toString i := by
  have known : ((ownNaming u owner).aliases.lookup (u.varKey ⟨owner, i⟩)).isSome := by
    rw [List.lookup_isSome_iff]
    exact ⟨_, mem_aliases.2 ⟨i, own, rfl⟩, by simp⟩
  obtain ⟨text, found⟩ := Option.isSome_iff_exists.1 known
  obtain ⟨before, after, split, -⟩ := List.lookup_eq_some_iff.1 found
  have entry : (u.varKey ⟨owner, i⟩, text) ∈ (ownNaming u owner).aliases := by simp [split]
  obtain ⟨j, declared, same⟩ := mem_aliases.1 entry
  obtain ⟨key, position⟩ := Prod.mk.inj same
  have index := ids own declared key
  cases index
  rw [nameOf, found, Option.getD_some, position]

theorem nameOf_other {owner : VarOwner} {v : VarRef} (declared : v ∈ u.declaredVars)
    (other : v.owner ≠ owner) : nameOf u (ownNaming u owner) v = u.varName v := by
  refine nameOf_keyNaming fun b own same => other ?_
  obtain ⟨w, known, owned, rfl⟩ := mem_variablesOf.1 own
  exact owned ▸ congrArg VarRef.owner (ids declared known same.symm)

/-- A class without arguments has one text in all keys of methods: its variables are never own. -/
theorem classText_method (c : ClassId) (i : Nat) (d : ClassId) :
    classText u (ownNaming u (.method c i)) d = classText u {} d := by
  have names (b : ClassId) :
      ((u.classVariables b).map fun v => nameOf u (ownNaming u (.method c i)) v.ref) =
        (u.classVariables b).map fun v => nameOf u {} v.ref := by
    refine List.map_congr_left fun v member => ?_
    obtain ⟨w, declared, owner, rfl⟩ := mem_variablesOf.1 member
    exact nameOf_other ids declared (by simp [TyVar.ref, owner])
  simp only [classText, names]
  rfl

theorem bareText_method {c : ClassId} {i : Nat} {t : Ty} (declared : t.Declared u)
    (foreign : ∀ v ∈ t.freeVars, v.owner ≠ .method c i) :
    t.bareText u (ownNaming u (.method c i)) = t.bareText u {} := by
  refine Ty.textWith_congr (fun d _ => classText_method ids c i d) fun v occurs => ?_
  exact nameOf_other ids (declared v (t.freeVars_subset_mentioned occurs)) (foreign v occurs)

end names

namespace Executable

def paramTypes (e : Executable) : List Ty := e.parameters.map (·.type)

theorem writeParameters_keyNaming (e : Executable) :
    e.writeParameters u (keyNaming u e.ownVariables) =
      pure (e.paramTypes.map (Ty.bareText u (keyNaming u e.ownVariables))) :=
  writeAll_eq_pure fun t _ => t.write_bare rfl

/-- An override key is always there: it is the name and the bare texts of the parameter types. -/
theorem overrideKey_eq (e : Executable) (name : String) :
    e.overrideKey u name = .ok (name ++ inParentheses
      (e.paramTypes.map (Ty.bareText u (keyNaming u e.ownVariables)))) := by
  simp only [overrideKey, RenderContext.run, writeParameters_keyNaming]
  rfl

theorem paramTypes_of_resolveParams {vars : List TyVar} {params : List ParamDecl}
    {parameters : List Parameter} (resolved : resolveParams u vars params = .ok parameters) :
    List.Forall₂ (fun p t => ∃ r, p.type.resolve u = .ok r ∧ t = r.resolveInScope u vars) params
      (parameters.map (·.type)) := by
  induction params generalizing parameters with
  | nil =>
    cases resolved
    exact .nil
  | cons p rest ih =>
    obtain ⟨type, first, tail⟩ := bind_eq_ok.1 resolved
    obtain ⟨others, found, same⟩ := bind_eq_ok.1 tail
    obtain ⟨r, written, seen⟩ := bind_eq_ok.1 first
    cases same
    cases seen
    exact .cons ⟨r, written, rfl⟩ (ih found)

end Executable

/-- The variables a method can mention, as the type that declares it is seen. -/
def Declarer.varsAt (u : Universe) (d : Declarer) (index : Nat) (decl : MethodDecl) : List TyVar :=
  (if decl.modifiers.isStatic then [] else d.typeVariables u) ++
    u.variablesOf (.method d.classId index)

section varsAt

variable {d : Declarer} {index : Nat} {decl : MethodDecl}

/-- The type of a parameter is seen through the variables of the declaring type. -/
theorem Declarer.resolveInScope_varsAt (instance_ : decl.modifiers.isStatic = false) (t : Ty) :
    t.resolveInScope u (d.varsAt u index decl) = t.resolveInScope u (d.typeVariables u) := by
  rw [varsAt, instance_]
  exact t.resolveInScope_append_variablesOf _ _

theorem Declarer.resolveInScope_varsAt_static (isStatic : decl.modifiers.isStatic = true)
    {t : DeclType} {r : Ty} (resolved : t.resolve u = .ok r) :
    r.resolveInScope u (d.varsAt u index decl) = r := by
  refine DeclType.resolveInScope_of_free resolved fun b inside => ?_
  rw [varsAt, isStatic] at inside
  exact value?_of_mem_variablesOf inside

theorem Declarer.resolveInScope_varsAt_ofClass {c : ClassId} {t : DeclType} {r : Ty}
    (resolved : t.resolve u = .ok r) :
    r.resolveInScope u ((Declarer.ofClass c).varsAt u index decl) = r := by
  cases isStatic : decl.modifiers.isStatic with
  | true => exact resolveInScope_varsAt_static isStatic resolved
  | false =>
    rw [resolveInScope_varsAt isStatic]
    exact DeclType.resolveInScope_of_free resolved fun _ own => value?_of_mem_variablesOf own

end varsAt

namespace Method

def paramTypes (m : Method) : List Ty := m.executable.paramTypes

/-- What is known of a method made from a declaration of a class or applied type. -/
structure Reflects (u : Universe) (d : Declarer) (index : Nat) (decl : MethodDecl) (m : Method) :
    Prop where
  declaring : m.scope.declaring = d
  decl_eq : m.decl = decl
  modifiers_eq : m.modifiers = decl.modifiers
  params : List.Forall₂
    (fun p t => ∃ r, p.type.resolve u = .ok r ∧ t = r.resolveInScope u (d.varsAt u index decl))
    decl.params m.paramTypes
  overrideKey_eq : m.overrideKey = decl.name ++ Executable.inParentheses
    (m.paramTypes.map (Ty.bareText u (ownNaming u (.method d.classId index))))

theorem reflects_of_ofDecl {scope : Scope} {index : Nat} {decl : MethodDecl} {m : Method}
    (made : ofDecl u scope index decl = .ok m) : m.Reflects u scope.declaring index decl := by
  obtain ⟨e, ofDecl, made⟩ := bind_eq_ok.1 made
  obtain ⟨returnType, -, made⟩ := bind_eq_ok.1 made
  obtain ⟨signature, -, made⟩ := bind_eq_ok.1 made
  obtain ⟨key, written, made⟩ := bind_eq_ok.1 made
  obtain ⟨parameters, resolved, ofDecl⟩ := bind_eq_ok.1 ofDecl
  obtain ⟨exceptions, -, ofDecl⟩ := bind_eq_ok.1 ofDecl
  cases ofDecl
  cases made
  rw [Executable.overrideKey_eq] at written
  exact ⟨rfl, rfl, rfl, Executable.paramTypes_of_resolveParams resolved, (Except.ok.inj written).symm⟩

end Method

end JavaTypes
