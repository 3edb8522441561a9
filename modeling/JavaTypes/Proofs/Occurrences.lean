import JavaTypes.Ty.Substitution

/-!
What occurs in a type. One walk over a type collects the notes taken at its leaves and at the
variables its bindings are for; free variables, mentioned variables and classes written without
arguments are three ways of taking notes. A type is settled if every value it carries stands in a
binding list, which is how resolution and substitution leave all types they make.
-/
namespace JavaTypes

/-- What to note down at a class without arguments, at a free variable and at a variable with a
value. -/
structure Notes (α : Type) where
  rawClass : ClassId → List α := fun _ => []
  freeVar : VarRef → List α := fun _ => []
  boundVar : VarRef → List α := fun _ => []

mutual

/-- The notes on a type, from left to right. -/
def Ty.gather {α : Type} (n : Notes α) : Ty → List α
  | .ofClass c => n.rawClass c
  | .applied _ bindings => gatherBindings n bindings
  | .variable (.free v) => n.freeVar v
  | .variable (.bound v t) => n.boundVar v ++ t.gather n
  | .wildcard upper lower => gatherAll n upper ++ gatherAll n lower
  | .array element => element.gather n

def gatherAll {α : Type} (n : Notes α) : List Ty → List α
  | [] => []
  | t :: rest => t.gather n ++ gatherAll n rest

def gatherBindings {α : Type} (n : Notes α) : List TyVar → List α
  | [] => []
  | .free v :: rest => n.freeVar v ++ gatherBindings n rest
  | .bound v t :: rest => n.boundVar v ++ t.gather n ++ gatherBindings n rest

end

def TyVar.gather {α : Type} (n : Notes α) (b : TyVar) : List α := (Ty.variable b).gather n

section gather

variable {α : Type} (n : Notes α)

@[simp] theorem TyVar.gather_free (v : VarRef) : (TyVar.free v).gather n = n.freeVar v := rfl

@[simp] theorem TyVar.gather_bound (v : VarRef) (t : Ty) :
    (TyVar.bound v t).gather n = n.boundVar v ++ t.gather n := rfl

@[simp] theorem Ty.gather_ofClass (c : ClassId) : (Ty.ofClass c).gather n = n.rawClass c := rfl

@[simp] theorem Ty.gather_variable (b : TyVar) : (Ty.variable b).gather n = b.gather n := rfl

theorem gatherAll_eq_flatMap (types : List Ty) :
    gatherAll n types = types.flatMap (Ty.gather n) := by
  induction types with
  | nil => rfl
  | cons t rest ih => simp [gatherAll, ih]

theorem gatherBindings_eq_flatMap (bindings : List TyVar) :
    gatherBindings n bindings = bindings.flatMap (TyVar.gather n) := by
  induction bindings with
  | nil => rfl
  | cons b rest ih => cases b <;> simp [gatherBindings, ih]

@[simp] theorem Ty.gather_applied (c : ClassId) (bindings : List TyVar) :
    (Ty.applied c bindings).gather n = bindings.flatMap (TyVar.gather n) :=
  gatherBindings_eq_flatMap n bindings

@[simp] theorem Ty.gather_wildcard (upper lower : List Ty) :
    (Ty.wildcard upper lower).gather n =
      upper.flatMap (Ty.gather n) ++ lower.flatMap (Ty.gather n) := by
  simp only [Ty.gather, gatherAll_eq_flatMap]

@[simp] theorem Ty.gather_array (t : Ty) : (Ty.array t).gather n = t.gather n := rfl

end gather

namespace Ty

/-- Variables that occur without a value. -/
def freeVars (t : Ty) : List VarRef := t.gather { freeVar := fun v => [v] }

/-- All variables a type is written with, those that have a value included. -/
def mentioned (t : Ty) : List VarRef :=
  t.gather { freeVar := fun v => [v], boundVar := fun v => [v] }

def rawClasses (t : Ty) : List ClassId := t.gather { rawClass := fun c => [c] }

/-- Values of variables stand in binding lists only. -/
inductive Settled : Ty → Prop where
  | ofClass (c : ClassId) : Settled (.ofClass c)
  | applied (c : ClassId) (bindings : List TyVar) :
      (∀ v t, .bound v t ∈ bindings → Settled t) → Settled (.applied c bindings)
  | free (v : VarRef) : Settled (.variable (.free v))
  | wildcard (upper lower : List Ty) :
      (∀ t ∈ upper, Settled t) → (∀ t ∈ lower, Settled t) → Settled (.wildcard upper lower)
  | array (t : Ty) : Settled t → Settled (.array t)

end Ty

/-- What an induction over types needs: one case for each form, with a hypothesis for each type in the
bindings and bounds. -/
structure Ty.Cases (motive : Ty → Prop) : Prop where
  ofClass : ∀ c, motive (.ofClass c)
  applied : ∀ c bindings, (∀ v s, .bound v s ∈ bindings → motive s) → motive (.applied c bindings)
  free : ∀ v, motive (.variable (.free v))
  bound : ∀ v s, motive s → motive (.variable (.bound v s))
  wildcard : ∀ upper lower, (∀ s ∈ upper, motive s) → (∀ s ∈ lower, motive s) →
    motive (.wildcard upper lower)
  array : ∀ s, motive s → motive (.array s)

namespace Ty.Cases

variable {motive : Ty → Prop}

mutual

theorem type (cases : Cases motive) : ∀ t : Ty, motive t
  | .ofClass c => cases.ofClass c
  | .applied c bindings => cases.applied c bindings (cases.bindings bindings)
  | .variable (.free v) => cases.free v
  | .variable (.bound v s) => cases.bound v s (cases.type s)
  | .wildcard upper lower => cases.wildcard upper lower (cases.types upper) (cases.types lower)
  | .array s => cases.array s (cases.type s)

theorem types (cases : Cases motive) : ∀ types : List Ty, ∀ s ∈ types, motive s
  | [] => by simp
  | t :: rest => List.forall_mem_cons.2 ⟨cases.type t, cases.types rest⟩

theorem bindings (cases : Cases motive) : ∀ bindings : List TyVar, ∀ v s, .bound v s ∈ bindings → motive s
  | [] => by simp
  | .free _ :: rest => by
    intro v s member
    exact cases.bindings rest v s (by simpa using member)
  | .bound _ t :: rest => by
    intro v s member
    rcases List.mem_cons.1 member with same | member
    · cases same
      exact cases.type t
    · exact cases.bindings rest v s member

end

end Ty.Cases

/-- Induction over a type, by its forms. -/
@[elab_as_elim] theorem Ty.inductionOn {motive : Ty → Prop} (ofClass : ∀ c, motive (.ofClass c))
    (applied : ∀ c bindings, (∀ v s, .bound v s ∈ bindings → motive s) →
      motive (.applied c bindings))
    (free : ∀ v, motive (.variable (.free v)))
    (bound : ∀ v s, motive s → motive (.variable (.bound v s)))
    (wildcard : ∀ upper lower, (∀ s ∈ upper, motive s) → (∀ s ∈ lower, motive s) →
      motive (.wildcard upper lower))
    (array : ∀ s, motive s → motive (.array s)) (t : Ty) : motive t :=
  Ty.Cases.type ⟨ofClass, applied, free, bound, wildcard, array⟩ t

end JavaTypes
