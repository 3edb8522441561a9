import JavaTypes.Proofs.BoundClauses
import JavaTypes.Proofs.ShortNames
import Mathlib.Data.Nat.SuccPred
import Mathlib.Order.SuccPred.Archimedean
import Mathlib.Tactic.Choose

/-!
Texts under different imports. What imports decide is how the names of classes are spelled: writing a
type goes the same way under all imports, to one outline in which names of classes are left open. More
imports cover more names, so each name is spelled by an end of what it was, from behind a dot.
-/
namespace JavaTypes

open QualifiedName

variable {u : Universe}

/-- A text ends another one and begins there or behind a dot. -/
def DotSuffix (short long : String) : Prop := short = long ∨ ∃ front, long = front ++ "." ++ short

namespace DotSuffix

variable {short middle long : String}

theorem refl (text : String) : DotSuffix text text := .inl rfl

theorem trans (first : DotSuffix short middle) (second : DotSuffix middle long) :
    DotSuffix short long := by
  rcases first with rfl | ⟨front, rfl⟩
  · exact second
  · rcases second with rfl | ⟨front', rfl⟩
    · exact .inr ⟨front, rfl⟩
    · exact .inr ⟨front' ++ "." ++ front, by simp only [String.append_assoc]⟩

theorem length_le (suffix : DotSuffix short long) : short.length ≤ long.length := by
  rcases suffix with rfl | ⟨front, rfl⟩
  · exact le_rfl
  · simp

/-- From whichever segment on it starts, a name ends like the whole. -/
theorem intercalate_drop {parts : List String} {k k' : Nat} (further : k ≤ k')
    (within : k' < parts.length) :
    DotSuffix (".".intercalate (parts.drop k')) (".".intercalate (parts.drop k)) := by
  obtain ⟨m, rfl⟩ := Nat.exists_eq_add_of_le further
  rw [← List.drop_drop]
  have rest : (parts.drop k).drop m ≠ [] := by simpa using within
  by_cases none : (parts.drop k).take m = []
  · have same := List.take_append_drop m (parts.drop k)
    rw [none, List.nil_append] at same
    exact .inl (congrArg _ same)
  · refine .inr ⟨".".intercalate ((parts.drop k).take m), ?_⟩
    rw [← String.intercalate_append_of_ne_nil none rest, List.take_append_drop]

end DotSuffix

namespace Imports

section shortening

variable {i j : Imports} {package : String} {parts : List String}

/-- Which of the parts of a name is the longest that is imported. -/
theorem shorten?_cases (i : Imports) (package : String) (parts : List String) :
    (∃ k, IsGreatest {k | k < parts.length ∧ i.covers (qualified package (parts.take (k + 1)))} k ∧
      i.shorten? package parts = some (".".intercalate (parts.drop k))) ∨
    (∀ k < parts.length, ¬i.covers (qualified package (parts.take (k + 1)))) ∧
      i.shorten? package parts = none := by
  by_cases covered : ∃ k, k < parts.length ∧ i.covers (qualified package (parts.take (k + 1)))
  · have bounded : BddAbove {k | k < parts.length ∧
        i.covers (qualified package (parts.take (k + 1)))} := ⟨parts.length, fun k holds => holds.1.le⟩
    obtain ⟨k, longest⟩ := bounded.exists_isGreatest_of_nonempty covered
    exact .inl ⟨k, longest, shorten?_eq_some longest⟩
  · have outside : ∀ k < parts.length, ¬i.covers (qualified package (parts.take (k + 1))) :=
      fun k below holds => covered ⟨k, below, holds⟩
    exact .inr ⟨outside, shorten?_eq_none outside⟩

variable (more : ∀ name, i.covers name → j.covers name)

include more

/-- With more imports, the longest imported part of a name is at least as long. -/
theorem shorten?_mono :
    DotSuffix ((j.shorten? package parts).getD (qualified package parts))
      ((i.shorten? package parts).getD (qualified package parts)) := by
  have whole {k : Nat} (within : k < parts.length) :
      DotSuffix (".".intercalate (parts.drop k)) (qualified package parts) := by
    have inside := DotSuffix.intercalate_drop (Nat.zero_le k) within
    rw [List.drop_zero] at inside
    refine inside.trans ?_
    unfold qualified
    split
    · exact .refl _
    · exact .inr ⟨package, rfl⟩
  rcases j.shorten?_cases package parts with ⟨k', longest', short'⟩ | ⟨outside, full'⟩
  · rcases i.shorten?_cases package parts with ⟨k, longest, short⟩ | ⟨-, full⟩
    · rw [short, short', Option.getD_some, Option.getD_some]
      exact .intercalate_drop (longest'.2 ⟨longest.1.1, more _ longest.1.2⟩) longest'.1.1
    · rw [full, short', Option.getD_some, Option.getD_none]
      exact whole longest'.1.1
  · have outside : ∀ k < parts.length, ¬i.covers (qualified package (parts.take (k + 1))) :=
      fun k below holds => outside k below (more _ holds)
    rw [full', shorten?_eq_none outside]
    exact .refl _

end shortening

end Imports

namespace QualifiedName

theorem eq_append_of_dropStart? {start text rest : List Char}
    (found : dropStart? start text = some rest) : text = start ++ rest := by
  induction start generalizing text with
  | nil =>
    cases found
    rfl
  | cons c start ih =>
    cases text with
    | nil => cases found
    | cons d text =>
      unfold dropStart? at found
      split at found
      · rename_i same
        rw [same, ih found, List.cons_append]
      · cases found

/-- A name that begins with its package is made of the package and of the segments behind it. -/
theorem eq_qualified_of_behindPackage? {package canonical : String} {rest : List Char}
    (found : behindPackage? package canonical = some rest) :
    canonical = qualified package ((segments '.' rest).map String.ofList) := by
  have joined : ".".intercalate ((segments '.' rest).map String.ofList) = String.ofList rest := by
    apply String.toList_injective
    rw [segments_eq_splitOn]
    simp [Function.comp_def]
  unfold behindPackage? at found
  unfold qualified
  split at found
  · rename_i unnamed
    cases found
    rw [if_pos unnamed, joined, String.ofList_toList]
  · rename_i named
    rw [if_neg named, joined]
    apply String.toList_injective
    simpa using eq_append_of_dropStart? found

end QualifiedName

theorem ImportedBy.mono {entries others : List String} (more : ∀ e ∈ entries, e ∈ others)
    {name : String} (imported : ImportedBy entries name) : ImportedBy others name := by
  rcases imported with ⟨member, plain⟩ | ⟨package, last, split, dotless, member⟩
  · exact .inl ⟨more _ member, plain⟩
  · exact .inr ⟨package, last, split, dotless, more _ member⟩

namespace Imports

/-- With more imports a name is written as an end of what it was. -/
theorem write_mono {i j : Imports} (more : ∀ name, i.covers name → j.covers name)
    (package canonical : String) :
    DotSuffix (j.write package canonical) (i.write package canonical) := by
  unfold write
  cases found : behindPackage? package canonical with
  | none => exact .refl _
  | some rest =>
    rw [Option.bind_some, Option.bind_some, eq_qualified_of_behindPackage? found]
    exact shorten?_mono more

theorem write_of_not_covers {i : Imports} (none : ∀ name, ¬i.covers name)
    (package canonical : String) : i.write package canonical = canonical := by
  unfold write
  cases behindPackage? package canonical with
  | none => rfl
  | some rest => rw [Option.bind_some, shorten?_eq_none fun _ _ => none _, Option.getD_none]

end Imports

section classNames

theorem Universe.className_mono {entries others : List String} (more : ∀ e ∈ entries, e ∈ others)
    (c : ClassId) : DotSuffix (u.className (.ofList others) c) (u.className (.ofList entries) c) := by
  cases named : (u.decl c).canonicalName with
  | none =>
    simp only [className, named]
    exact .refl _
  | some canonical =>
    simp only [className, named]
    refine Imports.write_mono (fun name covered => ?_) _ _
    exact Imports.covers_foldl.2 ((Imports.covers_foldl.1 covered).mono more)

theorem Universe.className_ofList_nil (c : ClassId) : u.className (.ofList []) c =
    (u.decl c).canonicalName.getD (u.decl c).binaryName := by
  cases named : (u.decl c).canonicalName with
  | none => simp only [className, named, Option.getD_none]
  | some canonical =>
    simp only [className, named, Option.getD_some]
    refine Imports.write_of_not_covers (fun name covered => ?_) _ _
    rcases Imports.covers_foldl.1 covered with ⟨member, -⟩ | ⟨_, _, -, -, member⟩ <;> cases member

end classNames

/-- A part of an outline: text, or a class whose name is spelled as imports have it. -/
inductive Piece where
  | text (content : String)
  | name (c : ClassId)

namespace Piece

def spell (u : Universe) (imports : Imports) : Piece → String
  | text content => content
  | name c => u.className imports c

def spellAll (u : Universe) (imports : Imports) (pieces : List Piece) : String :=
  String.join (pieces.map (spell u imports))

def angled (outlines : List (List Piece)) : List Piece :=
  if outlines.isEmpty then [] else text "<" :: [text ", "].intercalate outlines ++ [text ">"]

def bounded (keyword : String) (bounds : List (List Piece)) : List Piece :=
  if bounds.isEmpty then [] else text keyword :: [text " & "].intercalate bounds

variable {imports : Imports}

@[simp] theorem spellAll_nil : spellAll u imports [] = "" := by simp [spellAll]

@[simp] theorem spellAll_text (content : String) (rest : List Piece) :
    spellAll u imports (text content :: rest) = content ++ spellAll u imports rest := by
  simp [spellAll, spell]

@[simp] theorem spellAll_name (c : ClassId) (rest : List Piece) :
    spellAll u imports (name c :: rest) = u.className imports c ++ spellAll u imports rest := by
  simp [spellAll, spell]

@[simp] theorem spellAll_append (a b : List Piece) :
    spellAll u imports (a ++ b) = spellAll u imports a ++ spellAll u imports b := by
  simp [spellAll]

@[simp] theorem spellAll_intercalate (separator : String) (outlines : List (List Piece)) :
    spellAll u imports ([text separator].intercalate outlines) =
      separator.intercalate (outlines.map (spellAll u imports)) := by
  induction outlines with
  | nil => simp
  | cons first rest ih =>
    cases rest with
    | nil => simp
    | cons second rest =>
      simp [List.intercalate_cons_cons, String.intercalate_cons_cons, String.append_assoc] at ih ⊢
      rw [ih]

@[simp] theorem spellAll_angled (outlines : List (List Piece)) :
    spellAll u imports (angled outlines) =
      JavaTypes.angled (outlines.map (spellAll u imports)) := by
  cases outlines <;> simp [angled, JavaTypes.angled, String.append_assoc]

@[simp] theorem spellAll_bounded (keyword : String) (bounds : List (List Piece)) :
    spellAll u imports (bounded keyword bounds) =
      boundClause keyword (bounds.map (spellAll u imports)) := by
  cases bounds <;> simp [bounded, boundClause]

theorem length_spellAll_le {i j : Imports}
    (shorter : ∀ c, DotSuffix (u.className j c) (u.className i c)) (pieces : List Piece) :
    (spellAll u j pieces).length ≤ (spellAll u i pieces).length := by
  induction pieces with
  | nil => simp
  | cons first rest ih =>
    cases first with
    | text content => simpa using ih
    | name c =>
      have := (shorter c).length_le
      simp only [spellAll_name, String.length_append]
      omega

end Piece

/-- Passes under all imports do the same, but for what `view` makes of their result. -/
def Uniform {α β : Type} (view : Imports → α → β) (pass : Imports → Rendering β) : Prop :=
  ∃ outlined : Rendering α, ∀ i, Erases (view i) outlined (pass i)

namespace Uniform

variable {α α' β β' : Type} {view : Imports → α → β} {view' : Imports → α' → β'}

theorem pure (a : α) {b : Imports → β} (same : ∀ i, view i a = b i) :
    Uniform view fun i => pure (b i) := ⟨Pure.pure a, fun i => .pure (same i)⟩

/-- A pass that imports have nothing to do with. -/
theorem refl (pass : Rendering β) : Uniform (fun _ => id) fun _ => pass := ⟨pass, fun _ => .refl pass⟩

theorem bind {pass : Imports → Rendering β} {next : Imports → β → Rendering β'}
    (first : Uniform view pass) (second : ∀ a, Uniform view' fun i => next i (view i a)) :
    Uniform view' fun i => pass i >>= next i := by
  obtain ⟨outlined, same⟩ := first
  choose rest follows using second
  exact ⟨outlined >>= rest, fun i => (same i).bind fun a => follows a i⟩

theorem cons {first : Imports → Rendering β} {rest : Imports → Rendering (List β)}
    (head : Uniform view first) (tail : Uniform (fun i => List.map (view i)) rest) :
    Uniform (fun i => List.map (view i)) fun i => (do return (← first i) :: (← rest i)) :=
  head.bind fun a => tail.bind fun as => .pure (a :: as) fun _ => rfl

end Uniform

open Piece

section passes

variable {naming : Naming} {withVars : Bool} {bounds : Imports → VarRef → Rendering String}
  (clauses : ∀ v, Uniform (spellAll u) fun i => bounds i v)

include clauses

theorem uniform_writeFree (v : VarRef) :
    Uniform (spellAll u) fun i => writeFree u { naming with imports := i } (bounds i) v := by
  unfold writeFree
  cases naming.bare with
  | true => exact .pure [.text (nameOf u naming v)] fun _ => by simp [nameOf]
  | false =>
    refine Uniform.bind (.refl get) fun defined => ?_
    by_cases known : defined.contains (u.varKey v) = true
    · simp only [id_eq, known, if_true]
      exact .pure [.text (nameOf u naming v)] fun _ => by simp [nameOf]
    · simp only [id_eq, known]
      exact (Uniform.refl _).bind fun _ => (clauses v).bind fun clause =>
        .pure (.text (nameOf u naming v) :: clause) fun _ => by simp [nameOf]

theorem uniform_writeDeclared (vars : List TyVar) : Uniform (fun i => List.map (spellAll u i))
    fun i => writeDeclared u { naming with imports := i } (bounds i) vars := by
  induction vars with
  | nil => exact .pure [] fun _ => rfl
  | cons v rest ih => exact (uniform_writeFree clauses v.ref).cons ih

omit clauses in
theorem uniform_writeAll {types : List Ty} (each : ∀ t ∈ types, Uniform (spellAll u)
      fun i => t.write u { naming with imports := i } withVars (bounds i)) :
    Uniform (fun i => List.map (spellAll u i))
      fun i => writeAll u { naming with imports := i } withVars (bounds i) types := by
  induction types with
  | nil => exact .pure [] fun _ => rfl
  | cons t rest ih =>
    obtain ⟨first, others⟩ := List.forall_mem_cons.1 each
    exact first.cons (ih others)

theorem uniform_writeVars {bindings : List TyVar} (each : ∀ v t, .bound v t ∈ bindings →
      Uniform (spellAll u) fun i => t.write u { naming with imports := i } withVars (bounds i)) :
    Uniform (fun i => List.map (spellAll u i))
      fun i => writeVars u { naming with imports := i } withVars (bounds i) bindings := by
  induction bindings with
  | nil => exact .pure [] fun _ => rfl
  | cons b rest ih =>
    have others := ih fun v t member => each v t (List.mem_cons_of_mem b member)
    cases b with
    | free v => exact (uniform_writeFree clauses v).cons others
    | bound v t => exact (each v t List.mem_cons_self).cons others

/-- A type is written the same way under all imports, but for the names of classes. -/
theorem Ty.uniform_write (t : Ty) : Uniform (spellAll u)
    fun i => t.write u { naming with imports := i } withVars (bounds i) := by
  induction t using Ty.inductionOn with
  | ofClass c =>
    cases withVars with
    | true =>
      exact (uniform_writeDeclared clauses _).bind fun vars =>
        .pure (.name (u.innermost c.index c).1 :: Piece.angled vars ++
          [.text (brackets (u.innermost c.index c).2)]) fun _ => by simp [String.append_assoc]
    | false =>
      exact .pure [.name (u.innermost c.index c).1, .text (brackets (u.innermost c.index c).2)]
        fun _ => by simp
  | free v => exact uniform_writeFree clauses v
  | bound v t ih => exact ih
  | array t ih => exact ih.bind fun element => .pure (element ++ [.text "[]"]) fun _ => by simp
  | applied c bindings ih =>
    cases withVars with
    | true =>
      exact (uniform_writeVars clauses ih).bind fun vars =>
        .pure (.name c :: Piece.angled vars) fun _ => by simp
    | false => exact .pure [.name c] fun _ => by simp
  | wildcard upper lower ihUpper ihLower =>
    exact (uniform_writeAll ihLower).bind fun lower => (uniform_writeAll ihUpper).bind fun upper =>
      .pure (.text "?" :: Piece.bounded " super " lower ++ Piece.bounded " extends " upper) fun _ => by
        simp [String.append_assoc]

end passes

theorem uniform_writeBounds {naming : Naming} {withVars : Bool} (limit : Nat) (v : VarRef) :
    Uniform (spellAll u) fun i => writeBounds u { naming with imports := i } withVars limit v := by
  induction limit generalizing v with
  | zero => exact .pure [] fun _ => by simp
  | succ limit ih =>
    exact (Uniform.refl _).bind fun types =>
      (uniform_writeAll fun t _ => t.uniform_write ih).bind fun bounds =>
        .pure (Piece.bounded " extends " bounds) fun _ => by simp

theorem Rendering.uniform_type (naming : Naming) (withVars : Bool) (t : Ty) : Uniform (spellAll u)
    fun i => Rendering.type u { naming with imports := i } withVars t :=
  t.uniform_write (uniform_writeBounds u.paramCount)

def RenderContext.importingAll (entries defined : List String) : RenderContext :=
  { importing (.ofList entries) with defined }

/-- From the same defined variables, a pass comes to one outcome under all imports. -/
theorem Uniform.run {α β : Type} {view : Imports → α → β} (pass : Naming → Rendering β)
    (uniform : Uniform view fun i => pass { imports := i }) (defined : List String) :
    ∃ (outcome : Except ReflectionError α) (after : List String), ∀ imported,
      (RenderContext.importingAll imported defined).run pass =
        (outcome.map (view (.ofList imported)), .importingAll imported after) := by
  obtain ⟨outlined, same⟩ := uniform
  refine ⟨(outlined.runFrom defined).1, (outlined.runFrom defined).2, fun imported => ?_⟩
  have erases : Erases (view (.ofList imported))
      (Function.const Naming outlined (RenderContext.importingAll imported defined).naming)
      (pass (RenderContext.importingAll imported defined).naming) := same (.ofList imported)
  exact erases.run_eq (.importingAll imported defined)

/-- What more imports change in the text of a type. -/
structure Ty.Respelled (u : Universe) (t : Ty) (withVars : Bool) (defined entries others : List String) :
    Prop where
  /-- Writing goes the same way under all imports: it fails alike, defines the same variables, and makes
  one outline, in which names of classes alone are spelled as imports have it. -/
  outline : ∃ (outcome : Except ReflectionError (List Piece)) (after : List String), ∀ imported,
    t.render u (.importingAll imported defined) withVars =
      (outcome.map (spellAll u (.ofList imported)), .importingAll imported after)
  names : ∀ c, DotSuffix (u.className (.ofList others) c) (u.className (.ofList entries) c)
  shorter : ∀ text text', (t.render u (.importingAll entries defined) withVars).1 = .ok text →
    (t.render u (.importingAll others defined) withVars).1 = .ok text' → text'.length ≤ text.length
  unimported : t.render u (.importingAll [] defined) withVars = t.render u (.primed defined) withVars
  full : ∀ c, u.className (.ofList []) c = (u.decl c).canonicalName.getD (u.decl c).binaryName

/-- Imports make names shorter and change nothing else. -/
theorem Ty.respelled {entries others : List String} (more : ∀ e ∈ entries, e ∈ others) (t : Ty)
    (withVars : Bool) (defined : List String) : t.Respelled u withVars defined entries others := by
  obtain ⟨outcome, after, written⟩ := Uniform.run (fun naming => Rendering.type u naming withVars t)
    (Rendering.uniform_type {} withVars t) defined
  have names := u.className_mono more
  constructor
  case outline => exact ⟨outcome, after, written⟩
  case names => exact names
  case shorter =>
    intro text text' before after
    rw [Ty.render, written] at before after
    cases outcome with
    | error e => cases before
    | ok pieces =>
      cases before
      cases after
      exact length_spellAll_le names pieces
  case unimported => rfl
  case full => exact u.className_ofList_nil

namespace MapEntry

/-- A class inside another one begins with the outer one where that is imported, and with its own name
where its own name is imported too. -/
theorem respelled_entry :
    let entries := ["java.util.Map"]
    let others := ["java.util.Map.*", "java.util.Map"]
    let element : Ty := .wildcard [.ofClass entry] []
    (∀ e ∈ entries, e ∈ others) ∧
      (element.render classes (.importingAll entries []) true).1 = .ok "? extends Map.Entry" ∧
      (element.render classes (.importingAll others []) true).1 = .ok "? extends Entry" ∧
      element.Respelled classes true [] entries others := by
  intro entries others element
  have more : ∀ e ∈ entries, e ∈ others := by decide
  refine ⟨more, ?_, ?_, element.respelled more true []⟩
  · decide +kernel
  · decide +kernel

end MapEntry

end JavaTypes
