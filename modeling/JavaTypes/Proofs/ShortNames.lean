import JavaTypes.Settings
import JavaTypes.Proofs.SelfApplication
import Mathlib.Order.Bounds.Defs

/-!
Names under imports. What a set of imports covers depends only on which entries were added to it. A
class whose name is a package and segments is written from the last segment of the longest part of
its name that is imported, or in full.
-/
namespace JavaTypes

namespace QualifiedName

section separators

variable {sep : Char} {before after text : List Char}

theorem splitLast?_eq_none (outside : sep ∉ text) : splitLast? sep text = none := by
  induction text with
  | nil => rfl
  | cons c rest ih =>
    obtain ⟨other, outside⟩ := not_or.1 (List.mem_cons.not.1 outside)
    simp [splitLast?, ih outside, Ne.symm other]

theorem splitLast?_append (outside : sep ∉ after) :
    splitLast? sep (before ++ sep :: after) = some (before, after) := by
  induction before with
  | nil => simp [splitLast?, splitLast?_eq_none outside]
  | cons c rest ih => simp [splitLast?, ih]

/-- A text is split where it has the separator for the last time. -/
theorem exists_splitLast? (inside : sep ∈ text) : ∃ before after,
    splitLast? sep text = some (before, after) ∧ text = before ++ sep :: after ∧ sep ∉ after := by
  obtain ⟨first, last, same, outside⟩ := List.eq_append_cons_of_mem (List.mem_reverse.2 inside)
  have split : text = last.reverse ++ sep :: first.reverse := by
    simpa using congrArg List.reverse same
  have outside : sep ∉ first.reverse := by simpa using outside
  exact ⟨last.reverse, first.reverse, split ▸ splitLast?_append outside, split, outside⟩

theorem splitLast?_eq_none_iff : splitLast? sep text = none ↔ sep ∉ text := by
  refine ⟨fun unsplit inside => ?_, splitLast?_eq_none⟩
  obtain ⟨before, after, split, -⟩ := exists_splitLast? inside
  cases unsplit.symm.trans split

theorem splitLast?_eq_some_iff :
    splitLast? sep text = some (before, after) ↔ text = before ++ sep :: after ∧ sep ∉ after := by
  refine ⟨fun found => ?_, fun ⟨same, outside⟩ => same ▸ splitLast?_append outside⟩
  by_cases inside : sep ∈ text
  · obtain ⟨before, after, split, parts⟩ := exists_splitLast? inside
    cases found.symm.trans split
    exact parts
  · rw [splitLast?_eq_none inside] at found
    cases found

theorem dropStart?_append (start text : List Char) :
    dropStart? start (start ++ text) = some text := by
  induction start with
  | nil => rfl
  | cons c start ih => simpa [dropStart?] using ih

theorem segments_eq_splitOn (sep : Char) (text : List Char) :
    segments sep text = text.splitOn sep := by
  induction text with
  | nil => simp [segments]
  | cons c rest ih =>
    rw [segments, ih, List.splitOn_cons_eq_if_modifyHead]
    cases split : rest.splitOn sep with
    | nil => exact absurd split (List.splitOn_ne_nil _ _)
    | cons first others => simp

end separators

theorem qualifier?_eq_some_iff {name package : String} :
    qualifier? name = some package ↔
      ∃ last : String, name = package ++ "." ++ last ∧ '.' ∉ last.toList := by
  simp only [qualifier?, Option.map_eq_some_iff, Prod.exists, splitLast?_eq_some_iff]
  constructor
  · rintro ⟨before, after, ⟨split, outside⟩, rfl⟩
    have same : name = String.ofList before ++ "." ++ String.ofList after :=
      String.toList_injective (by simpa using split)
    exact ⟨String.ofList after, same, by simpa using outside⟩
  · rintro ⟨last, rfl, outside⟩
    exact ⟨package.toList, last.toList, ⟨by simp, outside⟩, String.ofList_toList⟩

/-- The name that segments have in a package, or by themselves where there is no package. -/
def qualified (package : String) (segments : List String) : String :=
  let name := ".".intercalate segments
  if package.isEmpty then name else package ++ "." ++ name

variable {package : String} {parts : List String}

/-- Segments without dots are read back from the text that joins them. -/
theorem segments_intercalate (nonempty : parts ≠ []) (dotless : ∀ s ∈ parts, '.' ∉ s.toList) :
    (segments '.' (".".intercalate parts).toList).map String.ofList = parts := by
  have joined : (".".intercalate parts).toList = ['.'].intercalate (parts.map String.toList) := by
    simp
  rw [segments_eq_splitOn, joined, List.splitOn_intercalate _ (by simpa using dotless) (by simpa)]
  simp

theorem behindPackage?_qualified :
    behindPackage? package (qualified package parts) = some (".".intercalate parts).toList := by
  by_cases unnamed : package.isEmpty
  · simp only [behindPackage?, qualified, unnamed, if_true]
  · have text : (package ++ "." ++ ".".intercalate parts).toList =
        (package.toList ++ ['.']) ++ (".".intercalate parts).toList := by simp
    rw [behindPackage?, qualified, if_neg unnamed, if_neg unnamed, text, dropStart?_append]

end QualifiedName

open QualifiedName

namespace Imports

variable {i : Imports} {entry name package : String} {entries : List String}

/-- An entry is a package when it ends in a dot and a star. -/
theorem eq_append_of_isSuffix (ends : ['.', '*'] <:+ entry.toList) :
    ∃ package, entry = package ++ ".*" := by
  obtain ⟨text, same⟩ := ends
  exact ⟨String.ofList text, String.toList_injective (by simpa using same.symm)⟩

theorem add_package : i.add (package ++ ".*") = { i with packages := package :: i.packages } := by
  simp [add]

theorem add_class (plain : ¬['.', '*'] <:+ name.toList) :
    i.add name = { i with classes := name :: i.classes } := by
  unfold add
  split
  case h_1 text reversed =>
    refine absurd ⟨text.reverse, ?_⟩ plain
    simpa using (congrArg List.reverse reversed).symm
  case h_2 => rfl

theorem mem_classes_add :
    name ∈ (i.add entry).classes ↔
      (name = entry ∧ ¬['.', '*'] <:+ name.toList) ∨ name ∈ i.classes := by
  by_cases ends : ['.', '*'] <:+ entry.toList
  · obtain ⟨package, rfl⟩ := eq_append_of_isSuffix ends
    grind [add_package]
  · grind [add_class ends]

theorem mem_packages_add :
    package ∈ (i.add entry).packages ↔ package ++ ".*" = entry ∨ package ∈ i.packages := by
  by_cases ends : ['.', '*'] <:+ entry.toList
  · obtain ⟨other, rfl⟩ := eq_append_of_isSuffix ends
    simp [add_package, String.append_left_inj]
  · have different : package ++ ".*" ≠ entry := by
      rintro rfl
      exact ends ⟨package.toList, by simp⟩
    simp [add_class ends, different]

theorem mem_classes_foldl :
    name ∈ (entries.foldl add i).classes ↔
      (name ∈ entries ∧ ¬['.', '*'] <:+ name.toList) ∨ name ∈ i.classes := by
  induction entries generalizing i with
  | nil => simp
  | cons entry rest ih =>
    rw [List.foldl_cons, ih, mem_classes_add, List.mem_cons]
    tauto

theorem mem_packages_foldl :
    package ∈ (entries.foldl add i).packages ↔
      package ++ ".*" ∈ entries ∨ package ∈ i.packages := by
  induction entries generalizing i with
  | nil => simp
  | cons entry rest ih =>
    rw [List.foldl_cons, ih, mem_packages_add, List.mem_cons]
    tauto

theorem covers_iff :
    i.covers name ↔ name ∈ i.classes ∨ ∃ package ∈ i.packages, qualifier? name = some package := by
  unfold covers
  cases qualifier? name <;> simp

end Imports

/-- Entries import a name: one is the name itself, or what stands before its last dot is a package
whose members one of them imports. -/
def ImportedBy (entries : List String) (name : String) : Prop :=
  (name ∈ entries ∧ ¬['.', '*'] <:+ name.toList) ∨
    ∃ package last, name = package ++ "." ++ last ∧ '.' ∉ last.toList ∧ package ++ ".*" ∈ entries

/-- Neither the order of entries nor how often one is added makes a difference. -/
theorem Imports.covers_foldl {entries : List String} {name : String} :
    (entries.foldl Imports.add {}).covers name ↔ ImportedBy entries name := by
  simp only [covers_iff, mem_classes_foldl, mem_packages_foldl, qualifier?_eq_some_iff, ImportedBy]
  grind

section longest

variable {α : Type} {p : Nat → Bool} {f : Nat → α} {n k : Nat}

theorem findSome?_range_reverse (greatest : IsGreatest {k | k < n ∧ p k} k) :
    ((List.range n).reverse.findSome? fun k => if p k then some (f k) else none) = some (f k) := by
  obtain ⟨⟨below, holds⟩, largest⟩ := greatest
  induction n with
  | zero => cases below
  | succ n ih =>
    simp only [List.range_succ, List.reverse_append, List.reverse_singleton, List.singleton_append,
      List.findSome?_cons]
    by_cases last : p n
    · have first : n ≤ k := largest ⟨n.lt_succ_self, last⟩
      obtain rfl : k = n := by omega
      simp [last]
    · have other : k ≠ n := by rintro rfl; exact last holds
      have below : k < n := by omega
      have largest : k ∈ upperBounds {k | k < n ∧ p k} :=
        fun j ⟨bound, holds⟩ => largest ⟨Nat.lt_succ_of_lt bound, holds⟩
      simpa [last] using ih largest below

end longest

namespace Imports

variable {i : Imports} {package : String} {parts : List String}

theorem shorten?_eq_some {k : Nat}
    (longest : IsGreatest
      {k | k < parts.length ∧ i.covers (qualified package (parts.take (k + 1)))} k) :
    i.shorten? package parts = some (".".intercalate (parts.drop k)) :=
  findSome?_range_reverse longest

theorem shorten?_eq_none
    (outside : ∀ k < parts.length, ¬i.covers (qualified package (parts.take (k + 1)))) :
    i.shorten? package parts = none := by
  refine List.findSome?_eq_none_iff.2 fun k member => ?_
  exact if_neg (outside k (by simpa using member))

theorem write_qualified (nonempty : parts ≠ []) (dotless : ∀ s ∈ parts, '.' ∉ s.toList) :
    i.write package (qualified package parts) =
      (i.shorten? package parts).getD (qualified package parts) := by
  rw [write, behindPackage?_qualified, Option.bind_some, segments_intercalate nonempty dotless]

end Imports

/-- A class that is no array and has a canonical name: segments in its package, or by themselves. -/
structure Universe.Segmented (u : Universe) (c : ClassId) (segments : List String) : Prop where
  plain : (u.decl c).component = none
  canonical : (u.decl c).canonicalName = some (qualified (u.decl c).package segments)
  nonempty : segments ≠ []
  dotless : ∀ s ∈ segments, '.' ∉ s.toList

section rendering

variable {u : Universe} {c : ClassId} {segments : List String} {ctx : RenderContext}

theorem Universe.Segmented.render_eq (named : u.Segmented c segments) :
    (Ty.ofClass c).render u ctx false =
      (.ok ((ctx.naming.imports.shorten? (u.decl c).package segments).getD
        (qualified (u.decl c).package segments)), ctx) := by
  have name : u.className ctx.naming.imports c =
      (ctx.naming.imports.shorten? (u.decl c).package segments).getD
        (qualified (u.decl c).package segments) := by
    rw [className, named.canonical]
    exact Imports.write_qualified named.nonempty named.dotless
  have written (naming : Naming) : Rendering.type u naming false (.ofClass c) =
      (return u.className naming.imports c ++ brackets 0 : Rendering String) := by
    simp only [Rendering.type, Ty.write, innermost_of_component_eq_none named.plain]
    rfl
  rw [Ty.render, RenderContext.run, written, name]
  exact congrArg (fun text => (Except.ok text, ctx)) String.append_empty

/-- The imports of settings and those added directly count alike. -/
theorem Settings.covers_imports (settings : Settings) (direct : List String) {name : String} :
    (direct.foldl Imports.add settings.imports).covers name ↔
      ImportedBy (settings.implicitImports ++ direct) name := by
  rw [Settings.imports, Imports.ofList, ← List.foldl_append, Imports.covers_foldl]

/-- Without variables a class is written from the last segment of the longest part of its name that
is imported, or in full where no part is. Which entries there are decides, not where they came from,
in which order, or how often. -/
theorem Universe.Segmented.render_shortened (named : u.Segmented c segments) {settings : Settings}
    {direct : List String} (imports : ctx.naming.imports = direct.foldl .add settings.imports) :
    (∀ k, IsGreatest {k | k < segments.length ∧ ImportedBy (settings.implicitImports ++ direct)
        (qualified (u.decl c).package (segments.take (k + 1)))} k →
      (Ty.ofClass c).render u ctx false = (.ok (".".intercalate (segments.drop k)), ctx)) ∧
    ((∀ k < segments.length, ¬ImportedBy (settings.implicitImports ++ direct)
        (qualified (u.decl c).package (segments.take (k + 1)))) →
      (Ty.ofClass c).render u ctx false = (.ok (qualified (u.decl c).package segments), ctx)) ∧
    ∀ (other : RenderContext) (settings' : Settings) (direct' : List String),
      other.naming.imports = direct'.foldl .add settings'.imports →
      (∀ e, e ∈ settings'.implicitImports ++ direct' ↔ e ∈ settings.implicitImports ++ direct) →
      ((Ty.ofClass c).render u other false).1 = ((Ty.ofClass c).render u ctx false).1 := by
  have covers (name : String) : ctx.naming.imports.covers name ↔
      ImportedBy (settings.implicitImports ++ direct) name :=
    imports ▸ settings.covers_imports direct
  refine ⟨fun k longest => ?_, fun outside => ?_, fun other settings' direct' imports' same => ?_⟩
  · simp only [← covers] at longest
    rw [named.render_eq, Imports.shorten?_eq_some longest, Option.getD_some]
  · simp only [← covers] at outside
    rw [named.render_eq, Imports.shorten?_eq_none outside, Option.getD_none]
  · have covered (name : String) :
        other.naming.imports.covers name = ctx.naming.imports.covers name := by
      rw [Bool.eq_iff_iff, covers, imports', settings'.covers_imports direct']
      simp only [ImportedBy, same]
    have short : other.naming.imports.shorten? (u.decl c).package segments =
        ctx.naming.imports.shorten? (u.decl c).package segments := by
      simp only [Imports.shorten?, covered]
    rw [named.render_eq, named.render_eq, short]

end rendering

namespace MapEntry

def entry : ClassId := ⟨10⟩

def classes : Universe := (Universe.initial.declare "java.util.Map$Entry").2

theorem named : classes.Segmented entry ["Map", "Entry"] where
  plain := rfl
  canonical := by decide +kernel
  nonempty := List.cons_ne_nil _ _
  dotless := by decide

/-- The members of `Map` and those of its package are imported, and the longer part counts. -/
theorem shortened_entry :
    let settings : Settings := { implicitImports := ["java.util.*"] }
    let ctx : RenderContext := .importing (["java.util.Map.*"].foldl .add settings.imports)
    let other : RenderContext :=
      .importing (["java.util.Map.*", "java.util.*", "java.util.Map.*"].foldl .add {})
    (Ty.ofClass entry).render classes ctx false = (.ok "Entry", ctx) ∧
      (Ty.ofClass entry).render classes {} false = (.ok "java.util.Map.Entry", {}) ∧
      ((Ty.ofClass entry).render classes other false).1 = .ok "Entry" := by
  intro settings ctx other
  have longest : IsGreatest {k | k < 2 ∧
      ImportedBy (settings.implicitImports ++ ["java.util.Map.*"])
        (qualified "java.util" (["Map", "Entry"].take (k + 1)))} 1 :=
    ⟨⟨by decide, .inr ⟨"java.util.Map", "Entry", by decide +kernel, by decide, by decide⟩⟩,
      fun k ⟨below, _⟩ => Nat.le_of_lt_succ below⟩
  have imports : ctx.naming.imports = ["java.util.Map.*"].foldl .add settings.imports := rfl
  have unset : ({} : RenderContext).naming.imports = [].foldl .add ({} : Settings).imports := rfl
  obtain ⟨short, -, set⟩ := named.render_shortened imports
  obtain ⟨-, full, -⟩ := named.render_shortened unset
  have written := short 1 longest
  refine ⟨written, full fun k _ => by simp [ImportedBy], ?_⟩
  rw [set other {} ["java.util.Map.*", "java.util.*", "java.util.Map.*"] rfl (by grind), written]
  rfl

end MapEntry

end JavaTypes
