import JavaTypes.Proofs.OverrideKeys
import JavaTypes.Proofs.TypeIds

/-!
Override keys read back. A type ends at the first comma or closing parenthesis that stands in no
angle brackets, and parameters open behind the last opening parenthesis. So where names have no such
marks in them, a key determines the name of the method and the texts of its parameter types.
-/
namespace JavaTypes

def nameBreaks : List Char := ['<', '>', '(', ')', ',']

/-- How many angle brackets are open behind a letter. -/
def depthAfter (depth : Nat) (c : Char) : Nat :=
  if c = '<' then depth + 1 else if c = '>' then depth - 1 else depth

/-- The text up to the first comma or closing parenthesis outside of angle brackets, where some of
them are open already. -/
def readType : Nat → List Char → List Char
  | _, [] => []
  | depth, c :: rest =>
    if depth = 0 ∧ (c = ',' ∨ c = ')') then [] else c :: readType (depthAfter depth c) rest

/-- A text that is read as a whole where at least `depth` angle brackets are open, and that opens no
parenthesis. -/
structure Level (depth : Nat) (text : List Char) : Prop where
  reads : ∀ d rest, depth ≤ d → readType d (text ++ rest) = text ++ readType d rest
  opens : Unbroken ['('] text

theorem readType_of_stops {rest : List Char} (stops : Stops [',', ')'] rest) :
    readType 0 rest = [] := by
  cases rest with
  | nil => rfl
  | cons c rest =>
    have mark : c = ',' ∨ c = ')' := by simpa using stops c rfl
    rw [readType, if_pos ⟨rfl, mark⟩]

namespace Level

variable {depth : Nat} {text text' : List Char}

theorem nil : Level depth [] := ⟨fun _ _ _ => rfl, by simp [Unbroken]⟩

theorem mono {depth' : Nat} (level : Level depth text) (le : depth ≤ depth') : Level depth' text :=
  ⟨fun d rest enough => level.reads d rest (le.trans enough), level.opens⟩

theorem append (level : Level depth text) (level' : Level depth text') :
    Level depth (text ++ text') where
  reads := by
    intro d rest enough
    rw [List.append_assoc, level.reads d _ enough, level'.reads d rest enough, List.append_assoc]
  opens := List.forall_mem_append.2 ⟨level.opens, level'.opens⟩

theorem letter {c : Char} (plain : c ∉ nameBreaks) : Level depth [c] where
  reads := by
    intro d rest _
    simp only [nameBreaks, List.mem_cons, List.not_mem_nil, or_false, not_or] at plain
    obtain ⟨opens, closes, -, closing, comma⟩ := plain
    simp [readType, depthAfter, opens, closes, closing, comma]
  opens := by
    intro d inside separator
    rw [List.mem_singleton] at inside separator
    subst inside
    exact plain (separator ▸ by decide)

theorem of_unbroken (unbroken : Unbroken nameBreaks text) : Level depth text := by
  induction text with
  | nil => exact nil
  | cons c rest ih =>
    obtain ⟨first, others⟩ := List.forall_mem_cons.1 unbroken
    exact (letter first).append (ih others)

/-- In angle brackets commas are part of a type. -/
theorem comma : Level 1 [','] where
  reads := by
    intro d rest enough
    have inside : d ≠ 0 := by omega
    simp [readType, depthAfter, inside]
  opens := by decide

theorem enclosed (level : Level 1 text) : Level depth ('<' :: (text ++ ['>'])) where
  reads := by
    intro d rest _
    have opened : readType d ('<' :: (text ++ '>' :: rest)) =
        '<' :: readType (d + 1) (text ++ '>' :: rest) := by simp [readType, depthAfter]
    have closed : readType (d + 1) ('>' :: rest) = '>' :: readType d rest := by
      simp [readType, depthAfter]
    rw [List.cons_append, List.append_assoc, List.singleton_append, opened,
      level.reads (d + 1) _ (Nat.le_add_left 1 d), closed]
    simp
  opens := by
    intro c inside separator
    rw [List.mem_singleton] at separator
    subst separator
    simp only [List.mem_cons, List.mem_append] at inside
    rcases inside with ends | inside | ends | ends
    · exact absurd ends (by decide)
    · exact level.opens _ inside (by decide)
    · exact absurd ends (by decide)
    · cases ends

/-- Types that end at the marks between them are told apart. -/
theorem append_inj {rest rest' : List Char} (level : Level 0 text) (level' : Level 0 text')
    (stops : Stops [',', ')'] rest) (stops' : Stops [',', ')'] rest')
    (same : text ++ rest = text' ++ rest') : text = text' ∧ rest = rest' := by
  have read := level.reads 0 rest (Nat.le_refl 0)
  have read' := level'.reads 0 rest' (Nat.le_refl 0)
  rw [readType_of_stops stops, List.append_nil] at read
  rw [readType_of_stops stops', List.append_nil] at read'
  have texts : text = text' := by rw [← read, same, read']
  subst texts
  exact ⟨rfl, List.append_cancel_left same⟩

end Level

section lists

def furtherTexts (texts : List String) : List Char := texts.flatMap fun t => ',' :: ' ' :: t.toList

theorem toList_intercalate (t : String) (texts : List String) :
    (", ".intercalate (t :: texts)).toList = t.toList ++ furtherTexts texts := by
  induction texts generalizing t with
  | nil => simp [furtherTexts]
  | cons s rest ih =>
    rw [String.intercalate_cons_cons, String.toList_append, String.toList_append, ih s]
    simp [furtherTexts]

theorem Level.intercalate {depth : Nat} {separator : String} (between : Level depth separator.toList)
    {texts : List String} (levels : ∀ t ∈ texts, Level depth t.toList) :
    Level depth (separator.intercalate texts).toList := by
  induction texts with
  | nil => exact .nil
  | cons t rest ih =>
    obtain ⟨first, others⟩ := List.forall_mem_cons.1 levels
    cases rest with
    | nil =>
      rw [String.intercalate_singleton]
      exact first
    | cons s rest =>
      rw [String.intercalate_cons_cons, String.toList_append, String.toList_append]
      exact (first.append between).append (ih others)

theorem Level.arguments {texts : List String} (levels : ∀ t ∈ texts, Level 0 t.toList) :
    Level 1 (", ".intercalate texts).toList := by
  have between : Level 1 ", ".toList := Level.comma.append (.letter (by decide))
  exact .intercalate between fun t member => (levels t member).mono (Nat.zero_le 1)

theorem Level.angled {texts : List String} (levels : ∀ t ∈ texts, Level 0 t.toList) :
    Level 0 (angled texts).toList := by
  unfold JavaTypes.angled
  split
  · exact .nil
  · simpa using (Level.arguments levels).enclosed

theorem Level.boundClause {keyword : String} (plain : Unbroken nameBreaks keyword.toList)
    {texts : List String} (levels : ∀ t ∈ texts, Level 0 t.toList) :
    Level 0 (boundClause keyword texts).toList := by
  unfold JavaTypes.boundClause
  split
  · exact .nil
  · rw [String.toList_append]
    exact .append (.of_unbroken plain) (.intercalate (.of_unbroken (by decide)) levels)

theorem toList_brackets (depth : Nat) : (brackets depth).toList = bracketPairs depth := by
  induction depth with
  | zero => rfl
  | succ n ih =>
    rw [bracketPairs, ← ih]
    simp [brackets, List.replicate_succ]

theorem Level.brackets (depth : Nat) : Level 0 (brackets depth).toList := by
  have pair : Level 0 ['[', ']'] := .of_unbroken (by decide)
  rw [toList_brackets]
  induction depth with
  | zero => exact .nil
  | succ n ih => exact pair.append ih

theorem stops_furtherTexts (texts : List String) : Stops [',', ')'] (furtherTexts texts ++ [')']) := by
  cases texts with
  | nil => exact .cons (by decide) _
  | cons t rest => exact .cons (by decide) _

theorem furtherTexts_inj {texts texts' : List String} (levels : ∀ t ∈ texts, Level 0 t.toList)
    (levels' : ∀ t ∈ texts', Level 0 t.toList)
    (same : furtherTexts texts ++ [')'] = furtherTexts texts' ++ [')']) : texts = texts' := by
  induction texts generalizing texts' with
  | nil =>
    cases texts' with
    | nil => rfl
    | cons t rest => simp [furtherTexts] at same
  | cons t rest ih =>
    cases texts' with
    | nil => simp [furtherTexts] at same
    | cons t' rest' =>
      obtain ⟨first, others⟩ := List.forall_mem_cons.1 levels
      obtain ⟨first', others'⟩ := List.forall_mem_cons.1 levels'
      have tails : t.toList ++ (furtherTexts rest ++ [')']) =
          t'.toList ++ (furtherTexts rest' ++ [')']) := by
        simpa [furtherTexts] using same
      obtain ⟨texts, tails⟩ :=
        first.append_inj first' (stops_furtherTexts rest) (stops_furtherTexts rest') tails
      rw [String.toList_inj.1 texts, ih others others' tails]

/-- Texts that are not empty can be read back from a list in parentheses. -/
theorem inParentheses_inj {texts texts' : List String} (levels : ∀ t ∈ texts, Level 0 t.toList)
    (levels' : ∀ t ∈ texts', Level 0 t.toList) (written : "" ∉ texts) (written' : "" ∉ texts')
    (same : Executable.inParentheses texts = Executable.inParentheses texts') : texts = texts' := by
  have lists := congrArg String.toList same
  simp only [Executable.inParentheses, String.toList_append, List.append_assoc,
    List.append_cancel_left_eq] at lists
  have empty {t : String} {rest : List String} (first : Level 0 t.toList)
      (same : [')'] = t.toList ++ (furtherTexts rest ++ [')'])) : t = "" := by
    obtain ⟨text, -⟩ := Level.nil.append_inj first (.cons (by decide) _) (stops_furtherTexts rest)
      same
    exact String.toList_inj.1 text.symm
  cases texts with
  | nil =>
    cases texts' with
    | nil => rfl
    | cons t rest =>
      rw [toList_intercalate, List.append_assoc] at lists
      have blank := empty (levels' t List.mem_cons_self) (by simpa using lists)
      exact absurd (blank ▸ List.mem_cons_self) written'
  | cons t rest =>
    cases texts' with
    | nil =>
      rw [toList_intercalate, List.append_assoc] at lists
      have blank := empty (levels t List.mem_cons_self) (by simpa using lists.symm)
      exact absurd (blank ▸ List.mem_cons_self) written
    | cons t' rest' =>
      obtain ⟨first, others⟩ := List.forall_mem_cons.1 levels
      obtain ⟨first', others'⟩ := List.forall_mem_cons.1 levels'
      rw [toList_intercalate, toList_intercalate, List.append_assoc, List.append_assoc] at lists
      obtain ⟨texts, tails⟩ :=
        first.append_inj first' (stops_furtherTexts rest) (stops_furtherTexts rest') lists
      rw [String.toList_inj.1 texts, furtherTexts_inj others others' tails]

/-- Parameters stand behind the last parenthesis that opens, whatever the name is. -/
theorem append_inParentheses_inj {name name' : String} {texts texts' : List String}
    (levels : ∀ t ∈ texts, Level 0 t.toList) (levels' : ∀ t ∈ texts', Level 0 t.toList)
    (same : name ++ Executable.inParentheses texts = name' ++ Executable.inParentheses texts') :
    name = name' ∧ Executable.inParentheses texts = Executable.inParentheses texts' := by
  have closed {texts : List String} (levels : ∀ t ∈ texts, Level 0 t.toList) :
      Unbroken ['('] ((", ".intercalate texts).toList ++ [')']).reverse := by
    have inside := (Level.arguments levels).opens
    intro c occurs
    rw [List.mem_reverse, List.mem_append] at occurs
    rcases occurs with occurs | occurs
    · exact inside c occurs
    · rw [List.mem_singleton.1 occurs]
      decide
  have backwards (name : String) (texts : List String) :
      (name ++ Executable.inParentheses texts).toList.reverse =
        ((", ".intercalate texts).toList ++ [')']).reverse ++ '(' :: name.toList.reverse := by
    simp [Executable.inParentheses]
  have reversed := congrArg (fun s : String => s.toList.reverse) same
  simp only [backwards] at reversed
  obtain ⟨-, names⟩ := (closed levels).append_inj (closed levels') (.cons (by decide) _)
    (.cons (by decide) _) reversed
  have names : name = name' := String.toList_inj.1 (List.reverse_inj.1 (List.cons.inj names).2)
  subst names
  refine ⟨rfl, String.toList_inj.1 ?_⟩
  have texts := congrArg String.toList same
  rw [String.toList_append, String.toList_append] at texts
  exact List.append_cancel_left texts

end lists

section arrays

theorem bracketPairs_succ (n : Nat) : bracketPairs (n + 1) = bracketPairs n ++ ['[', ']'] := by
  induction n with
  | zero => rfl
  | succ n ih => exact congrArg (fun rest => '[' :: ']' :: rest) ih

/-- Brackets at the end are counted from there. -/
theorem append_bracketPairs_inj {text text' : List Char} (ends : text.getLast? ≠ some ']')
    (ends' : text'.getLast? ≠ some ']') {n n' : Nat}
    (same : text ++ bracketPairs n = text' ++ bracketPairs n') : n = n' := by
  have last (text : List Char) (n : Nat) :
      (text ++ bracketPairs (n + 1)).getLast? = some ']' := by
    simp [bracketPairs_succ]
  induction n generalizing n' with
  | zero =>
    cases n' with
    | zero => rfl
    | succ n' =>
      rw [bracketPairs, List.append_nil] at same
      exact absurd (same ▸ last text' n') ends
  | succ n ih =>
    cases n' with
    | zero =>
      rw [bracketPairs.eq_1, List.append_nil] at same
      exact absurd (same ▸ last text n) ends'
    | succ n' =>
      rw [bracketPairs_succ, bracketPairs_succ, ← List.append_assoc, ← List.append_assoc] at same
      rw [ih (List.append_cancel_right same)]

/-- A type is read as the name in front, without its arguments, and the brackets at the end. -/
theorem name_brackets_inj {name name' : String} (unbroken : Unbroken ['<', '['] name.toList)
    (unbroken' : Unbroken ['<', '['] name'.toList) {texts texts' : List String} {n n' : Nat}
    (same : name ++ angled texts ++ brackets n = name' ++ angled texts' ++ brackets n') :
    name = name' ∧ n = n' := by
  have cases (texts : List String) : (angled texts).toList = [] ∨
      ∃ inside, (angled texts).toList = '<' :: inside ++ ['>'] := by
    unfold angled
    split
    · exact .inl rfl
    · exact .inr ⟨(", ".intercalate texts).toList, by simp⟩
  have stops (texts : List String) (n : Nat) :
      Stops ['<', '['] ((angled texts).toList ++ bracketPairs n) := by
    rcases cases texts with none | ⟨inside, shown⟩
    · rw [none]
      cases n with
      | zero => exact .nil
      | succ n => exact .cons (c := '[') (by decide) _
    · rw [shown]
      exact .cons (c := '<') (by decide) _
  have ends (texts : List String) : (angled texts).toList.getLast? ≠ some ']' := by
    rcases cases texts with none | ⟨inside, shown⟩
    · simp [none]
    · rw [shown, List.getLast?_concat]
      decide
  have lists := congrArg String.toList same
  simp only [String.toList_append, toList_brackets, List.append_assoc] at lists
  obtain ⟨names, tails⟩ := unbroken.append_inj unbroken' (stops texts n) (stops texts' n') lists
  exact ⟨String.toList_inj.1 names, append_bracketPairs_inj (ends texts) (ends texts') tails⟩

end arrays

variable {u : Universe}

/-- Names without marks, both of classes as they are written and of type parameters. -/
structure Universe.Lettered (u : Universe) : Prop where
  classes : ∀ c ∈ u.ids, Unbroken nameBreaks (u.className {} c).toList
  params : ∀ v ∈ u.declaredVars, Unbroken nameBreaks (u.varName v).toList

section texts

variable (lettered : u.Lettered)

include lettered

theorem Universe.Lettered.className (c : ClassId) : Level 0 (u.className {} c).toList := by
  by_cases known : c ∈ u.ids
  · exact .of_unbroken (lettered.classes c known)
  · rw [Universe.className, decl_of_not_mem_ids known]
    exact .of_unbroken (by decide)

theorem Universe.Lettered.varName (v : VarRef) : Level 0 (u.varName v).toList := by
  cases found : u.typeParam? v with
  | some p => exact .of_unbroken (lettered.params v (by simp [Universe.declaredVars, found]))
  | none =>
    rw [Universe.varName, found]
    exact .nil

theorem Universe.Lettered.nameOf (owner : VarOwner) (v : VarRef) :
    Level 0 (nameOf u (ownNaming u owner) v).toList := by
  unfold JavaTypes.nameOf
  cases found : (ownNaming u owner).aliases.lookup (u.varKey v) with
  | none => exact lettered.varName v
  | some text =>
    obtain ⟨before, after, split, -⟩ := List.lookup_eq_some_iff.1 found
    have entry : (u.varKey v, text) ∈ (ownNaming u owner).aliases := by simp [split]
    obtain ⟨i, -, same⟩ := mem_aliases.1 entry
    rw [Option.getD_some, (Prod.mk.inj same).2, String.toList_append]
    exact .append (.letter (by decide)) (.of_unbroken (unbroken_toString nameBreaks i (by decide)))

/-- In texts of types commas stand between angle brackets only. -/
theorem Universe.Lettered.bareText (owner : VarOwner) (t : Ty) :
    Level 0 (t.bareText u (ownNaming u owner)).toList := by
  induction t using Ty.inductionOn with
  | ofClass c =>
    have names : ∀ text ∈ (u.classVariables (u.innermost c.index c).1).map
        fun v => JavaTypes.nameOf u (ownNaming u owner) v.ref, Level 0 text.toList := by
      intro text member
      obtain ⟨v, -, rfl⟩ := List.mem_map.1 member
      exact lettered.nameOf owner v.ref
    rw [Ty.bareText, Ty.textWith_ofClass, classText, String.toList_append, String.toList_append]
    exact .append (.append (lettered.className _) (.angled names)) (.brackets _)
  | free v => exact lettered.nameOf owner v
  | bound v t ih => exact ih
  | array t ih =>
    rw [Ty.bareText, Ty.textWith_array, String.toList_append]
    exact .append ih (.of_unbroken (by decide))
  | applied c bindings ih =>
    rw [Ty.bareText, Ty.textWith_applied, String.toList_append]
    refine .append (lettered.className c) (.angled fun text member => ?_)
    obtain ⟨b, inside, rfl⟩ := List.mem_map.1 member
    cases b with
    | free v => exact lettered.nameOf owner v
    | bound v t => exact ih v t inside
  | wildcard upper lower ihUpper ihLower =>
    rw [Ty.bareText, Ty.textWith_wildcard, String.toList_append, String.toList_append]
    refine .append (.append (.of_unbroken (by decide)) ?_) ?_
    · refine .boundClause (by decide) fun text member => ?_
      obtain ⟨t, inside, rfl⟩ := List.mem_map.1 member
      exact ihLower t inside
    · refine .boundClause (by decide) fun text member => ?_
      obtain ⟨t, inside, rfl⟩ := List.mem_map.1 member
      exact ihUpper t inside

theorem Universe.Lettered.bareTexts (owner : VarOwner) (types : List Ty) :
    ∀ text ∈ types.map (Ty.bareText u (ownNaming u owner)), Level 0 text.toList := by
  intro text member
  obtain ⟨t, -, rfl⟩ := List.mem_map.1 member
  exact lettered.bareText owner t

end texts

end JavaTypes
