import JavaTypes.Proofs.ObtainedTypes
import JavaTypes.Proofs.VariableIds

/-!
Ids of types. An id is read from the left: its first letters tell the form, names end at delimiters,
and arguments end at commas and angle brackets. Only brackets behind a wildcard with a bound are
read in two ways, as they may belong to the wildcard or to its bound; where there are none, types of
one id are the same.
-/
namespace JavaTypes

/-- What can follow the name of a class or a variable in an id. -/
def keyDelimiters : List Char := ['|', '<', '>', ',', '[']

def argumentEnds : List Char := [',', '>']

/-- The name of a class behind the brackets that open the name of an array class. -/
def nameBody (name : List Char) : List Char := name.dropWhile (· == '[')

/-- A name with delimiters nowhere but in front. -/
def Solid (name : List Char) : Prop := nameBody name ≠ [] ∧ Unbroken keyDelimiters (nameBody name)

instance (name : List Char) : Decidable (Solid name) :=
  inferInstanceAs (Decidable (_ ≠ _ ∧ Unbroken _ _))

/-- Names that can be read back from ids. -/
structure Universe.Delimited (u : Universe) : Prop extends u.Named where
  solid : ∀ c ∈ u.ids, Solid (u.decl c).binaryName.toList
  params : ∀ v ∈ u.declaredVars, Unbroken keyDelimiters (u.varName v).toList

def Ty.bounded (above : Bool) (t : Ty) : Ty := if above then .wildcard [t] [] else .wildcard [] [t]

def boundKeyword (above : Bool) : String := if above then " extends " else " super "

/-- A wildcard with a bound is the element of an array somewhere in a type. -/
inductive Ty.HasWildcardArray : Ty → Prop where
  | upper (t : Ty) : HasWildcardArray (.array (.wildcard [t] []))
  | lower (t : Ty) : HasWildcardArray (.array (.wildcard [] [t]))
  | element {t : Ty} : t.HasWildcardArray → HasWildcardArray (.array t)
  | inUpper {upper lower : List Ty} {t : Ty} :
      t ∈ upper → t.HasWildcardArray → HasWildcardArray (.wildcard upper lower)
  | inLower {upper lower : List Ty} {t : Ty} :
      t ∈ lower → t.HasWildcardArray → HasWildcardArray (.wildcard upper lower)
  | argument {c : ClassId} {bindings : List TyVar} {b : TyVar} :
      b ∈ bindings → b.shown.HasWildcardArray → HasWildcardArray (.applied c bindings)

section text

theorem Stops.mono {separators separators' rest : List Char} (stops : Stops separators rest)
    (more : separators ⊆ separators') : Stops separators' rest :=
  fun c head => more (stops c head)

/-- A name ends where the first delimiter stands behind its body. -/
theorem Solid.append_inj {name name' rest rest' : List Char} (solid : Solid name)
    (solid' : Solid name') (stops : Stops keyDelimiters rest) (stops' : Stops keyDelimiters rest')
    (same : name ++ rest = name' ++ rest') : name = name' ∧ rest = rest' := by
  induction name generalizing name' with
  | nil => exact absurd rfl solid.1
  | cons c others ih =>
    cases name' with
    | nil => exact absurd rfl solid'.1
    | cons c' others' =>
      rw [List.cons_append, List.cons_append] at same
      obtain ⟨rfl, tails⟩ := List.cons.inj same
      by_cases bracket : c = '['
      · subst bracket
        obtain ⟨rfl, rest⟩ := ih solid (show Solid others' from solid') tails
        exact ⟨rfl, rest⟩
      · have body (others : List Char) : nameBody (c :: others) = c :: others := by
          simp [nameBody, bracket]
        rw [Solid, body] at solid solid'
        exact solid.2.append_inj solid'.2 stops stops' (by simpa using tails)

def bracketPairs : Nat → List Char
  | 0 => []
  | n + 1 => '[' :: ']' :: bracketPairs n

theorem stops_bracketPairs {n : Nat} {rest : List Char} (stops : Stops argumentEnds rest) :
    Stops ['[', ',', '>'] (bracketPairs n ++ rest) := by
  cases n with
  | zero => exact stops.mono (by decide)
  | succ n => exact .cons (by decide) _

theorem follows_key {n : Nat} {rest : List Char} (stops : Stops argumentEnds rest) :
    Stops keyDelimiters (bracketPairs n ++ rest) := (stops_bracketPairs stops).mono (by decide)

theorem bracketPairs_inj {n m : Nat} {rest rest' : List Char} (stops : Stops argumentEnds rest)
    (stops' : Stops argumentEnds rest') (same : bracketPairs n ++ rest = bracketPairs m ++ rest') :
    n = m ∧ rest = rest' := by
  have ended {k : Nat} {rest rest' : List Char} (stops : Stops argumentEnds rest) :
      rest ≠ bracketPairs (k + 1) ++ rest' := by
    rintro rfl
    exact absurd (stops '[' rfl) (by decide)
  induction n generalizing m with
  | zero =>
    cases m with
    | zero => exact ⟨rfl, same⟩
    | succ m => exact absurd same (ended stops)
  | succ n ih =>
    cases m with
    | zero => exact absurd same.symm (ended stops')
    | succ m =>
      simp only [bracketPairs, List.cons_append, List.cons.injEq, true_and] at same
      obtain ⟨rfl, rest⟩ := ih same
      exact ⟨rfl, rest⟩

end text

variable {u : Universe}

/-- The text of arguments, given what follows the bracket that closes them. -/
def argumentText (u : Universe) (rest : List Char) : List Ty → List Char
  | [] => '>' :: rest
  | t :: others => (t.key u).toList ++ furtherText u rest others
where
  /-- The text behind an argument. -/
  furtherText (u : Universe) (rest : List Char) : List Ty → List Char
    | [] => '>' :: rest
    | t :: others => ',' :: ' ' :: ((t.key u).toList ++ furtherText u rest others)

section keys

theorem toList_intercalate_keys (args : List Ty) (rest : List Char) :
    (", ".intercalate (args.map (Ty.key u))).toList ++ '>' :: rest = argumentText u rest args := by
  cases args with
  | nil => rfl
  | cons t others =>
    rw [argumentText]
    induction others generalizing t with
    | nil => simp [argumentText.furtherText]
    | cons s others ih =>
      rw [argumentText.furtherText, ← ih s]
      simp [String.intercalate_cons_cons]

theorem argumentKeys_zipWith {vars : List TyVar} {args : List Ty} (fits : args.length ≤ vars.length) :
    argumentKeys u (vars.zipWith (TyVar.bindTo u) args) = args.map (Ty.key u) := by
  induction args generalizing vars with
  | nil => simp [argumentKeys]
  | cons a others ih =>
    cases vars with
    | nil => simp at fits
    | cons b vars =>
      have shown : argumentKeys u (b.bindTo u a :: vars.zipWith (TyVar.bindTo u) others) =
          a.key u :: argumentKeys u (vars.zipWith (TyVar.bindTo u) others) := by
        rcases TyVar.bindTo_cases (u := u) b a with ⟨r, rfl, key, dropped⟩ | kept
        · rw [dropped]
          exact congrArg (· :: _) key.symm
        · rw [kept]
          rfl
      rw [List.zipWith_cons_cons, shown, ih (by simpa using fits), List.map_cons]

theorem toList_key_apply {c : ClassId} {args : List Ty}
    (fits : args.length ≤ (u.classVariables c).length) (rest : List Char) :
    ((Ty.apply u c args).key u).toList ++ rest = "ParameterizedType:".toList ++
      ((u.decl c).binaryName.toList ++ '<' :: argumentText u rest args) := by
  have key : (Ty.apply u c args).key u = "ParameterizedType:" ++ (u.decl c).binaryName ++ "<" ++
      ", ".intercalate (argumentKeys u ((u.classVariables c).zipWith (TyVar.bindTo u) args)) ++
        ">" := rfl
  rw [key, argumentKeys_zipWith fits, ← toList_intercalate_keys]
  simp only [String.toList_append, List.append_assoc]
  rfl

theorem toList_key_ofClass (c : ClassId) :
    ((Ty.ofClass c).key u).toList = "Class:".toList ++ (u.decl c).binaryName.toList :=
  String.toList_append

theorem toList_key_free (v : VarRef) : ((Ty.variable (.free v)).key u).toList =
    "Class:".toList ++ ((u.decl v.owner.classId).binaryName.toList ++
      ((u.memberMark v.owner).toList ++ ("|TypeVariable:".toList ++ (u.varName v).toList))) :=
  u.toList_varKey v

theorem toList_key_wildcard (upper lower : List Ty) :
    ∃ tail, ((Ty.wildcard upper lower).key u).toList = 'W' :: tail := by
  have key : (Ty.wildcard upper lower).key u = "WildcardType:?" ++
    boundClause " super " (typeKeys u lower) ++ boundClause " extends " (typeKeys u upper) := rfl
  simp only [key, String.toList_append]
  exact ⟨_, rfl⟩

theorem toList_key_array (t : Ty) (n : Nat) :
    ((Ty.array t).key u).toList ++ bracketPairs n = (t.key u).toList ++ bracketPairs (n + 1) := by
  have key : (Ty.array t).key u = t.key u ++ "[]" := rfl
  rw [key, String.toList_append, List.append_assoc]
  rfl

theorem toList_key_bounded (above : Bool) (t : Ty) : ((Ty.bounded above t).key u).toList =
    "WildcardType:?".toList ++ ((boundKeyword above).toList ++ (t.key u).toList) := by
  have key : (Ty.bounded above t).key u = "WildcardType:?" ++ (boundKeyword above ++ t.key u) := by
    have upper : (Ty.bounded true t).key u = "WildcardType:?" ++ "" ++ (" extends " ++ t.key u) := rfl
    have lower : (Ty.bounded false t).key u = "WildcardType:?" ++ (" super " ++ t.key u) ++ "" := rfl
    cases above
    · rw [lower, String.append_empty]
      rfl
    · rw [upper, String.append_empty]
      rfl
  rw [key, String.toList_append, String.toList_append]

end keys

def Ty.arrays : Nat → Ty → Ty
  | 0, t => t
  | n + 1, t => arrays n (.array t)

theorem Ty.array_arrays (n : Nat) (t : Ty) : Ty.array (arrays n t) = arrays (n + 1) t := by
  induction n generalizing t with
  | zero => rfl
  | succ n ih => exact ih (.array t)

theorem Ty.HasWildcardArray.ofBounded (above : Bool) (t : Ty) :
    (Ty.array (.bounded above t)).HasWildcardArray := by
  cases above
  · exact .lower t
  · exact .upper t

theorem Ty.HasWildcardArray.inBound {above : Bool} {t : Ty} (here : t.HasWildcardArray) :
    (Ty.bounded above t).HasWildcardArray := by
  cases above
  · exact .inLower List.mem_cons_self here
  · exact .inUpper List.mem_cons_self here

theorem Ty.HasWildcardArray.arrays {t : Ty} (here : t.HasWildcardArray) (n : Nat) :
    (Ty.arrays n t).HasWildcardArray := by
  induction n generalizing t with
  | zero => exact here
  | succ n ih => exact ih (.element here)

theorem Universe.Regular.exists_arrays {t : Ty} (regular : u.Regular t) :
    ∃ n s, t = Ty.arrays n s ∧ u.Regular s ∧ ∀ e, s ≠ .array e := by
  induction regular with
  | array _ ih =>
    obtain ⟨n, s, rfl, regular, plain⟩ := ih
    exact ⟨n + 1, s, Ty.array_arrays n s, regular, plain⟩
  | ofClass known => exact ⟨0, _, rfl, .ofClass known, nofun⟩
  | free declared => exact ⟨0, _, rfl, .free declared, nofun⟩
  | apply known fits each _ => exact ⟨0, _, rfl, .apply known fits each, nofun⟩
  | unbounded => exact ⟨0, _, rfl, .unbounded, nofun⟩
  | upper bound _ => exact ⟨0, _, rfl, .upper bound, nofun⟩
  | lower bound _ => exact ⟨0, _, rfl, .lower bound, nofun⟩

theorem toList_key_arrays (n : Nat) (t : Ty) :
    ((Ty.arrays n t).key u).toList = (t.key u).toList ++ bracketPairs n := by
  induction n generalizing t with
  | zero => simp [Ty.arrays, bracketPairs]
  | succ n ih => rw [Ty.arrays, ih, toList_key_array]

/-- Arrays over a type are told by their ids from arrays over what is no array. -/
def Ty.ReadBack (u : Universe) (t : Ty) : Prop :=
  ∀ (n m : Nat) (s : Ty) (rest rest' : List Char), u.Regular s → (∀ e, s ≠ .array e) →
    ¬ (arrays n t).HasWildcardArray → ¬ (arrays m s).HasWildcardArray →
      Stops argumentEnds rest → Stops argumentEnds rest' →
        (t.key u).toList ++ (bracketPairs n ++ rest) = (s.key u).toList ++ (bracketPairs m ++ rest') →
          arrays n t = arrays m s ∧ rest = rest'

theorem stops_furtherText (rest : List Char) (args : List Ty) :
    Stops argumentEnds (argumentText.furtherText u rest args) := by
  cases args <;> exact .cons (by decide) _

theorem key_ne_bracket (t : Ty) (rest rest' : List Char) : (t.key u).toList ++ rest ≠ '>' :: rest' := by
  have opens : ∃ c tail, (t.key u).toList = c :: tail ∧ c ≠ '>' := by
    have variable_opens (v : VarRef) : ∃ c tail, (u.varKey v).toList = c :: tail ∧ c ≠ '>' :=
      ⟨'C', _, u.toList_varKey v, by decide⟩
    induction t using Ty.inductionOn with
    | ofClass c => exact ⟨'C', _, toList_key_ofClass c, by decide⟩
    | free v => exact variable_opens v
    | bound v t _ => exact variable_opens v
    | applied c bindings _ =>
      have key : (Ty.applied c bindings).key u = "ParameterizedType:" ++ (u.decl c).binaryName ++
        "<" ++ ", ".intercalate (argumentKeys u bindings) ++ ">" := rfl
      simp only [key, String.toList_append]
      exact ⟨'P', _, rfl, by decide⟩
    | wildcard upper lower _ _ =>
      obtain ⟨tail, text⟩ := toList_key_wildcard (u := u) upper lower
      exact ⟨'W', tail, text, by decide⟩
    | array t ih =>
      obtain ⟨c, tail, text, other⟩ := ih
      refine ⟨c, tail ++ ['[', ']'], ?_, other⟩
      have key := toList_key_arrays (u := u) 1 t
      rw [text] at key
      exact key
  obtain ⟨c, tail, text, other⟩ := opens
  rw [text, List.cons_append]
  exact fun same => other (List.cons.inj same).1

namespace Ty.ReadBack

theorem eq {t t' : Ty} (reads : t.ReadBack u) (regular' : u.Regular t')
    (clear : ¬ t.HasWildcardArray) (clear' : ¬ t'.HasWildcardArray) {rest rest' : List Char}
    (stops : Stops argumentEnds rest) (stops' : Stops argumentEnds rest')
    (same : (t.key u).toList ++ rest = (t'.key u).toList ++ rest') : t = t' ∧ rest = rest' := by
  obtain ⟨m, s, rfl, regular, plain⟩ := regular'.exists_arrays
  refine reads 0 m s rest rest' regular plain clear clear' stops stops' ?_
  rwa [toList_key_arrays, List.append_assoc] at same

/-- Further arguments are read one by one up to the bracket that closes them. -/
theorem furtherText_inj {args args' : List Ty} (reads : ∀ a ∈ args, a.ReadBack u)
    (regular' : ∀ a ∈ args', u.Regular a) (clear : ∀ a ∈ args, ¬ a.HasWildcardArray)
    (clear' : ∀ a ∈ args', ¬ a.HasWildcardArray) {rest rest' : List Char}
    (same : argumentText.furtherText u rest args = argumentText.furtherText u rest' args') :
    args = args' ∧ rest = rest' := by
  induction args generalizing args' with
  | nil =>
    cases args' with
    | nil => exact ⟨rfl, (List.cons.inj same).2⟩
    | cons a' others' => simp [argumentText.furtherText] at same
  | cons a others ih =>
    cases args' with
    | nil => simp [argumentText.furtherText] at same
    | cons a' others' =>
      obtain ⟨read, reads⟩ := List.forall_mem_cons.1 reads
      obtain ⟨regular, regulars⟩ := List.forall_mem_cons.1 regular'
      obtain ⟨first, clear⟩ := List.forall_mem_cons.1 clear
      obtain ⟨first', later'⟩ := List.forall_mem_cons.1 clear'
      simp only [argumentText.furtherText, List.cons.injEq, true_and] at same
      obtain ⟨rfl, further⟩ := read.eq regular first first' (stops_furtherText _ _)
        (stops_furtherText _ _) same
      obtain ⟨rfl, rest⟩ := ih reads regulars clear later' further
      exact ⟨rfl, rest⟩

theorem argumentText_inj {args args' : List Ty} (reads : ∀ a ∈ args, a.ReadBack u)
    (regular' : ∀ a ∈ args', u.Regular a) (clear : ∀ a ∈ args, ¬ a.HasWildcardArray)
    (clear' : ∀ a ∈ args', ¬ a.HasWildcardArray) {rest rest' : List Char}
    (same : argumentText u rest args = argumentText u rest' args') :
    args = args' ∧ rest = rest' := by
  cases args with
  | nil =>
    cases args' with
    | nil => exact ⟨rfl, (List.cons.inj same).2⟩
    | cons a' others' =>
      -- An empty list closes where the other one opens the id of its first argument.
      exact absurd same.symm (key_ne_bracket a' _ _)
  | cons a others =>
    cases args' with
    | nil => exact absurd same (key_ne_bracket a _ _)
    | cons a' others' =>
      obtain ⟨read, reads⟩ := List.forall_mem_cons.1 reads
      obtain ⟨regular, regulars⟩ := List.forall_mem_cons.1 regular'
      obtain ⟨first, clear⟩ := List.forall_mem_cons.1 clear
      obtain ⟨first', later'⟩ := List.forall_mem_cons.1 clear'
      obtain ⟨rfl, further⟩ := read.eq regular first first' (stops_furtherText _ _)
        (stops_furtherText _ _) same
      obtain ⟨rfl, rest⟩ := furtherText_inj reads regulars clear later' further
      exact ⟨rfl, rest⟩

end Ty.ReadBack

section forms

variable {s : Ty} (regular : u.Regular s) (plain : ∀ e, s ≠ .array e) {rest text : List Char}

include regular plain

/-- A text that opens like the id of a class is one, or is the id of a variable. -/
theorem class_text (same : (s.key u).toList ++ rest = "Class:".toList ++ text) :
    (∃ c ∈ u.ids, s = .ofClass c ∧ (u.decl c).binaryName.toList ++ rest = text) ∨
      ∃ v ∈ u.declaredVars, s = .variable (.free v) ∧
        (u.decl v.owner.classId).binaryName.toList ++ ((u.memberMark v.owner).toList ++
          ("|TypeVariable:".toList ++ ((u.varName v).toList ++ rest))) = text := by
  have other (upper lower : List Ty) : s ≠ .wildcard upper lower := by
    rintro rfl
    obtain ⟨tail, opens⟩ := toList_key_wildcard (u := u) upper lower
    simp [opens] at same
  cases regular with
  | @ofClass c known =>
    rw [toList_key_ofClass, List.append_assoc] at same
    exact .inl ⟨c, known, rfl, List.append_cancel_left same⟩
  | @free v declared =>
    simp only [toList_key_free, List.append_assoc] at same
    exact .inr ⟨v, declared, rfl, List.append_cancel_left same⟩
  | apply _ fits _ =>
    rw [toList_key_apply fits] at same
    simp at same
  | unbounded => exact absurd rfl (other _ _)
  | upper => exact absurd rfl (other _ _)
  | lower => exact absurd rfl (other _ _)
  | array => exact absurd rfl (plain _)

theorem parameterized_text
    (same : (s.key u).toList ++ rest = "ParameterizedType:".toList ++ text) :
    ∃ c ∈ u.ids, ∃ args, s = .apply u c args ∧ (∀ a ∈ args, u.Regular a) ∧
      args.length ≤ (u.classVariables c).length ∧
        (u.decl c).binaryName.toList ++ '<' :: argumentText u rest args = text := by
  have other (upper lower : List Ty) : s ≠ .wildcard upper lower := by
    rintro rfl
    obtain ⟨tail, opens⟩ := toList_key_wildcard (u := u) upper lower
    simp [opens] at same
  cases regular with
  | apply known fits each =>
    rw [toList_key_apply fits] at same
    exact ⟨_, known, _, rfl, each, fits, List.append_cancel_left same⟩
  | ofClass =>
    rw [toList_key_ofClass] at same
    simp at same
  | free =>
    rw [toList_key_free] at same
    simp at same
  | unbounded => exact absurd rfl (other _ _)
  | upper => exact absurd rfl (other _ _)
  | lower => exact absurd rfl (other _ _)
  | array => exact absurd rfl (plain _)

theorem wildcard_text (same : (s.key u).toList ++ rest = "WildcardType:?".toList ++ text) :
    (s = .wildcard [] [] ∧ rest = text) ∨ ∃ above t, u.Regular t ∧ s = .bounded above t ∧
      (boundKeyword above).toList ++ ((t.key u).toList ++ rest) = text := by
  have bounded {above : Bool} {t : Ty} (form : s = .bounded above t) :
      (boundKeyword above).toList ++ ((t.key u).toList ++ rest) = text := by
    rw [form, toList_key_bounded, List.append_assoc, List.append_assoc] at same
    exact List.append_cancel_left same
  cases regular with
  | unbounded => exact .inl ⟨rfl, List.append_cancel_left same⟩
  | upper bound => exact .inr ⟨true, _, bound, rfl, bounded rfl⟩
  | lower bound => exact .inr ⟨false, _, bound, rfl, bounded rfl⟩
  | apply _ fits _ =>
    rw [toList_key_apply fits] at same
    simp at same
  | ofClass =>
    rw [toList_key_ofClass] at same
    simp at same
  | free =>
    rw [toList_key_free] at same
    simp at same
  | array => exact absurd rfl (plain _)

end forms

/-- What stands behind the name of its class in the id of a variable opens with a delimiter. -/
theorem memberMark_opens (owner : VarOwner) (rest : List Char) :
    ∃ tail, (u.memberMark owner).toList ++ ("|TypeVariable:".toList ++ rest) = '|' :: tail := by
  cases owner <;> simp only [Universe.memberMark, String.toList_append] <;> exact ⟨_, rfl⟩

theorem bracketPairs_ne_cons {n : Nat} {c : Char} {rest tail : List Char}
    (stops : Stops argumentEnds rest) (other : c ∉ ['[', ',', '>']) :
    bracketPairs n ++ rest ≠ c :: tail := by
  intro same
  have head := stops_bracketPairs (n := n) stops
  rw [same] at head
  exact other (head c rfl)

/-- Each argument of an applied class that fits its variables is shown in it. -/
theorem Ty.HasWildcardArray.apply {c : ClassId} {args : List Ty}
    (fits : args.length ≤ (u.classVariables c).length) {a : Ty} (arg : a ∈ args)
    (here : a.HasWildcardArray) : (Ty.apply u c args).HasWildcardArray := by
  obtain ⟨i, inside, rfl⟩ := List.getElem_of_mem arg
  have within : i < (u.classVariables c).length := inside.trans_le fits
  have member : ((u.classVariables c)[i]).bindTo u args[i] ∈
      (u.classVariables c).zipWith (TyVar.bindTo u) args := by
    rw [← List.getElem_zipWith (f := TyVar.bindTo u) (h := by simp; omega)]
    exact List.getElem_mem _
  refine .argument member ?_
  rcases TyVar.bindTo_cases (u := u) (u.classVariables c)[i] args[i] with ⟨r, free, -, -⟩ | kept
  · rw [free] at here
    cases here
  · rw [kept]
    exact here

namespace Universe

variable (delimited : u.Delimited)

include delimited

theorem Delimited.name_inj {c c' : ClassId} (known : c ∈ u.ids) (known' : c' ∈ u.ids)
    {rest rest' : List Char} (stops : Stops keyDelimiters rest) (stops' : Stops keyDelimiters rest')
    (same : (u.decl c).binaryName.toList ++ rest = (u.decl c').binaryName.toList ++ rest') :
    c = c' ∧ rest = rest' := by
  obtain ⟨names, rests⟩ :=
    (delimited.solid c known).append_inj (delimited.solid c' known') stops stops' same
  exact ⟨delimited.distinct known known' (String.toList_inj.1 names), rests⟩

theorem Delimited.variable_inj {v w : VarRef} (declared : v ∈ u.declaredVars)
    (declared' : w ∈ u.declaredVars) {rest rest' : List Char} (stops : Stops keyDelimiters rest)
    (stops' : Stops keyDelimiters rest')
    (same : (u.varKey v).toList ++ rest = (u.varKey w).toList ++ rest') : v = w ∧ rest = rest' := by
  have declares := typeParams_ne_nil declared
  have declares' := typeParams_ne_nil declared'
  simp only [toList_varKey, List.append_assoc, List.append_cancel_left_eq] at same
  have bar (owner : VarOwner) (rest : List Char) : Stops keyDelimiters
      ((u.memberMark owner).toList ++ ("|TypeVariable:".toList ++ rest)) := by
    obtain ⟨tail, opens⟩ := memberMark_opens (u := u) owner rest
    rw [opens]
    exact .cons (by decide) _
  obtain ⟨oneClass, marks⟩ := delimited.name_inj (mem_owners declares).1 (mem_owners declares').1
    (bar _ _) (bar _ _) same
  obtain ⟨owners, names⟩ := delimited.memberMark_inj declares declares' oneClass marks
  obtain ⟨names, rests⟩ := (delimited.params v declared).append_inj (delimited.params w declared')
    stops stops' names
  refine ⟨delimited.injOn_varKey declared declared' ?_, rests⟩
  rw [varKey, varKey, owners, String.toList_inj.1 names]

/-- The id of a class with brackets behind it is none of a variable. -/
theorem Delimited.class_ne_variable {c : ClassId} (known : c ∈ u.ids) {v : VarRef}
    (declared : v ∈ u.declaredVars) {n : Nat} {rest tail : List Char}
    (stops : Stops argumentEnds rest) : (u.decl c).binaryName.toList ++ (bracketPairs n ++ rest) ≠
      (u.decl v.owner.classId).binaryName.toList ++
        ((u.memberMark v.owner).toList ++ ("|TypeVariable:".toList ++ tail)) := by
  intro same
  obtain ⟨_, opens⟩ := memberMark_opens (u := u) v.owner tail
  rw [opens] at same
  have bar := (delimited.name_inj known (mem_owners (typeParams_ne_nil declared)).1
    (follows_key stops) (.cons (by decide) _) same).2
  exact bracketPairs_ne_cons stops (by decide) bar

theorem Delimited.readBack_ofClass {c : ClassId} (known : c ∈ u.ids) : (Ty.ofClass c).ReadBack u := by
  intro n m s rest rest' regular plain _ _ stops stops' same
  rw [toList_key_ofClass, List.append_assoc] at same
  rcases class_text regular plain same.symm with
    ⟨c', known', rfl, names⟩ | ⟨v, declared, rfl, names⟩
  · obtain ⟨rfl, brackets⟩ :=
      delimited.name_inj known' known (follows_key stops') (follows_key stops) names
    obtain ⟨rfl, rests⟩ := bracketPairs_inj stops' stops brackets
    exact ⟨rfl, rests.symm⟩
  · exact absurd names.symm (delimited.class_ne_variable known declared stops)

theorem Delimited.readBack_free {v : VarRef} (declared : v ∈ u.declaredVars) :
    (Ty.variable (.free v)).ReadBack u := by
  intro n m s rest rest' regular plain _ _ stops stops' same
  have text := same
  simp only [toList_key_free, List.append_assoc] at text
  rcases class_text regular plain text.symm with
    ⟨c', known', rfl, names⟩ | ⟨w, declared', rfl, -⟩
  · exact absurd names (delimited.class_ne_variable known' declared stops')
  · obtain ⟨rfl, brackets⟩ := delimited.variable_inj declared declared'
      (follows_key stops) (follows_key stops') same
    obtain ⟨rfl, rests⟩ := bracketPairs_inj stops stops' brackets
    exact ⟨rfl, rests⟩

theorem Delimited.readBack_apply {c : ClassId} {args : List Ty} (known : c ∈ u.ids)
    (fits : args.length ≤ (u.classVariables c).length) (reads : ∀ a ∈ args, a.ReadBack u) :
    (Ty.apply u c args).ReadBack u := by
  intro n m s rest rest' regular plain clear clear' stops stops' same
  rw [toList_key_apply fits] at same
  obtain ⟨c', known', args', rfl, regulars, fits', text⟩ := parameterized_text regular plain same.symm
  obtain ⟨rfl, arguments⟩ := delimited.name_inj known' known (.cons (by decide) _)
    (.cons (by decide) _) text
  obtain ⟨rfl, brackets⟩ := Ty.ReadBack.argumentText_inj reads regulars
    (fun a arg here => clear ((here.apply fits arg).arrays n))
    (fun a arg here => clear' ((here.apply fits' arg).arrays m)) (List.cons.inj arguments).2.symm
  obtain ⟨rfl, rests⟩ := bracketPairs_inj stops stops' brackets
  exact ⟨rfl, rests⟩

omit delimited

theorem boundKeyword_opens (above : Bool) (rest : List Char) :
    ∃ tail, (boundKeyword above).toList ++ rest = ' ' :: tail := by
  cases above <;> exact ⟨_, rfl⟩

/-- The keyword tells on which side the bound is. -/
theorem boundKeyword_inj {above above' : Bool} {rest rest' : List Char}
    (same : (boundKeyword above).toList ++ rest = (boundKeyword above').toList ++ rest') :
    above = above' ∧ rest = rest' := by
  cases above <;> cases above' <;> simp [boundKeyword] at same <;> exact ⟨rfl, same⟩

theorem readBack_unbounded : (Ty.wildcard [] []).ReadBack u := by
  intro n m s rest rest' regular plain _ _ stops stops' same
  rcases wildcard_text regular plain same.symm with ⟨rfl, brackets⟩ | ⟨above, t, -, -, text⟩
  · obtain ⟨rfl, rests⟩ := bracketPairs_inj stops' stops brackets
    exact ⟨rfl, rests.symm⟩
  · obtain ⟨tail, opens⟩ := boundKeyword_opens above ((t.key u).toList ++ (bracketPairs m ++ rest'))
    exact absurd (text.symm.trans opens) (bracketPairs_ne_cons stops (by decide))

/-- No brackets follow a wildcard with a bound, so what follows it follows its bound. -/
theorem readBack_bounded (above : Bool) {t : Ty} (reads : t.ReadBack u) :
    (Ty.bounded above t).ReadBack u := by
  intro n m s rest rest' regular plain clear clear' stops stops' same
  cases n with
  | succ n => exact absurd ((Ty.HasWildcardArray.ofBounded above t).arrays n) clear
  | zero =>
    rw [toList_key_bounded, List.append_assoc, List.append_assoc] at same
    rcases wildcard_text regular plain same.symm with ⟨rfl, brackets⟩ | ⟨above', t', bound, rfl, text⟩
    · obtain ⟨tail, opens⟩ := boundKeyword_opens above ((t.key u).toList ++ (bracketPairs 0 ++ rest))
      exact absurd (brackets.trans opens) (bracketPairs_ne_cons stops' (by decide))
    · cases m with
      | succ m => exact absurd ((Ty.HasWildcardArray.ofBounded above' t').arrays m) clear'
      | zero =>
        obtain ⟨rfl, texts⟩ := boundKeyword_inj text
        obtain ⟨rfl, rests⟩ := reads.eq bound (fun here => clear here.inBound)
          (fun here => clear' here.inBound) stops stops' texts.symm
        exact ⟨rfl, rests⟩

include delimited in
theorem Delimited.readBack {t : Ty} (regular : u.Regular t) : t.ReadBack u := by
  induction regular with
  | ofClass known => exact delimited.readBack_ofClass known
  | free declared => exact delimited.readBack_free declared
  | apply known fits _ ih => exact delimited.readBack_apply known fits ih
  | unbounded => exact readBack_unbounded
  | upper _ ih => exact readBack_bounded true ih
  | lower _ ih => exact readBack_bounded false ih
  | array _ ih =>
    -- The brackets of an array are counted with those behind its element.
    intro n m s rest rest' regular plain clear clear' stops stops' same
    refine ih (n + 1) m s rest rest' regular plain clear clear' stops stops' ?_
    rwa [← List.append_assoc, toList_key_array, List.append_assoc] at same

end Universe

/-- Obtained types of one id are the same, if no array in them is one of a wildcard with a bound. -/
theorem Universe.Delimited.eq_of_key_eq (delimited : u.Delimited) {t t' : Ty}
    (obtained : u.Obtained t) (obtained' : u.Obtained t') (clear : ¬ t.HasWildcardArray)
    (clear' : ¬ t'.HasWildcardArray) (same : t.key u = t'.key u) : t = t' := by
  have texts : (t.key u).toList ++ [] = (t'.key u).toList ++ [] := by rw [same]
  exact ((delimited.readBack obtained.regular).eq obtained'.regular clear clear' .nil .nil texts).1

namespace Brackets

def list : ClassId := ⟨10⟩
def box : ClassId := ⟨11⟩
def varX : VarRef := ⟨.ofClass list, 0⟩
def varT : VarRef := ⟨.ofClass box, 0⟩

/-- `interface List<X>` and `class Box<T>`. -/
def classes : Universe :=
  ((Universe.initial.defineClass "List" [.kind .interface, .typeParam "X" []]).2.defineClass "Box"
    [.typeParam "T" []]).2

theorem delimited : classes.Delimited where
  toNamed := .of_ids (by decide) (by decide) (by decide) (by decide)
  solid := by decide
  params := fun v declared => by
    have each : ∀ w ∈ classes.allVars, Unbroken keyDelimiters (classes.varName w).toList := by decide
    exact each v (mem_allVars declared)

def declaredList : DeclType := .applied list [.ofClass Universe.object]

theorem shaped_declaredList : declaredList.Shaped classes :=
  .applied (by decide) (List.forall_mem_singleton.2 (.ofClass (by decide)))

def listOfObject : Ty := .applied list [.bound varX (.ofClass Universe.object)]

/-- `List<X>`, seen where `X` is `Object`. -/
def seenList : Ty :=
  (Ty.apply classes list [.variable (.free varX)]).subst classes .filled
    [.bound varX (.ofClass Universe.object)]

theorem obtained_listOfObject : classes.Obtained listOfObject := .resolve shaped_declaredList rfl

theorem obtained_seenList : classes.Obtained seenList := by
  have object : classes.Obtained (.ofClass Universe.object) := .resolve (.ofClass (by decide)) rfl
  have declared : varX ∈ classes.declaredVars := mem_declaredVars.2 (by decide)
  have free : classes.Obtained (.variable (.free varX)) := .resolve (.variable declared) rfl
  exact .subst .filled (.apply (by decide) (List.forall_mem_singleton.2 free))
    (List.forall_mem_singleton.2 object)

theorem clear_listOfObject : ¬ listOfObject.HasWildcardArray := by
  intro here
  cases here with
  | argument member shown =>
    cases List.mem_singleton.1 member
    cases shown

/-- A type written down and one made by substitution are the same, as their ids are. -/
theorem seenList_eq : classes.Delimited ∧ classes.Obtained seenList ∧
    classes.Obtained listOfObject ∧ ¬ seenList.HasWildcardArray ∧ ¬ listOfObject.HasWildcardArray ∧
      seenList.key classes = listOfObject.key classes ∧ seenList = listOfObject := by
  have clear : ¬ seenList.HasWildcardArray := clear_listOfObject
  have same : seenList.key classes = listOfObject.key classes := by decide
  exact ⟨delimited, obtained_seenList, obtained_listOfObject, clear, clear_listOfObject, same,
    delimited.eq_of_key_eq obtained_seenList obtained_listOfObject clear clear_listOfObject same⟩

/-- `T[]` seen through `Box<? extends List<Object>>`. -/
def items : Ty := .array (.wildcard [listOfObject] [])

/-- `T` seen through `Box<? extends List<Object>[]>`. -/
def item : Ty := .wildcard [.array listOfObject] []

/-- Brackets behind a wildcard may be those of an array of it or those of its bound. -/
theorem items_ne_item : classes.Obtained items ∧ classes.Obtained item ∧ items ≠ item ∧
    items.key classes = item.key classes := by
  have declared : varT ∈ classes.declaredVars := mem_declaredVars.2 (by decide)
  have array : classes.Obtained (.array (.variable (.free varT))) :=
    .resolve (.array (.variable declared)) rfl
  have bounded : classes.Obtained (.wildcard [listOfObject] []) :=
    .resolve (.upper shaped_declaredList) rfl
  have seen : items = (Ty.array (.variable (.free varT))).subst classes .kept
      [.bound varT (.wildcard [listOfObject] [])] := rfl
  refine ⟨?_, .resolve (.upper (.array shaped_declaredList)) rfl, nofun, by decide⟩
  rw [seen]
  exact .subst .kept array (List.forall_mem_singleton.2 bounded)

end Brackets

end JavaTypes
