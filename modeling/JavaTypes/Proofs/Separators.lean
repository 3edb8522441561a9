import JavaTypes.Ty.Basic

/-!
Names between separators. A text made of a name and a rest that opens with a separator determines
both, if no separator is in the name.
-/
namespace JavaTypes

/-- A text that is at its end or goes on with a separator. -/
def Stops (separators rest : List Char) : Prop := ∀ c ∈ rest.head?, c ∈ separators

def Unbroken (separators name : List Char) : Prop := ∀ c ∈ name, c ∉ separators

section

variable {separators : List Char}

instance (name : List Char) : Decidable (Unbroken separators name) :=
  List.decidableBAll (fun c => c ∉ separators) name

theorem Stops.nil : Stops separators [] := by simp [Stops]

theorem Stops.cons {c : Char} (inside : c ∈ separators) (rest : List Char) :
    Stops separators (c :: rest) := by
  simpa [Stops] using inside

/-- A name ends where the first separator stands. -/
theorem Unbroken.append_inj {name name' rest rest' : List Char}
    (unbroken : Unbroken separators name) (unbroken' : Unbroken separators name')
    (stops : Stops separators rest) (stops' : Stops separators rest')
    (same : name ++ rest = name' ++ rest') : name = name' ∧ rest = rest' := by
  induction name generalizing name' with
  | nil =>
    cases name' with
    | nil => exact ⟨rfl, same⟩
    | cons c others =>
      rw [List.nil_append, List.cons_append] at same
      rw [same] at stops
      exact absurd (stops c rfl) (unbroken' c List.mem_cons_self)
  | cons c others ih =>
    obtain ⟨first, tail⟩ := List.forall_mem_cons.1 unbroken
    cases name' with
    | nil =>
      rw [List.nil_append, List.cons_append] at same
      rw [← same] at stops'
      exact absurd (stops' c rfl) first
    | cons c' others' =>
      obtain ⟨-, tail'⟩ := List.forall_mem_cons.1 unbroken'
      rw [List.cons_append, List.cons_append] at same
      obtain ⟨rfl, others⟩ := List.cons.inj same
      obtain ⟨rfl, rest⟩ := ih tail tail' others
      exact ⟨rfl, rest⟩

end

/-- A number is written with digits alone. -/
theorem unbroken_toString (separators : List Char) (n : Nat)
    (none : separators.all fun c => !c.isDigit) : Unbroken separators (toString n).toList := by
  intro c inside separator
  rw [Nat.toString_eq_ofList_toDigits, String.toList_ofList] at inside
  have other := List.all_eq_true.1 none c separator
  have digit : c.isDigit = true := Nat.isDigit_of_mem_toDigits (by decide) (by decide) inside
  simp [digit] at other

/-- Different numbers are written differently. -/
theorem toString_inj {n n' : Nat} (same : toString n = toString n') : n = n' := by
  have digits : Nat.toDigits 10 n = Nat.toDigits 10 n' := by
    simpa only [Nat.toString_eq_ofList_toDigits, String.toList_ofList] using
      congrArg String.toList same
  calc
    n = Nat.ofDigitChars 10 (Nat.toDigits 10 n) 0 := Nat.ofDigitChars_ten_toDigits.symm
    _ = n' := by rw [digits, Nat.ofDigitChars_ten_toDigits]

end JavaTypes
