/-!
Names with separators: the part before and after the last separator, the segments between
separators, and the names derived from the binary name of a class.
-/
namespace JavaTypes.QualifiedName

/-- The text before and after the last `sep`; `none` where there is no `sep`. -/
def splitLast? (sep : Char) : List Char → Option (List Char × List Char)
  | [] => none
  | c :: rest =>
    match splitLast? sep rest with
    | some (before, after) => some (c :: before, after)
    | none => if c = sep then some ([], rest) else none

def afterLast (sep : Char) (text : List Char) : List Char :=
  match splitLast? sep text with
  | some (_, after) => after
  | none => text

/-- The pieces between occurrences of `sep`; always at least one. -/
def segments (sep : Char) : List Char → List (List Char)
  | [] => [[]]
  | c :: rest =>
    match segments sep rest with
    | [] => [[c]]
    | first :: others => if c = sep then [] :: first :: others else (c :: first) :: others

def dropStart? : List Char → List Char → Option (List Char)
  | [], text => some text
  | _ :: _, [] => none
  | c :: start, d :: text => if c = d then dropStart? start text else none

def package (name : String) : String :=
  match splitLast? '.' name.toList with
  | some (before, _) => String.ofList before
  | none => ""

/-- The simple name of a binary name: what follows the last dot and, in that, the last dollar. -/
def simple (name : String) : String :=
  String.ofList (afterLast '$' (afterLast '.' name.toList))

/-- The canonical name of a binary name writes nesting with dots. -/
def canonical (name : String) : String :=
  String.ofList (name.toList.map fun c => if c = '$' then '.' else c)

/-- The simple name of a class declared inside code: what follows the last dollar, without the
number the compiler put in front. -/
def simpleOfLocal (name : String) : String :=
  String.ofList ((afterLast '$' name.toList).dropWhile Char.isDigit)

def qualifier? (name : String) : Option String :=
  (splitLast? '.' name.toList).map fun parts => String.ofList parts.1

end JavaTypes.QualifiedName
