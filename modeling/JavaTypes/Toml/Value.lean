import JavaTypes.Toml.Binary64

/-!
Values of TOML documents. A table remembers how it came about, as that decides whether a later
line may add to it.
-/
namespace JavaTypes.Toml

inductive TableOrigin where
  /-- Written in braces; complete as it stands. -/
  | inline
  /-- Made by a dotted key; further dotted keys may add to it. -/
  | dotted
  /-- Made on the way to a longer header; its own header may still follow. -/
  | implied
  /-- Made by its header. -/
  | header
  deriving DecidableEq, Inhabited

inductive Value where
  | string (text : String)
  | integer (value : Int)
  | float (value : Binary64)
  | boolean (value : Bool)
  | dateTime (literal : String)
  | array (items : List Value)
  | table (origin : TableOrigin) (entries : List (String × Value))
  /-- Tables made by double headers, the newest last. -/
  | tables (items : List (List (String × Value)))
  deriving Inhabited

/-- Entries in the order of the document. -/
abbrev Table := List (String × Value)

/-- Puts a value in the place of an entry, or at the end. -/
def Table.set (key : String) (value : Value) : Table → Table
  | [] => [(key, value)]
  | (k, v) :: rest => if k = key then (key, value) :: rest else (k, v) :: Table.set key value rest

/-- A new entry; a key that is there already makes it fail. -/
def Table.add? (table : Table) (key : String) (value : Value) : Option Table :=
  if (table.lookup key).isSome then none else some (table ++ [(key, value)])

/-- Changes the table at a path of header names. Missing tables are made; the newest of several
tables is meant. -/
def Table.atHeader? (change : Table → Option Table) : List String → Table → Option Table
  | [], table => change table
  | key :: path, table =>
    match table.lookup key with
    | none => do
      let inner ← Table.atHeader? change path []
      return table.set key (.table .implied inner)
    | some (.table .inline _) => none
    | some (.table origin inner) => do
      let inner ← Table.atHeader? change path inner
      return table.set key (.table origin inner)
    | some (.tables items) => do
      let newest ← items.getLast?
      let newest ← Table.atHeader? change path newest
      return table.set key (.tables (items.dropLast ++ [newest]))
    | some _ => none

/-- Adds an entry under a dotted key. No table with a header of its own may be on the way, and the
table that takes the entry is made by dotted keys alone. -/
def Table.addDotted? (value : Value) : List String → Table → Option Table
  | [], _ => none
  | [key], table => table.add? key value
  | key :: path, table =>
    match table.lookup key with
    | none => do
      let inner ← Table.addDotted? value path []
      return table.set key (.table .dotted inner)
    | some (.table .dotted inner) => do
      let inner ← Table.addDotted? value path inner
      return table.set key (.table .dotted inner)
    | some (.table .implied inner) =>
      match path with
      | [_] => none
      | _ => do
        let inner ← Table.addDotted? value path inner
        return table.set key (.table .implied inner)
    | some (.tables items) =>
      match path with
      | [_] => none
      | _ => do
        let newest ← items.getLast?
        let newest ← Table.addDotted? value path newest
        return table.set key (.tables (items.dropLast ++ [newest]))
    | some _ => none

/-- Opens the table of a header. Only a table that was implied may exist already; it takes the place
of its header in the document. -/
def Table.openHeader? (key : String) (table : Table) : Option Table :=
  match table.lookup key with
  | none => some (table ++ [(key, .table .header [])])
  | some (.table .implied inner) =>
    some (table.filter (·.1 ≠ key) ++ [(key, .table .header inner)])
  | some _ => none

def Table.openAnother? (key : String) (table : Table) : Option Table :=
  match table.lookup key with
  | none => some (table.set key (.tables [[]]))
  | some (.tables items) => some (table.set key (.tables (items ++ [[]])))
  | some _ => none

end JavaTypes.Toml
