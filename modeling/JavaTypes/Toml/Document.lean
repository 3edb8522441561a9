import JavaTypes.Toml.Text

/-!
TOML documents: values with arrays and inline tables, and the lines of a document, which are
headers, entries, comments or empty.
-/
namespace JavaTypes.Toml

/-- The items of an array after its opening bracket, up to and with the closing one. A comma may
follow the last item. -/
def readItems (item : Reader Value) : Nat → Reader (List Value)
  | 0, _ => none
  | steps + 1, text =>
    match skipLines (text.length + 1) text with
    | ']' :: rest => some ([], rest)
    | start => do
      let (value, rest) ← item start
      match skipLines (rest.length + 1) rest with
      | ',' :: rest => do
        let (values, rest) ← readItems item steps rest
        return (value :: values, rest)
      | ']' :: rest => return ([value], rest)
      | _ => none

def readEntry (item : Reader Value) (text : List Char) :
    Option ((List String × Value) × List Char) := do
  let (key, rest) ← readKey text
  let '=' :: rest := rest | none
  let (value, rest) ← item (skipBlanks rest)
  return ((key, value), rest)

/-- The entries of an inline table, up to and with the closing brace. It stands on one line, and no
comma follows its last entry. -/
def readEntries (item : Reader Value) : Nat → Table → Reader Table
  | 0, _, _ => none
  | steps + 1, table, text => do
    let ((key, value), rest) ← readEntry item text
    let table ← table.addDotted? value key
    match skipBlanks rest with
    | ',' :: rest => readEntries item steps table rest
    | close :: rest => if close = '\x7d' then some (table, rest) else none
    | [] => none

def readInline (item : Reader Value) (text : List Char) : Option (Table × List Char) :=
  match skipBlanks text with
  | close :: rest =>
    if close = '\x7d' then some ([], rest)
    else readEntries item (text.length + 1) [] (close :: rest)
  | [] => none

/-- A value whose brackets and braces nest at most `depth` deep. -/
def readValue : Nat → Reader Value
  | 0, text => readScalar text
  | depth + 1, text =>
    match text with
    | [] => none
    | c :: rest =>
      if c = '[' then do
        let (values, rest) ← readItems (readValue depth) (rest.length + 1) rest
        return (.array values, rest)
      else if c = '\x7b' then do
        let (table, rest) ← readInline (readValue depth) rest
        return (.table .inline table, rest)
      else readScalar text

/-- A document so far: its root table and the header that entries go under. -/
structure Reading where
  root : Table := []
  header : List String := []

def Reading.openTable? (r : Reading) (header : List String)
    (opening : String → Table → Option Table) : Option Reading := do
  let last ← header.getLast?
  let root ← Table.atHeader? (opening last) header.dropLast r.root
  return { root, header }

def Reading.addEntry? (r : Reading) (key : List String) (value : Value) : Option Reading := do
  let root ← Table.atHeader? (Table.addDotted? value key) r.header r.root
  return { r with root }

def Reading.line? (r : Reading) (text : List Char) : Option (Reading × List Char) :=
  match text with
  | '[' :: '[' :: rest => do
    let (header, rest) ← readKey rest
    let ']' :: ']' :: rest := rest | none
    let r ← r.openTable? header Table.openAnother?
    return (r, rest)
  | '[' :: rest => do
    let (header, rest) ← readKey rest
    let ']' :: rest := rest | none
    let r ← r.openTable? header Table.openHeader?
    return (r, rest)
  | _ => do
    let ((key, value), rest) ← readEntry (readValue depthLimit) text
    let r ← r.addEntry? key value
    return (r, rest)

/-- The lines of a document; every line is at least one character, so `steps` need not exceed the
length of the text. -/
def readDocument : Nat → Reading → List Char → Option Table
  | 0, _, _ => none
  | steps + 1, r, text =>
    let start := skipBlanks text
    match endLine? start with
    | some [] => some r.root
    | some rest => readDocument steps r rest
    | none => do
      let (r, rest) ← r.line? start
      let rest ← endLine? rest
      readDocument steps r rest

/-- The root table of a document; nothing if the text is no document. A byte order mark in front
is ignored. -/
def parse? (text : String) : Option Table :=
  let chars := match text.toList with
    | '\ufeff' :: rest => rest
    | chars => chars
  readDocument (chars.length + 2) {} chars

end JavaTypes.Toml
