import JavaTypes.Imports
import JavaTypes.Quoted
import JavaTypes.Toml.Document

/-!
Settings of reflection and how they are read from a TOML document. Reading stops at the first
entry, in the order of the document, that is unknown or of the wrong type.
-/
namespace JavaTypes

structure Settings where
  /-- Leave bridge methods out of method listings. -/
  skipBridgeMethods : Bool := true
  /-- Class names, or packages in the form `pkg.*`, that count as imported. -/
  implicitImports : List String := []
  deriving DecidableEq, Inhabited

inductive FileProblem where
  | notFound
  | isDirectory
  | nameTooLong
  /-- A path ends at its first null character, so none may stand inside. -/
  | nullInName
  deriving DecidableEq

namespace FileProblem

def message : FileProblem → String
  | notFound => "No such file or directory (os error 2)"
  | isDirectory => "Is a directory (os error 21)"
  | nameTooLong => "File name too long (os error 36)"
  | nullInName => "file name contained an unexpected NUL byte"

/-- Why a path cannot be read where there are no files, and no directories but those that dots
alone lead to. A path has less than 4096 bytes, and a name in a directory at most 255. -/
def ofAbsent (path : String) : FileProblem :=
  let names := (path.splitOn "/").dropWhile fun name => name = "" || name = "." || name = ".."
  if path.contains '\x00' then nullInName
  else if path.utf8ByteSize ≥ 4096 then nameTooLong
  else
    match names with
    | [] => if path = "" then notFound else isDirectory
    | name :: _ => if name.utf8ByteSize > 255 then nameTooLong else notFound

end FileProblem

inductive SettingsProblem where
  /-- The text is no TOML document. -/
  | notToml
  | unknownField (name : String)
  /-- A value of one type stands where another is expected. -/
  | invalidType (found expected : String)
  deriving DecidableEq

/-- What is wrong with the entry, where the document itself is well-formed. -/
def SettingsProblem.detail? : SettingsProblem → Option String
  | .notToml => none
  | .unknownField name => some <|
    "unknown field `" ++ name ++ "`, expected `skip_bridge_methods` or `implicit_imports`"
  | .invalidType found expected => some <|
    "invalid type: " ++ found ++ ", expected " ++ expected

inductive SettingsError where
  | unreadable (path : String) (problem : FileProblem)
  | malformed (problem : SettingsProblem)
  deriving DecidableEq

/-- The message of an error, where there is more to say than that the text is no document. -/
def SettingsError.message? : SettingsError → Option String
  | .unreadable path problem =>
    some ("failed to read config file " ++ path ++ ": " ++ problem.message)
  | .malformed problem => problem.detail?.map fun d => "failed to parse toml config: " ++ d

namespace Settings

def describe : Toml.Value → String
  | .string text => "string " ++ Quoted.quote text
  | .integer n => "integer `" ++ toString n ++ "`"
  | .float value => "floating point `" ++ value.text ++ "`"
  | .boolean b => "boolean `" ++ toString b ++ "`"
  | .dateTime _ => "map"
  | .array _ => "sequence"
  | .table _ _ => "map"
  | .tables _ => "sequence"

def readBoolean : Toml.Value → Except SettingsProblem Bool
  | .boolean b => .ok b
  | v => .error (.invalidType (describe v) "a boolean")

def readString : Toml.Value → Except SettingsProblem String
  | .string text => .ok text
  | v => .error (.invalidType (describe v) "a string")

def readStrings : Toml.Value → Except SettingsProblem (List String)
  | .array items => items.mapM readString
  | .tables items => items.mapM fun entries => readString (.table .header entries)
  | v => .error (.invalidType (describe v) "a sequence")

def addEntry (s : Settings) (entry : String × Toml.Value) : Except SettingsProblem Settings :=
  if entry.1 = "skip_bridge_methods" then do
    let b ← readBoolean entry.2
    return { s with skipBridgeMethods := b }
  else if entry.1 = "implicit_imports" then do
    let names ← readStrings entry.2
    return { s with implicitImports := names }
  else .error (.unknownField entry.1)

def ofTable (table : Toml.Table) : Except SettingsProblem Settings := table.foldlM addEntry {}

/-- Settings from the text of a TOML document. Entries that are missing keep their defaults. -/
def parse (text : String) : Except SettingsError Settings :=
  match Toml.parse? text with
  | none => .error (.malformed .notToml)
  | some table => (ofTable table).mapError .malformed

/-- Settings from a file, where `read` gives the text of a path. -/
def load (read : String → Except FileProblem String) (path : String) :
    Except SettingsError Settings :=
  match read path with
  | .ok text => parse text
  | .error problem => .error (.unreadable path problem)

def imports (s : Settings) : Imports := Imports.ofList s.implicitImports

end Settings

end JavaTypes
