import JavaTypes.Toml.Value

/-!
The scalars of TOML: blanks and comments, strings, keys, numbers, dates and times. A reader takes
characters and answers with a value and the rest, or with nothing where the text does not fit.
-/
namespace JavaTypes.Toml

abbrev Reader (α : Type) := List Char → Option (α × List Char)

def isBlank (c : Char) : Bool := c = ' ' || c = '\t'

def skipBlanks (text : List Char) : List Char := text.dropWhile isBlank

/-- Characters that may stand in comments and, delimiters apart, in strings. -/
def isPlain (c : Char) : Bool := c = '\t' || (' ' ≤ c && c ≠ '\x7f')

def skipComment : List Char → List Char
  | '#' :: rest => rest.dropWhile isPlain
  | text => text

def afterNewline? : List Char → Option (List Char)
  | '\n' :: rest => some rest
  | '\r' :: '\n' :: rest => some rest
  | _ => none

/-- What follows the rest of a line that holds nothing but blanks and a comment. -/
def endLine? (text : List Char) : Option (List Char) :=
  match skipComment (skipBlanks text) with
  | [] => some []
  | rest => afterNewline? rest

/-- Blanks, comments and line breaks; at most `steps` lines. -/
def skipLines : Nat → List Char → List Char
  | 0, text => text
  | steps + 1, text =>
    let rest := skipComment (skipBlanks text)
    match afterNewline? rest with
    | some next => skipLines steps next
    | none => rest

def hexValue? (c : Char) : Option Nat :=
  if '0' ≤ c && c ≤ '9' then some (c.toNat - '0'.toNat)
  else if 'a' ≤ c && c ≤ 'f' then some (c.toNat - 'a'.toNat + 10)
  else if 'A' ≤ c && c ≤ 'F' then some (c.toNat - 'A'.toNat + 10)
  else none

def hexDigits : Nat → Nat → Reader Nat
  | 0, value, text => some (value, text)
  | _ + 1, _, [] => none
  | count + 1, value, c :: rest =>
    match hexValue? c with
    | some digit => hexDigits count (16 * value + digit) rest
    | none => none

/-- A character by its number; surrogates and numbers beyond the last character fail. -/
def charOfNat? (n : Nat) : Option Char := if n.isValidChar then some (Char.ofNat n) else none

def readEscape : Reader Char
  | 'b' :: rest => some ('\x08', rest)
  | 't' :: rest => some ('\t', rest)
  | 'n' :: rest => some ('\n', rest)
  | 'f' :: rest => some ('\x0c', rest)
  | 'r' :: rest => some ('\r', rest)
  | '"' :: rest => some ('"', rest)
  | '\\' :: rest => some ('\\', rest)
  | 'u' :: rest => do
    let (n, rest) ← hexDigits 4 0 rest
    return (← charOfNat? n, rest)
  | 'U' :: rest => do
    let (n, rest) ← hexDigits 8 0 rest
    return (← charOfNat? n, rest)
  | _ => none

def readBasic : Nat → List Char → Reader (List Char)
  | 0, _, _ => none
  | steps + 1, taken, text =>
    match text with
    | '"' :: rest => some (taken.reverse, rest)
    | '\\' :: rest => do
      let (c, rest) ← readEscape rest
      readBasic steps (c :: taken) rest
    | c :: rest => if isPlain c then readBasic steps (c :: taken) rest else none
    | [] => none

/-- The inside of a string in single quotes, which knows no escapes. -/
def readLiteral : List Char → Reader (List Char)
  | _, [] => none
  | taken, '\'' :: rest => some (taken.reverse, rest)
  | taken, c :: rest => if isPlain c then readLiteral (c :: taken) rest else none

/-- How many of the first characters are `quote`, at most five. -/
def quoteRun (quote : Char) (text : List Char) : Nat :=
  ((text.take 5).takeWhile (· = quote)).length

/-- Blanks and line breaks after a backslash at the end of a line, which stand for nothing. -/
def skipWhite : List Char → List Char
  | '\n' :: rest => skipWhite rest
  | '\r' :: '\n' :: rest => skipWhite rest
  | c :: rest => if isBlank c then skipWhite rest else c :: rest
  | [] => []

/-- The inside of a string over several lines. Up to two quotes may stand before the closing
three; only double quotes have escapes. -/
def readLong (quote : Char) : Nat → List Char → Reader (List Char)
  | 0, _, _ => none
  | steps + 1, taken, text =>
    let run := quoteRun quote text
    if 3 ≤ run then
      some ((List.replicate (run - 3) quote ++ taken).reverse, text.drop run)
    else
      match afterNewline? text, text with
      | some rest, _ => readLong quote steps ('\n' :: taken) rest
      | none, '\\' :: rest =>
        if quote = '\'' then readLong quote steps ('\\' :: taken) rest
        else
          match afterNewline? (skipBlanks rest) with
          | some next => readLong quote steps taken (skipWhite next)
          | none => do
            let (c, rest) ← readEscape rest
            readLong quote steps (c :: taken) rest
      | none, c :: rest => if isPlain c then readLong quote steps (c :: taken) rest else none
      | none, [] => none

/-- A line break right after three quotes is no part of the string. -/
def dropFirstNewline (text : List Char) : List Char := (afterNewline? text).getD text

def readString (text : List Char) : Option (String × List Char) := do
  let (chars, rest) ← match text with
    | '"' :: '"' :: '"' :: rest => readLong '"' (text.length + 1) [] (dropFirstNewline rest)
    | '\'' :: '\'' :: '\'' :: rest => readLong '\'' (text.length + 1) [] (dropFirstNewline rest)
    | '"' :: rest => readBasic (text.length + 1) [] rest
    | '\'' :: rest => readLiteral [] rest
    | _ => none
  return (String.ofList chars, rest)

def isBareKeyChar (c : Char) : Bool := c.isAlphanum || c = '_' || c = '-'

/-- One part of a key: bare, or a string on one line. -/
def readKeyPart : Reader String
  | '"' :: rest => do
    let (chars, rest) ← readBasic (rest.length + 1) [] rest
    return (String.ofList chars, rest)
  | '\'' :: rest => do
    let (chars, rest) ← readLiteral [] rest
    return (String.ofList chars, rest)
  | text =>
    let bare := text.takeWhile isBareKeyChar
    if bare.isEmpty then none else some (String.ofList bare, text.dropWhile isBareKeyChar)

def readKeyParts : Nat → Reader (List String)
  | 0, _ => none
  | steps + 1, text => do
    let (part, rest) ← readKeyPart (skipBlanks text)
    match skipBlanks rest with
    | '.' :: next => do
      let (parts, rest) ← readKeyParts steps next
      return (part :: parts, rest)
    | rest => return ([part], rest)

/-- Values nest and keys have parts up to this number. -/
def depthLimit : Nat := 79

def readKey (text : List Char) : Option (List String × List Char) := readKeyParts depthLimit text

def moreDigits (isDigit : Char → Bool) : List Char → List Char × List Char
  | [] => ([], [])
  | '_' :: d :: rest =>
    if isDigit d then
      let (more, rest) := moreDigits isDigit rest
      (d :: more, rest)
    else ([], '_' :: d :: rest)
  | c :: rest =>
    if isDigit c then
      let (more, rest) := moreDigits isDigit rest
      (c :: more, rest)
    else ([], c :: rest)

def readDigits (isDigit : Char → Bool) : Reader (List Char)
  | [] => none
  | c :: rest =>
    if isDigit c then
      let (more, rest) := moreDigits isDigit rest
      some (c :: more, rest)
    else none

def valueInBase (base : Nat) (digits : List Char) : Nat :=
  digits.foldl (fun n c => base * n + (hexValue? c).getD 0) 0

/-- Whole numbers are those of 64 bits with a sign. -/
def wholeNumber? (n : Int) : Option Value :=
  if Int64.minValue.toInt ≤ n && n ≤ Int64.maxValue.toInt then some (.integer n) else none

def isOctal (c : Char) : Bool := '0' ≤ c && c ≤ '7'

def isBinary (c : Char) : Bool := c = '0' || c = '1'

/-- A sign and what follows it; without one, plus. -/
def readSign : List Char → Bool × List Char
  | '+' :: rest => (false, rest)
  | '-' :: rest => (true, rest)
  | text => (false, text)

/-- Decimal digits that do not start with a zero, or a single zero. -/
def readDecimal (text : List Char) : Option (List Char × List Char) := do
  let (digits, rest) ← readDigits Char.isDigit text
  match digits with
  | '0' :: _ :: _ => none
  | _ => return (digits, rest)

def readInteger (text : List Char) : Option (Value × List Char) :=
  match text with
  | '0' :: 'x' :: rest => do
    let (digits, rest) ← readDigits (fun c => (hexValue? c).isSome) rest
    return (← wholeNumber? (valueInBase 16 digits), rest)
  | '0' :: 'o' :: rest => do
    let (digits, rest) ← readDigits isOctal rest
    return (← wholeNumber? (valueInBase 8 digits), rest)
  | '0' :: 'b' :: rest => do
    let (digits, rest) ← readDigits isBinary rest
    return (← wholeNumber? (valueInBase 2 digits), rest)
  | _ => do
    let (negative, unsigned) := readSign text
    let (digits, rest) ← readDecimal unsigned
    let n : Int := valueInBase 10 digits
    return (← wholeNumber? (if negative then -n else n), rest)

def readExponent : Reader Int
  | c :: rest =>
    if c = 'e' || c = 'E' then do
      let (negative, unsigned) := readSign rest
      let (digits, rest) ← readDigits Char.isDigit unsigned
      let n : Int := valueInBase 10 digits
      return (if negative then -n else n, rest)
    else none
  | [] => none

def readFraction : Reader (List Char)
  | '.' :: rest => readDigits Char.isDigit rest
  | _ => none

/-- A number with a fraction, an exponent or both. Beyond the largest number it is refused, but
not below the smallest. -/
def readFinite (text : List Char) : Option (Value × List Char) := do
  let (negative, unsigned) := readSign text
  let (whole, rest) ← readDecimal unsigned
  let (fraction, exponent, rest) ← match readFraction rest with
    | some (fraction, rest) =>
      match readExponent rest with
      | some (exponent, rest) => some (fraction, exponent, rest)
      | none => some (fraction, 0, rest)
    | none => (readExponent rest).map fun (exponent, rest) => ([], exponent, rest)
  let digits := valueInBase 10 (whole ++ fraction)
  match Binary64.ofDecimal negative digits (exponent - fraction.length) with
  | .infinite false => none
  | value => some (.float value, rest)

/-- A floating-point number, or one of the words for what is no finite number. The sign of what is
no number at all has no meaning. -/
def readFloat (text : List Char) : Option (Value × List Char) :=
  let (negative, unsigned) := readSign text
  match unsigned with
  | 'i' :: 'n' :: 'f' :: rest => some (.float (.infinite negative), rest)
  | 'n' :: 'a' :: 'n' :: rest => some (.float .notANumber, rest)
  | _ => readFinite text

def fixedDigits (count : Nat) (text : List Char) : Option (Nat × List Char) :=
  let digits := text.take count
  if digits.length = count && digits.all Char.isDigit then
    some (valueInBase 10 digits, text.drop count)
  else none

def daysIn (year month : Nat) : Nat :=
  if month = 2 then
    if year % 4 = 0 && (year % 100 ≠ 0 || year % 400 = 0) then 29 else 28
  else if month = 4 || month = 6 || month = 9 || month = 11 then 30 else 31

def afterDate? (text : List Char) : Option (List Char) := do
  let (year, rest) ← fixedDigits 4 text
  let '-' :: rest := rest | none
  let (month, rest) ← fixedDigits 2 rest
  let '-' :: rest := rest | none
  let (day, rest) ← fixedDigits 2 rest
  if 1 ≤ month && month ≤ 12 && 1 ≤ day && day ≤ daysIn year month then some rest else none

def afterTime? (text : List Char) : Option (List Char) := do
  let (hour, rest) ← fixedDigits 2 text
  let ':' :: rest := rest | none
  let (minute, rest) ← fixedDigits 2 rest
  let ':' :: rest := rest | none
  let (second, rest) ← fixedDigits 2 rest
  if hour ≤ 23 && minute ≤ 59 && second ≤ 60 then
    match rest with
    | '.' :: next =>
      let fraction := next.takeWhile Char.isDigit
      if fraction.isEmpty then none else some (next.drop fraction.length)
    | _ => some rest
  else none

/-- What follows an offset from universal time; there may be none. -/
def afterOffset? (text : List Char) : Option (List Char) :=
  match text with
  | 'Z' :: rest | 'z' :: rest => some rest
  | '+' :: rest | '-' :: rest => do
    let (hour, rest) ← fixedDigits 2 rest
    let ':' :: rest := rest | none
    let (minute, rest) ← fixedDigits 2 rest
    if hour ≤ 23 && minute ≤ 59 then some rest else none
  | _ => some text

def afterDateTime? (text : List Char) : Option (List Char) :=
  match afterDate? text with
  | some (c :: rest) =>
    if c = 'T' || c = 't' || c = ' ' then
      match afterTime? rest with
      | some rest => afterOffset? rest
      | none => if c = ' ' then some (c :: rest) else none
    else some (c :: rest)
  | some [] => some []
  | none => afterTime? text

def readDateTime (text : List Char) : Option (Value × List Char) := do
  let rest ← afterDateTime? text
  return (.dateTime (String.ofList (text.take (text.length - rest.length))), rest)

/-- Dates come before fractions and these before whole numbers, as each may begin like the next. -/
def readNumber (text : List Char) : Option (Value × List Char) :=
  (readDateTime text).orElse fun _ => (readFloat text).orElse fun _ => readInteger text

def afterWord? (word : String) (text : List Char) : Option (List Char) :=
  if word.toList.isPrefixOf text then some (text.drop word.length) else none

def readBoolean (text : List Char) : Option (Value × List Char) :=
  match afterWord? "true" text, afterWord? "false" text with
  | some rest, _ => some (.boolean true, rest)
  | none, some rest => some (.boolean false, rest)
  | none, none => none

def readScalar (text : List Char) : Option (Value × List Char) :=
  match text with
  | '"' :: _ | '\'' :: _ => do
    let (s, rest) ← readString text
    return (.string s, rest)
  | 't' :: _ | 'f' :: _ => readBoolean text
  | 'i' :: _ | 'n' :: _ => readFloat text
  | _ => readNumber text

end JavaTypes.Toml
