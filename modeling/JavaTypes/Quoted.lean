import JavaTypes.Quoted.Hidden

/-!
Text in double quotes, with escapes for quotes, backslashes and characters that do not show.
-/
namespace JavaTypes.Quoted

def hex (n : Nat) : List Char := Nat.toDigits 16 n

def hexPadded (width n : Nat) : String :=
  String.ofList (List.replicate (width - (hex n).length) '0' ++ hex n)

def escape (c : Char) : List Char :=
  if c = '"' || c = '\\' then ['\\', c]
  else if c = '\n' then ['\\', 'n']
  else if c = '\r' then ['\\', 'r']
  else if c = '\t' then ['\\', 't']
  else if c = '\x00' then ['\\', '0']
  else if isHidden c then ['\\', 'u', '\x7b'] ++ hex c.toNat ++ ['\x7d']
  else [c]

def quote (text : String) : String :=
  String.ofList ('"' :: text.toList.flatMap escape ++ ['"'])

end JavaTypes.Quoted
