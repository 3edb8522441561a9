/-!
Floating-point numbers of 64 bits: reading a decimal rounds to the nearest number, and writing gives
the fewest digits that read back. Both calculate with whole numbers alone.
-/
namespace JavaTypes.Toml

/-- A floating-point number. A finite one counts the smallest positive number, which is two to the
power of -1074. -/
inductive Binary64 where
  | finite (negative : Bool) (units : Nat)
  | infinite (negative : Bool)
  | notANumber
  deriving DecidableEq, Inhabited

namespace Binary64

/-- Powers of two below one that the smallest positive number takes. -/
def unitPlaces : Nat := 1074

def unitLimit : Nat := Nat.pow 2 (1024 + unitPlaces)

/-- Between numbers of this size lie two to this power of units: a number has 53 digits in base
two. -/
def gapPower (units : Nat) : Nat := units.log2 - 52

/-- The whole number nearest to a quotient; a half goes to the even one. -/
def nearest (num den : Nat) : Nat :=
  let low := num / den
  let rest := 2 * (num % den)
  if rest < den || (rest = den && low % 2 = 0) then low else low + 1

def round (num den : Nat) : Nat :=
  let gap := Nat.pow 2 (gapPower (num / den))
  nearest num (den * gap) * gap

/-- The number nearest to `digits` times ten to the power of `exponent`. Far beyond the largest and
below the smallest number there is nothing to calculate. -/
def ofDecimal (negative : Bool) (digits : Nat) (exponent : Int) : Binary64 :=
  let places := (Nat.toDigits 10 digits).length + exponent
  if digits = 0 || places < -400 then finite negative 0
  else if 400 < places then infinite negative
  else
    let num := digits * Nat.pow 2 unitPlaces * Nat.pow 10 exponent.toNat
    let units := round num (Nat.pow 10 (-exponent).toNat)
    if units < unitLimit then finite negative units else infinite negative

/-- Decimal places that hold every number exactly, and the borders half-way to its neighbours. -/
def places : Nat := unitPlaces + 2

/-- A decimal between two borders: the multiple of the highest power of ten, at most `power`, that
lies there and next to `value`; the nearer of two, a half going up. -/
def roundest (value : Nat) (between : Nat → Bool) : Nat → Nat × Nat
  | 0 => (value, 0)
  | power + 1 =>
    let step := Nat.pow 10 (power + 1)
    let low := value / step
    let up := 2 * (value % step) ≥ step
    match between (low * step), between ((low + 1) * step) with
    | true, true => (if up then low + 1 else low, power + 1)
    | true, false => (low, power + 1)
    | false, true => (low + 1, power + 1)
    | false, false => roundest value between power

/-- The fewest digits that read back as a positive number, with the power of ten they count in
units of the last decimal place. A border belongs to the number if its last binary digit is zero;
below a power of two the neighbour is nearer. -/
def shortest (units : Nat) : Nat × Nat :=
  let quarter := 25 * Nat.pow 5 unitPlaces
  let power := gapPower units
  let gap := Nat.pow 2 power
  let significand := units / gap
  let below := if significand = Nat.pow 2 52 && 0 < power then gap else 2 * gap
  let low := (4 * units - below) * quarter
  let high := (4 * units + 2 * gap) * quarter
  let value := 4 * units * quarter
  let between (n : Nat) : Bool :=
    if significand % 2 = 0 then low ≤ n && n ≤ high else low < n && n < high
  roundest value between (Nat.toDigits 10 value).length

def positional (units : Nat) : List Char :=
  let (count, power) := shortest units
  let digits := Nat.toDigits 10 count
  if places ≤ power then digits ++ List.replicate (power - places) '0' ++ ['.', '0']
  else
    let after := places - power
    let digits := List.replicate (after + 1 - digits.length) '0' ++ digits
    digits.take (digits.length - after) ++ '.' :: digits.drop (digits.length - after)

def text : Binary64 → String
  | finite negative units =>
    let magnitude := if units = 0 then ['0', '.', '0'] else positional units
    String.ofList (if negative then '-' :: magnitude else magnitude)
  | infinite false => "inf"
  | infinite true => "-inf"
  | notANumber => "NaN"

end Binary64

end JavaTypes.Toml
