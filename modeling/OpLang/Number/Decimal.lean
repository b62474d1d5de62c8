import OpLang.Number.Binary64

/-! # Decimal notation

A decimal is a digit string with an optional point and no exponent. Reading accepts any run of digits
with at most one point and at least one digit, so `5.` and `.5` are decimals. Writing a number finds the
coarsest decimal grid with a point that still reads back as that number, and writes the nearest such
point; halfway between two points the larger is written.
-/

namespace OpLang

/-- The value `coefficient / 10 ^ places`. -/
structure Decimal where
  coefficient : Nat
  places : Nat
  deriving DecidableEq

namespace Decimal

/-- The value of a string of decimal digits. -/
def digitsValue (digits : List Char) : Nat :=
  digits.foldl (fun value digit => 10 * value + (digit.toNat - '0'.toNat)) 0

/-- Reads a run of digits with at most one point. -/
def ofChars? (run : List Char) : Option Decimal :=
  let whole := run.takeWhile Char.isDigit
  match run.dropWhile Char.isDigit with
  | [] => if whole.isEmpty then none else some ⟨digitsValue whole, 0⟩
  | point :: fraction =>
    if point = '.' && fraction.all Char.isDigit && !(whole ++ fraction).isEmpty then
      some ⟨digitsValue (whole ++ fraction), fraction.length⟩
    else none

/-- The decimal digits of a number, with zeros in front up to the given count. -/
def paddedDigits (count value : Nat) : List Char :=
  let digits := Nat.toDigits 10 value
  List.replicate (count - digits.length) '0' ++ digits

/-- Writes a decimal with a digit on each side of the point, and without a point if it has no places. -/
def chars (decimal : Decimal) : List Char :=
  let whole := Nat.toDigits 10 (decimal.coefficient / Nat.pow 10 decimal.places)
  if decimal.places = 0 then whole
  else whole ++ '.' :: paddedDigits decimal.places (decimal.coefficient % Nat.pow 10 decimal.places)

/-- The number nearest to a decimal. -/
def toBinary64 (decimal : Decimal) : Binary64 :=
  Binary64.ofRatio decimal.coefficient (Nat.pow 10 decimal.places)

/-! ## The shortest decimal of a number

Values are counted here in units of `10 ^ (-1074)`, in which every finite magnitude is whole. -/

/-- A finite magnitude in units of `10 ^ (-1074)`. -/
def tenthUnits (rank : Nat) : Nat := Binary64.units rank * Nat.pow 5 1074

/-- Whether a value rounds to the rank: it lies no farther than halfway to either neighbour, and at the
halfway points themselves an even rank wins. -/
def roundsTo (rank value : Nat) : Bool :=
  let low := tenthUnits (rank - 1) + tenthUnits rank
  let high := tenthUnits rank + tenthUnits (rank + 1)
  if rank % 2 = 0 then low ≤ 2 * value && 2 * value ≤ high else low < 2 * value && 2 * value < high

/-- The multiple of `10 ^ grid` nearest to a rank's magnitude among those that round to the rank. -/
def onGrid? (rank grid : Nat) : Option Nat :=
  let step := Nat.pow 10 grid
  let below := tenthUnits rank / step
  if roundsTo rank (below * step) then
    if roundsTo rank ((below + 1) * step) && (2 * below + 1) * step ≤ 2 * tenthUnits rank then
      some (below + 1)
    else some below
  else if roundsTo rank ((below + 1) * step) then some (below + 1)
  else none

/-- The point found on the coarsest grid not above the given one. -/
def coarsest (rank : Nat) : Nat → Decimal
  | 0 => ⟨tenthUnits rank, 1074⟩
  | grid + 1 =>
    match onGrid? rank (grid + 1) with
    | some multiple => ⟨multiple * Nat.pow 10 (grid + 1 - 1074), 1074 - (grid + 1)⟩
    | none => coarsest rank grid

/-- The shortest decimal that reads back as the magnitude of a rank. The search starts above the leading
digit: `0.30103` exceeds the number of decimal digits per bit. -/
def shortest (rank : Nat) : Decimal :=
  if rank = 0 then ⟨0, 0⟩ else coarsest rank ((tenthUnits rank).log2 * 30103 / 100000 + 2)

end Decimal

namespace Binary64

/-- The written form: the shortest decimal that reads back, never with an exponent, and without a point
when the number is whole. -/
def text : Binary64 → String
  | .nan => "NaN"
  | .infinite false => "inf"
  | .infinite true => "-inf"
  | .finite negative rank =>
    (if negative then "-" else "") ++ String.ofList (Decimal.shortest rank).chars

/-- Reads a decimal without sign. -/
def ofDigits? (run : List Char) : Option Binary64 := (Decimal.ofChars? run).map Decimal.toBinary64

/-- Reads what `text` writes, and any other decimal with an optional minus sign. -/
def ofText? (written : String) : Option Binary64 :=
  if written = "NaN" then some .nan
  else if written = "inf" then some (.infinite false)
  else if written = "-inf" then some (.infinite true)
  else
    match written.toList with
    | '-' :: run => (ofDigits? run).map negate
    | run => ofDigits? run

end Binary64

end OpLang
