/-! # Double-precision numbers

A number is a value of the IEEE 754 format of 64 bits. The magnitudes of the finite numbers are counted
upwards from zero, and this count, the *rank*, stands for the magnitude: the next larger magnitude has
the next rank. Every finite magnitude is a whole number of units of `2 ^ (-1074)`, so `units` gives
values, and with them order and rounding, in plain arithmetic on natural numbers.
-/

namespace OpLang

/-- How many finite magnitudes there are; the rank after the last one is that of infinity. -/
def rankCount : Nat := 0x7FF0000000000000

/-- A double-precision number; all the values that are not a number count as one. -/
inductive Binary64 where
  | nan
  | infinite (negative : Bool)
  | finite (negative : Bool) (rank : Fin rankCount)
  deriving DecidableEq

namespace Binary64

/-- The magnitude of a rank, in units of `2 ^ (-1074)`. From `2 ^ 52` on the spacing doubles every
`2 ^ 52` ranks. -/
def units (rank : Nat) : Nat :=
  if rank < Nat.pow 2 52 then rank
  else (Nat.pow 2 52 + rank % Nat.pow 2 52) * Nat.pow 2 (rank / Nat.pow 2 52 - 1)

/-- How many units make the number one. -/
def unitsPerOne : Nat := Nat.pow 2 1074

/-- The greatest rank whose magnitude is at most the given number of units. -/
def floorRank (amount : Nat) : Nat :=
  let spacing := amount.log2 - 52
  spacing * Nat.pow 2 52 + amount / Nat.pow 2 spacing

/-- The rank nearest to `numerator / denominator` units; of two equally near ones the even one. -/
def nearestRank (numerator denominator : Nat) : Nat :=
  let below := floorRank (numerator / denominator)
  let middle := (units below + units (below + 1)) * denominator
  if 2 * numerator < middle then below
  else if middle < 2 * numerator then below + 1
  else if below % 2 = 0 then below else below + 1

/-- The non-negative number of a rank; past the finite ones it is infinity. -/
def ofRank (rank : Nat) : Binary64 :=
  if h : rank < rankCount then .finite false ⟨rank, h⟩ else .infinite false

/-- The number nearest to a ratio of natural numbers. -/
def ofRatio (numerator denominator : Nat) : Binary64 :=
  ofRank (nearestRank (numerator * unitsPerOne) denominator)

/-- The number of the opposite sign. -/
def negate : Binary64 → Binary64
  | .nan => .nan
  | .infinite negative => .infinite (!negative)
  | .finite negative rank => .finite (!negative) rank

/-- Equality as arithmetic has it: the two zeros are equal, and what is not a number equals nothing. -/
def equals : Binary64 → Binary64 → Bool
  | .infinite s, .infinite t => s == t
  | .finite s j, .finite t k => j == k && (s == t || j.val == 0)
  | _, _ => false

end Binary64

end OpLang
