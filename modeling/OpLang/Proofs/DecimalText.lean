import Mathlib.Data.List.TakeWhile
import Mathlib.Order.Monotone.Basic
import OpLang.Proofs.Spelling

/-! # Decimals of magnitudes

Writing a decimal and reading it gives the decimal back, so the written form tells the value. The value written for
a magnitude is one that rounds to it, and no value rounds to two magnitudes: it would have to be halfway between
neighbours, where it belongs to the even one alone. Hence two finite numbers that are not negative have one text only
if they are the same.
-/

namespace OpLang

/-! ## Order -/

namespace Binary64

theorem units_lt_succ (rank : Nat) : units rank < units (rank + 1) := by
  simp only [units, Nat.pow_eq]
  rcases Nat.lt_or_ge rank (2 ^ 52) with subnormal | normal
  · rcases Nat.lt_or_ge (rank + 1) (2 ^ 52) with below | top
    · rw [if_pos subnormal, if_pos below]
      exact Nat.lt_succ_self rank
    · obtain rfl : rank = 2 ^ 52 - 1 := by omega
      decide
  · rw [if_neg (by omega), if_neg (by omega)]
    rcases Nat.lt_or_ge (rank % 2 ^ 52 + 1) (2 ^ 52) with within | last
    · -- Within a binade the spacing stays.
      have quotient : (rank + 1) / 2 ^ 52 = rank / 2 ^ 52 := by omega
      have remainder : (rank + 1) % 2 ^ 52 = rank % 2 ^ 52 + 1 := by omega
      rw [quotient, remainder]
      exact Nat.mul_lt_mul_of_pos_right (by omega) (Nat.pow_pos (by decide))
    · -- At its end the spacing doubles.
      have quotient : (rank + 1) / 2 ^ 52 - 1 = rank / 2 ^ 52 - 1 + 1 := by omega
      have remainder : (rank + 1) % 2 ^ 52 = 0 := by omega
      have full : rank % 2 ^ 52 = 2 ^ 52 - 1 := by omega
      rw [quotient, remainder, full, Nat.pow_succ 2 (_ - 1), Nat.mul_comm _ 2, ← Nat.mul_assoc]
      exact Nat.mul_lt_mul_of_pos_right (by decide) (Nat.pow_pos (by decide))

end Binary64

namespace Decimal

theorem tenthUnits_zero : tenthUnits 0 = 0 := by decide +kernel

theorem tenthUnits_strictMono : StrictMono tenthUnits := by
  have scaled (factor : Nat) (positive : 0 < factor) : StrictMono fun rank => Binary64.units rank * factor :=
    strictMono_nat_of_lt_succ fun rank =>
      Nat.mul_lt_mul_of_pos_right (Binary64.units_lt_succ rank) positive
  have positive : 0 < Nat.pow 5 1074 := by decide +kernel
  unfold tenthUnits
  exact scaled _ positive

/-! ## Writing and reading -/

/-- The value of a decimal, counted in units of `10 ^ (-1074)`. -/
def tenths (decimal : Decimal) : Nat := decimal.coefficient * Nat.pow 10 (1074 - decimal.places)

theorem digitsValue_eq (digits : List Char) : digitsValue digits = Nat.ofDigitChars 10 digits 0 := rfl

theorem all_isDigit_toDigits (value : Nat) : ∀ c ∈ Nat.toDigits 10 value, c.isDigit = true :=
  fun _ => Nat.isDigit_of_mem_toDigits (by decide) (by decide)

theorem all_isDigit_paddedDigits (count value : Nat) : ∀ c ∈ paddedDigits count value, c.isDigit = true := by
  simp only [paddedDigits, List.forall_mem_append]
  refine ⟨fun c member => ?_, all_isDigit_toDigits value⟩
  rw [List.eq_of_mem_replicate member]
  decide

theorem length_paddedDigits {count value : Nat} (positive : 0 < count) (bound : value < Nat.pow 10 count) :
    (paddedDigits count value).length = count := by
  have short := (Nat.length_toDigits_le_iff (by decide) positive).mpr bound
  rw [paddedDigits, List.length_append, List.length_replicate]
  omega

theorem digitsValue_append_paddedDigits {whole : List Char} {count value : Nat} (positive : 0 < count)
    (bound : value < Nat.pow 10 count) :
    digitsValue (whole ++ paddedDigits count value) = digitsValue whole * Nat.pow 10 count + value := by
  have length := length_paddedDigits positive bound
  simp only [digitsValue_eq, Nat.ofDigitChars_append]
  rw [Nat.ofDigitChars_eq_ofDigitChars_zero, length, Nat.mul_comm]
  simp only [paddedDigits, Nat.ofDigitChars_append, Nat.ofDigitChars_replicate_zero, Nat.mul_zero,
    Nat.ofDigitChars_ten_toDigits, Nat.pow_eq]

/-- What is written for a decimal reads as that decimal. -/
theorem ofChars?_chars (decimal : Decimal) : ofChars? decimal.chars = some decimal := by
  obtain ⟨coefficient, places⟩ := decimal
  simp only [chars, Nat.pow_eq]
  rcases Nat.eq_zero_or_pos places with rfl | positive
  · rw [if_pos rfl, Nat.pow_zero, Nat.div_one]
    have digits := all_isDigit_toDigits coefficient
    simp [ofChars?, List.takeWhile_eq_self_iff.mpr digits, List.dropWhile_eq_nil_iff.mpr digits,
      Nat.toDigits_ne_nil, digitsValue_eq]
  · rw [if_neg (by omega)]
    have digits := all_isDigit_toDigits (coefficient / 10 ^ places)
    have bound : coefficient % 10 ^ places < 10 ^ places := Nat.mod_lt _ (Nat.pow_pos (by decide))
    have value : digitsValue (Nat.toDigits 10 (coefficient / 10 ^ places) ++
        paddedDigits places (coefficient % 10 ^ places)) = coefficient := by
      rw [digitsValue_append_paddedDigits positive bound, digitsValue_eq, Nat.ofDigitChars_ten_toDigits,
        Nat.pow_eq, Nat.div_add_mod']
    have point : Char.isDigit '.' = false := by decide
    simp [ofChars?, List.takeWhile_append_of_pos digits, List.dropWhile_append_of_pos digits, point,
      List.all_eq_true.mpr (all_isDigit_paddedDigits _ _), Nat.toDigits_ne_nil, value,
      length_paddedDigits positive bound]

theorem chars_injective {first second : Decimal} (same : first.chars = second.chars) : first = second := by
  have read := ofChars?_chars first
  rw [same, ofChars?_chars] at read
  exact (Option.some.inj read).symm

/-! ## Rounding -/

theorem roundsTo_tenthUnits {rank : Nat} (positive : 0 < rank) : roundsTo rank (tenthUnits rank) = true := by
  have lower := tenthUnits_strictMono (show rank - 1 < rank by omega)
  have upper := tenthUnits_strictMono (show rank < rank + 1 by omega)
  simp only [roundsTo]
  split <;> simp only [Bool.and_eq_true, decide_eq_true_eq] <;> omega

theorem le_of_roundsTo {rank value : Nat} (rounds : roundsTo rank value = true) :
    tenthUnits (rank - 1) + tenthUnits rank ≤ 2 * value ∧ 2 * value ≤ tenthUnits rank + tenthUnits (rank + 1) := by
  simp only [roundsTo] at rounds
  split at rounds <;> simp only [Bool.and_eq_true, decide_eq_true_eq] at rounds <;> omega

theorem lt_of_roundsTo_odd {rank value : Nat} (odd : rank % 2 = 1) (rounds : roundsTo rank value = true) :
    tenthUnits (rank - 1) + tenthUnits rank < 2 * value ∧ 2 * value < tenthUnits rank + tenthUnits (rank + 1) := by
  simp only [roundsTo, if_neg (show ¬rank % 2 = 0 by omega), Bool.and_eq_true, decide_eq_true_eq] at rounds
  exact rounds

theorem not_roundsTo_of_lt {low high value : Nat} (less : low < high) (below : roundsTo low value = true) :
    roundsTo high value = false := by
  rw [Bool.eq_false_iff]
  intro above
  have upper := (le_of_roundsTo below).2
  have lower := (le_of_roundsTo above).1
  have next := tenthUnits_strictMono.monotone (show low + 1 ≤ high from less)
  have previous := tenthUnits_strictMono.monotone (show low ≤ high - 1 by omega)
  -- Only halfway between neighbours both bounds can hold, and one of the neighbours is odd.
  have neighbours : high = low + 1 := by
    by_contra apart
    have := tenthUnits_strictMono (show low < high - 1 by omega)
    omega
  subst neighbours
  rw [Nat.add_sub_cancel] at lower
  rcases Nat.mod_two_eq_zero_or_one low with even | odd
  · have strict := (lt_of_roundsTo_odd (by omega) above).1
    rw [Nat.add_sub_cancel] at strict
    omega
  · have strict := (lt_of_roundsTo_odd odd below).2
    omega

theorem roundsTo_unique {first second value : Nat} (here : roundsTo first value = true)
    (there : roundsTo second value = true) : first = second := by
  rcases Nat.lt_trichotomy first second with less | same | greater
  · rw [not_roundsTo_of_lt less here] at there
    cases there
  · exact same
  · rw [not_roundsTo_of_lt greater there] at here
    cases here

theorem roundsTo_of_onGrid? {rank grid multiple : Nat} (found : onGrid? rank grid = some multiple) :
    roundsTo rank (multiple * Nat.pow 10 grid) = true := by
  simp only [onGrid?, Nat.pow_eq] at found
  split at found
  · next below =>
    split at found
    · next above =>
      cases found
      exact (Bool.and_eq_true_iff.mp above).1
    · cases found
      exact below
  · split at found
    · next above =>
      cases found
      exact above
    · cases found

theorem roundsTo_coarsest {rank : Nat} (positive : 0 < rank) (grid : Nat) :
    roundsTo rank (coarsest rank grid).tenths = true := by
  induction grid with
  | zero =>
    rw [coarsest, tenths, Nat.sub_self, Nat.pow_eq, Nat.pow_zero, Nat.mul_one]
    exact roundsTo_tenthUnits positive
  | succ grid ih =>
    rw [coarsest]
    split
    · next multiple found =>
      -- A grid above the point adds zeros in front of it, one below it takes places away.
      have exponent : grid + 1 - 1074 + (1074 - (1074 - (grid + 1))) = grid + 1 := by omega
      simp only [tenths, Nat.pow_eq, Nat.mul_assoc, ← Nat.pow_add, exponent]
      exact roundsTo_of_onGrid? found
    · exact ih

/-- What is written for a magnitude rounds to it. -/
theorem roundsTo_shortest (rank : Nat) : roundsTo rank (shortest rank).tenths = true := by
  rw [shortest]
  split
  · next zero =>
    subst zero
    simp only [tenths, Nat.zero_mul]
    simp [roundsTo, tenthUnits_zero]
  · next positive => exact roundsTo_coarsest (Nat.pos_of_ne_zero positive) _

theorem shortest_injective {first second : Nat} (same : shortest first = shortest second) : first = second :=
  roundsTo_unique (roundsTo_shortest first) (same ▸ roundsTo_shortest second)

end Decimal

/-! ## Numbers -/

namespace Binary64

def IsFinite (value : Binary64) : Prop := ∃ negative rank, value = .finite negative rank

theorem toList_text_finite (rank : Fin rankCount) :
    (finite false rank).text.toList = (Decimal.shortest rank).chars := by
  simp [text]

theorem text_finite_injective {first second : Fin rankCount}
    (same : (finite false first).text = (finite false second).text) : first = second := by
  have chars := congrArg String.toList same
  rw [toList_text_finite, toList_text_finite] at chars
  exact Fin.ext (Decimal.shortest_injective (Decimal.chars_injective chars))

theorem isNumberChar_of_mem_text {rank : Fin rankCount} {c : Char} (member : c ∈ (finite false rank).text.toList) :
    isNumberChar c = true := by
  rw [toList_text_finite] at member
  exact Decimal.all_isNumberChar_of_ofChars? (Decimal.ofChars?_chars _) c member

theorem begins_text (rank : Fin rankCount) :
    ∃ first more, (finite false rank).text.toList = first :: more ∧ isNumberChar first = true := by
  have notEmpty : (finite false rank).text.toList ≠ [] := by
    rw [toList_text_finite]
    exact Decimal.ne_nil_of_ofChars? (Decimal.ofChars?_chars _)
  obtain ⟨first, more, whole⟩ := List.exists_cons_of_ne_nil notEmpty
  exact ⟨first, more, whole, isNumberChar_of_mem_text (whole ▸ List.mem_cons_self ..)⟩

end Binary64

end OpLang
