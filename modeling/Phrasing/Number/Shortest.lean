/-!
# Shortest decimals

The shortest decimal of a finite binary number is the one with the fewest digits among those that
read back as the number, and the nearest of them.  A decimal reads back when it lies in the interval
of reals that round to the number; the ends of the interval belong to it when the significand is
even.  All arithmetic is exact, on natural numbers.
-/

namespace Phrasing.Number

/-- A positive decimal `digits * 10 ^ exponent`. -/
structure Decimal where
  /-- The digits, as a natural number. -/
  digits : Nat
  /-- The power of ten of the last digit. -/
  exponent : Int
  deriving DecidableEq

/-- A positive binary number `significand * 2 ^ exponent`. -/
structure Binary where
  /-- The significand. -/
  significand : Nat
  /-- The power of two of its last bit. -/
  exponent : Int
  /-- Whether the next number below is only half as far away as the next one above. -/
  narrowBelow : Bool

/-- The magnitude of a finite number given by its bits. -/
def Binary.ofBits (bits : UInt64) : Binary :=
  let fraction : Nat := bits.toNat % (1 <<< 52)
  let exponent : Nat := bits.toNat / (1 <<< 52) % (1 <<< 11)
  if exponent = 0 then ⟨fraction, -1074, false⟩
  else ⟨(1 <<< 52) + fraction, (exponent : Int) - 1075, fraction = 0 && 1 < exponent⟩

/-- How many digits a natural number has. -/
def digitCount (value : Nat) : Nat :=
  if value < 10 then 1 else digitCount (value / 10) + 1

/-- A positive rational number. -/
structure Ratio where
  /-- The numerator. -/
  numerator : Nat
  /-- The denominator. -/
  denominator : Nat

/-- The product of a natural number and a power of `base`. -/
def Ratio.scaled (value base : Nat) : Int → Ratio
  | .ofNat power => ⟨value * base.pow power, 1⟩
  | .negSucc power => ⟨value, base.pow (power + 1)⟩

/-- The quotient of two ratios. -/
def Ratio.over (left right : Ratio) : Ratio :=
  ⟨left.numerator * right.denominator, left.denominator * right.numerator⟩

/-- How a ratio compares with a natural number. -/
def Ratio.compareNat (ratio : Ratio) (value : Nat) : Ordering :=
  compare ratio.numerator (value * ratio.denominator)

/-- Which of two equally near decimals is taken. -/
inductive Tie where
  /-- The one whose last digit is even. -/
  | even
  /-- The larger one. -/
  | up
  deriving DecidableEq

/-- The power of ten just above a positive number. -/
def Binary.magnitude (number : Binary) : Int :=
  let shifted := (Ratio.scaled (number.significand * Nat.pow 10 400) 2 number.exponent)
  (digitCount (shifted.numerator / shifted.denominator) : Int) - 400

/-- The decimal with the last digit at `exponent` that reads back as the number, if there is one. -/
def Binary.onGrid? (number : Binary) (tie : Tie) (exponent : Int) : Option Decimal :=
  let unit := Ratio.scaled 1 10 exponent
  let quarter := fun quarters => (Ratio.scaled quarters 2 (number.exponent - 2)).over unit
  let value := quarter (4 * number.significand)
  let lower := quarter (4 * number.significand - if number.narrowBelow then 1 else 2)
  let upper := quarter (4 * number.significand + 2)
  let even := number.significand % 2 = 0
  let readsBack := fun candidate =>
    (lower.compareNat candidate = .lt || (even && lower.compareNat candidate = .eq)) &&
      (upper.compareNat candidate = .gt || (even && upper.compareNat candidate = .eq))
  let below := value.numerator / value.denominator
  let above := below + 1
  match 0 < below && readsBack below, readsBack above with
  | true, true =>
      match compare (2 * value.numerator) ((below + above) * value.denominator) with
      | .lt => some ⟨below, exponent⟩
      | .gt => some ⟨above, exponent⟩
      | .eq => some ⟨if tie = .even && below % 2 = 0 then below else above, exponent⟩
  | true, false => some ⟨below, exponent⟩
  | false, true => some ⟨above, exponent⟩
  | false, false => none

/-- A decimal without zeros at its end; `fuel` bounds their number. -/
def Decimal.trim : Nat → Decimal → Decimal
  | 0, decimal => decimal
  | fuel + 1, decimal =>
      if 0 < decimal.digits && decimal.digits % 10 = 0 then
        trim fuel ⟨decimal.digits / 10, decimal.exponent + 1⟩
      else decimal

/-- The shortest decimal of a positive number; seventeen digits always suffice. -/
def Binary.shortest (number : Binary) (tie : Tie) : Decimal :=
  let magnitude := number.magnitude
  let found := (List.range 17).findSome? fun digits =>
    number.onGrid? tie (magnitude - (digits + 1 : Nat))
  (found.getD ⟨0, 0⟩).trim 17

end Phrasing.Number
