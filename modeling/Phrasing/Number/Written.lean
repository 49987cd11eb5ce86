import Phrasing.Number.Canonical
import Phrasing.Number.Shortest

/-!
# Written numbers

A finite number is written with its shortest digits, positionally with at least one digit on both
sides of the point while its leading digit lies in a range of powers of ten, and with an exponent
outside that range.
-/

namespace Phrasing.Number

/-- The decisions in which written forms of numbers differ. -/
structure Style where
  /-- The lowest power of ten of the leading digit that is written positionally. -/
  lowest : Int
  /-- The highest power of ten of the leading digit that is written positionally. -/
  highest : Int
  /-- Which of two equally near shortest decimals is written. -/
  tie : Tie

/-- A decimal in positional notation. -/
def Decimal.positional (decimal : Decimal) : String :=
  let digits := toString decimal.digits
  match decimal.exponent with
  | .ofNat zeros => digits ++ String.ofList (List.replicate zeros '0') ++ ".0"
  | .negSucc places =>
      let padded := List.replicate (places + 2 - digits.length) '0' ++ digits.toList
      let whole := padded.length - (places + 1)
      String.ofList (padded.take whole ++ '.' :: padded.drop whole)

/-- A decimal with an exponent. -/
def Decimal.scientific (decimal : Decimal) (leading : Int) : String :=
  match (toString decimal.digits).toList with
  | [] => ""
  | [digit] => String.ofList [digit, 'e'] ++ toString leading
  | digit :: rest => String.ofList (digit :: '.' :: rest ++ ['e']) ++ toString leading

/-- The written form of the magnitude of a finite number given by its bits. -/
def Style.magnitude (style : Style) (bits : UInt64) : String :=
  let number := Binary.ofBits bits
  if number.significand = 0 then "0.0"
  else
    let decimal := number.shortest style.tie
    let leading := decimal.exponent + digitCount decimal.digits - 1
    if style.lowest ≤ leading && leading ≤ style.highest then decimal.positional
    else decimal.scientific leading

/-- The written form of a finite number. -/
def Style.write (style : Style) (number : Float) : String :=
  let bits := number.toBits
  let magnitude := style.magnitude (bits &&& 0x7fffffffffffffff)
  if bits >>> 63 = 1 then "-" ++ magnitude else magnitude

/-- Whether a number is finite: its exponent bits are not all set. -/
def isFinite (number : Float) : Bool :=
  (number.toBits >>> 52) &&& 0x7ff != 0x7ff

/-- The style of numbers in JSON documents. -/
def documentStyle : Style :=
  ⟨-5, 15, .even⟩

/-- The style of numbers in inspection text. -/
def inspectionStyle : Style :=
  ⟨-4, 15, .up⟩

/-- The form of a number in inspection text. -/
def inspect (number : Float) : String :=
  if isFinite number then inspectionStyle.write number
  else if number.toBits = undefinedBits then "NaN"
  else if number.toBits >>> 63 = 1 then "-inf"
  else "inf"

end Phrasing.Number
