import Phrasing.Json.Reader
import Phrasing.Number.Shortest
import Phrasing.Toml.Basic

/-!
# TOML scalars

Integers, floating-point numbers, truth values and points in time are written without quotes, as one
word.  A word is read as the scalar whose grammar it matches as a whole.
-/

namespace Phrasing.Toml

/-- Whether a character can be part of an unquoted scalar. -/
def isWordCharacter (character : Char) : Bool :=
  character.isAlphanum || character = '_' || character = '-' || character = '+' ||
    character = '.' || character = ':'

/-- Whether a word is digits of a class, with underscores only between two of them. -/
def isDigits (isDigit : Char → Bool) : List Char → Bool
  | [] => false
  | [digit] => isDigit digit
  | digit :: '_' :: rest => isDigit digit && isDigits isDigit rest
  | digit :: rest => isDigit digit && isDigits isDigit rest

/-- Whether a word is a decimal number without superfluous zeros in front. -/
def isWhole (word : List Char) : Bool :=
  isDigits Char.isDigit word &&
    match word with
    | '0' :: _ :: _ => false
    | _ => true

/-- The number that digits of a base write, underscores skipped. -/
def digitsValue (base : Nat) (digits : List Char) : Nat :=
  digits.foldl
    (fun value digit => ((Json.hexValue? digit).map (base * value + ·)).getD value) 0

/-- The sign of a word and the rest of it. -/
def splitSign : List Char → Bool × List Char
  | '-' :: rest => (true, rest)
  | '+' :: rest => (false, rest)
  | word => (false, word)

/-- The number, if it fits into 64 bits with a sign. -/
def integer64? (value : Int) : Option Toml :=
  if -0x8000000000000000 ≤ value && value < 0x8000000000000000 then some (.integer value) else none

/-- The integer a word writes in a base of its own. -/
def basedInteger? : List Char → Option Toml
  | '0' :: 'x' :: digits =>
      if isDigits (fun digit => (Json.hexValue? digit).isSome) digits then
        integer64? (digitsValue 16 digits)
      else none
  | '0' :: 'o' :: digits =>
      if isDigits (fun digit => '0' ≤ digit && digit ≤ '7') digits then
        integer64? (digitsValue 8 digits)
      else none
  | '0' :: 'b' :: digits =>
      if isDigits (fun digit => digit = '0' || digit = '1') digits then
        integer64? (digitsValue 2 digits)
      else none
  | _ => none

/-- The decimal integer a word writes. -/
def decimalInteger? (word : List Char) : Option Toml :=
  let (negative, digits) := splitSign word
  if isWhole digits then
    let value : Int := digitsValue 10 digits
    integer64? (if negative then -value else value)
  else none

/-- Whether a word is an exponent: a sign and digits. -/
def isExponent (word : List Char) : Bool :=
  isDigits Char.isDigit (splitSign word).2

/-- Whether a character opens an exponent. -/
def isExponentMark (character : Char) : Bool :=
  character = 'e' || character = 'E'

/-- Whether an unsigned word is a floating-point number with a fraction, an exponent or both. -/
def isFractional (word : List Char) : Bool :=
  let (whole, rest) := word.span fun character =>
    !(character = '.' || isExponentMark character)
  isWhole whole &&
    match rest with
    | '.' :: rest =>
        let (fraction, rest) := rest.span fun character => !isExponentMark character
        isDigits Char.isDigit fraction && (rest.isEmpty || isExponent rest.tail)
    | _ :: exponent => isExponent exponent
    | [] => false

/-- The decimal an unsigned floating-point word writes: its digits and the power of the last one. -/
def fractionalValue (word : List Char) : Nat × Int :=
  let (significand, rest) := word.span fun character => !isExponentMark character
  let (negative, digits) := splitSign rest.tail
  let exponent : Int := digitsValue 10 digits
  let places := ((significand.dropWhile (· ≠ '.')).filter Char.isDigit).length
  (digitsValue 10 significand, (if negative then -exponent else exponent) - places)

/-- Whether an unsigned floating-point word rounds to no finite number of 64 bits. -/
def overflows (word : List Char) : Bool :=
  let (digits, exponent) := fractionalValue word
  let leading := exponent + Number.digitCount digits
  let bound : Nat := (1 <<< 1024) - (1 <<< 970)
  digits ≠ 0 && 300 < leading && (400 < leading ||
    match exponent with
    | .ofNat power => bound ≤ digits * Nat.pow 10 power
    | .negSucc places => bound * Nat.pow 10 (places + 1) ≤ digits)

/-- The floating-point number a word writes; a positive one is not rounded to infinity. -/
def float? (word : List Char) : Option Toml :=
  let (negative, unsigned) := splitSign word
  if unsigned = ['i', 'n', 'f'] || unsigned = ['n', 'a', 'n'] ||
      (isFractional unsigned && (negative || !overflows unsigned)) then
    some (.float (String.ofList word))
  else none

/-- The value of two digits, if they are digits and lie in a range. -/
def twoDigits? (least greatest : Nat) (tens units : Char) : Option Nat :=
  if tens.isDigit && units.isDigit then
    let value := digitsValue 10 [tens, units]
    if least ≤ value && value ≤ greatest then some value else none
  else none

/-- The number of days of a month. -/
def monthDays (year month : Nat) : Nat :=
  if month = 2 then
    if year % 4 = 0 && (year % 100 ≠ 0 || year % 400 = 0) then 29 else 28
  else if month = 4 || month = 6 || month = 9 || month = 11 then 30
  else 31

/-- What follows the date a word starts with. -/
def skipDate? : List Char → Option (List Char)
  | a :: b :: c :: d :: '-' :: e :: f :: '-' :: g :: h :: rest => do
      let century ← twoDigits? 0 99 a b
      let year ← twoDigits? 0 99 c d
      let month ← twoDigits? 1 12 e f
      let _ ← twoDigits? 1 (monthDays (100 * century + year) month) g h
      some rest
  | _ => none

/-- What follows the time of day a word starts with. -/
def skipTime? : List Char → Option (List Char)
  | a :: b :: ':' :: c :: d :: ':' :: e :: f :: rest => do
      let _ ← twoDigits? 0 23 a b
      let _ ← twoDigits? 0 59 c d
      let _ ← twoDigits? 0 60 e f
      match rest with
      | '.' :: digits =>
          match digits.span Char.isDigit with
          | ([], _) => none
          | (_, rest) => some rest
      | rest => some rest
  | _ => none

/-- Whether a word is an offset from universal time, or empty. -/
def isOffset : List Char → Bool
  | [] => true
  | ['Z'] => true
  | ['z'] => true
  | [sign, a, b, ':', c, d] =>
      (sign = '+' || sign = '-') && (twoDigits? 0 23 a b).isSome && (twoDigits? 0 59 c d).isSome
  | _ => false

/-- Whether a word is a date, a time of day, or a date with a time of day. -/
def isMoment (word : List Char) : Bool :=
  match skipDate? word with
  | some [] => true
  | some (mark :: time) =>
      (mark = 'T' || mark = 't' || mark = ' ') && ((skipTime? time).map isOffset).getD false
  | none => skipTime? word = some []

/-- The scalar a word writes. -/
def scalar? (word : List Char) : Option Toml :=
  if word = ['t', 'r', 'u', 'e'] then some (.bool true)
  else if word = ['f', 'a', 'l', 's', 'e'] then some (.bool false)
  else if isMoment word then some (.moment (String.ofList word))
  else (basedInteger? word).orElse fun _ => (decimalInteger? word).orElse fun _ => float? word

end Phrasing.Toml
