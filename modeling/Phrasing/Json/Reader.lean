import Phrasing.Json.Basic

/-!
# Reading JSON

A reader for JSON documents.  It accepts one document with blanks around its tokens and nothing
after it.  Numbers have no leading zeros, text holds no raw control character, and an escaped
surrogate is accepted only as half of a pair.
-/

namespace Phrasing.Json

/-- The rest of a text after the blanks it starts with. -/
def skipBlanks (input : List Char) : List Char :=
  input.dropWhile fun character =>
    character = ' ' || character = '\n' || character = '\t' || character = '\r'

/-- The value of a hexadecimal digit. -/
def hexValue? (character : Char) : Option Nat :=
  let code := character.toNat
  if 48 ≤ code && code ≤ 57 then some (code - 48)
  else if 97 ≤ code && code ≤ 102 then some (code - 87)
  else if 65 ≤ code && code ≤ 70 then some (code - 55)
  else none

/-- The number written by hexadecimal digits. -/
def hexNumber? (digits : List Char) : Option Nat :=
  digits.foldlM (fun value digit => (16 * value + ·) <$> hexValue? digit) 0

/-- The character with a code point, unless that is a surrogate or out of range. -/
def character? (code : Nat) : Option Char :=
  if valid : code.isValidChar then some (Char.ofNatAux code valid) else none

/-- The character that a letter after a backslash stands for. -/
def shortEscape? : Char → Option Char
  | '"' => some '"'
  | '\\' => some '\\'
  | '/' => some '/'
  | 'b' => some (Char.ofNat 0x08)
  | 'f' => some (Char.ofNat 0x0c)
  | 'n' => some '\n'
  | 'r' => some '\r'
  | 't' => some '\t'
  | _ => none

/-- Whether a code unit opens a surrogate pair. -/
def isHighSurrogate (unit : Nat) : Bool :=
  0xd800 ≤ unit && unit < 0xdc00

/-- Whether a code unit closes a surrogate pair. -/
def isLowSurrogate (unit : Nat) : Bool :=
  0xdc00 ≤ unit && unit < 0xe000

/-- The characters up to the closing quote, in reverse, and what follows it. -/
def readText? (read : List Char) : List Char → Option (List Char × List Char)
  | [] => none
  | '"' :: rest => some (read, rest)
  | '\\' :: 'u' :: a :: b :: c :: d :: '\\' :: 'u' :: e :: f :: g :: h :: rest => do
      let high ← hexNumber? [a, b, c, d]
      if isHighSurrogate high then
        let low ← hexNumber? [e, f, g, h]
        if isLowSurrogate low then
          let character ← character? (0x10000 + (high - 0xd800) * 0x400 + (low - 0xdc00))
          readText? (character :: read) rest
        else none
      else
        let character ← character? high
        readText? (character :: read) ('\\' :: 'u' :: e :: f :: g :: h :: rest)
  | '\\' :: 'u' :: a :: b :: c :: d :: rest => do
      let character ← character? (← hexNumber? [a, b, c, d])
      readText? (character :: read) rest
  | '\\' :: letter :: rest => do
      let character ← shortEscape? letter
      readText? (character :: read) rest
  | character :: rest =>
      if character.toNat < 0x20 then none else readText? (character :: read) rest

/-- The digits a text starts with, at least one, and what follows them. -/
def readDigits? (input : List Char) : Option (List Char × List Char) :=
  match input.span Char.isDigit with
  | ([], _) => none
  | (digits, rest) => some (digits, rest)

/-- The whole part of a number: a single zero, or digits that do not start with one. -/
def readWhole? : List Char → Option (List Char × List Char)
  | '0' :: rest => if (rest.head?.map Char.isDigit).getD false then none else some (['0'], rest)
  | input => readDigits? input

/-- The fraction of a number, if it has one. -/
def readFraction? : List Char → Option (List Char × List Char)
  | '.' :: rest => do
      let (digits, rest) ← readDigits? rest
      some ('.' :: digits, rest)
  | input => some ([], input)

/-- The exponent of a number, if it has one. -/
def readExponent? : List Char → Option (List Char × List Char)
  | mark :: rest =>
      if mark = 'e' || mark = 'E' then
        match rest with
        | sign :: after =>
            if sign = '+' || sign = '-' then do
              let (digits, rest) ← readDigits? after
              some (mark :: sign :: digits, rest)
            else do
              let (digits, rest) ← readDigits? rest
              some (mark :: digits, rest)
        | [] => none
      else some ([], mark :: rest)
  | [] => some ([], [])

/-- The literal of a number, and what follows it. -/
def readNumber? (input : List Char) : Option (Json × List Char) := do
  let (sign, rest) := match input with
    | '-' :: rest => (['-'], rest)
    | input => ([], input)
  let (whole, rest) ← readWhole? rest
  let (fraction, rest) ← readFraction? rest
  let (exponent, rest) ← readExponent? rest
  some (.number (String.ofList (sign ++ whole ++ fraction ++ exponent)), rest)

mutual

/-- One document at the start of a text, and what follows it; `fuel` bounds the nesting. -/
def readValue? : Nat → List Char → Option (Json × List Char)
  | 0, _ => none
  | fuel + 1, input =>
      match skipBlanks input with
      | 'n' :: 'u' :: 'l' :: 'l' :: rest => some (.null, rest)
      | 't' :: 'r' :: 'u' :: 'e' :: rest => some (.bool true, rest)
      | 'f' :: 'a' :: 'l' :: 's' :: 'e' :: rest => some (.bool false, rest)
      | '"' :: rest => do
          let (read, rest) ← readText? [] rest
          some (.text (String.ofList read.reverse), rest)
      | '[' :: rest =>
          match skipBlanks rest with
          | ']' :: rest => some (.array [], rest)
          | rest => do
              let (items, rest) ← readItems? fuel rest
              some (.array items, rest)
      | '{' :: rest =>
          match skipBlanks rest with
          | '}' :: rest => some (.object [], rest)
          | rest => do
              let (fields, rest) ← readFields? fuel rest
              some (.object fields, rest)
      | rest => readNumber? rest

/-- The items of an array up to its closing bracket. -/
def readItems? : Nat → List Char → Option (List Json × List Char)
  | 0, _ => none
  | fuel + 1, input => do
      let (item, rest) ← readValue? fuel input
      match skipBlanks rest with
      | ']' :: rest => some ([item], rest)
      | ',' :: rest => do
          let (items, rest) ← readItems? fuel rest
          some (item :: items, rest)
      | _ => none

/-- The fields of an object up to its closing brace. -/
def readFields? : Nat → List Char → Option (List (String × Json) × List Char)
  | 0, _ => none
  | fuel + 1, input =>
      match skipBlanks input with
      | '"' :: rest => do
          let (read, rest) ← readText? [] rest
          let key := String.ofList read.reverse
          match skipBlanks rest with
          | ':' :: rest => do
              let (value, rest) ← readValue? fuel rest
              match skipBlanks rest with
              | '}' :: rest => some ([(key, value)], rest)
              | ',' :: rest => do
                  let (fields, rest) ← readFields? fuel rest
                  some ((key, value) :: fields, rest)
              | _ => none
          | _ => none
      | _ => none

end

/-- The document that a text holds. -/
def read? (input : String) : Option Json :=
  let characters := input.toList
  match readValue? (2 * characters.length + 2) characters with
  | some (document, rest) => if (skipBlanks rest).isEmpty then some document else none
  | none => none

end Phrasing.Json
