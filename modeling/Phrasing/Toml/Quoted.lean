import Phrasing.Json.Reader

/-!
# Quoted TOML text

Text between double quotes has escapes, text between single quotes has none.  With three quotes on
each side a text may run over several lines; a line break right after the opening quotes does not
belong to it, and one or two quotes may stand just before the closing ones.
-/

namespace Phrasing.Toml

/-- Whether a character may stand in a comment or in text as it is. -/
def isPlain (character : Char) : Bool :=
  character = '\t' || (0x20 ≤ character.toNat && character.toNat ≠ 0x7f)

/-- Whether a character is a blank within a line. -/
def isBlank (character : Char) : Bool :=
  character = ' ' || character = '\t'

/-- What follows the line break a text starts with. -/
def skipBreak? : List Char → Option (List Char)
  | '\n' :: rest => some rest
  | '\r' :: '\n' :: rest => some rest
  | _ => none

/-- The character an escape stands for and what follows it, after the backslash. -/
def escape? : List Char → Option (Char × List Char)
  | 'u' :: a :: b :: c :: d :: rest => do
      let character ← Json.character? (← Json.hexNumber? [a, b, c, d])
      some (character, rest)
  | 'U' :: a :: b :: c :: d :: e :: f :: g :: h :: rest => do
      let character ← Json.character? (← Json.hexNumber? [a, b, c, d, e, f, g, h])
      some (character, rest)
  | '/' :: _ => none
  | letter :: rest => (Json.shortEscape? letter).map fun character => (character, rest)
  | [] => none

/-- What follows a backslash at the end of a line: the next text that is neither blank nor break. -/
def skipContinuation : List Char → List Char
  | '\r' :: '\n' :: rest => skipContinuation rest
  | character :: rest =>
      if isBlank character || character = '\n' then skipContinuation rest else character :: rest
  | [] => []

/-- Whether only blanks separate this place from the end of the line. -/
def endsLine (input : List Char) : Bool :=
  (skipBreak? (input.dropWhile isBlank)).isSome

/-- The rest of a text on one line after its opening quote; `fuel` bounds its length. -/
def readLine? (quote : Char) (escapes : Bool) :
    Nat → List Char → List Char → Option (String × List Char)
  | 0, _, _ => none
  | _, _, [] => none
  | fuel + 1, read, character :: rest =>
      if character = quote then some (String.ofList read.reverse, rest)
      else if escapes && character = '\\' then do
        let (character, rest) ← escape? rest
        readLine? quote escapes fuel (character :: read) rest
      else if isPlain character then readLine? quote escapes fuel (character :: read) rest
      else none

/-- The rest of a text over several lines after its opening quotes; `fuel` bounds its length. -/
def readLines? (quote : Char) (escapes : Bool) :
    Nat → List Char → List Char → Option (String × List Char)
  | 0, _, _ => none
  | fuel + 1, read, input =>
      match input.span (· = quote) with
      | ([], []) => none
      | ([], character :: rest) =>
          if escapes && character = '\\' then
            if endsLine rest then readLines? quote escapes fuel read (skipContinuation rest)
            else do
              let (character, rest) ← escape? rest
              readLines? quote escapes fuel (character :: read) rest
          else if character = '\n' || isPlain character then
            readLines? quote escapes fuel (character :: read) rest
          else
            match skipBreak? (character :: rest) with
            | some rest => readLines? quote escapes fuel ('\n' :: read) rest
            | none => none
      | (quotes, rest) =>
          if 6 ≤ quotes.length then none
          else if 3 ≤ quotes.length then
            some (String.ofList ((quotes.drop 3) ++ read).reverse, rest)
          else readLines? quote escapes fuel (quotes ++ read) rest

/-- The quoted text an input starts with, and what follows it. -/
def readQuoted? : List Char → Option (String × List Char)
  | '"' :: '"' :: '"' :: rest =>
      readLines? '"' true (rest.length + 1) [] ((skipBreak? rest).getD rest)
  | '\'' :: '\'' :: '\'' :: rest =>
      readLines? '\'' false (rest.length + 1) [] ((skipBreak? rest).getD rest)
  | '"' :: rest => readLine? '"' true (rest.length + 1) [] rest
  | '\'' :: rest => readLine? '\'' false (rest.length + 1) [] rest
  | _ => none

end Phrasing.Toml
