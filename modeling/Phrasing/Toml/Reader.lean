import Phrasing.Toml.Document
import Phrasing.Toml.Quoted
import Phrasing.Toml.Scalar

/-!
# Reading TOML

A TOML document is read as a list of statements, one a line, which then build the document.  A value
may run over several lines only inside an array or inside text with three quotes; a table within a
line has no comma after its last field.  Nesting and dotted keys stay below a fixed depth.
-/

namespace Phrasing.Toml

/-- The text after the blanks it starts with. -/
def skipBlanks (input : List Char) : List Char :=
  input.dropWhile isBlank

/-- The text after blanks, line breaks and comments; `fuel` bounds their number. -/
def skipSpace : Nat → List Char → List Char
  | 0, input => input
  | fuel + 1, input =>
      match skipBlanks input with
      | '#' :: rest => skipSpace fuel (rest.dropWhile isPlain)
      | rest =>
          match skipBreak? rest with
          | some rest => skipSpace fuel rest
          | none => rest

/-- What follows a line, once its blanks and its comment are skipped. -/
def endLine? (input : List Char) : Option (List Char) :=
  let rest := match skipBlanks input with
    | '#' :: comment => comment.dropWhile isPlain
    | rest => rest
  match rest with
  | [] => some []
  | rest => skipBreak? rest

/-- Whether a character may stand in a key without quotes. -/
def isBare (character : Char) : Bool :=
  character.isAlphanum || character = '_' || character = '-'

/-- One key, and what follows it. -/
def readKey? : List Char → Option (String × List Char)
  | '"' :: rest => readLine? '"' true (rest.length + 1) [] rest
  | '\'' :: rest => readLine? '\'' false (rest.length + 1) [] rest
  | input =>
      match input.span isBare with
      | ([], _) => none
      | (key, rest) => some (String.ofList key, rest)

/-- The depth that neither nested values nor dotted keys reach. -/
def depthLimit : Nat :=
  80

/-- Keys separated by points, and what follows them; `fuel` bounds their number. -/
def readPath? : Nat → List Char → Option (Path × List Char)
  | 0, _ => none
  | fuel + 1, input => do
      let (key, rest) ← readKey? (skipBlanks input)
      match skipBlanks rest with
      | '.' :: rest => do
          let (path, rest) ← readPath? fuel rest
          some (key :: path, rest)
      | rest => some ([key], rest)

/-- Whether a word could be a date that a time of day follows after a blank. -/
def continues (word rest : List Char) : Bool :=
  skipDate? word = some [] &&
    match rest with
    | ' ' :: digit :: _ => digit.isDigit
    | _ => false

/-- An unquoted scalar, and what follows it. -/
def readScalar? (input : List Char) : Option (Toml × List Char) := do
  let (word, rest) := input.span isWordCharacter
  let (word, rest) :=
    if continues word rest then
      let (time, rest) := rest.tail.span isWordCharacter
      (word ++ ' ' :: time, rest)
    else (word, rest)
  let value ← scalar? word
  some (value, rest)

mutual

/-- A value, and what follows it; `fuel` bounds its length and `depth` its nesting. -/
def readValue? : Nat → Nat → List Char → Option (Toml × List Char)
  | 0, _, _ => none
  | fuel + 1, depth, input =>
      match depth, input with
      | depth + 1, '[' :: rest => do
          let (items, rest) ← readItems? fuel depth rest
          some (.array items, rest)
      | depth + 1, '{' :: rest =>
          match skipBlanks rest with
          | '}' :: rest => some (.table [], rest)
          | rest => do
              let (assignments, rest) ← readInline? fuel depth rest
              let fields ← assemble? assignments
              some (.table fields, rest)
      | _, input =>
          match readQuoted? input with
          | some (value, rest) => some (.text value, rest)
          | none => readScalar? input

/-- The items of an array up to its closing bracket, with a comma allowed after the last one. -/
def readItems? : Nat → Nat → List Char → Option (List Toml × List Char)
  | 0, _, _ => none
  | fuel + 1, depth, input =>
      match skipSpace (input.length + 1) input with
      | ']' :: rest => some ([], rest)
      | input => do
          let (item, rest) ← readValue? fuel depth input
          match skipSpace (rest.length + 1) rest with
          | ',' :: rest => do
              let (items, rest) ← readItems? fuel depth rest
              some (item :: items, rest)
          | ']' :: rest => some ([item], rest)
          | _ => none

/-- The assignments of a table within a line, up to its closing brace. -/
def readInline? : Nat → Nat → List Char → Option (List (Path × Toml) × List Char)
  | 0, _, _ => none
  | fuel + 1, depth, input => do
      let (path, rest) ← readPath? (depthLimit - 1) input
      match rest with
      | '=' :: rest => do
          let (value, rest) ← readValue? fuel depth (skipBlanks rest)
          match skipBlanks rest with
          | ',' :: rest => do
              let (assignments, rest) ← readInline? fuel depth rest
              some ((path, value) :: assignments, rest)
          | '}' :: rest => some ([(path, value)], rest)
          | _ => none
      | _ => none

end

/-- One statement, and what follows it on its line. -/
def readStatement? : List Char → Option (Statement × List Char)
  | '[' :: '[' :: rest => do
      let (path, rest) ← readPath? (depthLimit - 1) rest
      match rest with
      | ']' :: ']' :: rest => some (.itemHeader path, rest)
      | _ => none
  | '[' :: rest => do
      let (path, rest) ← readPath? (depthLimit - 1) rest
      match rest with
      | ']' :: rest => some (.header path, rest)
      | _ => none
  | input => do
      let (path, rest) ← readPath? (depthLimit - 1) input
      match rest with
      | '=' :: rest => do
          let (value, rest) ← readValue? (2 * rest.length + 2) (depthLimit - 1) (skipBlanks rest)
          some (.assignment path value, rest)
      | _ => none

/-- The statements of a document; `fuel` bounds their number. -/
def readStatements? : Nat → List Char → Option (List Statement)
  | 0, _ => none
  | fuel + 1, input =>
      match skipSpace (input.length + 1) input with
      | [] => some []
      | input => do
          let (statement, rest) ← readStatement? input
          let rest ← endLine? rest
          let statements ← readStatements? fuel rest
          some (statement :: statements)

/-- The document that a text holds, as the fields of its root table. -/
def read? (input : String) : Option Toml := do
  let characters := match input.toList with
    | first :: rest => if first.toNat = 0xfeff then rest else first :: rest
    | [] => []
  let statements ← readStatements? (characters.length + 1) characters
  let document ← statements.foldlM Document.extend? Document.empty
  some (.table (Node.fieldsToToml document.root))

end Phrasing.Toml
