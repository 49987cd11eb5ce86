import Phrasing.Content.Hash
import Phrasing.Text.Visible

/-!
# Inspection text

An outline is the shape in which a value is shown to a person who inspects it.  It has two written
forms: on one line, and spread over lines with one part a line, four blanks of indentation a level
and a comma after every part.
-/

namespace Phrasing

/-- The digits of a number in base sixteen, without leading zeros. -/
def hexDigits (value : Nat) : List Char :=
  if value < 16 then [hexDigit value] else hexDigits (value / 16) ++ [hexDigit (value % 16)]

namespace Text

/-- The written form of one character in inspected text. -/
def inspectCharacter (character : Char) : List Char :=
  if character = '"' then ['\\', '"']
  else if character = '\\' then ['\\', '\\']
  else if character = '\n' then ['\\', 'n']
  else if character = '\r' then ['\\', 'r']
  else if character = '\t' then ['\\', 't']
  else if character.toNat = 0 then ['\\', '0']
  else if isVisible character then [character]
  else ['\\', 'u', '{'] ++ hexDigits character.toNat ++ ['}']

/-- A text in quotes, with everything escaped that is not visible. -/
def inspect (value : String) : String :=
  String.ofList ('"' :: value.toList.flatMap inspectCharacter ++ ['"'])

end Text

/-- What is shown of a value. -/
inductive Outline where
  /-- A word or a number. -/
  | atom (text : String)
  /-- A name applied to one part. -/
  | tagged (name : String) (part : Outline)
  /-- A name with labelled parts; a `partial` record has parts that are not shown. -/
  | record (name : String) (isPartial : Bool) (parts : List (String × Outline))
  /-- A sequence. -/
  | sequence (parts : List Outline)
  /-- A mapping from texts. -/
  | mapping (parts : List (String × Outline))

namespace Outline

/-- A text. -/
def text (value : String) : Outline :=
  .atom (Text.inspect value)

/-- A truth value. -/
def bool (value : Bool) : Outline :=
  .atom (if value then "true" else "false")

/-- Parts between brackets on one line, with blanks inside the brackets. -/
def spaced (parts : List String) : String :=
  " \x7b " ++ ", ".intercalate parts ++ " \x7d"

mutual

/-- The outline on one line. -/
def line : Outline → String
  | .atom text => text
  | .tagged name part => name ++ "(" ++ line part ++ ")"
  | .record name isPartial parts =>
      match lineLabelled parts, isPartial with
      | [], false => name
      | [], true => name ++ spaced [".."]
      | shown, isPartial => name ++ spaced (if isPartial then shown ++ [".."] else shown)
  | .sequence parts => "[" ++ ", ".intercalate (lineParts parts) ++ "]"
  | .mapping parts => "\x7b" ++ ", ".intercalate (lineQuoted parts) ++ "\x7d"

/-- The parts of a sequence, each on one line. -/
def lineParts : List Outline → List String
  | [] => []
  | part :: rest => line part :: lineParts rest

/-- The parts of a record, each on one line. -/
def lineLabelled : List (String × Outline) → List String
  | [] => []
  | (label, part) :: rest => (label ++ ": " ++ line part) :: lineLabelled rest

/-- The parts of a mapping, each on one line. -/
def lineQuoted : List (String × Outline) → List String
  | [] => []
  | (key, part) :: rest => (Text.inspect key ++ ": " ++ line part) :: lineQuoted rest

end

/-- Parts between brackets, each on lines of its own, followed by a closing note if there is one. -/
def spreadOut (indent opening closing : String) (parts : List String) (note : String) : String :=
  let inner := indent ++ "    "
  opening ++ String.join (parts.map fun part => "\n" ++ inner ++ part ++ ",") ++
    (if note.isEmpty then "" else "\n" ++ inner ++ note) ++ "\n" ++ indent ++ closing

mutual

/-- The outline over several lines, of which all but the first start with `indent`. -/
def lines (indent : String) : Outline → String
  | .atom text => text
  | .tagged name part =>
      spreadOut indent (name ++ "(") ")" [lines (indent ++ "    ") part] ""
  | .record name isPartial parts =>
      match linesLabelled (indent ++ "    ") parts, isPartial with
      | [], false => name
      | shown, isPartial =>
          spreadOut indent (name ++ " \x7b") "\x7d" shown (if isPartial then ".." else "")
  | .sequence [] => "[]"
  | .sequence (part :: rest) =>
      spreadOut indent "[" "]"
        (lines (indent ++ "    ") part :: linesParts (indent ++ "    ") rest) ""
  | .mapping [] => "\x7b\x7d"
  | .mapping ((key, part) :: rest) =>
      spreadOut indent "\x7b" "\x7d"
        ((Text.inspect key ++ ": " ++ lines (indent ++ "    ") part) ::
          linesQuoted (indent ++ "    ") rest) ""

/-- The parts of a sequence over several lines. -/
def linesParts (indent : String) : List Outline → List String
  | [] => []
  | part :: rest => lines indent part :: linesParts indent rest

/-- The parts of a record over several lines. -/
def linesLabelled (indent : String) : List (String × Outline) → List String
  | [] => []
  | (label, part) :: rest => (label ++ ": " ++ lines indent part) :: linesLabelled indent rest

/-- The parts of a mapping over several lines. -/
def linesQuoted (indent : String) : List (String × Outline) → List String
  | [] => []
  | (key, part) :: rest =>
      (Text.inspect key ++ ": " ++ lines indent part) :: linesQuoted indent rest

end

/-- The outline over several lines. -/
def pretty (outline : Outline) : String :=
  lines "" outline

end Outline

end Phrasing
