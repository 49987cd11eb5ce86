import Phrasing.Content.Hash

/-!
# JSON

JSON documents and their compact written form: no blanks, fields in the order given, text quoted
with the short escapes where they exist.  A number keeps its literal.
-/

namespace Phrasing

/-- A JSON document. -/
inductive Json where
  /-- The null value. -/
  | null
  /-- A truth value. -/
  | bool (value : Bool)
  /-- A number, as it is written. -/
  | number (literal : String)
  /-- A text. -/
  | text (value : String)
  /-- An array. -/
  | array (items : List Json)
  /-- An object, with its fields in written order. -/
  | object (fields : List (String × Json))

namespace Json

/-- A natural number. -/
def nat (value : Nat) : Json :=
  .number (toString value)

/-- An integer. -/
def int (value : Int) : Json :=
  .number (toString value)

/-- A value that may be missing. -/
def option {α : Type} (encode : α → Json) : Option α → Json
  | none => .null
  | some value => encode value

/-- A list of values. -/
def list {α : Type} (encode : α → Json) (values : List α) : Json :=
  .array (values.map encode)

/-- The written form of one character inside quotes. -/
def escape (character : Char) : List Char :=
  if character = '"' then ['\\', '"']
  else if character = '\\' then ['\\', '\\']
  else if character = '\n' then ['\\', 'n']
  else if character = '\r' then ['\\', 'r']
  else if character = '\t' then ['\\', 't']
  else if character.toNat = 0x08 then ['\\', 'b']
  else if character.toNat = 0x0c then ['\\', 'f']
  else if character.toNat < 0x20 then
    ['\\', 'u', '0', '0', hexDigit (character.toNat / 16), hexDigit (character.toNat % 16)]
  else [character]

/-- A text in quotes. -/
def quote (value : String) : String :=
  String.ofList ('"' :: value.toList.flatMap escape ++ ['"'])

mutual

/-- The compact written form of a document. -/
def compact : Json → String
  | .null => "null"
  | .bool value => if value then "true" else "false"
  | .number literal => literal
  | .text value => quote value
  | .array items => "[" ++ ",".intercalate (compactItems items) ++ "]"
  | .object fields => "\x7b" ++ ",".intercalate (compactFields fields) ++ "\x7d"

/-- The written forms of the items of an array. -/
def compactItems : List Json → List String
  | [] => []
  | item :: rest => compact item :: compactItems rest

/-- The written forms of the fields of an object. -/
def compactFields : List (String × Json) → List String
  | [] => []
  | (key, value) :: rest => (quote key ++ ":" ++ compact value) :: compactFields rest

end

instance : Inhabited Json :=
  ⟨.null⟩

/-- The field of an object with a given name. -/
def field? (name : String) : Json → Option Json
  | .object fields => fields.lookup name
  | _ => none

/-- The field of an object with a given name, null if there is none. -/
def field (name : String) (document : Json) : Json :=
  (document.field? name).getD .null

/-- The fields of an object, none for any other document. -/
def fields : Json → List (String × Json)
  | .object fields => fields
  | _ => []

/-- The items of an array, none for any other document. -/
def items : Json → List Json
  | .array items => items
  | _ => []

/-- The item of an array at an index, null if there is none. -/
def item (document : Json) (index : Nat) : Json :=
  document.items.getD index .null

/-- The text that a document is. -/
def text? : Json → Option String
  | .text value => some value
  | _ => none

/-- The truth value that a document is. -/
def bool? : Json → Option Bool
  | .bool value => some value
  | _ => none

/-- The integer that a document is. -/
def int? : Json → Option Int
  | .number literal => literal.toInt?
  | _ => none

/-- Whether a document is null. -/
def isNull : Json → Bool
  | .null => true
  | _ => false

end Json

/-- The JSON form of a hash, the list of its bytes. -/
def ContentHash.toJson (hash : ContentHash) : Json :=
  .list (fun byte => .nat byte.toNat) hash.bytes

end Phrasing
