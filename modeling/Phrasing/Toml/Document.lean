import Phrasing.Toml.Basic

/-!
# Building TOML documents

A document grows statement by statement.  No statement changes a value that is already there: a key
is assigned once, a table is opened by a header once, and dotted keys add fields only to tables that
no header has opened.
-/

namespace Phrasing.Toml

/-- The name of a place in a document, from the open table down. -/
abbrev Path := List String

/-- One line of a document. -/
inductive Statement where
  /-- Opens a table. -/
  | header (path : Path)
  /-- Opens a new table at the end of an array. -/
  | itemHeader (path : Path)
  /-- Gives a value to a key of the open table. -/
  | assignment (path : Path) (value : Toml)

/-- How a table came about. -/
inductive Origin where
  /-- As a part of the path of another table. -/
  | implicit
  /-- By a header. -/
  | header
  /-- By a dotted key. -/
  | dotted
  deriving DecidableEq

/-- A place in a growing document. -/
inductive Node where
  /-- A value, complete. -/
  | value (value : Toml)
  /-- A table. -/
  | branch (origin : Origin) (fields : List (String × Node))
  /-- An array of tables, the last of which is open. -/
  | items (closed : List (List (String × Node))) (last : List (String × Node))

mutual

/-- The value that a place has in the end. -/
def Node.toToml : Node → Toml
  | .value content => content
  | .branch _ fields => .table (Node.fieldsToToml fields)
  | .items closed last => .array (Node.itemsToToml closed ++ [.table (Node.fieldsToToml last)])

/-- The values that the fields of a table have in the end. -/
def Node.fieldsToToml : List (String × Node) → List (String × Toml)
  | [] => []
  | (key, node) :: rest => (key, Node.toToml node) :: Node.fieldsToToml rest

/-- The values that the items of an array have in the end. -/
def Node.itemsToToml : List (List (String × Node)) → List Toml
  | [] => []
  | fields :: rest => .table (Node.fieldsToToml fields) :: Node.itemsToToml rest

end

/-- The fields of a table that is being built. -/
abbrev Fields := List (String × Node)

/-- The fields with what stands at a key replaced, if `change` allows it. -/
def alter? (key : String) (change : Option Node → Option Node) : Fields → Option Fields
  | [] => (change none).map fun node => [(key, node)]
  | (other, node) :: rest =>
      if other = key then (change (some node)).map fun node => (other, node) :: rest
      else (alter? key change rest).map ((other, node) :: ·)

/-- The fields with a value assigned to a dotted key. -/
def assign? (value : Toml) : Path → Fields → Option Fields
  | [], _ => none
  | [key], fields =>
      alter? key (fun
        | none => some (.value value)
        | some _ => none) fields
  | key :: path, fields =>
      alter? key (fun
        | none => (assign? value path []).map (.branch .dotted)
        | some (.branch .header _) => none
        | some (.branch origin fields) => (assign? value path fields).map (.branch origin)
        | some _ => none) fields

/-- The fields with the table at a path changed; tables missing on the way come into being. -/
def descend? (change : Fields → Option Fields) : Path → Fields → Option Fields
  | [], fields => change fields
  | key :: path, fields =>
      alter? key (fun
        | none => (descend? change path []).map (.branch .implicit)
        | some (.branch origin fields) => (descend? change path fields).map (.branch origin)
        | some (.items closed last) => (descend? change path last).map (.items closed)
        | some (.value _) => none) fields

/-- Opens a table at a key, unless something other than a part of a path stands there. -/
def openTable? : Option Node → Option Node
  | none => some (.branch .header [])
  | some (.branch .implicit fields) => some (.branch .header fields)
  | some _ => none

/-- Opens a new table at the end of the array at a key. -/
def openItem? : Option Node → Option Node
  | none => some (.items [] [])
  | some (.items closed last) => some (.items (closed ++ [last]) [])
  | some _ => none

/-- A growing document. -/
structure Document where
  /-- The fields of the root table. -/
  root : Fields
  /-- The path of the open table. -/
  current : Path

namespace Document

/-- The document before its first statement. -/
def empty : Document :=
  ⟨[], []⟩

/-- Opens the table at a path in a given manner. -/
def open? (document : Document) (change : Option Node → Option Node) (path : Path) :
    Option Document :=
  match path.getLast? with
  | none => none
  | some key =>
      (descend? (alter? key change) path.dropLast document.root).map fun root => ⟨root, path⟩

/-- The document after one more statement. -/
def extend? (document : Document) : Statement → Option Document
  | .header path => document.open? openTable? path
  | .itemHeader path => document.open? openItem? path
  | .assignment path value =>
      (descend? (assign? value path) document.current document.root).map fun root =>
        { document with root }

end Document

/-- The fields of a table that is written within a line. -/
def assemble? (assignments : List (Path × Toml)) : Option (List (String × Toml)) :=
  (assignments.foldlM
    (fun fields assignment => assign? assignment.2 assignment.1 fields) []).map
      Node.fieldsToToml

end Phrasing.Toml
