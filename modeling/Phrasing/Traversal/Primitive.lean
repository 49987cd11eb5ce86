import Phrasing.Fault
import Phrasing.Expansion.Basic
import Phrasing.Reading
import Phrasing.Text.After
import Phrasing.Value.Fields

/-!
# Reading with primitives

What each primitive makes of a reading, given what its children make of readings.  First the props
are decoded, which fails when they are malformed; the rest cannot fail by itself and works in any
monad in which the children are read.
-/

namespace Phrasing.Traversal

variable {m : Type → Type} [Monad m]

/-- Applies a step to every item and joins the results. -/
def gather {α β : Type} (step : α → m (List β)) : List α → m (List β)
  | [] => pure []
  | item :: rest => do
      let first ← step item
      let others ← gather step rest
      pure (first ++ others)

/-- The only child of a node. -/
def onlyChild (builtIn : Primitive) (node : Expansion) : Except EngineError Expansion :=
  match node.children with
  | [child] => .ok child
  | children =>
      .error (.malformed builtIn s!"expected exactly one child, found {children.length}")

/-- A switch, off unless it is set. -/
def switch (builtIn : Primitive) (element : Element) (key : String) : Except EngineError Bool :=
  match element.prop? key with
  | none => .ok false
  | some .null => .ok false
  | some (.bool value) => .ok value
  | some _ => .error (.malformed builtIn s!"`{key}` must be a boolean")

/-- A count, if it is set. -/
def count? (builtIn : Primitive) (element : Element) (key : String) :
    Except EngineError (Option Nat) :=
  match element.prop? key with
  | none => .ok none
  | some .null => .ok none
  | some (.int value) =>
      if 0 ≤ value.toInt then .ok (some value.toInt.toNat)
      else .error (.malformed builtIn s!"`{key}` must be a non-negative integer")
  | some _ => .error (.malformed builtIn s!"`{key}` must be a non-negative integer")

/-- A literal, decoded. -/
structure Literal where
  /-- The text to match. -/
  text : String
  /-- The factor by which scores are multiplied. -/
  score : Float
  /-- The result. -/
  result : Value

/-- The literal that an element is. -/
def Literal.ofElement (element : Element) : Except EngineError Literal :=
  match (element.prop? "text").bind Value.text? with
  | none => .error (.malformed .literal "missing string prop `text`")
  | some text =>
      let result := (element.prop? "value").getD .null
      match element.prop? "score" with
      | none => .ok { text, score := 1.0, result }
      | some value =>
          match value.number? with
          | some score => .ok { text, score, result }
          | none => .error (.malformed .literal "`score` must be a number")

/-- The readings that go on from a reading with a literal: the literal is matched, or suggested
where the rest of the input is a front of it. -/
def Literal.read (literal : Literal) (reading : Reading) : List Reading :=
  let next := fun text fragments =>
    { text, fragments := reading.fragments ++ fragments, result := literal.result
      score := reading.score * literal.score : Reading }
  match reading.text with
  | none => [next none [⟨literal.text, false⟩]]
  | some rest =>
      match Text.after? literal.text rest with
      | some remaining => [next (some remaining) [⟨literal.text, true⟩]]
      | none =>
          match Text.after? rest literal.text with
          | some missing =>
              [next none
                ((if rest.isEmpty then [] else [⟨rest, true⟩]) ++ [⟨missing, false⟩])]
          | none => []

/-- The place that a child takes in the result of a sequence. -/
structure Slot where
  /-- The key under which the result of the child is put. -/
  key? : Option String
  /-- Whether the fields of the result of the child are added. -/
  merges : Bool

namespace Slot

/-- The slot of a child. -/
def ofElement (element : Element) : Except EngineError Slot := do
  let key? ← match element.prop? "id" with
    | none => .ok none
    | some .null => .ok none
    | some (.text key) => .ok (some key)
    | some _ => .error (.malformed .sequence "child `id` must be a string")
  let merges ← switch .sequence element "merge"
  .ok { key?, merges }

/-- Whether the result of the child shows in the result of the sequence. -/
def isKeyed (slot : Slot) : Bool :=
  slot.key?.isSome || slot.merges

/-- The fields gathered so far, with the result of the child. -/
def put (slot : Slot) (result : Value) (fields : Props) : Props :=
  match slot.key?, slot.merges, result with
  | some key, _, result => Fields.insert key result fields
  | none, true, .map added => Fields.insertAll fields added
  | none, _, _ => fields

end Slot

/-- The readings through the children of a sequence, each with the fields gathered on the way. -/
def readSlots (child : Expansion → Reading → m (List Reading)) :
    List (Expansion × Slot) → List (Reading × Props) → m (List (Reading × Props))
  | [], partials => pure partials
  | (node, slot) :: rest, partials => do
      let next ← gather (fun entry => do
        let outs ← child node (entry.1.withResult .null)
        pure (outs.map fun out => (out, slot.put out.result entry.2))) partials
      readSlots child rest next

/-- The readings that go on from a reading with a sequence. -/
def readSequence (child : Expansion → Reading → m (List Reading))
    (children : List (Expansion × Slot)) (fixed : Option Value) (reading : Reading) :
    m (List Reading) := do
  let keyed := children.any fun entry => entry.2.isKeyed
  let finished ← readSlots child children [(reading, [])]
  pure (finished.map fun entry =>
    entry.1.withResult
      (match fixed with
        | some value => value
        | none => if keyed then .map entry.2 else .null))

/-- The readings that go on from a reading with a choice, in the order of the children. -/
def readChoice (child : Expansion → Reading → m (List Reading)) (children : List Expansion)
    (fixed : Option Value) (reading : Reading) : m (List Reading) :=
  gather (fun node => do
    let outs ← child node reading
    pure (match fixed with
      | some value => outs.map (·.withResult value)
      | none => outs)) children

/-- The readings that go on from a reading with an optional child. -/
def readOptional (child : Expansion → Reading → m (List Reading)) (node : Expansion)
    (preferred : Bool) (reading : Reading) : m (List Reading) := do
  let skipped := reading.withResult .null
  let taken ← child node reading
  pure (if preferred then taken ++ [skipped] else skipped :: taken)

/-- The bounds of a repetition. -/
structure Bounds where
  /-- The least number of repetitions. -/
  least : Nat
  /-- The greatest number of repetitions. -/
  greatest : Nat

/-- The bounds that an element sets, with a default for the greatest number. -/
def Bounds.ofElement (maxRepeat : Nat) (element : Element) : Except EngineError Bounds := do
  let least := (← count? .repeat element "min").getD 1
  let greatest := (← count? .repeat element "max").getD maxRepeat
  if greatest = 0 || greatest < least then
    .error (.malformed .repeat s!"invalid bounds min={least} max={greatest}")
  else
    .ok { least, greatest }

/-- Whether a repetition shortened the rest of the input. -/
def progressed (before after : Reading) : Bool :=
  match before.text, after.text with
  | some before, some after => after.utf8ByteSize < before.utf8ByteSize
  | _, _ => false

/-- One more repetition of a child after each reading of a frontier. -/
def readStep (child : Reading → m (List Reading)) (frontier : List (Reading × List Value)) :
    m (List (Reading × Reading × List Value)) :=
  gather (fun entry => do
    let outs ← child entry.1
    pure (outs.map fun out => (entry.1, out, entry.2 ++ [out.result]))) frontier

/-- The readings after `round` and up to `remaining - 1` further repetitions.  A reading is repeated
further while the least number is not reached, and then only if its last repetition progressed. -/
def readRounds (child : Reading → m (List Reading)) (least : Nat) :
    Nat → Nat → List (Reading × List Value) → m (List Reading)
  | 0, _, _ => pure []
  | remaining + 1, round, frontier => do
      let steps ← readStep child frontier
      let found := if least ≤ round then
          steps.map fun step => step.2.1.withResult (.list step.2.2)
        else []
      let next := if remaining = 0 then []
        else (steps.filter fun step => round < least || progressed step.1 step.2.1).map (·.2)
      if next.isEmpty then pure found
      else do
        let others ← readRounds child least remaining (round + 1) next
        pure (found ++ others)

/-- The readings that go on from a reading with a repetition, shorter repetitions first. -/
def readRepeat (child : Reading → m (List Reading)) (bounds : Bounds) (reading : Reading) :
    m (List Reading) := do
  let skipped := if bounds.least = 0 then [reading.withResult (.list [])] else []
  let repeated ← readRounds child bounds.least bounds.greatest 1 [(reading, [])]
  pure (skipped ++ repeated)

end Phrasing.Traversal
