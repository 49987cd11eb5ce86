import Phrasing.Vocabulary

/-!
# Processors

A processor turns what nodes observe into their data.  A node type with a source of its own gets its
data from that source, which is given the element.  For any other node type that observes, the raw
value passes through the common source, if there is one, and is then registered.
-/

namespace Phrasing

/-- The callbacks between observations and data. -/
structure Processor (σ : Type) where
  /-- Turns a raw value into data. -/
  register : Option (Transform σ) := none
  /-- Replaces every raw value before it is registered. -/
  source : Option (Transform σ) := none
  /-- The sources of single node types. -/
  sources : List (NodeType × Transform σ) := []

namespace Processor

variable {σ : Type}

/-- The processor under which data are the raw values. -/
def identity : Processor σ :=
  {}

/-- The processor that registers every raw value. -/
def ofRegister (register : Transform σ) : Processor σ :=
  { register := some register }

/-- The processor with a common source. -/
def withSource (processor : Processor σ) (source : Transform σ) : Processor σ :=
  { processor with source := some source }

/-- The processor with a source for one node type, in place of an earlier one. -/
def withSourceFor (processor : Processor σ) (type : NodeType) (source : Transform σ) :
    Processor σ :=
  { processor with
    sources := (type, source) :: processor.sources.filter fun entry => entry.1 ≠ type }

/-- The source of a node type. -/
def sourceFor? (processor : Processor σ) (type : NodeType) : Option (Transform σ) :=
  processor.sources.lookup type

/-- The data that a raw value becomes. -/
def registered (processor : Processor σ) (raw : Value) : Action σ Fault Value :=
  match processor.register with
  | some register => register raw
  | none => pure raw

/-- The raw value that the common source puts in the place of an observed one. -/
def sourced (processor : Processor σ) (raw : Value) : Action σ Fault Value :=
  match processor.source with
  | some source => source raw
  | none => pure raw

/-- How the data of a node type are computed, if it has any. -/
def derivation? (processor : Processor σ) (vocabulary : Vocabulary σ) (type : NodeType) :
    Option (Element → Action σ EngineError Value) :=
  match processor.sourceFor? type, (vocabulary type).observe with
  | some source, _ => some fun element => surfacing type .source (source (.element element))
  | none, none => none
  | none, some observe => some fun element => do
      let observed ← surfacing type .observe
        (observe { props := element.props, children := element.children })
      let raw ← surfacing type .source (processor.sourced observed)
      surfacing type .register (processor.registered raw)

/-- The outline of a processor. -/
def outline (processor : Processor σ) : Outline :=
  let names := (processor.sources.map fun entry => entry.1.name).mergeSort fun left right =>
    left ≤ right
  .record "Processor" false
    [("register", .bool processor.register.isSome),
      ("fallback_source", .bool processor.source.isSome),
      ("sources", .sequence (names.map .text))]

end Processor

/-- Everything a compilation depends on besides the grammar and the store. -/
structure Engine (σ : Type) where
  /-- The capabilities of node types. -/
  vocabulary : Vocabulary σ
  /-- The callbacks between observations and data. -/
  processor : Processor σ
  /-- The limits and switches. -/
  config : Config := {}

instance {σ : Type} : Inhabited (Engine σ) :=
  ⟨{ vocabulary := fun _ => {}, processor := .identity }⟩

end Phrasing
