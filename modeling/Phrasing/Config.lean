import Phrasing.Toml.Reader

/-!
# Configuration

The limits and switches under which grammars are compiled and read.  A configuration is written as a
TOML document with three sections, each of which may be missing, and so may each of their settings.
A section may also be an array of its settings in order.  Unknown names are refused.
-/

namespace Phrasing

/-- The limits and switches of an engine. -/
structure Config where
  /-- The greatest depth of a position in an expansion, and of nested traversal. -/
  maxDepth : Nat := 256
  /-- Whether observations and expansions are remembered. -/
  remember : Bool := true
  /-- Whether a compilation drops what it did not reach. -/
  sweep : Bool := true
  /-- The greatest number of repetitions where a repetition sets no bound of its own. -/
  maxRepeat : Nat := 32
  /-- The greatest number of readings of an input; zero stands for no bound. -/
  maxReadings : Nat := 0
  deriving DecidableEq

/-- Why the text of a configuration could not be obtained. -/
inductive ReadFailure where
  /-- There is no such file. -/
  | absent
  /-- The file does not hold text. -/
  | notText
  /-- Any other cause, in words. -/
  | other (reason : String)

/-- The wording of a failure to obtain text. -/
def ReadFailure.message : ReadFailure → String
  | .absent => "No such file or directory (os error 2)"
  | .notText => "stream did not contain valid UTF-8"
  | .other reason => reason

/-- Why a configuration was refused. -/
inductive ConfigError where
  /-- Its text could not be obtained. -/
  | unreadable (failure : ReadFailure)
  /-- Its text is no configuration. -/
  | malformed (reason : String)
  /-- One of its settings is not allowed. -/
  | invalid (reason : String)

/-- The wording of a refusal. -/
def ConfigError.message : ConfigError → String
  | .unreadable failure => "failed to read configuration: " ++ failure.message
  | .malformed reason => "failed to parse configuration: " ++ reason
  | .invalid reason => "validation error: " ++ reason

namespace Config

/-- The natural number a setting gives. -/
def natural? : Toml → Option Nat
  | .integer value => if 0 ≤ value then some value.toNat else none
  | _ => none

/-- The truth value a setting gives. -/
def switch? : Toml → Option Bool
  | .bool value => some value
  | _ => none

/-- Sets `maxDepth`. -/
def setMaxDepth? (config : Config) (value : Toml) : Option Config :=
  (natural? value).map fun maxDepth => { config with maxDepth }

/-- Sets `remember`. -/
def setRemember? (config : Config) (value : Toml) : Option Config :=
  (switch? value).map fun remember => { config with remember }

/-- Sets `sweep`. -/
def setSweep? (config : Config) (value : Toml) : Option Config :=
  (switch? value).map fun sweep => { config with sweep }

/-- Sets `maxRepeat`. -/
def setMaxRepeat? (config : Config) (value : Toml) : Option Config :=
  (natural? value).map fun maxRepeat => { config with maxRepeat }

/-- Sets `maxReadings`. -/
def setMaxReadings? (config : Config) (value : Toml) : Option Config :=
  (natural? value).map fun maxReadings => { config with maxReadings }

/-- A named setting of a section. -/
abbrev Setting := String × (Config → Toml → Option Config)

/-- The sections and their settings, in order. -/
def sections : List (String × List Setting) :=
  [("expansion", [("max_depth", setMaxDepth?)]),
    ("cache", [("enabled", setRemember?), ("sweep", setSweep?)]),
    ("traversal", [("max_repeat", setMaxRepeat?), ("max_options", setMaxReadings?)])]

/-- The configuration with a section of given settings applied. -/
def applySection? (settings : List Setting) (config : Config) : Toml → Option Config
  | .table fields =>
      fields.foldlM
        (fun config field => (settings.lookup field.1).bind fun set => set config field.2) config
  | .array items =>
      (settings.zip items).foldlM (fun config entry => entry.1.2 config entry.2) config
  | _ => none

/-- The configuration a document describes. -/
def ofToml? : Toml → Option Config
  | .table fields =>
      fields.foldlM
        (fun config field =>
          (sections.lookup field.1).bind fun settings => applySection? settings config field.2) {}
  | _ => none

/-- Refuses limits under which nothing could succeed. -/
def validate (config : Config) : Except ConfigError Config :=
  if config.maxDepth = 0 then .error (.invalid "expansion.max_depth must be positive")
  else if config.maxRepeat = 0 then .error (.invalid "traversal.max_repeat must be positive")
  else .ok config

/-- The configuration that a text describes. -/
def read (text : String) : Except ConfigError Config :=
  match Toml.read? text with
  | none => .error (.malformed "not a TOML document")
  | some document =>
      match ofToml? document with
      | none => .error (.malformed "not a configuration")
      | some config => config.validate

/-- The configuration in the content of a file, if there is one. -/
def load (content : Option ByteArray) : Except ConfigError Config :=
  match content with
  | none => .error (.unreadable .absent)
  | some bytes =>
      match String.fromUTF8? bytes with
      | none => .error (.unreadable .notText)
      | some text => read text

end Config

end Phrasing
