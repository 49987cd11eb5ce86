/-!
# TOML values

The values a TOML document can hold.  Floating-point numbers and points in time are kept as they are
written.
-/

namespace Phrasing

/-- A TOML value. -/
inductive Toml where
  /-- A text. -/
  | text (value : String)
  /-- An integer of 64 bits. -/
  | integer (value : Int)
  /-- A floating-point number, as it is written. -/
  | float (literal : String)
  /-- A truth value. -/
  | bool (value : Bool)
  /-- A date, a time or both, as it is written. -/
  | moment (literal : String)
  /-- An array. -/
  | array (items : List Toml)
  /-- A table, in written order. -/
  | table (fields : List (String × Toml))

end Phrasing
