import Runbook.Text.Basic

/-!
# TOML values

What a TOML document can say.  Nothing here computes with real numbers, so a value only remembers
that it is one; a date or a time is held in the standard way to write it.
-/

namespace Runbook.Toml

/-- A value of a TOML document. -/
inductive Value where
  | text (value : Text)
  | whole (value : Int)
  | real
  | boolean (value : Bool)
  /-- A date, a time or both. -/
  | moment (written : Text)
  | array (items : List Value)
  | table (entries : List (Text × Value))
deriving Inhabited

namespace Value

/-- The value that entries give a key. -/
def find? (key : Text) : List (Text × Value) → Option Value
  | [] => none
  | (k, v) :: rest => if k = key then some v else find? key rest

end Value

end Runbook.Toml
