import Mathlib.Data.Int.Notation

/-! JSON values as the interpreter's `json` module returns them. -/

namespace LocalVoice.Lib

/-- A JSON value as far as the modelled code looks at it. Floats, lists and objects are only ever
    printed and tested for truth, so they carry just these two readings. -/
inductive Json where
  | null
  | bool (b : Bool)
  | int (n : ℤ)
  | str (s : String)
  | other (printed : String) (truthy : Bool)
  deriving DecidableEq

/-- `str(value)`. -/
def Json.toStr : Json → String
  | .null => "None"
  | .bool true => "True"
  | .bool false => "False"
  | .int n => toString n
  | .str s => s
  | .other p _ => p

/-- `bool(value)`. -/
def Json.truthy : Json → Bool
  | .null => false
  | .bool b => b
  | .int n => n ≠ 0
  | .str s => s ≠ ""
  | .other _ t => t

end LocalVoice.Lib
