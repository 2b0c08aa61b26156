import Narrative.Flag
import Narrative.Json

/-! Scalars of documents as text. -/

namespace Narrative

/-- The name of the one field of a table that stands for a date or a time. -/
def momentField : String := "$__toml_private_datetime"

namespace Json

def moment (text : String) : Json :=
  .table [(momentField, .text text)]

/-- The text of a scalar: a text itself, a number in plain digits, a truth value or a date. Lists
and other tables have none, and a whole number must fit 64 bits with a sign. -/
def scalarText? : Json → Option (Option String)
  | .null => some none
  | .text s => some s
  | .int n => (int64? (.int n)).map fun n => writeInt n.toInt
  | .float x => some (plainText x)
  | .bool b => some (Flag.writeBool b)
  | .table ((k, .text s) :: _) => some (if k = momentField then some s else none)
  | _ => some none

end Json

end Narrative
