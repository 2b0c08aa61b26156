import Narrative.Number.Digits
import Narrative.Text.Split

/-! Stored values: what story flags hold. -/

namespace Narrative

inductive Flag where
  | bool (b : Bool)
  | int (n : Int64)
  | text (s : String)
  | list (items : List Flag)
  deriving Inhabited

namespace Flag

def sameLetters (s t : String) : Bool :=
  s.toList.map Char.toLower = t.toList.map Char.toLower

/-- The value that raw text suggests: a truth value in any case, the number of a run of digits that
fits, and any other text itself. -/
def sniff (raw : String) : Flag :=
  if sameLetters raw "true" then .bool true
  else if sameLetters raw "false" then .bool false
  else match (readNat? raw.toList).bind fun n => int64? n with
    | some n => .int n
    | none => .text raw

def list? : Flag → Option (List Flag)
  | .list items => some items
  | _ => none

def text? : Flag → Option String
  | .text s => some s
  | _ => none

def writeBool (b : Bool) : String :=
  if b then "true" else "false"

mutual

/-- The text shown for a value, the items of a list with commas between them. -/
def display : Flag → String
  | .bool b => writeBool b
  | .int n => writeInt n.toInt
  | .text s => s
  | .list items => joinWith ", " (displayAll items)

def displayAll : List Flag → List String
  | [] => []
  | v :: vs => v.display :: displayAll vs

end

end Flag

end Narrative
