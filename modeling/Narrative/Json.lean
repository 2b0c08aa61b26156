import Narrative.Dict
import Narrative.Number.Decimal

/-! Documents: the value type that content files, saved games and configuration are read into. -/

namespace Narrative

/-- A document. A whole number is kept exactly, and a table lists its fields as they were
written. -/
inductive Json where
  | null
  | bool (b : Bool)
  | int (n : Int)
  | float (x : Float)
  | text (s : String)
  | list (items : List Json)
  | table (fields : List (String × Json))
  deriving Inhabited

namespace Json

mutual

/-- The document with the fields of every table by ascending name, the last of each name alone, and
without the floats that are no finite number. -/
def normal : Json → Json
  | .float x => if x.isFinite then .float x else .null
  | .list items => .list (normalItems items)
  | .table fields => .table (Dict.ofList (normalFields fields)).entries
  | d => d

def normalItems : List Json → List Json
  | [] => []
  | d :: ds => d.normal :: normalItems ds

def normalFields : List (String × Json) → List (String × Json)
  | [] => []
  | (k, d) :: fs => (k, d.normal) :: normalFields fs

end

def text? : Json → Option String
  | .text s => some s
  | _ => none

def list? : Json → Option (List Json)
  | .list items => some items
  | _ => none

def table? : Json → Option (List (String × Json))
  | .table fields => some fields
  | _ => none

def bool? : Json → Option Bool
  | .bool b => some b
  | _ => none

def int64? : Json → Option Int64
  | .int n => Narrative.int64? n
  | _ => none

def field? (name : String) (fields : List (String × Json)) : Option Json :=
  (fields.find? (·.1 = name)).map (·.2)

end Json

end Narrative
