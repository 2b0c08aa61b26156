import Narrative.Clock
import Narrative.Dict
import Narrative.Flag
import Narrative.Json

/-! Values of the expression language: their kinds, their text, and their passage to flags and
documents. -/

namespace Narrative

/-- A value that an expression can have. The entries of a map stand by ascending name. -/
inductive Value where
  | none
  | bool (b : Bool)
  | int (n : Int64)
  | float (x : Float)
  | text (s : String)
  | list (items : List Value)
  | map (entries : List (String × Value))
  | clock (t : Clock)
  deriving Inhabited

inductive Kind where
  | none
  | bool
  | int
  | float
  | text
  | list
  | map
  | clock
  deriving DecidableEq

def Kind.name : Kind → String
  | .none => "none"
  | .bool => "bool"
  | .int => "int"
  | .float => "float"
  | .text => "string"
  | .list => "list"
  | .map => "map"
  | .clock => "time"

namespace Value

def kind : Value → Kind
  | .none => .none
  | .bool _ => .bool
  | .int _ => .int
  | .float _ => .float
  | .text _ => .text
  | .list _ => .list
  | .map _ => .map
  | .clock _ => .clock

/-- Whether a condition of this value holds: all but nothing, falsehood, zero and what is empty. -/
def truthy : Value → Bool
  | .none => false
  | .bool b => b
  | .int n => n != 0
  | .float x => x != 0
  | .text s => !s.isEmpty
  | .list items => !items.isEmpty
  | .map entries => !entries.isEmpty
  | .clock _ => true

mutual

def display : Value → String
  | .none => ""
  | .bool b => Flag.writeBool b
  | .int n => writeInt n.toInt
  | .float x => fractionText x
  | .text s => s
  | .list items => joinWith ", " (displayItems items)
  | .map entries => "\x7b" ++ joinWith ", " (displayEntries entries) ++ "\x7d"
  | .clock t => t.text

def displayItems : List Value → List String
  | [] => []
  | v :: vs => v.display :: displayItems vs

def displayEntries : List (String × Value) → List String
  | [] => []
  | (k, v) :: es => (k ++ ": " ++ v.display) :: displayEntries es

end

mutual

/-- The value that a flag of this value would hold. Texts are read anew, and nothing and maps cannot
be held. -/
def toFlag? : Value → Option Flag
  | .bool b => some (.bool b)
  | .int n => some (.int n)
  | .float x => some (.text (plainText x))
  | .text s => some (Flag.sniff s)
  | .list items => (toFlags? items).map .list
  | .clock t => some (.text t.text)
  | .none => Option.none
  | .map _ => Option.none

def toFlags? : List Value → Option (List Flag)
  | [] => some []
  | v :: vs => do
    let f ← v.toFlag?
    let fs ← toFlags? vs
    some (f :: fs)

end

mutual

def ofFlag : Flag → Value
  | .bool b => .bool b
  | .int n => .int n
  | .text s => .text s
  | .list items => .list (ofFlags items)

def ofFlags : List Flag → List Value
  | [] => []
  | f :: fs => ofFlag f :: ofFlags fs

end

mutual

/-- The value of a document: whole numbers that do not fit become floats. -/
def ofJson : Json → Value
  | .null => .none
  | .bool b => .bool b
  | .int n =>
    match int64? n with
    | some w => .int w
    | Option.none => .float (Float.ofInt n)
  | .float x => .float x
  | .text s => .text s
  | .list items => .list (ofJsonItems items)
  | .table fields => .map (Dict.ofList (ofJsonFields fields)).entries

def ofJsonItems : List Json → List Value
  | [] => []
  | d :: ds => ofJson d :: ofJsonItems ds

def ofJsonFields : List (String × Json) → List (String × Value)
  | [] => []
  | (k, d) :: fs => (k, ofJson d) :: ofJsonFields fs

end

mutual

/-- Whether two values are alike in kind and content; a float is like itself unless it is no
number. -/
def same : Value → Value → Bool
  | .none, .none => true
  | .bool a, .bool b => a == b
  | .int a, .int b => a == b
  | .float a, .float b => a == b
  | .text a, .text b => a == b
  | .list as, .list bs => sameItems as bs
  | .map as, .map bs => sameEntries as bs
  | .clock a, .clock b => a = b
  | _, _ => false

def sameItems : List Value → List Value → Bool
  | [], [] => true
  | a :: as, b :: bs => same a b && sameItems as bs
  | _, _ => false

def sameEntries : List (String × Value) → List (String × Value) → Bool
  | [], [] => true
  | (j, a) :: as, (k, b) :: bs => j == k && same a b && sameEntries as bs
  | _, _ => false

end

mutual

/-- As `same`, but a whole number equals the float next to it, also inside lists. -/
def looseEq : Value → Value → Bool
  | .int a, .float b => nearestFloat a == b
  | .float a, .int b => nearestFloat b == a
  | .list as, .list bs => looseEqItems as bs
  | a, b => same a b

def looseEqItems : List Value → List Value → Bool
  | [], [] => true
  | a :: as, b :: bs => looseEq a b && looseEqItems as bs
  | _, _ => false

end

end Value

end Narrative
