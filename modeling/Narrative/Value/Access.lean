import Narrative.Value

/-! Reaching into values: attributes, positions and keys. -/

namespace Narrative

inductive TypeError where
  | noAttribute (kind : Kind) (name : String)
  | cannotIndex (container key : Kind)
  | cannotNegate (kind : Kind)
  | notIterable (kind : Kind)
  | noLength (kind : Kind)
  | badOperands (op : String) (left right : Kind)
  | notWhole (function got : String)
  | emptyRange (low high : Int64)
  | largeRange (items : Int)
  | badCount (function : String) (arguments : Nat)
  deriving DecidableEq

def TypeError.message : TypeError → String
  | .noAttribute kind name => kind.name ++ " has no attribute '" ++ name ++ "'"
  | .cannotIndex container key => "cannot index " ++ container.name ++ " with " ++ key.name
  | .cannotNegate kind => "cannot negate " ++ kind.name
  | .notIterable kind => kind.name ++ " is not iterable"
  | .noLength kind => kind.name ++ " has no length"
  | .badOperands op left right =>
    "unsupported operands for " ++ op ++ ": " ++ left.name ++ " and " ++ right.name
  | .notWhole function got => function ++ ": expected an integer, got " ++ got
  | .emptyRange low high =>
    "random: empty range " ++ writeInt low.toInt ++ ".." ++ writeInt high.toInt
  | .largeRange items => "range of " ++ writeInt items ++ " items is too large"
  | .badCount function arguments =>
    function ++ "() does not take " ++ writeNat arguments ++ " argument(s)"

/-- The attributes of a moment; any other name is nothing. -/
def Clock.attr (t : Clock) (name : String) : Value :=
  match name with
  | "year" => .int (Int64.ofNat t.year)
  | "season" => .int (Int64.ofNat t.season)
  | "season_name" => .text t.seasonName
  | "day" => .int (Int64.ofNat t.day)
  | "hour" => .int (Int64.ofNat t.hour)
  | "minute" => .int (Int64.ofNat t.minute)
  | "display" => .text t.text
  | "is_night" => .bool t.isNight
  | "is_day" => .bool t.isDay
  | _ => .none

namespace Value

def lookup (name : String) (entries : List (String × Value)) : Value :=
  ((entries.find? (·.1 = name)).map (·.2)).getD .none

/-- The attribute of a value. What is missing is nothing, and so is every attribute of nothing. -/
def attr (v : Value) (name : String) : Except TypeError Value :=
  match v with
  | .map entries => .ok (lookup name entries)
  | .clock t => .ok (t.attr name)
  | .none => .ok .none
  | v => .error (.noAttribute v.kind name)

/-- The item at a position, counted from the end if it is negative, or nothing. -/
def item (items : List Value) (n : Int64) : Value :=
  let place := if n.toInt < 0 then items.length + n.toInt else n.toInt
  if place < 0 then .none else (items[place.toNat]?).getD .none

def index (v key : Value) : Except TypeError Value :=
  match v, key with
  | .list items, .int n => .ok (item items n)
  | .map entries, .text name => .ok (lookup name entries)
  | .clock t, .text name => .ok (t.attr name)
  | .none, _ => .ok .none
  | v, key => .error (.cannotIndex v.kind key.kind)

end Value

end Narrative
