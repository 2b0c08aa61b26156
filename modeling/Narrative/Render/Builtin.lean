import Narrative.Scene

/-! The functions that expressions have besides verbs: they ask the state or draw a number, and
change nothing else. -/

namespace Narrative

inductive Builtin where
  | len
  | hasItem
  | random
  | range
  | questStage
  | questCompleted
  | relationship
  deriving DecidableEq

namespace Builtin

def all : List Builtin :=
  [len, hasItem, random, range, questStage, questCompleted, relationship]

def name : Builtin → String
  | len => "len"
  | hasItem => "has_item"
  | random => "random"
  | range => "range"
  | questStage => "quest_stage"
  | questCompleted => "quest_completed"
  | relationship => "relationship"

def ofName? (s : String) : Option Builtin :=
  all.find? (·.name = s)

def largestRange : Int := 10000

/-- A whole number argument, or a text that reads as one. -/
def int (f : Builtin) (v : Value) : Except EvalError Int64 :=
  match v with
  | .int n => .ok n
  | .text s =>
    match readInt64? (trim s.toList) with
    | some n => .ok n
    | none => .error (.type (.notWhole f.name ("'" ++ s ++ "'")))
  | v => .error (.type (.notWhole f.name v.kind.name))

def length (v : Value) : Except EvalError Value :=
  match v with
  | .text s => .ok (.int (Int64.ofNat s.length))
  | .list items => .ok (.int (Int64.ofNat items.length))
  | .map entries => .ok (.int (Int64.ofNat entries.length))
  | v => .error (.type (.noLength v.kind))

def numbers (low high : Int64) : Except EvalError Value :=
  let size := (saturate (high.toInt - low.toInt)).toInt
  if largestRange < size then .error (.type (.largeRange size))
  else .ok (.list ((List.range size.toNat).map fun (i : Nat) => .int (Int64.ofInt (low.toInt + i))))

def call (f : Builtin) (args : List Value) (s : Scene) : Except EvalError Value × Chance :=
  let keep (r : Except EvalError Value) := (r, s.chance)
  match f, args with
  | len, [v] => keep (length v)
  | hasItem, [id] => keep (.ok (.bool (s.state.hasItem id.display 1)))
  | hasItem, [id, n] => keep do
    let n ← int f n
    return .bool (s.state.hasItem id.display (((uint32? n.toInt).getD 0).toNat))
  | questStage, [id] => keep (.ok (.int (s.state.quest id.display).stage))
  | questCompleted, [id] => keep (.ok (.bool (s.state.quest id.display).completed))
  | relationship, [id] => keep (.ok (.int (s.state.relationship id.display)))
  | random, [low, high] =>
    match int f low, int f high with
    | .error e, _ => keep (.error e)
    | _, .error e => keep (.error e)
    | .ok low, .ok high =>
      if high < low then keep (.error (.type (.emptyRange low high)))
      else
        let (n, chance) := s.chance.between low high
        (.ok (.int n), chance)
  | range, [high] => keep do
    numbers 0 (← int f high)
  | range, [low, high] => keep do
    let low ← int f low
    numbers low (← int f high)
  | f, args => keep (.error (.type (.badCount f.name args.length)))

end Builtin

end Narrative
