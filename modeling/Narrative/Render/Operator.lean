import Narrative.Expr
import Narrative.Scene
import Narrative.Text.Split

/-! What operators do to values. Whole numbers are exact or refused; with a float among the operands
the arithmetic is that of doubles. -/

namespace Narrative

def Value.float? : Value → Option Float
  | .int n => some (nearestFloat n)
  | .float x => some x
  | _ => Option.none

namespace BinaryOp

def refuse {α : Type} (symbol : String) (left right : Value) : Except EvalError α :=
  .error (.type (.badOperands symbol left.kind right.kind))

def exact (n : Int) : Except EvalError Value :=
  match int64? n with
  | some w => .ok (.int w)
  | none => .error .overflow

def arithmetic (symbol : String) (ints : Int → Int → Int) (floats : Float → Float → Float)
    (left right : Value) : Except EvalError Value :=
  match left, right with
  | .int a, .int b => exact (ints a.toInt b.toInt)
  | left, right =>
    match left.float?, right.float? with
    | some a, some b => .ok (.float (floats a b))
    | _, _ => refuse symbol left right

def divide (symbol : String) (floats : Float → Float → Float) (left right : Value) :
    Except EvalError Value :=
  match left.float?, right.float? with
  | some a, some b => if b == 0 then .error .divisionByZero else .ok (.float (floats a b))
  | _, _ => refuse symbol left right

/-- Whether no word holds the quotient of two words. -/
def wraps (a b : Int64) : Bool :=
  a = Int64.minValue && b = -1

/-- The quotient of words, rounded down: the truncated one, less one where truncation rounds up. -/
def floorQuotient (a b : Int64) : Except EvalError Int64 :=
  if b = 0 then .error .divisionByZero
  else if wraps a b then .error .overflow
  else .ok (if a % b ≠ 0 ∧ ¬ (a < 0 ↔ b < 0) then a / b - 1 else a / b)

/-- The remainder to the quotient rounded down, refused where that quotient is. -/
def floorRemainder (a b : Int64) : Except EvalError Int64 :=
  if b = 0 then .error .divisionByZero
  else if wraps a b then .error .overflow
  else .ok (if a % b ≠ 0 ∧ ¬ (a % b < 0 ↔ b < 0) then a % b + b else a % b)

/-- The order of two texts, or of two numbers as doubles, if they have one. -/
def order? (left right : Value) : Option Ordering :=
  match left, right with
  | .text a, .text b => some (compare a b)
  | left, right =>
    match left.float?, right.float? with
    | some a, some b =>
      if a < b then some .lt else if b < a then some .gt else if a == b then some .eq else none
    | _, _ => none

def compareBy (accepts : Ordering → Bool) (left right : Value) : Except EvalError Value :=
  match order? left right with
  | some o => .ok (.bool (accepts o))
  | none => refuse "comparison" left right

def contains (container needle : Value) : Except EvalError Bool :=
  match container, needle with
  | .list items, _ => .ok (items.any fun v => v.looseEq needle)
  | .text s, .text part => .ok (occursIn part.toList s.toList)
  | .map entries, .text key => .ok (entries.any (·.1 = key))
  | .none, _ => .ok false
  | container, needle => refuse "in" needle container

def sum (left right : Value) : Except EvalError Value :=
  match left, right with
  | .text a, .text b => .ok (.text (a ++ b))
  | .list as, .list bs => .ok (.list (as ++ bs))
  | left, right => arithmetic "+" (· + ·) (· + ·) left right

def floorDivide (left right : Value) : Except EvalError Value :=
  match left, right with
  | .int a, .int b => (floorQuotient a b).map .int
  | left, right => divide "//" (fun a b => (a / b).floor) left right

def remainder (left right : Value) : Except EvalError Value :=
  match left, right with
  | .int a, .int b => (floorRemainder a b).map .int
  | left, right => divide "%" (fun a b => a - b * (a / b).floor) left right

def apply (op : BinaryOp) (left right : Value) : Except EvalError Value :=
  match op with
  | .add => sum left right
  | .sub => arithmetic "-" (· - ·) (· - ·) left right
  | .mul => arithmetic "*" (· * ·) (· * ·) left right
  | .div => divide "/" (· / ·) left right
  | .floorDiv => floorDivide left right
  | .rem => remainder left right
  | .concat => .ok (.text (left.display ++ right.display))
  | .eq => .ok (.bool (left.looseEq right))
  | .ne => .ok (.bool (!left.looseEq right))
  | .lt => compareBy (·.isLT) left right
  | .le => compareBy (·.isLE) left right
  | .gt => compareBy (·.isGT) left right
  | .ge => compareBy (·.isGE) left right
  | .inside => (contains right left).map .bool
  | .outside => (contains right left).map fun b => .bool (!b)
  | .and => .ok (if left.truthy then right else left)
  | .or => .ok (if left.truthy then left else right)

end BinaryOp

def UnaryOp.apply (op : UnaryOp) (v : Value) : Except EvalError Value :=
  match op, v with
  | .not, v => .ok (.bool (!v.truthy))
  | .neg, .int n => BinaryOp.exact (-n.toInt)
  | .neg, .float x => .ok (.float (-x))
  | .neg, v => .error (.type (.cannotNegate v.kind))

end Narrative
