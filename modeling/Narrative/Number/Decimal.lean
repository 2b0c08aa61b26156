import Narrative.Number.Binary

/-! Doubles as decimal text: the fewest digits that read back to the same double, and the layouts in
which they are written. -/

namespace Narrative

/-- The number `digits · 10 ^ exponent`. -/
structure Decimal where
  digits : Nat
  exponent : Int
  deriving DecidableEq

namespace Decimal

def compareRatio (c : Nat) (k : Int) (x y : Nat) : Ordering :=
  match k with
  | .ofNat k => compare (c * Nat.pow 10 k * y) x
  | .negSucc k => compare (c * y) (x * Nat.pow 10 (k + 1))

/-- The least `e` with `x / y < 10 ^ e`, for positive `x` and `y`. -/
def magnitude (x y : Nat) : Int :=
  let lowest : Int := ((Nat.log2 x : Int) - Nat.log2 y - 1) * 1233 / 4096 - 1
  let candidates := (List.range 6).map fun (i : Nat) => lowest + i
  (candidates.find? fun e => compareRatio 1 e x y == .gt).getD lowest

/-- The reals that round to a double, between `low / scale` and `high / scale`; the ends belong to
them when `closed`. -/
structure Interval where
  low : Nat
  high : Nat
  scale : Nat
  closed : Bool

def Interval.around (b : Binary) : Interval :=
  let unit := ({ b with mantissa := 1 } : Binary).ratio
  let below := if b.mantissa == Nat.pow 2 52 && b.exponent != -1074 then 1 else 2
  { low := (4 * b.mantissa - below) * unit.1
    high := (4 * b.mantissa + 2) * unit.1
    scale := 4 * unit.2
    closed := b.mantissa % 2 == 0 }

def Interval.holds (i : Interval) (c : Nat) (k : Int) : Bool :=
  let low := compareRatio c k i.low i.scale
  let high := compareRatio c k i.high i.scale
  if i.closed then low != .lt && high != .gt else low == .gt && high == .lt

/-- The point of the grid `10 ^ k` that reads back and is nearest, the upper one of two as near. -/
def onGrid (i : Interval) (x y : Nat) (k : Int) : Option Decimal :=
  let below := match k with
    | .ofNat k => x / (y * Nat.pow 10 k)
    | .negSucc k => x * Nat.pow 10 (k + 1) / y
  let above := below + 1
  match i.holds below k, i.holds above k with
  | true, true =>
    if compareRatio (below + above) k (2 * x) y == .gt then some ⟨below, k⟩ else next above
  | true, false => some ⟨below, k⟩
  | false, true => next above
  | false, false => none
where
  next (c : Nat) : Option Decimal :=
    if c = 10 then some ⟨1, k + 1⟩ else some ⟨c, k⟩

/-- The decimal of fewest digits that reads back to a finite double, whose sign is left out. -/
def shortest (b : Binary) : Decimal :=
  let (x, y) := b.ratio
  if x = 0 then ⟨0, 0⟩
  else
    let i := Interval.around b
    let e := magnitude x y
    ((List.range 17).findSome? fun (n : Nat) => onGrid i x y (e - (n + 1))).getD ⟨0, 0⟩

/-- Without an exponent: zeros fill up to the point. -/
def positional (d : Decimal) : String :=
  let ds := Nat.toDigits 10 d.digits
  match d.exponent with
  | .ofNat k => String.ofList (ds ++ List.replicate k '0')
  | .negSucc k =>
    let places := k + 1
    if places < ds.length then
      String.ofList (ds.take (ds.length - places) ++ '.' :: ds.drop (ds.length - places))
    else String.ofList ('0' :: '.' :: List.replicate (places - ds.length) '0' ++ ds)

/-- Positional with a point from `1e-5` up to `1e16`, and with an exponent beyond. -/
def scientific (d : Decimal) : String :=
  let ds := Nat.toDigits 10 d.digits
  let point := ds.length + d.exponent
  if 0 ≤ d.exponent && point ≤ 16 then d.positional ++ ".0"
  else if -5 < point && point ≤ 16 then d.positional
  else
    let lead := match ds with
      | [] => []
      | [c] => [c]
      | c :: rest => c :: '.' :: rest
    String.ofList lead ++ "e" ++ writeInt (point - 1)

end Decimal

/-- The names of the values that have no digits, the infinities and the one that is no number. -/
def specialText (x : Float) : String :=
  if x.isNaN then "NaN" else if x < 0 then "-inf" else "inf"

def plainText (x : Float) : String :=
  if x.isFinite then
    let b := Binary.ofFloat x
    (if b.negative then "-" else "") ++ (Decimal.shortest b).positional
  else specialText x

/-- As `plainText`, but a whole number has all its digits and `.0` after them. -/
def fractionText (x : Float) : String :=
  let b := Binary.ofFloat x
  if x.isFinite && b.isWhole then
    (if b.negative then "-" else "") ++ writeNat b.truncate.natAbs ++ ".0"
  else plainText x

/-- The shortest digits of a finite double, with an exponent if it is far from one. -/
def scientificText (x : Float) : String :=
  let b := Binary.ofFloat x
  let d := Decimal.shortest b
  (if b.negative then "-" else "") ++ d.scientific

/-- The double nearest to `whole.fraction · 10 ^ exponent`, all digits being ASCII digits. An
exponent far beyond the digits gives zero or infinity at once. -/
def readFloat (whole fraction : List Char) (exponent : Int) : Float :=
  let m := Nat.ofDigitChars 10 (whole ++ fraction) 0
  let e := exponent - fraction.length
  if m = 0 then 0
  else if 0 ≤ e then Float.ofScientific m false (min e.toNat 400)
  else if (whole ++ fraction).length + 400 < e.natAbs then 0
  else Float.ofScientific m true e.natAbs

end Narrative
