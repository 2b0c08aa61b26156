import Narrative.Number.Digits

/-! Doubles as exact binary fractions: reading off sign, mantissa and exponent, and the whole
numbers near them. -/

namespace Narrative

/-- The number `± mantissa · 2 ^ exponent`. -/
structure Binary where
  negative : Bool
  mantissa : Nat
  exponent : Int
  deriving DecidableEq

namespace Binary

def ofFloat (x : Float) : Binary :=
  let bits := x.toBits.toNat
  let fraction : Nat := bits % Nat.pow 2 52
  let biased : Nat := bits / Nat.pow 2 52 % Nat.pow 2 11
  if biased = 0 then ⟨bits / Nat.pow 2 63 == 1, fraction, -1074⟩
  else ⟨bits / Nat.pow 2 63 == 1, fraction + Nat.pow 2 52, (biased : Int) - 1075⟩

def ratio (b : Binary) : Nat × Nat :=
  match b.exponent with
  | .ofNat e => (b.mantissa * Nat.pow 2 e, 1)
  | .negSucc e => (b.mantissa, Nat.pow 2 (e + 1))

def isWhole (b : Binary) : Bool :=
  b.ratio.1 % b.ratio.2 == 0

/-- The whole number next to the value on the side of zero. -/
def truncate (b : Binary) : Int :=
  let n := b.ratio.1 / b.ratio.2
  if b.negative then -(n : Int) else n

end Binary

/-- The word next to a number on the side of zero, or the nearest word if it is out of range. -/
def truncateToWord (x : Float) : Int64 :=
  saturate (Binary.ofFloat x).truncate

def nearestFloat (n : Int64) : Float :=
  Float.ofInt n.toInt

end Narrative
