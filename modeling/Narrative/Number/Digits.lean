/-! Whole numbers in decimal, and the machine words that hold them. -/

namespace Narrative

def writeNat (n : Nat) : String :=
  String.ofList (Nat.toDigits 10 n)

def writeInt (n : Int) : String :=
  if n < 0 then "-" ++ writeNat n.natAbs else writeNat n.natAbs

def readNat? (cs : List Char) : Option Nat :=
  if cs.isEmpty then none
  else if cs.all Char.isDigit then some (Nat.ofDigitChars 10 cs 0)
  else none

/-- Reads ASCII digits with an optional sign before them. -/
def readInt? : List Char → Option Int
  | '-' :: cs => (readNat? cs).map fun n => -(n : Int)
  | '+' :: cs => (readNat? cs).map fun n => (n : Int)
  | cs => (readNat? cs).map fun n => (n : Int)

def leastWord : Int := -9223372036854775808

def greatestWord : Int := 9223372036854775807

def int64? (n : Int) : Option Int64 :=
  if leastWord ≤ n ∧ n ≤ greatestWord then some (Int64.ofInt n) else none

def uint32? (n : Int) : Option UInt32 :=
  if 0 ≤ n ∧ n ≤ 4294967295 then some (UInt32.ofNat n.toNat) else none

def readInt64? (cs : List Char) : Option Int64 :=
  (readInt? cs).bind int64?

/-- Reads ASCII digits, with an optional plus sign, into an unsigned 64-bit word. -/
def readUInt64? (cs : List Char) : Option UInt64 :=
  match cs with
  | '+' :: ds => (readNat? ds).bind fit
  | ds => (readNat? ds).bind fit
where
  fit (n : Nat) : Option UInt64 :=
    if n ≤ 18446744073709551615 then some (UInt64.ofNat n) else none

def saturate (n : Int) : Int64 :=
  Int64.ofInt (max leastWord (min greatestWord n))

/-- A number in at least two places. -/
def writePadded (n : Nat) : String :=
  if n < 10 then "0" ++ writeNat n else writeNat n

theorem toInt_of_int64? {n : Int} {w : Int64} (h : int64? n = some w) : w.toInt = n := by
  unfold int64? leastWord greatestWord at h
  split at h
  · cases h
    exact Int64.toInt_ofInt_of_le (by omega) (by omega)
  · cases h

theorem toInt_saturate (n : Int) : (saturate n).toInt = max leastWord (min greatestWord n) := by
  unfold saturate leastWord greatestWord
  exact Int64.toInt_ofInt_of_le (by omega) (by omega)

@[simp] theorem int64?_toInt (w : Int64) : int64? w.toInt = some w := by
  have hl := w.le_toInt
  have hu := w.toInt_lt
  unfold int64? leastWord greatestWord
  rw [if_pos (by omega), Int64.ofInt_toInt]

end Narrative
