/-! Inflating deflated bytes. They are a run of bits in which a symbol is a byte, the end of a block
or the length of a piece that came before, and in which frequent symbols have short words. -/

namespace Narrative

/-- Reads bits of given bytes, from the position of the state on. -/
abbrev Inflating := ReaderT ByteArray (StateT Nat Option)

namespace Inflating

/-- The next bit. The lowest bit of a byte comes first. -/
def bit : Inflating Nat := do
  let i ← get
  match (← read)[i / 8]? with
  | some b =>
    set (i + 1)
    return b.toNat >>> (i % 8) % 2
  | none => failure

def bits : Nat → Inflating Nat
  | 0 => return 0
  | n + 1 => do
    let low ← bit
    return low + 2 * (← bits n)

def align : Inflating Unit :=
  modify fun i => (i + 7) / 8 * 8

end Inflating

/-- A prefix code: how many words there are of each length from one on, and the symbols in the order
of their words. -/
structure PrefixCode where
  counts : List Nat
  symbols : Array Nat

namespace PrefixCode

def longest : Nat := 15

/-- The code in which symbol `i` has a word of length `lengths[i]`, and none if that is zero. -/
def ofLengths (lengths : List Nat) : PrefixCode where
  counts := (List.range longest).map fun n => lengths.count (n + 1)
  symbols := ((List.range longest).flatMap fun n =>
    (lengths.zipIdx.filter (·.1 = n + 1)).map (·.2)).toArray

/-- Whether the words of a code do not get in each other's way: each word takes its part of
`room`. -/
def fits (room : Nat) : List Nat → Bool
  | [] => true
  | count :: counts => count ≤ 2 * room && fits (2 * room - count) counts

def ofLengths? (lengths : List Nat) : Option PrefixCode :=
  let c := ofLengths lengths
  if fits 1 c.counts then some c else none

/-- Reads a word. Words of one length follow each other, `first` is the first of them, and `before`
words are shorter. -/
def step (symbols : Array Nat) (word first before : Nat) : List Nat → Inflating Nat
  | [] => failure
  | count :: counts => do
    let word := word + (← Inflating.bit)
    if word < first + count then
      match symbols[before + (word - first)]? with
      | some s => return s
      | none => failure
    else step symbols (2 * word) (2 * (first + count)) (before + count) counts

def symbol (c : PrefixCode) : Inflating Nat :=
  step c.symbols 0 0 0 c.counts

end PrefixCode

namespace Inflating

/-- Lengths and distances: the least of a symbol, and how many bits there are to add to it. -/
def lengthOf : List (Nat × Nat) :=
  [(3, 0), (4, 0), (5, 0), (6, 0), (7, 0), (8, 0), (9, 0), (10, 0), (11, 1), (13, 1),
    (15, 1), (17, 1),
    (19, 2), (23, 2), (27, 2), (31, 2), (35, 3), (43, 3), (51, 3), (59, 3), (67, 4),
    (83, 4), (99, 4),
    (115, 4), (131, 5), (163, 5), (195, 5), (227, 5), (258, 0)]

def distanceOf : List (Nat × Nat) :=
  [(1, 0), (2, 0), (3, 0), (4, 0), (5, 1), (7, 1), (9, 2), (13, 2), (17, 3), (25, 3),
    (33, 4), (49, 4),
    (65, 5), (97, 5), (129, 6), (193, 6), (257, 7), (385, 7), (513, 8), (769, 8),
    (1025, 9), (1537, 9),
    (2049, 10), (3073, 10), (4097, 11), (6145, 11), (8193, 12), (12289, 12), (16385, 13),
    (24577, 13)]

def number (table : List (Nat × Nat)) (symbol : Nat) : Inflating Nat :=
  match table[symbol]? with
  | some (least, more) => return least + (← bits more)
  | none => failure

/-- Adds `n` bytes, each of them the one that is `distance` back. -/
def copy (distance : Nat) (out : ByteArray) : Nat → Option ByteArray
  | 0 => some out
  | n + 1 =>
    if distance ≤ out.size then
      match out[out.size - distance]? with
      | some b => copy distance (out.push b) n
      | none => none
    else none

def symbols (literals distances : PrefixCode) (out : ByteArray) : Nat → Inflating ByteArray
  | 0 => failure
  | limit + 1 => do
    let s ← literals.symbol
    if s < 256 then symbols literals distances (out.push s.toUInt8) limit
    else if s = 256 then return out
    else
      let length ← number lengthOf (s - 257)
      let distance ← number distanceOf (← distances.symbol)
      match copy distance out length with
      | some out => symbols literals distances out limit
      | none => failure

/-- A block that is not deflated: how many bytes, the complement of that, and the bytes. -/
def stored (out : ByteArray) : Inflating ByteArray := do
  align
  let n ← bits 16
  let complement ← bits 16
  let start := (← get) / 8
  let data ← read
  if n + complement = 65535 && start + n ≤ data.size then
    set (8 * (start + n))
    return out ++ data.extract start (start + n)
  else failure

/-- The lengths of words, of which `left` are still to come: a symbol is a length, or says how often
a length or zero is repeated. -/
def wordLengths (c : PrefixCode) (left : Nat) (lengths : Array Nat) : Inflating (Array Nat) := do
  if _h : left = 0 then return lengths
  else
    let s ← c.symbol
    if s < 16 then wordLengths c (left - 1) (lengths.push s)
    else
      let (length, least, more) ←
        match s, lengths.back? with
        | 16, some last => pure (last, 3, 2)
        | 17, _ => pure (0, 3, 3)
        | 18, _ => pure (0, 11, 7)
        | _, _ => failure
      let times := least + (← bits more)
      if left < times then failure
      else wordLengths c (left - max 1 times) (lengths ++ Array.replicate times length)
termination_by left
decreasing_by all_goals omega

def lengthOrder : List Nat :=
  [16, 17, 18, 0, 8, 7, 9, 6, 10, 5, 11, 4, 12, 3, 13, 2, 14, 1, 15]

def codes : Inflating (PrefixCode × PrefixCode) := do
  let literals := (← bits 5) + 257
  let distances := (← bits 5) + 1
  let n := (← bits 4) + 4
  let given ← (lengthOrder.take n).mapM fun s => do return (s, ← bits 3)
  let lengths := (List.range 19).map fun s => (given.lookup s).getD 0
  match PrefixCode.ofLengths? lengths with
  | some c =>
    let lengths := (← wordLengths c (literals + distances) #[]).toList
    match PrefixCode.ofLengths? (lengths.take literals),
    PrefixCode.ofLengths? (lengths.drop literals) with
    | some c, some d => return (c, d)
    | _, _ => failure
  | none => failure

def sharedCodes : PrefixCode × PrefixCode :=
  (.ofLengths (List.replicate 144 8 ++ List.replicate 112 9 ++ List.replicate 24 7 ++
    List.replicate 8 8),
    .ofLengths (List.replicate 30 5))

def blocks (out : ByteArray) : Nat → Inflating ByteArray
  | 0 => failure
  | limit + 1 => do
    let last ← bit
    let out ←
      match ← bits 2 with
      | 0 => stored out
      | 1 => symbols sharedCodes.1 sharedCodes.2 out (8 * (← read).size)
      | 2 =>
        let (literals, distances) ← codes
        symbols literals distances out (8 * (← read).size)
      | _ => failure
    if last = 1 then return out else blocks out limit

end Inflating

/-- The bytes from which `data` was deflated. Each block and each symbol takes at least one bit. -/
def inflate? (data : ByteArray) : Option ByteArray :=
  (((Inflating.blocks .empty (8 * data.size)).run data).run 0).map (·.1)

end Narrative
