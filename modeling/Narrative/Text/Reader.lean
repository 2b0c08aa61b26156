/-! Readers: functions that take a value off the front of a text, or refuse. -/

namespace Narrative

/-- Takes a value off the front of a text and leaves the rest. -/
abbrev Reader (α : Type) := List Char → Option (α × List Char)

namespace Reader

variable {α : Type}

def exactly (mark : String) : Reader Unit := fun cs =>
  if mark.toList.isPrefixOf cs then some ((), cs.drop mark.toList.length) else none

def run (p : Char → Bool) : Reader (List Char) := fun cs =>
  some (cs.takeWhile p, cs.dropWhile p)

def someRun (p : Char → Bool) : Reader (List Char) := fun cs =>
  match cs.takeWhile p with
  | [] => none
  | ds => some (ds, cs.dropWhile p)

/-- Values with a comma between them, up to the character `close`; blanks are dropped by `skip`. A
comma before `close` is accepted if `trailing`. -/
def commaList (item : Reader α) (skip : List Char → List Char) (close : Char) (trailing : Bool)
    (limit : Nat) : Reader (List α) := fun cs =>
  match skip cs with
  | [] => none
  | c :: rest => if c = close then some ([], rest) else items limit (c :: rest)
where
  items : Nat → Reader (List α)
    | 0, _ => none
    | limit + 1, cs => do
      let (a, rest) ← item cs
      match skip rest with
      | [] => none
      | c :: rest =>
        if c = close then some ([a], rest)
        else if c = ',' then
          match skip rest with
          | [] => none
          | c :: rest =>
            if c = close then if trailing then some ([a], rest) else none
            else do
              let (as, rest) ← items limit (c :: rest)
              some (a :: as, rest)
        else none

end Reader

end Narrative
