import Narrative.Json

/-! Reading records out of documents: named fields, or the same fields by position. -/

namespace Narrative.Json

variable {α : Type}

/-- The documents of the named fields, in the order of the names. A table may have other fields too
but none of these twice; a list gives the fields by position and may stop early. -/
def record? (names : List String) : Json → Option (List (Option Json))
  | .table fields =>
    if names.all fun n => (fields.filter (·.1 = n)).length ≤ 1 then
      some (names.map fun n => field? n fields)
    else none
  | .list items =>
    if items.length ≤ names.length then
      some ((items.map some) ++ List.replicate (names.length - items.length) none)
    else none
  | _ => none

/-- The same record, of which a list may also go on after the last field. What comes there is left
out. -/
def openRecord? (names : List String) : Json → Option (List (Option Json))
  | .list items => record? names (.list (items.take names.length))
  | d => record? names d

def orDefault (a : α) (decode : Json → Option α) : Option Json → Option α
  | none => some a
  | some d => decode d

def nullable (decode : Json → Option α) : Json → Option (Option α)
  | .null => some none
  | d => (decode d).map some

def listOf (decode : Json → Option α) : Json → Option (List α)
  | .list items => items.mapM decode
  | _ => none

/-- A table of which every field is read alike; the last of several fields of a name counts. -/
def dictOf (decode : Json → Option α) : Json → Option (Dict α)
  | .table fields => (fields.mapM fun f => (decode f.2).map fun a => (f.1, a)).map Dict.ofList
  | _ => none

def natUpTo (bound : Nat) : Json → Option Nat
  | .int n => if 0 ≤ n ∧ n ≤ bound then some n.toNat else none
  | _ => none

end Narrative.Json
