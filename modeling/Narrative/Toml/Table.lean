import Narrative.Json

/-! How the tables of a TOML document grow. A table is written once under a header or by dotted
keys, and what is written cannot be written again. -/

namespace Narrative.Toml

/-- How a table came to be: written under a header of its own, implied by the header of a table in
it, or made by dotted keys. -/
inductive Making where
  | header
  | implied
  | dotted
  deriving DecidableEq

inductive Entry where
  | value (d : Json)
  | table (making : Making) (fields : List (String × Entry))
  | array (tables : List (List (String × Entry)))

abbrev Fields := List (String × Entry)

namespace Entry

mutual

def toJson : Entry → Json
  | value d => d
  | table _ fields => .table (fieldsJson fields)
  | array tables => .list (tablesJson tables)

def fieldsJson : List (String × Entry) → List (String × Json)
  | [] => []
  | (k, e) :: fs => (k, e.toJson) :: fieldsJson fs

def tablesJson : List (List (String × Entry)) → List Json
  | [] => []
  | fields :: ts => .table (fieldsJson fields) :: tablesJson ts

end

end Entry

namespace Fields

def get? (fields : Fields) (key : String) : Option Entry :=
  (fields.find? (·.1 = key)).map (·.2)

/-- Gives a value to a key of the table that dotted keys lead to. `open` says whether the table may
get new keys this way: it is the current one, or dotted keys made it. -/
def assign (isOpen : Bool) (key : String) (d : Json) : List String → Fields → Option Fields
  | [], fields =>
    if isOpen && (fields.get? key).isNone then some (Dict.place key (.value d) fields) else none
  | k :: path, fields => do
    let e ← match fields.get? k with
      | none => (assign true key d path []).map (.table .dotted)
      | some (.table .dotted inner) => (assign true key d path inner).map (.table .dotted)
      | some (.table .implied inner) => (assign false key d path inner).map (.table .implied)
      | some (.array tables) =>
        match tables.reverse with
        | [] => none
        | last :: before =>
          (assign false key d path last).map fun t => .array ((t :: before).reverse)
      | some (.table .header _) | some (.value _) => none
    some (Dict.place k e fields)

abbrev Assignment := List String × String × Json

def assignAll (fields : Fields) (l : List Assignment) : Option Fields :=
  l.foldlM (fun fs a => assign true a.2.1 a.2.2 a.1 fs) fields

/-- Changes the entry that the keys of a header lead to, and implies the tables between. -/
def update (f : Option Entry → Option Entry) (key : String) : List String → Fields → Option Fields
  | [], fields => do
    let e ← f (fields.get? key)
    some (Dict.place key e fields)
  | k :: path, fields => do
    let e ← match fields.get? k with
      | none => (update f key path []).map (.table .implied)
      | some (.table making inner) => (update f key path inner).map (.table making)
      | some (.array tables) =>
        match tables.reverse with
        | [] => none
        | last :: before => (update f key path last).map fun t => .array ((t :: before).reverse)
      | some (.value _) => none
    some (Dict.place k e fields)

def writeTable (l : List Assignment) : Option Entry → Option Entry
  | none => (assignAll [] l).map (.table .header)
  | some (.table .implied fields) => (assignAll fields l).map (.table .header)
  | some _ => none

def writeElement (l : List Assignment) : Option Entry → Option Entry
  | none => (assignAll [] l).map fun t => .array [t]
  | some (.array tables) => (assignAll [] l).map fun t => .array (tables ++ [t])
  | some _ => none

end Fields

structure Header where
  element : Bool
  path : List String
  key : String

structure Section where
  header : Option Header
  assignments : List Fields.Assignment

namespace Section

def addTo (fields : Fields) (s : Section) : Option Fields :=
  match s.header with
  | none => fields.assignAll s.assignments
  | some h =>
    let write := if h.element then Fields.writeElement else Fields.writeTable
    Fields.update (write s.assignments) h.key h.path fields

def build (l : List Section) : Option Json :=
  (l.foldlM addTo []).map fun fields => .table (Entry.fieldsJson fields)

end Section

end Narrative.Toml
