import Narrative.Settings

/-! Command line programs: what they write, the file store that they work on, and how they end. -/

namespace Narrative

structure Console where
  disk : Disk
  out : String := ""
  err : String := ""

/-- A program. It can stop at any point with an exit code. -/
abbrev Tool := ExceptT Nat (StateM Console)

/-- What a program is started with: the name that its settings go by, its arguments, its
environment, the moment, and a seed of chance. -/
structure Launch where
  product : String
  args : List String
  env : String → Option String
  now : Instant
  seed : UInt64

namespace Tool

variable {ε α : Type}

def write (s : String) : Tool Unit :=
  modify fun c => { c with out := c.out ++ s }

def say (line : String) : Tool Unit :=
  write (line ++ "\n")

def complain (line : String) : Tool Unit :=
  modify fun c => { c with err := c.err ++ line ++ "\n" }

def fail (message : String) (code : Nat := 1) : Tool α := do
  complain ("ERROR: " ++ message)
  throw code

def storage (a : Storage ε α) : Tool (Except ε α) := do
  let c ← get
  let (r, disk) := a c.disk
  set { c with disk }
  return r

def settings (l : Launch) (file : Option Path) : Tool Settings := do
  let d := (← get).disk
  let r := match file with
    | some p => Settings.load d p
    | none => Settings.discover l.product l.env d
  match r with
  | .ok s => return s
  | .error e => fail e.message

def finish (t : Tool Unit) (d : Disk) : Nat × Console :=
  let (r, c) := t { disk := d }
  (match r with | .ok _ => 0 | .error code => code, c)

end Tool

def padRight (width : Nat) (s : String) : String :=
  s ++ String.ofList (List.replicate (width - s.length) ' ')

def padLeft (width : Nat) (s : String) : String :=
  String.ofList (List.replicate (width - s.length) ' ') ++ s

end Narrative
