import Narrative.Storage.Change
import Narrative.Storage.Zip
import Narrative.Tool.Check
import Narrative.Tool.Manage
import Narrative.Tool.Play
import Std.Time.DateTime.Timestamp

/-! The command line. A program works on a copy of the parts of the machine's file store that its
arguments, its environment and its settings name, and what it changed there is then done to the
machine. -/

namespace Narrative.Machine

def deepest : Nat := 64

def readTree (e : IO.FS.DirEntry) : Nat → IO (Option Tree)
  | 0 => return none
  | depth + 1 => do
    try
      match (← e.path.metadata).type with
      | .dir =>
        let trees ← (← e.path.readDir).toList.mapM fun f => do
          return (← readTree f depth).map fun t => (f.fileName, t)
        return some (.dir (trees.filterMap id))
      | .file => return some (.file (Content.ofBytes (← IO.FS.readBinFile e.path)))
      | _ => return none
    catch _ => return none

/-- The location that a path leads to in a store, whether or not something is there. -/
def goal (d : Disk) (p : Path) : List String :=
  p.steps.foldl (fun loc s => match s with
    | .here => loc
    | .up => loc.dropLast
    | .name n => loc ++ [n]) (d.start p)

/-- The store with what a path leads to on the machine. -/
def gather (d : Disk) (p : Path) : IO Disk := do
  match ← readTree ⟨".", p.text⟩ deepest with
  | some t => return d.put (goal d p) t
  | none => return d

def emptyDisk : IO Disk := do
  let working := (← IO.currentDir).components.filter (!·.isEmpty)
  return { root := Tree.put (.dir []) working (.dir []), working }

def possibleSettings (l : Launch) (d : Disk) : List Settings :=
  (Settings.discover l.product l.env d).toOption.toList
    ++ l.args.filterMap fun arg => (Settings.load d ⟨arg⟩).toOption

/-- The part of the machine's file store that a launch can reach. -/
def diskOf (l : Launch) : IO Disk := do
  let d ← emptyDisk
  let named := l.args ++ (Settings.fileOf l.product).text ::
    (l.env (Settings.variableOf l.product "CONFIG")).toList
  let d ← (named.map Path.mk).foldlM gather d
  let paths := (possibleSettings l d).flatMap fun s => [s.library, s.addons, s.addonFile, s.saves]
  paths.foldlM gather d

def apply : Change → IO Unit
  | .remove loc => do
    let path := (entry loc).path
    if ← path.isDir then IO.FS.removeDirAll path else IO.FS.removeFile path
  | .makeDir loc => IO.FS.createDirAll (entry loc).path
  | .write loc c =>
    match c.bytes? with
    | some bytes => IO.FS.writeBinFile (entry loc).path bytes
    | none => pure ()
where
  entry (loc : List String) : IO.FS.DirEntry :=
    ⟨"/", joinWith "/" loc⟩

/-- Does what a program changed since its file store was `before`, and shows what it wrote. -/
def settle (before : Disk) (c : Console) : IO Console := do
  (Tree.changes [] (some before.root) c.disk.root).forM apply
  (← IO.getStdout).putStr c.out
  (← IO.getStdout).flush
  (← IO.getStderr).putStr c.err
  return { disk := c.disk }

/-- Plays a game line by line. -/
partial def playOn (p : Play) (c : Console) : IO Nat := do
  (← IO.getStdout).putStr "> "
  (← IO.getStdout).flush
  let line ← (← IO.getStdin).getLine
  if line.isEmpty then return 0
  match Play.answer line p c with
  | (.ok (some p), after) => playOn p (← settle c.disk after)
  | (.ok none, after) =>
    let _ ← settle c.disk after
    return 0
  | (.error code, after) =>
    let _ ← settle c.disk after
    return code

def play (l : Launch) : IO Nat := do
  let d ← diskOf l
  match Play.start l { disk := d } with
  | (.ok (some p), after) => playOn p (← settle d after)
  | (.ok none, after) =>
    let _ ← settle d after
    return 0
  | (.error code, after) =>
    let _ ← settle d after
    return code

def run (t : Tool Unit) (l : Launch) : IO Nat := do
  let d ← diskOf l
  let (code, c) := t.finish d
  let _ ← settle d c
  return code

/-- What the programs are started with: settings go by the name of the executable. -/
def launch (args : List String) : IO Launch := do
  let product := (← IO.appPath).fileStem.getD "narrative"
  let settings ← ["CONFIG", "LIBRARY_DIR", "ADDONS_DIR", "SAVES_DIR", "SEED"].mapM fun setting => do
    let key := Settings.variableOf product setting
    return (key, ← IO.getEnv key)
  let seed := (← IO.getRandomBytes 8).foldl (fun n b => n * 256 + b.toUInt64) 0
  let now := (← Std.Time.Timestamp.now).toDurationSinceUnixEpoch
  return {
    product
    args
    env := fun key => (settings.lookup key).join
    now := .ofSeconds now.second.val.toNat now.nano.val.toNat
    seed }

end Narrative.Machine

/-- The first argument names the program, and the others are its own. -/
def main (args : List String) : IO UInt32 := do
  let l ← Narrative.Machine.launch (args.drop 1)
  let code ← match args.head? with
    | some "play" => Narrative.Machine.play l
    | some "content_linter" => Narrative.Machine.run (Narrative.Check.run l) l
    | some "addon_manager" => Narrative.Machine.run (Narrative.Manage.run l) l
    | _ => do
      IO.eprintln "Usage: play | content_linter | addon_manager [args]"
      pure 1
  return code.toUInt32
