import Narrative.Session.Saving
import Narrative.Tool.Console

/-! Playing a game of the library line by line. -/

namespace Narrative

namespace Play

def usage : String :=
  "Usage: play [<game_id>] [--config <path>] [--seed <n>]"

structure Options where
  game : Option String := none
  config : Option Path := none
  seed : Option UInt64 := none

/-- Reads the arguments. The first that asks for help or makes no sense ends the program. -/
def options (o : Options) : List String → Tool Options
  | [] => return o
  | "--help" :: _ | "-h" :: _ => do
    Tool.say usage
    throw 0
  | "--config" :: path :: args => options { o with config := some ⟨path⟩ } args
  | "--seed" :: n :: args =>
    match readUInt64? n.toList with
    | some seed => options { o with seed := some seed } args
    | none => Tool.fail "--seed expects an unsigned integer"
  | arg :: args =>
    if o.game.isNone && arg.toList.head? ≠ some '-' then options { o with game := some arg } args
    else do
      Tool.complain ("Unknown argument: " ++ arg)
      Tool.say usage
      throw 1

def listGames (s : Settings) : Tool Unit := do
  match Library.scan (← get).disk s.library with
  | [] => Tool.say ("No games found in " ++ s.library.text)
  | games =>
    games.forM fun g =>
      Tool.say (padRight 20 g.id ++ " " ++ g.title ++ " v" ++ g.version ++ " by " ++ g.author)

end Play

/-- A game that is being played: its session, and the screen that the player saw last. -/
structure Play where
  settings : Settings
  session : Session
  screen : Screen
  now : Instant

namespace Play

def lines (screen : Screen) (s : State) : List String :=
  match screen with
  | .nowhere id => ["", Screen.missing id]
  | .place p =>
    let presences := p.presences.map fun n => "  " ++ n.name ++ " is here. " ++ n.description
    let status := "[" ++ s.time.text ++ "] Gold: " ++ writeInt s.player.gold.toInt ++ "  Health: "
      ++ writeInt s.player.health.toInt ++ "/" ++ writeInt s.player.maxHealth.toInt
    let choices := p.choices.zipIdx.map fun (c, i) => "  " ++ writeNat (i + 1) ++ ". " ++ c.text
    ["", "== " ++ p.name ++ " ==", p.description] ++ presences ++ [status] ++ choices

def look (p : Play) : Tool Play := do
  let (screen, session) := Session.render p.session
  (lines screen session.state).forM Tool.say
  return { p with session, screen }

def act (kind : String) (payload : Option String) (p : Play) : Tool Play := do
  let (status, session) := Session.act kind payload p.session
  match status.message? with
  | some m => Tool.say m
  | none => pure ()
  return { p with session }

def savePath (p : Play) (slot : String) : Path :=
  p.settings.savePath p.session.gameId (if slot.isEmpty then "quick" else slot)

def save (slot : String) (p : Play) : Tool Play := do
  let path := p.savePath slot
  match ← Tool.storage (p.session.save p.now path) with
  | .ok _ => Tool.say ("Saved to " ++ path.text)
  | .error e => Tool.complain ("ERROR: " ++ e.message)
  return p

def load (slot : String) (p : Play) : Tool Play := do
  let (answer, session) := Playing.load (← get).disk (p.savePath slot) p.session
  match answer with
  | .ok () => look { p with session }
  | .error e =>
    Tool.complain ("ERROR: " ++ e.message)
    return { p with session }

def help : List String :=
  ["  <n>               take choice n",
    "  look              redraw the current location",
    "  do <verb> <args>  run a verb",
    "  say <text>        render text with directives",
    "  save [slot]       write a save",
    "  load [slot]       restore a save",
    "  state             dump the game state",
    "  quit              exit"]

def choice? (p : Play) (n : Nat) : Option Choice :=
  match p.screen with
  | .place place => if n = 0 then none else place.choices[n - 1]?
  | .nowhere _ => none

def choose (n : Nat) (p : Play) : Tool Play := do
  match p.choice? n with
  | some c => look (← act c.kind.name c.action p)
  | none =>
    Tool.say "No such choice."
    return p

def splitCommand (line : List Char) : String × String :=
  let line := trim line
  (String.ofList (line.takeWhile (· ≠ ' ')), String.ofList (trim (line.dropWhile (· ≠ ' '))))

/-- Answers a line; there is no game after the one that ends it. -/
def answer (line : String) (p : Play) : Tool (Option Play) := do
  let (command, rest) := splitCommand line.toList
  match command with
  | "" => return some p
  | "quit" | "exit" => return none
  | "help" =>
    help.forM Tool.say
    return some p
  | "look" => return some (← look p)
  | "do" => return some (← act "function" (some rest) p)
  | "say" =>
    let (words, session) := Session.parse rest p.session
    Tool.say words
    return some { p with session }
  | "save" => return some (← save rest p)
  | "load" => return some (← load rest p)
  | "state" =>
    Tool.say p.session.state.toJson.pretty
    return some p
  | command =>
    match readUInt64? command.toList with
    | some n => return some (← choose n.toNat p)
    | none =>
      Tool.say ("Unknown command '" ++ command ++ "'. Type 'help'.")
      return some p

/-- Starts the game that the arguments ask for; without one, the installed games are listed. -/
def start (l : Launch) : Tool (Option Play) := do
  let o ← options {} l.args
  let settings ← Tool.settings l o.config
  let settings := { settings with seed := o.seed.or settings.seed }
  match o.game with
  | none =>
    listGames settings
    return none
  | some id =>
    match ← Tool.storage (Session.open? settings l.seed id) with
    | .error e => Tool.fail e.message
    | .ok session =>
      Tool.say (session.world.metadata.title.getD id)
      return some (← look ⟨settings, session, .nowhere "", l.now⟩)

def answerAll (p : Play) : List String → Tool Unit
  | [] => Tool.write "> "
  | line :: rest => do
    Tool.write "> "
    match ← answer line p with
    | some p => answerAll p rest
    | none => return

def run (l : Launch) (input : List String) : Tool Unit := do
  match ← start l with
  | some p => answerAll p input
  | none => return

end Play

end Narrative
