import Narrative.Expr.Parser
import Narrative.Render.Builtin
import Narrative.Template
import Narrative.Template.Shorthand

/-! Checks of authored text: what would fail when it is rendered, as far as the text alone shows
it. -/

namespace Narrative

inductive Fault where
  | template (e : TemplateError)
  | expression (e : ParseError)
  | condition (e : ParseError)
  | badDescription
  | badVariant (slot : String)
  | badChoice
  | noTarget
  | notVerb (name : String)
  | unknownFunction (name : String)
  | unknownVariable (name : String)
  | noDescription
  | unknownNpc (id : String)
  | unknownTarget (id : String)
  deriving DecidableEq

namespace Fault

/-- Whether a fault only may show when the game is played. -/
def isWarning : Fault → Bool
  | notVerb _ | unknownFunction _ | unknownVariable _ | noDescription | unknownNpc _ |
      unknownTarget _ => true
  | _ => false

def message : Fault → String
  | template e => e.message
  | expression e => e.message
  | condition e => "condition: " ++ e.message
  | badDescription => "description must be text or a table"
  | badVariant slot => "description '" ++ slot ++ "' is not text"
  | badChoice => "choice is not a table"
  | noTarget => "missing target"
  | notVerb name => "'" ++ name ++ "' is not a registered verb"
  | unknownFunction name => "unknown function '" ++ name ++ "'"
  | unknownVariable name => "unknown variable '" ++ name ++ "'"
  | noDescription => "no description"
  | unknownNpc id => "npc '" ++ id ++ "' does not exist"
  | unknownTarget id => "travel target '" ++ id ++ "' does not exist"

end Fault

namespace Lint

/-- The name that an expression starts with, and what follows it. -/
def leadingName (source : List Char) : List Char × List Char :=
  let cs := trimStart source
  (cs.takeWhile continuesName, trimStart (cs.dropWhile continuesName))

/-- Whether a name has a value in every session, or is bound where it stands. -/
def isKnown (bound : List String) (name : String) : Bool :=
  State.shownNames.contains name || name = "location" || bound.contains name

/-- The faults of an expression. Of its names only the first is looked at. -/
def expression (isVerb : String → Bool) (bound : List String) (source : String) : List Fault :=
  match Expr.parse source with
  | .error e => [.expression e]
  | .ok _ =>
    let (head, rest) := leadingName source.toList
    let name := String.ofList head
    if !isName name then []
    else if rest.head? = some '(' then
      if isVerb name || (Builtin.ofName? name).isSome then [] else [.unknownFunction name]
    else if isKnown bound name then [] else [.unknownVariable name]

def output (isVerb : String → Bool) (bound : List String) (source : String) : List Fault :=
  if (Shorthand.call? isVerb source).isSome then []
  else if Shorthand.hasForm source && !(Expr.parse source).isOk then
    [.notVerb ((Shorthand.words source).headD "")]
  else expression isVerb bound source

mutual

/-- The faults of a node, and the names that are bound after it. -/
def node (isVerb : String → Bool) (bound : List String) : Node → List Fault × List String
  | .text _ => ([], bound)
  | .error _ => ([], bound)
  | .output source _ => (output isVerb bound source, bound)
  | .cond test body rest =>
    (expression isVerb bound test ++ nodes isVerb bound body ++ arms isVerb bound rest, bound)
  | .loop var iterable body =>
    (expression isVerb bound iterable ++ nodes isVerb (var :: "loop" :: bound) body, bound)
  | .assign name source => (expression isVerb bound source, name :: bound)
  | .run source => (expression isVerb bound source, bound)

def nodes (isVerb : String → Bool) (bound : List String) : List Node → List Fault
  | [] => []
  | n :: ns =>
    let (faults, bound) := node isVerb bound n
    faults ++ nodes isVerb bound ns

def arms (isVerb : String → Bool) (bound : List String) : Arms → List Fault
  | .done => []
  | .otherwise body => nodes isVerb bound body
  | .elif test body rest =>
    expression isVerb bound test ++ nodes isVerb bound body ++ arms isVerb bound rest

end

def template (isVerb : String → Bool) (text : String) : List Fault :=
  let t := Template.parse text
  (Template.errors t).map .template ++ nodes isVerb [] t

def call (isVerb : String → Bool) (payload : String) : List Fault :=
  let head := (Shorthand.words payload).headD ""
  let name := String.ofList (head.toList.takeWhile (· ≠ '('))
  if isVerb name then [] else [.notVerb name]

end Lint

end Narrative
