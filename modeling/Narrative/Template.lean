import Narrative.Expr.Token
import Narrative.Template.Region
import Narrative.Text.Split

/-! Templates: authored text as literal runs, outputs and nested blocks. Whatever is malformed
becomes an error node of its own. -/

namespace Narrative

inductive TemplateError where
  | unclosedRegion (kind : RegionKind) (source : String)
  | emptyOutput
  | missingTest
  | unclosedIf
  | unclosedFor
  | unexpected (keyword : String)
  | emptyDo
  | malformedSet (source : String)
  | malformedFor (header : String)
  | emptyStatement
  | unknownStatement (keyword : String)
  deriving DecidableEq

def TemplateError.message : TemplateError → String
  | .unclosedRegion kind source =>
    "unclosed '" ++ String.ofList ['\x7b', kind.opening] ++ "' in \"" ++ source ++ "\""
  | .emptyOutput => "empty expression"
  | .missingTest => "'if' without a condition"
  | .unclosedIf => "unclosed 'if' block"
  | .unclosedFor => "unclosed 'for' block"
  | .unexpected keyword => "unexpected '" ++ keyword ++ "'"
  | .emptyDo => "empty 'do' statement"
  | .malformedSet source => "malformed 'set' statement \"" ++ source ++ "\""
  | .malformedFor header => "malformed 'for' header \"" ++ header ++ "\""
  | .emptyStatement => "empty statement"
  | .unknownStatement keyword => "unknown statement '" ++ keyword ++ "'"

mutual

/-- A node of a template. Expressions are kept as their text, an output also as its whole region. -/
inductive Node where
  | text (s : String)
  | output (expr source : String)
  | cond (test : String) (body : List Node) (arms : Arms)
  | loop (var iterable : String) (body : List Node)
  | assign (name expr : String)
  | run (expr : String)
  | error (e : TemplateError)

inductive Arms where
  | done
  | otherwise (body : List Node)
  | elif (test : String) (body : List Node) (arms : Arms)

end

instance : Inhabited Node := ⟨.text ""⟩

instance : Inhabited Arms := ⟨.done⟩

/-- What a cut text says piece by piece: literal text, an output, the content of a tag, or an
error. -/
inductive Segment where
  | text (cs : List Char)
  | output (expr source : List Char)
  | tag (content : List Char)
  | error (e : TemplateError)
  deriving DecidableEq

namespace Segment

def ofRegion (r : Region) : List Segment :=
  let content := trim r.body
  match r.kind with
  | .output => if content.isEmpty then [.error .emptyOutput] else [.output content r.source]
  | .tag => [.tag content]
  | .comment => []

def trimsBefore : List Piece → Bool
  | .region r :: _ => r.trimBefore
  | .unclosed _ b _ :: _ => b
  | _ => false

def ofLiteral (cs : List Char) : List Segment :=
  if cs.isEmpty then [] else [.text cs]

/-- The segments of a cut; `trimmed` says that the region before it trims what follows. -/
def ofPieces (trimmed : Bool) : List Piece → List Segment
  | [] => []
  | .literal cs :: ps =>
    let cs := if trimmed then trimStart cs else cs
    ofLiteral (if trimsBefore ps then trimEnd cs else cs) ++ ofPieces false ps
  | .region r :: ps => ofRegion r ++ ofPieces r.trimAfter ps
  | .unclosed kind _ source :: ps =>
    .error (.unclosedRegion kind (String.ofList (trim source))) :: ofPieces false ps

def scan (cs : List Char) : List Segment :=
  ofPieces false (cut cs)

end Segment

/-! The block tree is built segment by segment, with the open blocks on a stack. -/

/-- A block that is open: a conditional with its finished arms, the last first, or a loop. -/
inductive Opener where
  | test (arms : List (String × List Node)) (test : String)
  | otherwise (arms : List (String × List Node))
  | loop (header : String)

/-- An open block and the nodes before it, the last first. -/
structure Frame where
  opener : Opener
  before : List Node

/-- The open blocks, the innermost first, and the nodes of the innermost so far, the last first. -/
structure Builder where
  frames : List Frame
  nodes : List Node

def Arms.ofList (otherwise : Option (List Node)) : List (String × List Node) → Arms
  | [] =>
    match otherwise with
    | none => .done
    | some body => .otherwise body
  | (test, body) :: arms => .elif test body (ofList otherwise arms)

namespace Node

def ofArms (arms : List (String × List Node)) (otherwise : Option (List Node)) : Node :=
  match arms.reverse with
  | [] => .error .missingTest
  | (test, body) :: arms => .cond test body (Arms.ofList otherwise arms)

def loopParts? (header : List Char) : Option (String × String) :=
  match splitOnce [' ', 'i', 'n', ' '] header with
  | none => none
  | some (var, iterable) =>
    let var := String.ofList (trim var)
    let iterable := String.ofList (trim iterable)
    if isName var && iterable ≠ "" then some (var, iterable) else none

def ofLoop (header : String) (body : List Node) : Node :=
  match loopParts? header.toList with
  | some (var, iterable) => .loop var iterable body
  | none => .error (.malformedFor header)

def assignParts? (source : List Char) : Option (String × String) :=
  match splitOnce ['='] source with
  | none => none
  | some (name, expr) =>
    let name := String.ofList (trim name)
    let expr := trim expr
    if isName name && !expr.isEmpty && expr.head? ≠ some '=' then some (name, String.ofList expr)
    else none

def ofStatement (keyword rest : String) : Node :=
  match keyword with
  | "set" =>
    match assignParts? rest.toList with
    | some (name, expr) => .assign name expr
    | none => .error (.malformedSet rest)
  | "do" => if rest = "" then .error .emptyDo else .run rest
  | "elif" | "else" | "endif" | "endfor" => .error (.unexpected keyword)
  | "" => .error .emptyStatement
  | _ => .error (.unknownStatement keyword)

end Node

namespace Builder

def start : Builder :=
  ⟨[], []⟩

def push (b : Builder) (n : Node) : Builder :=
  { b with nodes := n :: b.nodes }

def enter (b : Builder) (o : Opener) : Builder :=
  ⟨⟨o, b.nodes⟩ :: b.frames, []⟩

/-- A tag that ends or continues the innermost block does so; any other is a statement. -/
def tag (b : Builder) (keyword rest : String) : Builder :=
  match b.frames, keyword with
  | ⟨.test arms test, before⟩ :: frames, "elif" =>
    ⟨⟨.test ((test, b.nodes.reverse) :: arms) rest, before⟩ :: frames, []⟩
  | ⟨.test arms test, before⟩ :: frames, "else" =>
    ⟨⟨.otherwise ((test, b.nodes.reverse) :: arms), before⟩ :: frames, []⟩
  | ⟨.test arms test, before⟩ :: frames, "endif" =>
    ⟨frames, .ofArms ((test, b.nodes.reverse) :: arms) none :: before⟩
  | ⟨.otherwise arms, before⟩ :: frames, "endif" =>
    ⟨frames, .ofArms arms (some b.nodes.reverse) :: before⟩
  | ⟨.loop header, before⟩ :: frames, "endfor" => ⟨frames, .ofLoop header b.nodes.reverse :: before⟩
  | _, "if" => if rest = "" then b.push (.error .missingTest) else b.enter (.test [] rest)
  | _, "for" => b.enter (.loop rest)
  | _, _ => b.push (.ofStatement keyword rest)

def keyword (content : List Char) : String × String :=
  (String.ofList (content.takeWhile (!isBlank ·)),
    String.ofList (trim (content.dropWhile (!isBlank ·))))

def step (b : Builder) : Segment → Builder
  | .text cs => b.push (.text (String.ofList cs))
  | .output expr source => b.push (.output (String.ofList expr) (String.ofList source))
  | .error e => b.push (.error e)
  | .tag content => b.tag (keyword content).1 (keyword content).2

def unclosed : Opener → TemplateError
  | .loop _ => .unclosedFor
  | _ => .unclosedIf

/-- The nodes at the end of the text. An open block is an error, and all inside it is lost. -/
def finish (b : Builder) : List Node :=
  match b.frames.getLast? with
  | none => b.nodes.reverse
  | some f => (.error (unclosed f.opener) :: f.before).reverse

end Builder

abbrev Template := List Node

namespace Template

def ofSegments (ss : List Segment) : Template :=
  (ss.foldl Builder.step Builder.start).finish

def parse (s : String) : Template :=
  ofSegments (Segment.scan s.toList)

mutual

def nodeErrors : Node → List TemplateError
  | .error e => [e]
  | .cond _ body arms => errors body ++ armErrors arms
  | .loop _ _ body => errors body
  | _ => []

def errors : List Node → List TemplateError
  | [] => []
  | n :: ns => nodeErrors n ++ errors ns

def armErrors : Arms → List TemplateError
  | .done => []
  | .otherwise body => errors body
  | .elif _ body arms => errors body ++ armErrors arms

end

def isPlain (t : Template) : Bool :=
  t.all fun
    | .text _ => true
    | _ => false

end Template

end Narrative
