import Narrative.Proofs.Template.Region

/-! Printing templates, and what is asked of a template that is printed: that its texts have no
openers in them, its expressions are trimmed and read as tokens, and its names are names. -/

namespace Narrative

namespace Template

def outputText (expr : String) : String :=
  "\x7b\x7b " ++ expr ++ " \x7d\x7d"

def tagText (content : String) : String :=
  "\x7b% " ++ content ++ " %\x7d"

def statementText (keyword rest : String) : String :=
  tagText (keyword ++ " " ++ rest)

mutual

def printNode : Node → String
  | .text s => s
  | .output expr _ => outputText expr
  | .cond test body arms => statementText "if" test ++ print body ++ printArms arms
  | .loop var iterable body =>
    statementText "for" (var ++ " in " ++ iterable) ++ print body ++ tagText "endfor"
  | .assign name expr => statementText "set" (name ++ " = " ++ expr)
  | .run expr => statementText "do" expr
  | .error _ => ""

def print : List Node → String
  | [] => ""
  | n :: ns => printNode n ++ print ns

def printArms : Arms → String
  | .done => tagText "endif"
  | .otherwise body => tagText "else" ++ print body ++ tagText "endif"
  | .elif test body arms => statementText "elif" test ++ print body ++ printArms arms

end

/-- An expression as it stands in a region: without blanks around it, and it reads as tokens. -/
structure IsExpr (expr : String) : Prop where
  ne_empty : expr ≠ ""
  trimmed : trim expr.toList = expr.toList
  lexes : ∃ ts, Token.lex expr.toList = .ok ts

def isText : Node → Bool
  | .text _ => true
  | _ => false

mutual

/-- Whether a node can be printed so that it reads as itself. -/
def IsPrintable : Node → Prop
  | .text s => IsLiteral s.toList
  | .output expr source => IsExpr expr ∧ source = outputText expr
  | .cond test body arms => IsExpr test ∧ ArePrintable body ∧ ArmsPrintable arms
  | .loop var iterable body => isName var = true ∧ IsExpr iterable ∧ ArePrintable body
  | .assign name expr => isName name = true ∧ IsExpr expr ∧ expr.toList.head? ≠ some '='
  | .run expr => IsExpr expr
  | .error _ => False

/-- Whether nodes can be printed, no two texts of them side by side. -/
def ArePrintable : List Node → Prop
  | [] => True
  | n :: ns => IsPrintable n ∧ ¬ (isText n ∧ ns.head?.any isText) ∧ ArePrintable ns

def ArmsPrintable : Arms → Prop
  | .done => True
  | .otherwise body => ArePrintable body
  | .elif test body arms => IsExpr test ∧ ArePrintable body ∧ ArmsPrintable arms

end

end Template

end Narrative
