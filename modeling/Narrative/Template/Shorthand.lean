import Narrative.Expr.Token
import Narrative.Flag
import Narrative.Template.Region

/-! Shorthand calls: `verb word word` for `verb(word, word)`. Words are data and never evaluated. -/

namespace Narrative.Shorthand

/-- Where a character of a text stands with respect to quotations. -/
inductive Quotation where
  | outside
  | inside (quote : Char)
  | escaped (quote : Char)
  deriving DecidableEq

def Quotation.step (c : Char) : Quotation → Quotation
  | .outside => if isQuote c then .inside c else .outside
  | .inside q => if c = '\\' then .escaped q else if c = q then .outside else .inside q
  | .escaped q => .inside q

/-- The words of a text that goes on after `word`, which is held backwards. -/
def wordsFrom (word : List Char) (quotation : Quotation) : List Char → List (List Char)
  | [] => if word.isEmpty then [] else [word.reverse]
  | c :: cs =>
    if quotation = .outside && isBlank c then
      if word.isEmpty then wordsFrom [] .outside cs else word.reverse :: wordsFrom [] .outside cs
    else wordsFrom (c :: word) (quotation.step c) cs

/-- The words of a text, which blanks outside quotations part. The quotes stay in their words. -/
def words (s : String) : List String :=
  (wordsFrom [] .outside s.toList).map String.ofList

/-- Whether a word is digits with an optional sign before them and at most one point among them. -/
def isNumeric (w : List Char) : Bool :=
  let ds := if w.head? = some '-' then w.tail else w
  ds.all (fun c => c.isDigit || c = '.') && ds.any Char.isDigit && ds.count '.' ≤ 1
    && ds.head? ≠ some '.' && ds.getLast? ≠ some '.'

def escape (c : Char) : List Char :=
  if c = '\\' then ['\\', '\\'] else if c = '\'' then ['\\', '\''] else [c]

def literal (w : String) : String :=
  if isNumeric w.toList then w
  else if w.toList.head?.any isQuote then w
  else if Flag.sameLetters w "true" then "true"
  else if Flag.sameLetters w "false" then "false"
  else String.ofList ('\'' :: w.toList.flatMap escape ++ ['\''])

/-- The call that a text is shorthand for, if its first word is a verb and the second does not open
an argument list. -/
def call? (isVerb : String → Bool) (s : String) : Option String :=
  match words s with
  | [] => none
  | head :: args =>
    if !isVerb head || (args.head?.any fun w => w.toList.head? = some '(') then none
    else some (head ++ "(" ++ joinWith ", " (args.map literal) ++ ")")

def isOperator (w : String) : Bool :=
  ["+", "-", "*", "/", "//", "%", "~", "==", "!=", "<", "<=", ">", ">="].contains w

/-- Whether a text has the form of shorthand, of any verb: a name and at least one word, none of
them a keyword or an operator. -/
def hasForm (s : String) : Bool :=
  match words s with
  | [] => false
  | head :: args =>
    isName head && !args.isEmpty && !(args.head?.any fun w => w.toList.head? = some '(')
      && !args.any fun w => isKeyword w || isOperator w

end Narrative.Shorthand
