import Narrative.Text.Blank
import Narrative.Number.Decimal

/-! Tokens of the expression language, and their reading from text. -/

namespace Narrative

inductive Symbol where
  | eqEq
  | notEq
  | le
  | ge
  | slashes
  | lparen
  | rparen
  | lbracket
  | rbracket
  | comma
  | dot
  | lt
  | gt
  | plus
  | minus
  | star
  | slash
  | percent
  | tilde
  | equals
  | colon
  deriving DecidableEq

def Symbol.chars : Symbol → List Char
  | .eqEq => ['=', '=']
  | .notEq => ['!', '=']
  | .le => ['<', '=']
  | .ge => ['>', '=']
  | .slashes => ['/', '/']
  | .lparen => ['(']
  | .rparen => [')']
  | .lbracket => ['[']
  | .rbracket => [']']
  | .comma => [',']
  | .dot => ['.']
  | .lt => ['<']
  | .gt => ['>']
  | .plus => ['+']
  | .minus => ['-']
  | .star => ['*']
  | .slash => ['/']
  | .percent => ['%']
  | .tilde => ['~']
  | .equals => ['=']
  | .colon => [':']

def Symbol.display (s : Symbol) : String :=
  String.ofList s.chars

/-- Every symbol, one that begins another after it. -/
def Symbol.all : List Symbol :=
  [.eqEq, .notEq, .le, .ge, .slashes, .lparen, .rparen, .lbracket, .rbracket, .comma,
    .dot, .lt, .gt, .plus, .minus, .star, .slash, .percent, .tilde, .equals, .colon]

theorem Symbol.chars_length_pos (s : Symbol) : 0 < s.chars.length := by
  cases s <;> decide

inductive Token where
  | int (n : Int64)
  | float (x : Float)
  | text (s : String)
  | word (s : String)
  | symbol (s : Symbol)
  deriving DecidableEq

def Token.display : Token → String
  | .int n => "number " ++ writeInt n.toInt
  | .float x => "number " ++ plainText x
  | .text s => "string '" ++ s ++ "'"
  | .word s => "'" ++ s ++ "'"
  | .symbol s => "'" ++ s.display ++ "'"

inductive ParseError where
  | unclosedText
  | strayChar (c : Char)
  | largeNumber
  | empty
  | unexpectedEnd
  | unexpected (t : Token)
  | trailing (t : Token)
  | expected (s : Symbol) (found : Option Token)
  | expectedName
  | notCallable
  deriving DecidableEq

def ParseError.message : ParseError → String
  | .unclosedText => "syntax error: unterminated string literal"
  | .strayChar c => "syntax error: unexpected character '" ++ c.toString ++ "'"
  | .largeNumber => "integer overflow"
  | .empty => "syntax error: empty expression"
  | .unexpectedEnd => "syntax error: unexpected end of expression"
  | .unexpected t => "syntax error: unexpected " ++ t.display
  | .trailing t => "syntax error: unexpected " ++ t.display ++ " after expression"
  | .expected s none => "syntax error: expected '" ++ s.display ++ "' before end of expression"
  | .expected s (some t) =>
    "syntax error: expected '" ++ s.display ++ "', found " ++ t.display
  | .expectedName => "syntax error: expected attribute name after '.'"
  | .notCallable => "syntax error: only named functions can be called"

/-- The words that are no names. -/
def keywords : List String :=
  ["and", "or", "not", "in", "if", "else", "true", "false", "none", "True", "False", "None"]

def isKeyword (s : String) : Bool :=
  keywords.contains s

def startsName (c : Char) : Bool :=
  c.isAlpha || c = '_'

def continuesName (c : Char) : Bool :=
  c.isAlphanum || c = '_'

/-- Whether a text is an ASCII letter or underscore and then such characters and digits. -/
def isIdentifier (s : String) : Bool :=
  match s.toList with
  | [] => false
  | c :: cs => startsName c && cs.all continuesName

def isName (s : String) : Bool :=
  isIdentifier s && !isKeyword s

namespace Token

def unescape : Char → Char
  | 'n' => '\n'
  | 't' => '\t'
  | c => c

/-- The characters of a quoted text after its opening quote, and what follows the closing one. -/
def quoted (quote : Char) : List Char → Option (List Char × List Char)
  | [] => none
  | '\\' :: c :: cs => (quoted quote cs).map fun r => (unescape c :: r.1, r.2)
  | c :: cs =>
    if c = quote then some ([], cs)
    else (quoted quote cs).map fun r => (c :: r.1, r.2)

/-- The symbol at the front of a text, a longer one before a shorter. -/
def symbol? (cs : List Char) : Option (Symbol × List Char) :=
  (Symbol.all.find? fun s => s.chars.isPrefixOf cs).map fun s => (s, cs.drop s.chars.length)

def fraction? : List Char → Option (List Char × List Char)
  | '.' :: d :: cs =>
    if d.isDigit then some (d :: cs.takeWhile Char.isDigit, cs.dropWhile Char.isDigit) else none
  | _ => none

/-- A number whose whole part is given: a point continues it if a digit follows. -/
def number (whole cs : List Char) : Except ParseError (Token × List Char) :=
  match fraction? cs with
  | some (digits, rest) => .ok (.float (readFloat whole digits 0), rest)
  | none =>
    match int64? (Nat.ofDigitChars 10 whole 0) with
    | some n => .ok (.int n, cs)
    | none => .error .largeNumber

/-- The token that starts with `c`, which is not blank. -/
def next (c : Char) (cs : List Char) : Except ParseError (Token × List Char) :=
  if c.isDigit then number (c :: cs.takeWhile Char.isDigit) (cs.dropWhile Char.isDigit)
  else if startsName c then
    .ok (.word (String.ofList (c :: cs.takeWhile continuesName)), cs.dropWhile continuesName)
  else if c = '\'' || c = '"' then
    match quoted c cs with
    | some (s, rest) => .ok (.text (String.ofList s), rest)
    | none => .error .unclosedText
  else
    match symbol? (c :: cs) with
    | some (s, rest) => .ok (.symbol s, rest)
    | none => .error (.strayChar c)

theorem quoted_length {quote : Char} {cs s rest : List Char}
    (h : quoted quote cs = some (s, rest)) : rest.length < cs.length := by
  fun_induction quoted quote cs generalizing s rest with
  | case1 => simp at h
  | case2 c cs ih =>
    obtain ⟨⟨s', r'⟩, hq, hr⟩ := Option.map_eq_some_iff.mp h
    simp only [Prod.mk.injEq] at hr
    have := ih (hr.2 ▸ hq)
    simp only [List.length_cons]
    omega
  | case3 cs => simp_all
  | case4 c cs _ _ ih =>
    obtain ⟨⟨s', r'⟩, hq, hr⟩ := Option.map_eq_some_iff.mp h
    simp only [Prod.mk.injEq] at hr
    have := ih (hr.2 ▸ hq)
    simp only [List.length_cons]
    omega

theorem symbol?_length {cs rest : List Char} {s : Symbol} (h : symbol? cs = some (s, rest)) :
    rest.length < cs.length := by
  obtain ⟨s', hs, hr⟩ := Option.map_eq_some_iff.mp h
  simp only [Prod.mk.injEq] at hr
  have hp : s'.chars.isPrefixOf cs = true := by simpa using List.find?_some hs
  have hle := (List.isPrefixOf_iff_prefix.mp hp).length_le
  have hpos := s'.chars_length_pos
  rw [← hr.2, List.length_drop]
  omega

theorem fraction?_length {cs digits rest : List Char} (h : fraction? cs = some (digits, rest)) :
    rest.length < cs.length := by
  unfold fraction? at h
  split at h
  · next d cs =>
    split at h
    · simp only [Option.some.injEq, Prod.mk.injEq] at h
      have := (List.dropWhile_sublist Char.isDigit (l := cs)).length_le
      rw [← h.2]
      simp only [List.length_cons]
      omega
    · simp at h
  · simp at h

theorem number_length {whole cs rest : List Char} {t : Token}
    (h : number whole cs = .ok (t, rest)) : rest.length ≤ cs.length := by
  cases hf : fraction? cs with
  | some r =>
    simp only [number, hf, Except.ok.injEq, Prod.mk.injEq] at h
    have := fraction?_length hf
    rw [← h.2]
    omega
  | none =>
    cases hn : int64? (Nat.ofDigitChars 10 whole 0) with
    | some n =>
      simp only [number, hf, hn, Except.ok.injEq, Prod.mk.injEq] at h
      exact h.2 ▸ Nat.le_refl _
    | none => simp [number, hf, hn] at h

theorem next_length {c : Char} {cs rest : List Char} {t : Token}
    (h : next c cs = .ok (t, rest)) : rest.length ≤ cs.length := by
  unfold next at h
  split at h
  · exact Nat.le_trans (number_length h) (List.dropWhile_sublist _).length_le
  · split at h
    · simp only [Except.ok.injEq, Prod.mk.injEq] at h
      exact h.2 ▸ (List.dropWhile_sublist _).length_le
    · split at h
      · split at h
        · next hq =>
          simp only [Except.ok.injEq, Prod.mk.injEq] at h
          exact h.2 ▸ Nat.le_of_lt (quoted_length hq)
        · simp at h
      · split at h
        · next hs =>
          simp only [Except.ok.injEq, Prod.mk.injEq] at h
          have := symbol?_length hs
          simp only [List.length_cons] at this
          exact h.2 ▸ Nat.le_of_lt_succ this
        · simp at h

def lex : List Char → Except ParseError (List Token)
  | [] => .ok []
  | c :: cs =>
    if isBlank c then lex cs
    else
      match h : next c cs with
      | .error e => .error e
      | .ok (t, rest) =>
        have := next_length h
        match lex rest with
        | .error e => .error e
        | .ok ts => .ok (t :: ts)
termination_by cs => cs.length

end Token

end Narrative
