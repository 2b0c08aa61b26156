import Narrative.Json

/-! Documents as JSON text, on one line or indented. -/

namespace Narrative.Json

def hexDigit (n : Nat) : Char :=
  Nat.digitChar (n % 16)

/-- A character inside quotes: the quote, the backslash and the control characters are escaped. -/
def escape (c : Char) : List Char :=
  if c = '"' then ['\\', '"']
  else if c = '\\' then ['\\', '\\']
  else if c = '\n' then ['\\', 'n']
  else if c = '\r' then ['\\', 'r']
  else if c = '\t' then ['\\', 't']
  else if c = '\x08' then ['\\', 'b']
  else if c = '\x0c' then ['\\', 'f']
  else if c.toNat < 0x20 then
    ['\\', 'u', '0', '0', hexDigit (c.toNat / 16), hexDigit (c.toNat % 16)]
  else [c]

def quote (s : String) : String :=
  String.ofList ('"' :: s.toList.flatMap escape ++ ['"'])

def scalar : Json → String
  | .bool true => "true"
  | .bool false => "false"
  | .int n => writeInt n
  | .float x => if x.isFinite then scientificText x else "null"
  | .text s => quote s
  | _ => "null"

mutual

def compact : Json → String
  | .list items => "[" ++ compactItems items ++ "]"
  | .table fields => "\x7b" ++ compactFields fields ++ "\x7d"
  | d => d.scalar

def compactItems : List Json → String
  | [] => ""
  | [d] => d.compact
  | d :: ds => d.compact ++ "," ++ compactItems ds

def compactFields : List (String × Json) → String
  | [] => ""
  | [(k, d)] => quote k ++ ":" ++ d.compact
  | (k, d) :: fs => quote k ++ ":" ++ d.compact ++ "," ++ compactFields fs

end

/-- A line end and the blanks of a nesting depth, two for each level. -/
def newline (depth : Nat) : String :=
  String.ofList ('\n' :: List.replicate (2 * depth) ' ')

mutual

/-- One item or field a line, inside `depth` levels. -/
def indented (depth : Nat) : Json → String
  | .list [] => "[]"
  | .list items => "[" ++ indentedItems (depth + 1) items ++ newline depth ++ "]"
  | .table [] => "\x7b\x7d"
  | .table fields => "\x7b" ++ indentedFields (depth + 1) fields ++ newline depth ++ "\x7d"
  | d => d.scalar

def indentedItems (depth : Nat) : List Json → String
  | [] => ""
  | [d] => newline depth ++ d.indented depth
  | d :: ds => newline depth ++ d.indented depth ++ "," ++ indentedItems depth ds

def indentedFields (depth : Nat) : List (String × Json) → String
  | [] => ""
  | [(k, d)] => newline depth ++ quote k ++ ": " ++ d.indented depth
  | (k, d) :: fs =>
    newline depth ++ quote k ++ ": " ++ d.indented depth ++ "," ++ indentedFields depth fs

end

def pretty (d : Json) : String :=
  d.indented 0

end Narrative.Json
