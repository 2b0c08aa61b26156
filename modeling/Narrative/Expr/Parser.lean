import Narrative.Expr
import Narrative.Expr.Token

/-! The expression grammar as a parser over tokens. Every level takes a tree off the front of the
tokens and leaves fewer of them. -/

namespace Narrative

def literalWord? : String → Option Value
  | "true" | "True" => some (.bool true)
  | "false" | "False" => some (.bool false)
  | "none" | "None" => some .none
  | _ => none

def Token.literal? : Token → Option Value
  | .int n => some (.int n)
  | .float x => some (.float x)
  | .text s => some (.text s)
  | .word s => literalWord? s
  | .symbol _ => none

/-- What a token after a point selects from a value. -/
def Token.member? (e : Expr) : Token → Option Expr
  | .word name => some (.attr e name)
  | .int n => some (.index e (.lit (.int n)))
  | .float _ | .text _ | .symbol _ => none

namespace Parser

/-- A result read off the front of fewer than `n` tokens being left. -/
structure Parsed (n : Nat) (α : Type) where
  value : α
  rest : List Token
  short : rest.length < n

/-- The levels at which operators associate to the left, the loosest first. -/
inductive Level where
  | or
  | and
  | compare
  | concat
  | sum
  | product
  deriving DecidableEq

@[simp] def Level.rank : Level → Nat
  | .product => 2
  | .sum => 3
  | .concat => 4
  | .compare => 5
  | .and => 7
  | .or => 8

theorem Level.rank_le (l : Level) : l.rank ≤ 8 := by
  cases l <;> decide

def Level.operator? : Level → List Token → Option (BinaryOp × List Token)
  | .or, .word "or" :: ts => some (.or, ts)
  | .and, .word "and" :: ts => some (.and, ts)
  | .compare, .symbol .eqEq :: ts => some (.eq, ts)
  | .compare, .symbol .notEq :: ts => some (.ne, ts)
  | .compare, .symbol .lt :: ts => some (.lt, ts)
  | .compare, .symbol .le :: ts => some (.le, ts)
  | .compare, .symbol .gt :: ts => some (.gt, ts)
  | .compare, .symbol .ge :: ts => some (.ge, ts)
  | .compare, .word "in" :: ts => some (.inside, ts)
  | .compare, .word "not" :: .word "in" :: ts => some (.outside, ts)
  | .concat, .symbol .tilde :: ts => some (.concat, ts)
  | .sum, .symbol .plus :: ts => some (.add, ts)
  | .sum, .symbol .minus :: ts => some (.sub, ts)
  | .product, .symbol .star :: ts => some (.mul, ts)
  | .product, .symbol .slash :: ts => some (.div, ts)
  | .product, .symbol .slashes :: ts => some (.floorDiv, ts)
  | .product, .symbol .percent :: ts => some (.rem, ts)
  | _, _ => none

theorem Level.operator?_short {l : Level} {op : BinaryOp} {ts rest : List Token}
    (h : l.operator? ts = some (op, rest)) : rest.length < ts.length := by
  unfold Level.operator? at h
  split at h <;> cases h <;> simp only [List.length_cons] <;> omega

/-- A negated tree. A number literal takes the sign into itself. -/
def negate : Expr → Expr
  | .lit (.int n) => .lit (.int (-n))
  | .lit (.float x) => .lit (.float (-x))
  | e => .unary .neg e

mutual

def expr (ts : List Token) : Except ParseError (Parsed ts.length Expr) := do
  let ⟨body, rest, hb⟩ ← chain .or ts
  match rest, hb with
  | [], hb => return ⟨body, [], hb⟩
  | t :: afterIf, hb =>
    have hi := Nat.lt_of_succ_lt hb
    if t = .word "if" then
      let ⟨test, rest, ht⟩ ← chain .or afterIf
      match rest, ht with
      | [], ht => return ⟨.when body test, [], by omega⟩
      | t :: afterElse, ht =>
        have he := Nat.lt_of_succ_lt ht
        if t = .word "else" then
          let ⟨otherwise, rest, ho⟩ ← expr afterElse
          return ⟨.choose body test otherwise, rest, by omega⟩
        else return ⟨.when body test, t :: afterElse, by omega⟩
    else return ⟨body, t :: afterIf, hb⟩
termination_by 20 * ts.length + 18
decreasing_by all_goals (try simp only [Level.rank] at *); omega

def chain (l : Level) (ts : List Token) : Except ParseError (Parsed ts.length Expr) := do
  let ⟨first, rest, hf⟩ ← operand l ts
  let ⟨all, rest, ha⟩ ← chainRest l first rest
  return ⟨all, rest, by omega⟩
termination_by 20 * ts.length + (2 * l.rank + 1)
decreasing_by all_goals (try simp only [Level.rank] at *); omega

def chainRest (l : Level) (left : Expr) (ts : List Token) :
    Except ParseError (Parsed (ts.length + 1) Expr) :=
  match h : l.operator? ts with
  | none => .ok ⟨left, ts, by omega⟩
  | some (op, afterOp) => do
    have ho := Level.operator?_short h
    have hl := l.rank_le
    let ⟨right, rest, hr⟩ ← operand l afterOp
    let ⟨all, rest, ha⟩ ← chainRest l (.binary op left right) rest
    return ⟨all, rest, by omega⟩
termination_by 20 * ts.length
decreasing_by all_goals omega

def operand (l : Level) (ts : List Token) : Except ParseError (Parsed ts.length Expr) :=
  match l with
  | .or => chain .and ts
  | .and => negation ts
  | .compare => chain .concat ts
  | .concat => chain .sum ts
  | .sum => chain .product ts
  | .product => unary ts
termination_by 20 * ts.length + 2 * l.rank
decreasing_by all_goals (try simp only [Level.rank] at *); omega

def negation (ts : List Token) : Except ParseError (Parsed ts.length Expr) :=
  match ts with
  | [] => .error .unexpectedEnd
  | t :: rest =>
    if t = .word "not" then do
      let ⟨inner, rest, hi⟩ ← negation rest
      return ⟨.unary .not inner, rest, Nat.lt_succ_of_lt hi⟩
    else chain .compare (t :: rest)
termination_by 20 * ts.length + 12
decreasing_by all_goals (try simp only [List.length_cons, Level.rank] at *); omega

def unary (ts : List Token) : Except ParseError (Parsed ts.length Expr) :=
  match ts with
  | .symbol .minus :: rest => do
    let ⟨inner, rest, hi⟩ ← unary rest
    return ⟨negate inner, rest, Nat.lt_succ_of_lt hi⟩
  | ts => do
    let ⟨target, rest, ht⟩ ← primary ts
    let ⟨all, rest, ha⟩ ← trail target rest
    return ⟨all, rest, by omega⟩
termination_by 20 * ts.length + 2
decreasing_by all_goals (try simp only [List.length_cons] at *); omega

/-- The attributes, keys and arguments after a tree. -/
def trail (e : Expr) (ts : List Token) : Except ParseError (Parsed (ts.length + 1) Expr) :=
  match ts with
  | [.symbol .dot] => .error .expectedName
  | .symbol .dot :: t :: rest =>
    match t.member? e with
    | some inner => do
      let ⟨all, rest, ha⟩ ← trail inner rest
      return ⟨all, rest, by simp only [List.length_cons]; omega⟩
    | none => .error .expectedName
  | .symbol .lbracket :: rest => do
    let ⟨key, rest, hk⟩ ← expr rest
    match rest, hk with
    | .symbol .rbracket :: rest, hk =>
      have hr := Nat.lt_of_succ_lt hk
      let ⟨all, rest, ha⟩ ← trail (.index e key) rest
      return ⟨all, rest, by simp only [List.length_cons]; omega⟩
    | rest, _ => .error (.expected .rbracket rest.head?)
  | .symbol .lparen :: rest =>
    match e with
    | .var name => do
      let ⟨args, rest, hi⟩ ← items .rparen rest
      let ⟨all, rest, ha⟩ ← trail (.call name args) rest
      return ⟨all, rest, by simp only [List.length_cons]; omega⟩
    | _ => .error .notCallable
  | ts => .ok ⟨e, ts, by omega⟩
termination_by 20 * ts.length + 1
decreasing_by all_goals (try simp only [List.length_cons] at *); omega

/-- Trees with commas between them, up to a closing symbol; a comma may stand before it. -/
def items (close : Symbol) (ts : List Token) : Except ParseError (Parsed ts.length (List Expr)) :=
  match ts with
  | [] => .error .unexpectedEnd
  | t :: after =>
    if t = .symbol close then .ok ⟨[], after, by simp⟩
    else do
      let ⟨first, rest, hf⟩ ← expr (t :: after)
      match rest, hf with
      | [], _ => .error (.expected close none)
      | next :: rest, hf =>
        have hr := Nat.lt_of_succ_lt hf
        have hs : rest.length ≤ after.length := Nat.le_of_lt_succ hr
        if next = .symbol .comma then
          let ⟨others, rest, ho⟩ ← items close rest
          return ⟨first :: others, rest, by omega⟩
        else if next = .symbol close then return ⟨[first], rest, hr⟩
        else .error (.expected close (some next))
termination_by 20 * ts.length + 19
decreasing_by all_goals (try simp only [List.length_cons] at *); omega

def primary (ts : List Token) : Except ParseError (Parsed ts.length Expr) :=
  match ts with
  | [] => .error .unexpectedEnd
  | t :: rest =>
    match t.literal?, t with
    | some v, _ => .ok ⟨.lit v, rest, by simp⟩
    | none, .word s =>
      if isKeyword s then .error (.unexpected (.word s)) else .ok ⟨.var s, rest, by simp⟩
    | none, .symbol .lparen => do
      let ⟨inner, rest, hi⟩ ← expr rest
      match rest, hi with
      | .symbol .rparen :: rest, hi =>
        return ⟨inner, rest, Nat.lt_succ_of_lt (Nat.lt_of_succ_lt hi)⟩
      | rest, _ => .error (.expected .rparen rest.head?)
    | none, .symbol .lbracket => do
      let ⟨all, rest, ha⟩ ← items .rbracket rest
      return ⟨.list all, rest, Nat.lt_succ_of_lt ha⟩
    | none, t => .error (.unexpected t)
termination_by 20 * ts.length + 0
decreasing_by all_goals (try simp only [List.length_cons] at *); omega

end

end Parser

/-- The tree that tokens stand for, all of them being used. -/
def Expr.ofTokens (ts : List Token) : Except ParseError Expr :=
  match ts with
  | [] => .error .empty
  | ts => do
    let e ← Parser.expr ts
    match e.rest with
    | [] => return e.value
    | t :: _ => .error (.trailing t)

def Expr.parse (s : String) : Except ParseError Expr := do
  let ts ← Token.lex s.toList
  Expr.ofTokens ts

end Narrative
