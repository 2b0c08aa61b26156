import Narrative.Expr.Parser

/-! The grammar of expressions, its derivations as trees of their own. A derivation tells the tokens
it stands for and the expression it means, without reference to the parser's order of work. -/

namespace Narrative

def BinaryOp.tokens : BinaryOp → List Token
  | .or => [.word "or"]
  | .and => [.word "and"]
  | .eq => [.symbol .eqEq]
  | .ne => [.symbol .notEq]
  | .lt => [.symbol .lt]
  | .le => [.symbol .le]
  | .gt => [.symbol .gt]
  | .ge => [.symbol .ge]
  | .inside => [.word "in"]
  | .outside => [.word "not", .word "in"]
  | .concat => [.symbol .tilde]
  | .add => [.symbol .plus]
  | .sub => [.symbol .minus]
  | .mul => [.symbol .star]
  | .div => [.symbol .slash]
  | .floorDiv => [.symbol .slashes]
  | .rem => [.symbol .percent]

def BinaryOp.level : BinaryOp → Parser.Level
  | .or => .or
  | .and => .and
  | .eq | .ne | .lt | .le | .gt | .ge | .inside | .outside => .compare
  | .concat => .concat
  | .add | .sub => .sum
  | .mul | .div | .floorDiv | .rem => .product

/-- The level whose chains are a level's operands, for the levels that have chains as operands. -/
def Parser.Level.tighter? : Parser.Level → Option Parser.Level
  | .or => some .and
  | .compare => some .concat
  | .concat => some .sum
  | .sum => some .product
  | .and | .product => none

def constants : List (String × Value) :=
  [("true", .bool true), ("True", .bool true), ("false", .bool false), ("False", .bool false),
    ("none", .none), ("None", .none)]

theorem mem_constants_iff {s : String} {v : Value} :
    (s, v) ∈ constants ↔ literalWord? s = some v := by
  constructor
  · intro h
    simp only [constants, List.mem_cons, Prod.mk.injEq, List.not_mem_nil, or_false] at h
    rcases h with ⟨rfl, rfl⟩ | ⟨rfl, rfl⟩ | ⟨rfl, rfl⟩ | ⟨rfl, rfl⟩ | ⟨rfl, rfl⟩ | ⟨rfl, rfl⟩ <;>
      rfl
  · intro h
    unfold literalWord? at h
    split at h <;> cases h <;> simp [constants]

theorem literalWord?_eq_none {s : String} (h : s ∉ keywords) : literalWord? s = none := by
  unfold literalWord?
  split <;> first | rfl | exact absurd (by decide) h

theorem not_mem_constants {s : String} {v : Value} (h : s ∉ keywords) : (s, v) ∉ constants := by
  rw [mem_constants_iff, literalWord?_eq_none h]
  exact nofun

/-- The kinds of phrase. A chain is an operand and more of the chain; `others` is what follows the
first of some arguments. -/
inductive Phrase where
  | expr
  | chain (l : Parser.Level)
  | more (l : Parser.Level)
  | operand (l : Parser.Level)
  | negation
  | unary
  | primary
  | trail
  | args
  | others

inductive Derivation : Phrase → Type where
  | plain (body : Derivation (.chain .or)) : Derivation .expr
  | when (body test : Derivation (.chain .or)) : Derivation .expr
  | choose (body test : Derivation (.chain .or)) (otherwise : Derivation .expr) : Derivation .expr
  | chain {l : Parser.Level} (first : Derivation (.operand l)) (more : Derivation (.more l)) :
      Derivation (.chain l)
  | stop {l : Parser.Level} : Derivation (.more l)
  | step {l : Parser.Level} (op : BinaryOp) (h : op.level = l) (right : Derivation (.operand l))
      (more : Derivation (.more l)) : Derivation (.more l)
  | tighter {l l' : Parser.Level} (h : l.tighter? = some l') (d : Derivation (.chain l')) :
      Derivation (.operand l)
  | negated (d : Derivation .negation) : Derivation (.operand .and)
  | signed (d : Derivation .unary) : Derivation (.operand .product)
  | not (d : Derivation .negation) : Derivation .negation
  | compare (d : Derivation (.chain .compare)) : Derivation .negation
  | neg (d : Derivation .unary) : Derivation .unary
  | trailed (target : Derivation .primary) (trail : Derivation .trail) : Derivation .unary
  | bare : Derivation .trail
  | attr (s : String) (trail : Derivation .trail) : Derivation .trail
  | item (n : Int64) (trail : Derivation .trail) : Derivation .trail
  | key (d : Derivation .expr) (trail : Derivation .trail) : Derivation .trail
  | call (args : Derivation .args) (trail : Derivation .trail) : Derivation .trail
  | int (n : Int64) : Derivation .primary
  | float (x : Float) : Derivation .primary
  | text (s : String) : Derivation .primary
  | constant (s : String) (v : Value) (h : (s, v) ∈ constants) : Derivation .primary
  | var (s : String) (h : s ∉ keywords) : Derivation .primary
  | group (d : Derivation .expr) : Derivation .primary
  | list (items : Derivation .args) : Derivation .primary
  | empty : Derivation .args
  | listed (first : Derivation .expr) (others : Derivation .others) : Derivation .args
  | done (comma : Bool) : Derivation .others
  | next (d : Derivation .expr) (others : Derivation .others) : Derivation .others

/-- What a phrase means. A tail of a chain and what trails a tree take the tree so far. -/
@[reducible] def Phrase.Meaning : Phrase → Type
  | .more _ | .trail => Expr → Expr
  | .args | .others => List Expr
  | .expr | .chain _ | .operand _ | .negation | .unary | .primary => Expr

/-- What a phrase must meet. What trails a tree is held to the tree so far. -/
@[reducible] def Phrase.Condition : Phrase → Type
  | .trail => Expr → Prop
  | _ => Prop

namespace Derivation

def tokens {p : Phrase} : Derivation p → List Token
  | .plain body => body.tokens
  | .when body test => body.tokens ++ .word "if" :: test.tokens
  | .choose body test otherwise =>
    body.tokens ++ .word "if" :: (test.tokens ++ .word "else" :: otherwise.tokens)
  | .chain first more => first.tokens ++ more.tokens
  | .stop => []
  | .step op _ right more => op.tokens ++ (right.tokens ++ more.tokens)
  | .tighter _ d => d.tokens
  | .negated d => d.tokens
  | .signed d => d.tokens
  | .not d => .word "not" :: d.tokens
  | .compare d => d.tokens
  | .neg d => .symbol .minus :: d.tokens
  | .trailed target trail => target.tokens ++ trail.tokens
  | .bare => []
  | .attr s trail => .symbol .dot :: .word s :: trail.tokens
  | .item n trail => .symbol .dot :: .int n :: trail.tokens
  | .key d trail => .symbol .lbracket :: (d.tokens ++ .symbol .rbracket :: trail.tokens)
  | .call args trail => .symbol .lparen :: (args.tokens ++ .symbol .rparen :: trail.tokens)
  | .int n => [.int n]
  | .float x => [.float x]
  | .text s => [.text s]
  | .constant s _ _ => [.word s]
  | .var s _ => [.word s]
  | .group d => .symbol .lparen :: (d.tokens ++ [.symbol .rparen])
  | .list items => .symbol .lbracket :: (items.tokens ++ [.symbol .rbracket])
  | .empty => []
  | .listed first others => first.tokens ++ others.tokens
  | .done comma => if comma then [.symbol .comma] else []
  | .next d others => .symbol .comma :: (d.tokens ++ others.tokens)

def value {p : Phrase} : Derivation p → p.Meaning
  | .plain body => body.value
  | .when body test => .when body.value test.value
  | .choose body test otherwise => .choose body.value test.value otherwise.value
  | .chain first more => more.value first.value
  | .stop => fun e => e
  | .step op _ right more => fun e => more.value (.binary op e right.value)
  | .tighter _ d => d.value
  | .negated d => d.value
  | .signed d => d.value
  | .not d => .unary .not d.value
  | .compare d => d.value
  | .neg d => Parser.negate d.value
  | .trailed target trail => trail.value target.value
  | .bare => fun e => e
  | .attr s trail => fun e => trail.value (.attr e s)
  | .item n trail => fun e => trail.value (.index e (.lit (.int n)))
  | .key d trail => fun e => trail.value (.index e d.value)
  | .call args trail => fun
    | .var s => trail.value (.call s args.value)
    | e => e
  | .int n => .lit (.int n)
  | .float x => .lit (.float x)
  | .text s => .lit (.text s)
  | .constant _ v _ => .lit v
  | .var s _ => .var s
  | .group d => d.value
  | .list items => .list items.value
  | .empty => []
  | .listed first others => first.value :: others.value
  | .done _ => []
  | .next d others => d.value :: others.value

/-- Arguments stand only after a tree that is a variable. -/
def Legal {p : Phrase} : Derivation p → p.Condition
  | .plain body => body.Legal
  | .when body test => body.Legal ∧ test.Legal
  | .choose body test otherwise => body.Legal ∧ test.Legal ∧ otherwise.Legal
  | .chain first more => first.Legal ∧ more.Legal
  | .stop => True
  | .step _ _ right more => right.Legal ∧ more.Legal
  | .tighter _ d => d.Legal
  | .negated d => d.Legal
  | .signed d => d.Legal
  | .not d => d.Legal
  | .compare d => d.Legal
  | .neg d => d.Legal
  | .trailed target trail => target.Legal ∧ trail.Legal target.value
  | .bare => fun _ => True
  | .attr s trail => fun e => trail.Legal (.attr e s)
  | .item n trail => fun e => trail.Legal (.index e (.lit (.int n)))
  | .key d trail => fun e => d.Legal ∧ trail.Legal (.index e d.value)
  | .call args trail => fun e => ∃ s, e = .var s ∧ args.Legal ∧ trail.Legal (.call s args.value)
  | .int _ | .float _ | .text _ | .constant _ _ _ | .var _ _ | .empty | .done _ => True
  | .group d => d.Legal
  | .list items => items.Legal
  | .listed first others => first.Legal ∧ others.Legal
  | .next d others => d.Legal ∧ others.Legal

/-- An expression that is one tree with its sign and what trails it. -/
def ofUnary (d : Derivation .unary) : Derivation .expr :=
  .plain (.chain (.tighter rfl (.chain (.negated (.compare (.chain (.tighter rfl
    (.chain (.tighter rfl (.chain (.tighter rfl (.chain (.signed d) .stop)) .stop)) .stop)) .stop))) .stop)) .stop)

@[simp] theorem tokens_ofUnary (d : Derivation .unary) : d.ofUnary.tokens = d.tokens := by
  simp [ofUnary, tokens]

@[simp] theorem value_ofUnary (d : Derivation .unary) : d.ofUnary.value = d.value :=
  rfl

@[simp] theorem legal_ofUnary (d : Derivation .unary) : d.ofUnary.Legal ↔ d.Legal := by
  simp [ofUnary, Legal]

end Derivation

end Narrative
