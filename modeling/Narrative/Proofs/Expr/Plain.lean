import Narrative.Proofs.Course.Eval
import Narrative.Proofs.Expr.Parse
import Narrative.Proofs.Number.Digits
import Narrative.Proofs.Shorthand.Call

/-! Plain values and their literals. A literal is read as one tree, whose value is the one that it
was written for. -/

namespace Narrative

open Token

inductive Quote where
  | single
  | double
  deriving DecidableEq

namespace Quote

def char : Quote → Char
  | single => '\''
  | double => '"'

def escape (q : Quote) (c : Char) : List Char :=
  if c = '\\' ∨ c = q.char then ['\\', c] else [c]

theorem written_escape (q : Quote) (cs : List Char) : Written q.char (cs.flatMap q.escape) cs := by
  induction cs with
  | nil => exact .nil
  | cons c cs ih =>
    rw [List.flatMap_cons, escape]
    by_cases h : c = '\\' ∨ c = q.char
    · have hc : unescape c = c := by
        rcases h with rfl | rfl
        · rfl
        · cases q <;> rfl
      have hw := Written.escaped (c := c) ih
      rw [hc] at hw
      rwa [if_pos h]
    · rw [if_neg h]
      exact .plain (fun hb => h (.inl hb)) (fun hq => h (.inr hq)) ih

end Quote

/-- A value that has a literal. The least word has none: its digits stand for a number that is too
large, whatever sign is before them. -/
inductive Plain where
  | none
  | bool (b : Bool)
  | int (n : Int64) (h : leastWord < n.toInt)
  | text (s : String)
  | list (items : List Plain)

namespace Plain

mutual

def value : Plain → Value
  | .none => .none
  | .bool b => .bool b
  | .int n _ => .int n
  | .text s => .text s
  | .list items => .list (values items)

def values : List Plain → List Value
  | [] => []
  | p :: ps => p.value :: values ps

end

mutual

def literal (q : Quote) : Plain → String
  | .none => "none"
  | .bool b => Flag.writeBool b
  | .int n _ => writeInt n.toInt
  | .text s => String.ofList (q.char :: s.toList.flatMap q.escape ++ [q.char])
  | .list items => "[" ++ joinWith ", " (literals q items) ++ "]"

def literals (q : Quote) : List Plain → List String
  | [] => []
  | p :: ps => p.literal q :: literals q ps

end

mutual

/-- The tree of a literal. A list of literals is no literal itself. -/
def expr : Plain → Expr
  | .list items => .list (exprs items)
  | .none => .lit .none
  | .bool b => .lit (.bool b)
  | .int n _ => .lit (.int n)
  | .text s => .lit (.text s)

def exprs : List Plain → List Expr
  | [] => []
  | p :: ps => p.expr :: exprs ps

end

mutual

theorem eval_expr (p : Plain) (env : Env) (scopes : List Scope) (s : Scene) :
    (env.eval scopes p.expr).run s = (.ok p.value, s) := by
  cases p with
  | none | bool | int | text =>
    rw [expr, Env.eval]
    rfl
  | list items =>
    rw [expr, Env.eval, Eval.run_bind, evalAll_exprs items]
    rfl

theorem evalAll_exprs (ps : List Plain) (env : Env) (scopes : List Scope) (s : Scene) :
    (env.evalAll scopes (exprs ps)).run s = (.ok (values ps), s) := by
  cases ps with
  | nil =>
    rw [exprs, Env.evalAll]
    rfl
  | cons p ps =>
    rw [exprs, Env.evalAll, Eval.run_bind, eval_expr p]
    change (env.evalAll scopes (exprs ps) >>= fun vs => pure (p.value :: vs)).run s = _
    rw [Eval.run_bind, evalAll_exprs ps]
    rfl

end

/-- Whatever ends a token comes after it, the text is read as a tree. -/
def ReadAs (cs : List Char) (e : Expr) : Prop :=
  ∃ d : Derivation .unary, d.Legal ∧ d.value = e ∧
    ∀ rest, EndsToken rest → lex (cs ++ rest) = ahead d.tokens (lex rest)

theorem ReadAs.primary {cs : List Char} {d : Derivation .primary} (hd : d.Legal)
    (h : ∀ rest, EndsToken rest → lex (cs ++ rest) = ahead d.tokens (lex rest)) :
      ReadAs cs d.value := by
  have ht : (Derivation.trailed d .bare).tokens = d.tokens := by simp [Derivation.tokens]
  exact ⟨.trailed d .bare, And.intro hd trivial, rfl, fun rest hr => by rw [ht, h rest hr]⟩

theorem readAs_word {w : String} {v : Value} (hw : isIdentifier w = true)
    (hv : (w, v) ∈ constants) : ReadAs w.toList (.lit v) :=
  .primary (d := .constant w v hv) trivial fun _ hr => lex_name hw hr.not_name

theorem readAs_int {n : Int64} (h : leastWord < n.toInt) :
    ReadAs (writeInt n.toInt).toList (.lit (.int n)) := by
  -- The digits are read before the sign, so they have to fit on their own.
  have hfit : (n.toInt.natAbs : Int) ≤ greatestWord := by
    have hu := n.toInt_lt
    unfold leastWord at h
    unfold greatestWord
    omega
  have hread : int64? (Nat.ofDigitChars 10 (Nat.toDigits 10 n.toInt.natAbs) 0) =
      some (Int64.ofInt n.toInt.natAbs) := by
    rw [Nat.ofDigitChars_ten_toDigits]
    exact Shorthand.int64?_ofDigits hfit
  let p : Derivation .primary := .int (Int64.ofInt n.toInt.natAbs)
  refine ⟨Shorthand.signTree (decide (n.toInt < 0)) p, Shorthand.signTree_legal trivial, ?_,
    fun rest hr => ?_⟩
  · by_cases hneg : n.toInt < 0
    · have hvalue : -Int64.ofInt n.toInt.natAbs = n := by
        refine Int64.toInt_inj.mp ((Shorthand.toInt_neg_ofDigits hfit).trans ?_)
        omega
      rw [decide_eq_true hneg]
      change Expr.lit (.int (-Int64.ofInt n.toInt.natAbs)) = _
      rw [hvalue]
    · have hvalue : Int64.ofInt n.toInt.natAbs = n := by
        refine Int64.toInt_inj.mp ((Shorthand.toInt_ofDigits hfit).trans ?_)
        omega
      rw [decide_eq_false hneg]
      change Expr.lit (.int (Int64.ofInt n.toInt.natAbs)) = _
      rw [hvalue]
  · have htext : (writeInt n.toInt).toList =
        Shorthand.signed (decide (n.toInt < 0)) (Nat.toDigits 10 n.toInt.natAbs) := by
      rw [toList_writeInt]
      by_cases hneg : n.toInt < 0 <;> simp [Shorthand.signed, hneg]
    rw [htext]
    exact Shorthand.lex_signed (lex_int (digits_toDigits _) hr hread)

theorem readAs_text (q : Quote) (s : String) :
    ReadAs (q.char :: s.toList.flatMap q.escape ++ [q.char]) (.lit (.text s)) := by
  refine .primary (d := .text s) trivial fun rest _ => ?_
  have hq : q.char = '\'' ∨ q.char = '"' := by
    cases q
    · exact .inl rfl
    · exact .inr rfl
  have h : lex (q.char :: (s.toList.flatMap q.escape ++ q.char :: rest)) = _ :=
    lex_quoted hq (q.written_escape s.toList)
  rw [String.ofList_toList] at h
  rw [List.cons_append, List.cons_append, List.append_assoc]
  exact h

theorem lex_lbracket {cs : List Char} : lex ('[' :: cs) = ahead [.symbol .lbracket] (lex cs) :=
  lex_next (by decide) rfl

theorem lex_rbracket {cs : List Char} : lex (']' :: cs) = ahead [.symbol .rbracket] (lex cs) :=
  lex_next (by decide) rfl

def furtherText (q : Quote) (ps : List Plain) : List Char :=
  (literals q ps).flatMap fun t => ", ".toList ++ t.toList

theorem furtherText_cons (q : Quote) (p : Plain) (ps : List Plain) :
    furtherText q (p :: ps) = ',' :: ' ' :: ((p.literal q).toList ++ furtherText q ps) :=
  rfl

theorem endsToken_further (q : Quote) (ps : List Plain) (rest : List Char) :
    EndsToken (furtherText q ps ++ ']' :: rest) := by
  cases ps with
  | nil => exact .cons (by decide) rest
  | cons p ps => exact .cons (by decide) _

mutual

theorem readAs_literal (q : Quote) (p : Plain) : ReadAs (p.literal q).toList p.expr := by
  cases p with
  | none => exact readAs_word (w := "none") (by decide) (by simp [constants])
  | bool b =>
    exact readAs_word (w := Flag.writeBool b) (by cases b <;> decide)
      (Shorthand.writeBool_mem_constants b)
  | int n h => exact readAs_int h
  | text s =>
    rw [literal, String.toList_ofList]
    exact readAs_text q s
  | list items =>
    obtain ⟨args, hlegal, hvalue, hlex⟩ := readAs_items q items
    rw [expr, ← hvalue]
    refine .primary (d := .list args) hlegal fun rest _ => ?_
    have htext : ((list items).literal q).toList = '[' ::
        ((joinWith ", " (literals q items)).toList ++ [']']) := by
      simp [literal]
    rw [htext, List.cons_append, List.append_assoc, lex_lbracket]
    change ahead _ (lex ((joinWith ", " (literals q items)).toList ++ ']' :: rest)) = _
    rw [hlex, lex_rbracket, ahead_ahead, ahead_ahead, Derivation.tokens]
    rfl

theorem readAs_items (q : Quote) (ps : List Plain) :
    ∃ d : Derivation .args, d.Legal ∧ d.value = exprs ps ∧ ∀ rest,
      lex ((joinWith ", " (literals q ps)).toList ++ ']' :: rest) =
        ahead d.tokens (lex (']' :: rest)) := by
  cases ps with
  | nil => exact ⟨.empty, trivial, rfl, fun rest => ahead_nil.symm⟩
  | cons p ps =>
    obtain ⟨d, hd, hdv, hdl⟩ := readAs_literal q p
    obtain ⟨others, ho, hov, hol⟩ := readAs_further q ps
    refine ⟨.listed d.ofUnary others, And.intro (d.legal_ofUnary.mpr hd) ho, ?_, fun rest => ?_⟩
    · rw [Derivation.value, d.value_ofUnary, hdv, hov, exprs]
    · rw [literals, Shorthand.toList_joinWith_cons, List.append_assoc]
      change lex ((p.literal q).toList ++ (furtherText q ps ++ ']' :: rest)) = _
      rw [hdl _ (endsToken_further q ps rest), hol, ahead_ahead, Derivation.tokens,
        d.tokens_ofUnary]

theorem readAs_further (q : Quote) (ps : List Plain) :
    ∃ d : Derivation .others, d.Legal ∧ d.value = exprs ps ∧ ∀ rest,
      lex (furtherText q ps ++ ']' :: rest) = ahead d.tokens (lex (']' :: rest)) := by
  cases ps with
  | nil => exact ⟨.done false, trivial, rfl, fun rest => ahead_nil.symm⟩
  | cons p ps =>
    obtain ⟨d, hd, hdv, hdl⟩ := readAs_literal q p
    obtain ⟨others, ho, hov, hol⟩ := readAs_further q ps
    refine ⟨.next d.ofUnary others, And.intro (d.legal_ofUnary.mpr hd) ho, ?_, fun rest => ?_⟩
    · rw [Derivation.value, d.value_ofUnary, hdv, hov, exprs]
    · rw [furtherText_cons, List.cons_append, List.cons_append, List.append_assoc, lex_comma,
        lex_blank (by decide), hdl _ (endsToken_further q ps rest), hol, ahead_ahead, ahead_ahead,
        Derivation.tokens, d.tokens_ofUnary]
      rfl

end

/-- The literal of a plain value, in quotes of either kind, is an expression that has this value
wherever it is evaluated, and changes nothing. -/
theorem literal_denotes (q : Quote) (p : Plain) :
    ∃ e, Expr.parse (p.literal q) = .ok e ∧
      ∀ (env : Env) (scopes : List Scope) (s : Scene), (env.eval scopes e).run s =
        (.ok p.value, s) := by
  obtain ⟨d, hlegal, hvalue, hlex⟩ := p.readAs_literal q
  have htokens : lex (p.literal q).toList = .ok d.tokens := by
    have h := hlex [] .nil
    rw [List.append_nil, lex_nil, ahead_ok, List.append_nil] at h
    exact h
  refine ⟨p.expr, ?_, p.eval_expr⟩
  rw [Expr.parse_eq_ofTokens htokens]
  exact Expr.ofTokens_derivation.mpr ⟨d.ofUnary, d.legal_ofUnary.mpr hlegal,
    d.tokens_ofUnary, hvalue⟩

example : (list [.text "it's", .int (-5) (by decide), .list [.none, .bool true]]).literal .single =
    "['it\\'s', -5, [none, true]]" := by
  decide +kernel

end Plain

end Narrative
