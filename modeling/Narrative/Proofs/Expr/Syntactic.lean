import Narrative.Proofs.Expr.Reads

/-! Which errors the parser gives: none says that a number is too large, as only reading tokens
can. -/

namespace Narrative

/-- Every error is one of syntax, but for a number that is too large. -/
def ParseError.IsSyntax (e : ParseError) : Prop :=
  e ≠ .largeNumber

def Syntactic {α : Type} (x : Except ParseError α) : Prop :=
  ∀ e, x = .error e → e.IsSyntax

namespace Syntactic

variable {α β : Type}

theorem ok {a : α} : Syntactic (.ok a) :=
  fun _ h => by cases h

theorem error {e : ParseError} (h : e.IsSyntax) : Syntactic (.error e : Except ParseError α) :=
  fun _ he => by cases he; exact h

theorem bind {x : Except ParseError α} {f : α → Except ParseError β} (hx : Syntactic x)
    (hf : ∀ a, Syntactic (f a)) : Syntactic (x >>= f) := by
  cases x with
  | error e => exact fun _ h => by cases h; exact hx e rfl
  | ok a => exact hf a

end Syntactic

namespace Parser

mutual

theorem expr_syntactic (ts : List Token) : Syntactic (expr ts) := by
  rw [expr]
  refine .bind (chain_syntactic .or ts) fun ⟨body, rest, hb⟩ => ?_
  dsimp only
  split
  · exact .ok
  · next t afterIf hb =>
    have hi := Nat.lt_of_succ_lt hb
    split
    · refine .bind (chain_syntactic .or afterIf) fun ⟨test, rest, ht⟩ => ?_
      dsimp only
      split
      · exact .ok
      · next t afterElse ht =>
        have he := Nat.lt_of_succ_lt ht
        split
        · exact .bind (expr_syntactic afterElse) fun _ => .ok
        · exact .ok
    · exact .ok
termination_by 20 * ts.length + 18
decreasing_by all_goals (try simp only [Level.rank]); omega

theorem chain_syntactic (l : Level) (ts : List Token) : Syntactic (chain l ts) := by
  rw [chain]
  exact .bind (operand_syntactic l ts) fun ⟨first, rest, hf⟩ =>
    .bind (chainRest_syntactic l first rest) fun _ => .ok
termination_by 20 * ts.length + (2 * l.rank + 1)
decreasing_by all_goals omega

theorem chainRest_syntactic (l : Level) (left : Expr) (ts : List Token) :
    Syntactic (chainRest l left ts) := by
  rw [chainRest]
  split
  · exact .ok
  · next op after h =>
    have hs := Level.operator?_short h
    have hl := l.rank_le
    exact .bind (operand_syntactic l after) fun ⟨right, rest, hr⟩ =>
      .bind (chainRest_syntactic l (.binary op left right) rest) fun _ => .ok
termination_by 20 * ts.length
decreasing_by all_goals omega

theorem operand_syntactic (l : Level) (ts : List Token) : Syntactic (operand l ts) := by
  rw [operand.eq_def]
  cases hl : l with
  | or => exact chain_syntactic .and ts
  | and => exact negation_syntactic ts
  | compare => exact chain_syntactic .concat ts
  | concat => exact chain_syntactic .sum ts
  | sum => exact chain_syntactic .product ts
  | product => exact unary_syntactic ts
termination_by 20 * ts.length + 2 * l.rank
decreasing_by all_goals simp only [Level.rank]; omega

theorem negation_syntactic (ts : List Token) : Syntactic (negation ts) := by
  rw [negation.eq_def]
  generalize hts : ts = us
  split
  · exact .error (by simp [ParseError.IsSyntax])
  · next t rest =>
    split
    · exact .bind (negation_syntactic rest) fun _ => .ok
    · exact chain_syntactic .compare (t :: rest)
termination_by 20 * ts.length + 12
decreasing_by
  all_goals
    simp only [hts, List.length_cons]
    try simp only [Level.rank]
    omega

theorem unary_syntactic (ts : List Token) : Syntactic (unary ts) := by
  rw [unary.eq_def]
  generalize hts : ts = us
  split
  · next rest => exact .bind (unary_syntactic rest) fun _ => .ok
  · exact .bind (primary_syntactic _) fun ⟨target, rest, ht⟩ =>
      .bind (trail_syntactic target rest) fun _ => .ok
termination_by 20 * ts.length + 2
decreasing_by
  all_goals
    try simp only [hts, List.length_cons]
    omega

theorem trail_syntactic (e : Expr) (ts : List Token) : Syntactic (trail e ts) := by
  rw [trail.eq_def]
  generalize hts : ts = us
  split
  · exact .error (by simp [ParseError.IsSyntax])
  · next t rest =>
    split
    · next inner _ => exact .bind (trail_syntactic inner rest) fun _ => .ok
    · exact .error (by simp [ParseError.IsSyntax])
  · next rest =>
    refine .bind (expr_syntactic rest) fun ⟨key, mid, hk⟩ => ?_
    dsimp only
    split
    · next us hk =>
      have hr := Nat.lt_of_succ_lt hk
      exact .bind (trail_syntactic (.index e key) us) fun _ => .ok
    · exact .error (by simp [ParseError.IsSyntax])
  · next rest =>
    split
    · next name =>
      exact .bind (items_syntactic .rparen rest) fun ⟨args, mid, hi⟩ =>
        .bind (trail_syntactic (.call name args) mid) fun _ => .ok
    · exact .error (by simp [ParseError.IsSyntax])
  · exact .ok
termination_by 20 * ts.length + 1
decreasing_by
  all_goals
    try simp only [hts, List.length_cons]
    omega

theorem items_syntactic (close : Symbol) (ts : List Token) : Syntactic (items close ts) := by
  rw [items.eq_def]
  generalize hts : ts = us
  split
  · exact .error (by simp [ParseError.IsSyntax])
  · next t after =>
    split
    · exact .ok
    · refine .bind (expr_syntactic (t :: after)) fun ⟨first, mid, hf⟩ => ?_
      dsimp only
      split
      · exact .error (by simp [ParseError.IsSyntax])
      · next u rest hf =>
        have hr : rest.length < after.length + 1 := Nat.lt_of_succ_lt hf
        split
        · exact .bind (items_syntactic close rest) fun _ => .ok
        · split
          · exact .ok
          · exact .error (by simp [ParseError.IsSyntax])
termination_by 20 * ts.length + 19
decreasing_by
  all_goals
    try simp only [hts, List.length_cons]
    omega

theorem primary_syntactic (ts : List Token) : Syntactic (primary ts) := by
  rw [primary.eq_def]
  generalize hts : ts = us
  split
  · exact .error (by simp [ParseError.IsSyntax])
  · next t rest =>
    split
    · exact .ok
    · split
      · exact .error (by simp [ParseError.IsSyntax])
      · exact .ok
    · refine .bind (expr_syntactic rest) fun ⟨inner, mid, hi⟩ => ?_
      dsimp only
      split
      · exact .ok
      · exact .error (by simp [ParseError.IsSyntax])
    · exact .bind (items_syntactic .rbracket rest) fun _ => .ok
    · exact .error (by simp [ParseError.IsSyntax])
termination_by 20 * ts.length
decreasing_by
  all_goals
    try simp only [hts, List.length_cons]
    omega

end

end Parser

end Narrative
