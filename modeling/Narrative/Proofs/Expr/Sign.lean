import Narrative.Proofs.Course.Eval
import Narrative.Proofs.Expr.Lexing
import Narrative.Proofs.Expr.Parse

/-! Signs in front of number literals. The parser takes them into the literal. Whole numbers are
read without a sign, so whatever the parser makes of them stays above the least word, no negation of
theirs leaves the words, and the value is the one that a tree with all its signs has. -/

namespace Narrative

theorem toInt_neg_of_lt {n : Int64} (h : Int64.minValue < n) : (-n).toInt = -n.toInt := by
  have hlow := Int64.lt_iff_toInt_lt.mp h
  have hhigh := n.toInt_lt
  rw [Int64.toInt_minValue] at hlow
  rw [Int64.toInt_neg]
  exact Int.bmod_eq_of_le (by omega) (by omega)

theorem minValue_lt_neg {n : Int64} (h : Int64.minValue < n) : Int64.minValue < -n := by
  have hhigh := n.toInt_lt
  rw [Int64.lt_iff_toInt_lt, toInt_neg_of_lt h, Int64.toInt_minValue]
  omega

theorem minValue_lt_of_nonneg {n : Int64} (h : 0 ≤ n) : Int64.minValue < n := by
  have hlow := Int64.le_iff_toInt_le.mp h
  rw [Int64.toInt_zero] at hlow
  rw [Int64.lt_iff_toInt_lt, Int64.toInt_minValue]
  omega

theorem exact_neg {n : Int64} (h : Int64.minValue < n) :
    BinaryOp.exact (-n.toInt) = .ok (.int (-n)) := by
  rw [← toInt_neg_of_lt h, BinaryOp.exact, int64?_toInt]

namespace Expr

mutual

def ints : Expr → List Int64
  | .lit (.int n) => [n]
  | .lit _ | .var _ => []
  | .list items => intsOf items
  | .attr target _ => target.ints
  | .index target key => target.ints ++ key.ints
  | .call _ args => intsOf args
  | .unary _ e => e.ints
  | .binary _ left right => left.ints ++ right.ints
  | .when body test => body.ints ++ test.ints
  | .choose body test otherwise => body.ints ++ (test.ints ++ otherwise.ints)

def intsOf : List Expr → List Int64
  | [] => []
  | e :: es => e.ints ++ intsOf es

end

mutual

/-- The tree with its signs taken into the number literals behind them. -/
def fold : Expr → Expr
  | .lit v => .lit v
  | .list items => .list (foldAll items)
  | .var name => .var name
  | .attr target name => .attr target.fold name
  | .index target key => .index target.fold key.fold
  | .call name args => .call name (foldAll args)
  | .unary .neg e => Parser.negate e.fold
  | .unary .not e => .unary .not e.fold
  | .binary op left right => .binary op left.fold right.fold
  | .when body test => .when body.fold test.fold
  | .choose body test otherwise => .choose body.fold test.fold otherwise.fold

def foldAll : List Expr → List Expr
  | [] => []
  | e :: es => e.fold :: foldAll es

end

def IntsAbove (e : Expr) : Prop :=
  ∀ n ∈ e.ints, Int64.minValue < n

theorem mem_intsOf {es : List Expr} {n : Int64} : n ∈ intsOf es ↔ ∃ e ∈ es, n ∈ e.ints := by
  induction es with
  | nil => simp [intsOf]
  | cons e es ih => simp [intsOf, ih]

theorem intsAbove_negate {e : Expr} (h : e.IntsAbove) : (Parser.negate e).IntsAbove := by
  unfold Parser.negate
  split
  · next n =>
    have hn : Int64.minValue < -n := minValue_lt_neg (h n (by simp [ints]))
    simpa [IntsAbove, ints] using hn
  · simp [IntsAbove, ints]
  · simpa [IntsAbove, ints] using h

mutual

theorem intsAbove_fold (e : Expr) (h : ∀ n ∈ e.ints, 0 ≤ n) : e.fold.IntsAbove := by
  cases e with
  | lit v => exact fun n hn => minValue_lt_of_nonneg (h n hn)
  | var name => simp [IntsAbove, fold, ints]
  | list items => simpa only [IntsAbove, fold, ints] using intsAbove_foldAll items h
  | call name args => simpa only [IntsAbove, fold, ints] using intsAbove_foldAll args h
  | attr target name => simpa only [IntsAbove, fold, ints] using intsAbove_fold target h
  | unary op e =>
    have he : e.fold.IntsAbove := intsAbove_fold e h
    cases op with
    | neg => simpa only [fold] using intsAbove_negate he
    | not => simpa only [IntsAbove, fold, ints] using he
  | index left right | binary _ left right | when left right =>
    simp only [ints, List.forall_mem_append] at h
    simp only [IntsAbove, fold, ints, List.forall_mem_append]
    exact ⟨intsAbove_fold left h.1, intsAbove_fold right h.2⟩
  | choose body test otherwise =>
    simp only [ints, List.forall_mem_append] at h
    simp only [IntsAbove, fold, ints, List.forall_mem_append]
    exact ⟨intsAbove_fold body h.1, intsAbove_fold test h.2.1, intsAbove_fold otherwise h.2.2⟩

theorem intsAbove_foldAll (es : List Expr) (h : ∀ n ∈ intsOf es, 0 ≤ n) :
    ∀ n ∈ intsOf (foldAll es), Int64.minValue < n := by
  cases es with
  | nil => simp [foldAll, intsOf]
  | cons e es =>
    simp only [intsOf, List.forall_mem_append] at h
    simp only [foldAll, intsOf, List.forall_mem_append]
    exact ⟨intsAbove_fold e h.1, intsAbove_foldAll es h.2⟩

end

end Expr

namespace Env

open Narrative.Expr

variable (env : Env) (scopes : List Scope)

/-- A sign in a literal acts as one in front of it. -/
theorem eval_negate {e : Expr} (h : e.IntsAbove) :
    env.eval scopes (Parser.negate e) = env.eval scopes (.unary .neg e) := by
  unfold Parser.negate
  split
  · next n =>
    have hneg : UnaryOp.apply .neg (.int n) = .ok (.int (-n)) := exact_neg (h n (by simp [ints]))
    simp only [eval, pure_bind, hneg]
    rfl
  · simp only [eval, pure_bind]
    rfl
  · rfl

mutual

theorem eval_fold (e : Expr) (h : ∀ n ∈ e.ints, 0 ≤ n) :
    env.eval scopes e.fold = env.eval scopes e := by
  cases e with
  | lit | var => simp only [fold]
  | list items => simp only [fold, eval, evalAll_foldAll items h]
  | call name args => simp only [fold, eval, evalAll_foldAll args h]
  | attr target name => simp only [fold, eval, eval_fold target h]
  | unary op e =>
    have he := eval_fold e h
    cases op with
    | neg => simp only [fold, eval_negate env scopes (intsAbove_fold e h), eval, he]
    | not => simp only [fold, eval, he]
  | index left right | when left right =>
    simp only [ints, List.forall_mem_append] at h
    simp only [fold, eval, eval_fold left h.1, eval_fold right h.2]
  | binary op left right =>
    simp only [ints, List.forall_mem_append] at h
    have hleft := eval_fold left h.1
    have hright := eval_fold right h.2
    cases op <;> simp only [fold, eval, hleft, hright]
  | choose body test otherwise =>
    simp only [ints, List.forall_mem_append] at h
    simp only [fold, eval, eval_fold body h.1, eval_fold test h.2.1, eval_fold otherwise h.2.2]

theorem evalAll_foldAll (es : List Expr) (h : ∀ n ∈ intsOf es, 0 ≤ n) :
    env.evalAll scopes (foldAll es) = env.evalAll scopes es := by
  cases es with
  | nil => simp only [foldAll]
  | cons e es =>
    simp only [intsOf, List.forall_mem_append] at h
    simp only [foldAll, evalAll, eval_fold e h.1, evalAll_foldAll es h.2]

end

end Env

namespace Derivation

/-- What a phrase means if `sign` makes the tree of a sign and what it stands before. -/
def tree (sign : Expr → Expr) {p : Phrase} : Derivation p → p.Meaning
  | .plain body => body.tree sign
  | .when body test => .when (body.tree sign) (test.tree sign)
  | .choose body test otherwise => .choose (body.tree sign) (test.tree sign) (otherwise.tree sign)
  | .chain first more => more.tree sign (first.tree sign)
  | .stop => fun e => e
  | .step op _ right more => fun e => more.tree sign (.binary op e (right.tree sign))
  | .tighter _ d => d.tree sign
  | .negated d => d.tree sign
  | .signed d => d.tree sign
  | .not d => .unary .not (d.tree sign)
  | .compare d => d.tree sign
  | .neg d => sign (d.tree sign)
  | .trailed target trail => trail.tree sign (target.tree sign)
  | .bare => fun e => e
  | .attr s trail => fun e => trail.tree sign (.attr e s)
  | .item n trail => fun e => trail.tree sign (.index e (.lit (.int n)))
  | .key d trail => fun e => trail.tree sign (.index e (d.tree sign))
  | .call args trail => fun
    | .var s => trail.tree sign (.call s (args.tree sign))
    | e => e
  | .int n => .lit (.int n)
  | .float x => .lit (.float x)
  | .text s => .lit (.text s)
  | .constant _ v _ => .lit v
  | .var s _ => .var s
  | .group d => d.tree sign
  | .list items => .list (items.tree sign)
  | .empty => []
  | .listed first others => first.tree sign :: others.tree sign
  | .done _ => []
  | .next d others => d.tree sign :: others.tree sign

theorem tree_negate {p : Phrase} (d : Derivation p) : d.tree Parser.negate = d.value := by
  induction d with
  | call args trail iha iht =>
    funext e
    cases e <;> simp only [tree, value, iha, iht]
  | _ => simp only [tree, value, *]

def Folded : {p : Phrase} → Derivation p → Prop
  | .more _, d | .trail, d => ∀ e, d.value (Expr.fold e) = Expr.fold (d.tree (.unary .neg) e)
  | .args, d | .others, d => d.value = Expr.foldAll (d.tree (.unary .neg))
  | .expr, d | .chain _, d | .operand _, d | .negation, d | .unary, d | .primary, d =>
    d.value = Expr.fold (d.tree (.unary .neg))

theorem negate_ne_var (e : Expr) (s : String) : Parser.negate e ≠ .var s := by
  unfold Parser.negate
  split <;> nofun

theorem value_call_of_ne_var {args : Derivation .args} {trail : Derivation .trail} {e : Expr}
    (h : ∀ s, e ≠ .var s) : (Derivation.call args trail).value e = e := by
  cases e with
  | var s => exact absurd rfl (h s)
  | _ => rfl

theorem folded {p : Phrase} (d : Derivation p) : d.Folded := by
  induction d with
  | plain _ ih | tighter _ _ ih | negated _ ih | signed _ ih | compare _ ih | group _ ih => exact ih
  | stop | bare => exact fun e => rfl
  | int | float | text | constant | var => rfl
  | empty | done => rfl
  | attr s _ ih => exact fun e => ih (.attr e s)
  | item n _ ih => exact fun e => ih (.index e (.lit (.int n)))
  | key d _ ihd iht =>
    intro e
    rw [value, ihd]
    exact iht (.index e (d.tree (.unary .neg)))
  | step op _ right _ ihr ihm =>
    intro e
    rw [value, ihr]
    exact ihm (.binary op e (right.tree (.unary .neg)))
  | chain first _ ihf ihm | trailed first _ ihf ihm =>
    rw [Folded, value, ihf]
    exact ihm (first.tree (.unary .neg))
  | call args _ iha iht =>
    intro e
    -- Only a tree that is a variable takes arguments, and no other tree folds to one.
    cases e with
    | var s =>
      rw [Expr.fold, value, iha]
      exact iht (.call s (args.tree (.unary .neg)))
    | unary op e =>
      cases op with
      | neg => exact value_call_of_ne_var (negate_ne_var e.fold)
      | not => rfl
    | _ => rfl
  | when _ _ ihb iht => simp only [Folded] at *; simp only [value, tree, Expr.fold, ihb, iht]
  | choose _ _ _ ihb iht iho =>
    simp only [Folded] at *; simp only [value, tree, Expr.fold, ihb, iht, iho]
  | not _ ih | neg _ ih | list _ ih =>
    simp only [Folded] at *; simp only [value, tree, Expr.fold, ih]
  | listed _ _ ihf iho | next _ _ ihf iho =>
    simp only [Folded] at *
    simp only [value, tree, Expr.foldAll, ihf, iho]

/-- The whole numbers of a tree are those among the tokens, none with a sign. -/
def IntsRead : {p : Phrase} → Derivation p → Prop
  | .more _, d | .trail, d => ∀ e, ∀ n ∈ (d.tree (.unary .neg) e).ints, n ∈ e.ints ∨
      .int n ∈ d.tokens
  | .args, d | .others, d => ∀ n ∈ Expr.intsOf (d.tree (.unary .neg)), .int n ∈ d.tokens
  | .expr, d | .chain _, d | .operand _, d | .negation, d | .unary, d | .primary, d =>
    ∀ n ∈ (d.tree (.unary .neg)).ints, .int n ∈ d.tokens

theorem intsRead {p : Phrase} (d : Derivation p) : d.IntsRead := by
  induction d with
  | plain _ ih | tighter _ _ ih | negated _ ih | signed _ ih | compare _ ih => exact ih
  | stop | bare => exact fun e n => .inl
  | int | float | text => simp [IntsRead, tree, Expr.ints, tokens]
  | constant s v h =>
    intro n hn
    cases v with
    | int m => simp [constants] at h
    | _ => cases hn
  | var => simp [IntsRead, tree, Expr.ints]
  | empty | done => simp [IntsRead, tree, Expr.intsOf]
  | chain first _ ihf ihm | trailed first _ ihf ihm =>
    intro n hn
    rw [tokens, List.mem_append]
    exact (ihm _ n hn).imp_left (ihf n)
  | attr s _ ih =>
    intro e n hn
    exact (ih (.attr e s) n hn).imp_right fun h => by simp [tokens, h]
  | step op _ right _ ihr ihm =>
    intro e n hn
    have h := ihm _ n hn
    have hright := ihr n
    simp only [Expr.ints, List.mem_append] at h
    simp only [tokens, List.mem_append]
    grind only
  | item m _ ih =>
    intro e n hn
    have h := ih _ n hn
    simp only [Expr.ints, List.mem_append, List.mem_singleton] at h
    simp only [tokens, List.mem_cons, Token.int.injEq]
    grind only
  | key d _ ihd iht =>
    intro e n hn
    have h := iht _ n hn
    have hkey := ihd n
    simp only [Expr.ints, List.mem_append] at h
    simp only [tokens, List.mem_cons, List.mem_append]
    grind only
  | call args _ iha iht =>
    intro e n hn
    cases e with
    | var s =>
      have h := iht _ n hn
      have hargs := iha n
      simp only [Expr.ints] at h
      simp only [tokens, List.mem_cons, List.mem_append]
      grind only
    | _ => exact .inl hn
  | when _ _ ihb iht =>
    intro n hn
    have hb := ihb n
    have ht := iht n
    simp only [tree, Expr.ints, List.mem_append] at hn
    simp only [tokens, List.mem_append, List.mem_cons]
    grind only
  | choose _ _ _ ihb iht iho =>
    intro n hn
    have hb := ihb n
    have ht := iht n
    have ho := iho n
    simp only [tree, Expr.ints, List.mem_append] at hn
    simp only [tokens, List.mem_append, List.mem_cons]
    grind only
  | not _ ih | neg _ ih | list _ ih | group _ ih =>
    intro n hn
    have h := ih n hn
    simp [tokens, h]
  | listed _ _ ihf iho | next _ _ ihf iho =>
    intro n hn
    have hf := ihf n
    have ho := iho n
    simp only [tree, Expr.intsOf, List.mem_append] at hn
    simp only [tokens, List.mem_append, List.mem_cons]
    grind only

end Derivation

namespace Token

variable {ts : List Token} {n : Int64}

theorem number_int {whole cs rest : List Char} (h : number whole cs = .ok (.int n, rest)) :
    0 ≤ n := by
  unfold number at h
  split at h
  · cases h
  · split at h
    · next m hm =>
      cases h
      rw [Int64.le_iff_toInt_le, Int64.toInt_zero, toInt_of_int64? hm]
      exact Int.natCast_nonneg _
    · cases h

theorem next_int {c : Char} {cs rest : List Char} (h : next c cs = .ok (.int n, rest)) : 0 ≤ n := by
  unfold next at h
  split at h
  · exact number_int h
  · split at h
    · cases h
    · split at h <;> split at h <;> cases h

theorem lex_int_nonneg : ∀ {cs : List Char} {ts : List Token}, lex cs = .ok ts → .int n ∈ ts → 0 ≤ n
  | [], ts, h, hm => by
    rw [lex_nil] at h
    cases h
    cases hm
  | c :: cs, ts, h, hm => by
    cases hb : isBlank c with
    | true =>
      rw [lex_blank hb] at h
      exact lex_int_nonneg h hm
    | false =>
      obtain ⟨t, rest, us, hn, hu, rfl⟩ := (lex_cons_ok hb).mp h
      have := next_length hn
      rcases List.mem_cons.mp hm with rfl | hm
      · exact next_int hn
      · exact lex_int_nonneg hu hm
termination_by cs => cs.length

end Token

namespace Parser

/-- The trees that the parser can have in hand over some tokens: what a level reads at any of them,
the items of a list, and the trees that a chain or a trail goes on with. -/
inductive Builds (ts : List Token) : Expr → Prop where
  | expr {us rest : List Token} {e : Expr} (hs : us <:+ ts) (h : Reads (expr us) e rest) :
      Builds ts e
  | chain {l : Level} {us rest : List Token} {e : Expr} (hs : us <:+ ts)
      (h : Reads (chain l us) e rest) : Builds ts e
  | operand {l : Level} {us rest : List Token} {e : Expr} (hs : us <:+ ts)
      (h : Reads (operand l us) e rest) : Builds ts e
  | negation {us rest : List Token} {e : Expr} (hs : us <:+ ts) (h : Reads (negation us) e rest) :
      Builds ts e
  | unary {us rest : List Token} {e : Expr} (hs : us <:+ ts) (h : Reads (unary us) e rest) :
      Builds ts e
  | primary {us rest : List Token} {e : Expr} (hs : us <:+ ts) (h : Reads (primary us) e rest) :
      Builds ts e
  | item {close : Symbol} {us rest : List Token} {es : List Expr} {e : Expr} (hs : us <:+ ts)
      (hc : close.Closes) (h : Reads (items close us) es rest) (he : e ∈ es) : Builds ts e
  | step (op : BinaryOp) {left right : Expr} (hl : Builds ts left) (hr : Builds ts right) :
      Builds ts (.binary op left right)
  | member {t : Token} {e inner : Expr} (ht : t ∈ ts) (he : Builds ts e)
      (h : t.member? e = some inner) : Builds ts inner
  | key {e key : Expr} (he : Builds ts e) (hk : Builds ts key) : Builds ts (.index e key)
  | call (name : String) {args : List Expr} (ha : ∀ e ∈ args, Builds ts e) :
      Builds ts (.call name args)

end Parser

namespace Derivation

def Above : {p : Phrase} → Derivation p → Prop
  | .more _, _ | .trail, _ => True
  | .args, d | .others, d => ∀ e ∈ d.value, e.IntsAbove
  | .expr, d | .chain _, d | .operand _, d | .negation, d | .unary, d | .primary, d =>
    d.value.IntsAbove

theorem above {p : Phrase} (d : Derivation p) (h : ∀ n, .int n ∈ d.tokens → 0 ≤ n) : d.Above := by
  have hfold := d.folded
  have hread := d.intsRead
  cases p with
  | more | trail => trivial
  | args | others =>
    intro e he n hn
    rw [hfold] at he
    exact Expr.intsAbove_foldAll _
      (fun n hn => h n (hread n hn)) n (Expr.mem_intsOf.mpr ⟨e, he, hn⟩)
  | expr | chain | operand | negation | unary | primary =>
    rw [Above, hfold]
    exact Expr.intsAbove_fold _ fun n hn => h n (hread n hn)

end Derivation

namespace Parser

variable {ts us rest : List Token}

theorem above_of_suffix {p : Phrase} {d : Derivation p} (hpos : ∀ n, .int n ∈ ts → 0 ≤ n)
    (hs : us <:+ ts) (ht : d.tokens ++ rest = us) : d.Above :=
  d.above fun n hn => hpos n (hs.subset (ht ▸ List.mem_append_left rest hn))

theorem Builds.intsAbove {e : Expr} (hpos : ∀ n, .int n ∈ ts → 0 ≤ n) (h : Builds ts e) :
    e.IntsAbove := by
  induction h with
  | expr hs h =>
    obtain ⟨d, _, ht, rfl⟩ := expr_derived h
    exact above_of_suffix hpos hs ht
  | chain hs h =>
    obtain ⟨d, _, ht, rfl⟩ := chain_derived h
    exact above_of_suffix hpos hs ht
  | operand hs h =>
    obtain ⟨d, _, ht, rfl⟩ := operand_derived h
    exact above_of_suffix hpos hs ht
  | negation hs h =>
    obtain ⟨d, _, ht, rfl⟩ := negation_derived h
    exact above_of_suffix hpos hs ht
  | unary hs h =>
    obtain ⟨d, _, ht, rfl⟩ := unary_derived h
    exact above_of_suffix hpos hs ht
  | primary hs h =>
    obtain ⟨d, _, ht, rfl⟩ := primary_derived h
    exact above_of_suffix hpos hs ht
  | item hs hc h he =>
    obtain ⟨d, _, ht, rfl⟩ := args_derived hc h
    exact above_of_suffix hpos hs ht _ he
  | step op _ _ hl hr | key _ _ hl hr =>
    simp only [Expr.IntsAbove, Expr.ints, List.forall_mem_append]
    exact ⟨hl, hr⟩
  | @member t e inner ht _ h he =>
    cases t with
    | word s => cases h; exact he
    | int n =>
      cases h
      simp only [Expr.IntsAbove, Expr.ints, List.forall_mem_append, List.forall_mem_singleton]
      exact ⟨he, minValue_lt_of_nonneg (hpos n ht)⟩
    | float | text | symbol => cases h
  | call name _ ha =>
    intro n hn
    obtain ⟨e, he, hn⟩ := Expr.mem_intsOf.mp hn
    exact ha e he n hn

end Parser

namespace Expr

open Narrative.Parser (Builds Reads)

/-- Over the tokens of any text: no whole number that the parser has in hand is the least word, so
what it negates stays exact; and the tree of a text has the value, in every renderer, of the one
tree that its tokens have with each sign left in front of what it negates. -/
theorem parse_sign {s : String} {ts : List Token} (h : Token.lex s.toList = .ok ts) :
    (∀ e, Builds ts e → ∀ n ∈ e.ints, Int64.minValue < n) ∧
      (∀ us rest n, .symbol .minus :: us <:+ ts → Reads (Parser.unary us) (.lit (.int n)) rest →
        (-n).toInt = -n.toInt) ∧
      ∀ e, parse s = .ok e → ∃ d : Derivation .expr, d.Legal ∧ d.tokens = ts ∧
        (∀ d' : Derivation .expr, d'.tokens = ts → d' = d) ∧ d.tree Parser.negate = e ∧
          ∀ env : Env, ∀ scopes, env.eval scopes e = env.eval scopes (d.tree (.unary .neg)) := by
  have hpos : ∀ n, .int n ∈ ts → 0 ≤ n := fun n => Token.lex_int_nonneg h
  refine ⟨fun e he => he.intsAbove hpos, ?_, ?_⟩
  · intro us rest n hs hr
    have hn : Builds ts (.lit (.int n)) := .unary ((List.suffix_cons _ us).trans hs) hr
    exact toInt_neg_of_lt (hn.intsAbove hpos n (by simp [ints]))
  · intro e he
    rw [parse_eq_ofTokens h] at he
    obtain ⟨d, hl, rfl, rfl⟩ := ofTokens_derivation.mp he
    refine ⟨d, hl, rfl, fun d' => Derivation.eq_of_tokens_eq, d.tree_negate, fun env scopes => ?_⟩
    have hvalue : d.value = fold (d.tree (.unary .neg)) := d.folded
    rw [hvalue]
    exact env.eval_fold scopes _ fun n hn => hpos n (d.intsRead n hn)

theorem parse_sign_twice :
    Token.lex "-(-5)".toList = .ok [.symbol .minus, .symbol .lparen, .symbol .minus, .int 5,
      .symbol .rparen] ∧
      parse "-(-5)" = .ok (.lit (.int 5)) ∧ ∀ env : Env, ∀ scopes,
        env.eval scopes (.lit (.int 5)) =
          env.eval scopes (.unary .neg (.unary .neg (.lit (.int 5)))) := by
  have h : Token.lex "-(-5)".toList =
      .ok [.symbol .minus, .symbol .lparen, .symbol .minus, .int 5, .symbol .rparen] := by
        with_unfolding_all rfl
  let five : Derivation .unary := .neg (.trailed (.int 5) .bare)
  let d : Derivation .unary := .neg (.trailed (.group five.ofUnary) .bare)
  have hp : parse "-(-5)" = .ok (.lit (.int 5)) := ((parse_grammar h).1 _).mpr
    ⟨d.ofUnary, by simp [d, five, Derivation.Legal], by simp [d, five, Derivation.tokens], rfl⟩
  obtain ⟨d', _, _, hunique, _, heval⟩ := (parse_sign h).2.2 _ hp
  obtain rfl : d.ofUnary = d' := hunique _ (by simp [d, five, Derivation.tokens])
  exact ⟨h, hp, heval⟩

end Expr

end Narrative
