import Narrative.Proofs.Dict
import Narrative.Proofs.Number.Digits
import Narrative.Proofs.Shorthand.Denotes
import Narrative.Proofs.Verb.Local
import Narrative.Proofs.Render.Scopes

/-! Values as flags hold them. A text is read when it is stored, and what a flag holds then is
stored as it is. -/

namespace Narrative

namespace Flag

variable {raw : String}

theorem readNat?_eq_none {cs : List Char} {c : Char} (hc : c ∈ cs) (hd : c.isDigit = false) :
    readNat? cs = none := by
  have hall : ¬ cs.all Char.isDigit = true := by
    intro h
    rw [List.all_eq_true.mp h c hc] at hd
    cases hd
  rw [readNat?, if_neg (by simp [List.ne_nil_of_mem hc]), if_neg hall]

theorem readNat?_toDigits (n : Nat) : readNat? (Nat.toDigits 10 n) = some n := by
  obtain ⟨hne, hall⟩ := digits_toDigits n
  rw [readNat?, if_neg (by simp), if_pos (List.all_eq_true.mpr hall), Nat.ofDigitChars_ten_toDigits]

theorem sniff_of_not_spells (h : ∀ b, ¬ Shorthand.Spells raw.toList b) :
    sniff raw = ((readNat? raw.toList).bind fun n => int64? n).elim (.text raw) .int := by
  have ht : ¬ sameLetters raw "true" = true :=
    fun hs => h true ((Shorthand.sameLetters_iff true).mp hs)
  have hf : ¬ sameLetters raw "false" = true :=
    fun hs => h false ((Shorthand.sameLetters_iff false).mp hs)
  rw [sniff, if_neg ht, if_neg hf]
  cases (readNat? raw.toList).bind fun n => int64? n <;> rfl

theorem sniff_of_spells {b : Bool} (h : Shorthand.Spells raw.toList b) : sniff raw = .bool b := by
  have hs := (Shorthand.sameLetters_iff b).mpr h
  cases b with
  | true => exact if_pos hs
  | false =>
    have ht : ¬ sameLetters raw "true" = true := by
      intro h'
      have h' := (Shorthand.sameLetters_iff true).mp h'
      rw [Shorthand.Spells, h] at h'
      cases h'
    rw [sniff, if_neg ht]
    exact if_pos hs

theorem sniff_writeBool (b : Bool) : sniff (writeBool b) = .bool b := by
  refine sniff_of_spells (b := b) ?_
  cases b <;> rfl

theorem sniff_writeInt {n : Int64} (hn : 0 ≤ n.toInt) : sniff (writeInt n.toInt) = .int n := by
  have htext : (writeInt n.toInt).toList = Nat.toDigits 10 n.toInt.toNat := by
    rw [writeInt, if_neg (by omega), writeNat, String.toList_ofList]
    congr 1
    omega
  have hspells : ∀ b, ¬ Shorthand.Spells (writeInt n.toInt).toList b := by
    intro b h
    refine h.not_numeric (.inl ⟨false, _, digits_toDigits n.toInt.toNat, ?_⟩)
    rw [htext]
    rfl
  have hword : int64? (n.toInt.toNat : Int) = some n := by
    rw [Int.toNat_of_nonneg hn, int64?_toInt]
  rw [sniff_of_not_spells hspells, htext, readNat?_toDigits, Option.bind_some, hword,
    Option.elim_some]

theorem sniff_of_mem {c : Char} (hc : c ∈ raw.toList) (hd : c.isDigit = false)
    (hl : ∀ b, c.toLower ∉ (writeBool b).toList) : sniff raw = .text raw := by
  have hspells : ∀ b, ¬ Shorthand.Spells raw.toList b := by
    intro b h
    exact hl b (h ▸ List.mem_map_of_mem hc)
  rw [sniff_of_not_spells hspells, readNat?_eq_none hc hd, Option.bind_none, Option.elim_none]

theorem sniff_clock (t : Clock) : sniff t.text = .text t.text := by
  have hc : ':' ∈ t.text.toList := by simp [Clock.text]
  exact sniff_of_mem hc (by decide) (by decide)

theorem sniff_cases (raw : String) :
    (∃ b, sniff raw = .bool b) ∨ (∃ n : Int64, 0 ≤ n.toInt ∧ sniff raw = .int n) ∨
      sniff raw = .text raw := by
  by_cases h : ∃ b, Shorthand.Spells raw.toList b
  · obtain ⟨b, hb⟩ := h
    exact .inl ⟨b, sniff_of_spells hb⟩
  · rw [sniff_of_not_spells fun b hb => h ⟨b, hb⟩]
    cases hread : (readNat? raw.toList).bind fun n => int64? n with
    | none => exact .inr (.inr rfl)
    | some n =>
      obtain ⟨m, -, hm⟩ := Option.bind_eq_some_iff.mp hread
      have hn : n.toInt = m := toInt_of_int64? hm
      exact .inr (.inl ⟨n, by omega, rfl⟩)

theorem sniff_display (raw : String) : sniff (sniff raw).display = sniff raw := by
  rcases sniff_cases raw with ⟨b, h⟩ | ⟨n, hn, h⟩ | h
  · rw [h]
    exact sniff_writeBool b
  · rw [h]
    exact sniff_writeInt hn
  · rw [h, display, h]

end Flag

namespace Value

mutual

def FloatFree : Value → Prop
  | .float _ => False
  | .list items => AllFloatFree items
  | .map entries => EntriesFloatFree entries
  | .none | .bool _ | .int _ | .text _ | .clock _ => True

def AllFloatFree : List Value → Prop
  | [] => True
  | v :: vs => v.FloatFree ∧ AllFloatFree vs

def EntriesFloatFree : List (String × Value) → Prop
  | [] => True
  | (_, v) :: es => v.FloatFree ∧ EntriesFloatFree es

end

mutual

/-- What a flag holds is stored as it is. A float is not: it is stored as its text, which is read
when it is stored again. -/
theorem toFlag?_ofFlag (v : Value) (hv : v.FloatFree) {f : Flag} (h : v.toFlag? = some f) :
    (ofFlag f).toFlag? = some f := by
  cases v with
  | none => cases h
  | bool b =>
    cases h
    rfl
  | int n =>
    cases h
    rfl
  | float x => cases hv
  | text s =>
    cases h
    rcases Flag.sniff_cases s with ⟨b, hs⟩ | ⟨n, -, hs⟩ | hs
    · rw [hs]
      rfl
    · rw [hs]
      rfl
    · rw [hs, ofFlag, toFlag?, hs]
  | list items =>
    obtain ⟨fs, hfs, rfl⟩ := Option.map_eq_some_iff.mp h
    rw [ofFlag, toFlag?, toFlags?_ofFlags items hv hfs, Option.map_some]
  | map entries => cases h
  | clock t =>
    cases h
    rw [ofFlag, toFlag?, Flag.sniff_clock]

theorem toFlags?_ofFlags (vs : List Value) (hvs : AllFloatFree vs) {fs : List Flag}
    (h : toFlags? vs = some fs) : toFlags? (ofFlags fs) = some fs := by
  cases vs with
  | nil =>
    cases h
    rfl
  | cons v vs =>
    obtain ⟨hv, hvs⟩ := hvs
    obtain ⟨f, hf, h⟩ := Option.bind_eq_some_iff.mp h
    obtain ⟨fs', hfs, h⟩ := Option.bind_eq_some_iff.mp h
    cases h
    rw [ofFlags, toFlags?, toFlag?_ofFlag v hv hf, toFlags?_ofFlags vs hvs hfs]
    rfl

end

end Value

theorem CoreVerb.apply_setFlag (a : String) (v : Value) (s : State) :
    CoreVerb.setFlag.apply [.text a, v] s =
      v.toFlag?.elim (.error (.argument "set_flag" 1 (.notStorable v.kind)), s) fun f =>
        (.ok "", s.setFlag a f) := by
  change (CoreVerb.setFlag.run ⟨"set_flag", [.text a, v]⟩).run s = _
  cases hf : v.toFlag? with
  | none =>
    have hflag : Args.flag ⟨"set_flag", [.text a, v]⟩ 1 v =
        .error (.argument "set_flag" 1 (.notStorable v.kind)) := by
      simp only [Args.flag, hf]
      rfl
    change (liftM (Args.flag ⟨"set_flag", [.text a, v]⟩ 1 v) >>= _ : Deed String).run s = _
    rw [hflag]
    rfl
  | some f =>
    have hflag : Args.flag ⟨"set_flag", [.text a, v]⟩ 1 v = .ok f := by simp only [Args.flag, hf]
    change (liftM (Args.flag ⟨"set_flag", [.text a, v]⟩ 1 v) >>= _ : Deed String).run s = _
    rw [hflag]
    rfl

namespace Env

variable {env : Env} {scopes : List Scope}

theorem eval_flag (h : env.bound? scopes "flags" = none) (a : String) (s : Scene) :
    (env.eval scopes (.attr (.var "flags") a)).run s =
      (.ok (((s.state.flags.get? a).map Value.ofFlag).getD .none), s) := by
  have hvar : (env.eval scopes (.var "flags")).run s = (.ok (State.ofFlags s.state.flags), s) := by
    rw [Env.eval, lookup_run, h, Option.none_or]
    rfl
  rw [Env.eval, Eval.run_bind, hvar, ← Dict.get?_mapValues]
  rfl

end Env

namespace Registry

variable {r : Registry} {globals : Scope} {scopes : List Scope}

theorem eval_setFlag (hr : r.get? "set_flag" = some (.ofCore .setFlag)) (b : String) {e : Expr}
    {v : Value} {f : Flag} {s : Scene} (he : ((r.env globals).eval scopes e).run s = (.ok v, s))
    (hf : v.toFlag? = some f) :
    ((r.env globals).eval scopes (.call "set_flag" [.lit (.text b), e])).run s =
      (.ok (.text ""), { s with state := s.state.setFlag b f }) := by
  have hlit : ((r.env globals).eval scopes (.lit (.text b))).run s = (.ok (.text b), s) := by
    rw [Env.eval]
    rfl
  have hargs : ((r.env globals).evalAll scopes [.lit (.text b), e]).run s =
      (.ok [.text b, v], s) := by
    rw [Env.evalAll, Eval.run_bind, hlit]
    change ((r.env globals).evalAll scopes [e] >>= fun vs => pure (.text b :: vs)).run s = _
    rw [Eval.run_bind, Env.evalAll, Eval.run_bind, he]
    rfl
  have hverb : (r.env globals).isVerb "set_flag" = true := by
    change r.verbs.contains "set_flag" = true
    rw [Dict.contains_eq_isSome]
    exact Option.isSome_of_eq_some hr
  have hcall : (r.env globals).call "set_flag" [.text b, v] s =
      (.ok "", { s with state := s.state.setFlag b f }) := by
    refine (call_ofCore (v := .setFlag) hr [.text b, v] s).trans ?_
    rw [CoreVerb.apply_setFlag, hf, Option.elim_some]
  rw [Env.eval, Eval.run_bind, hargs]
  change ((r.env globals).apply "set_flag" [.text b, v]).run s = _
  rw [Env.apply, if_pos hverb, Eval.verb, ExceptT.run_mk, hcall]

theorem flag_of_setFlag (hr : r.get? "set_flag" = some (.ofCore .setFlag)) {a words : String}
    {v : Value} {s t : Scene} (h : r.call "set_flag" [.text a, v] s = (.ok words, t)) :
    ∃ f, v.toFlag? = some f ∧ t.state.flags.get? a = some f := by
  have hcall := call_ofCore (v := .setFlag) hr [.text a, v] s
  rw [CoreVerb.apply_setFlag] at hcall
  cases hf : v.toFlag? with
  | none =>
    rw [hf] at hcall
    cases hcall.symm.trans h
  | some f =>
    rw [hf] at hcall
    cases hcall.symm.trans h
    refine ⟨f, rfl, ?_⟩
    change (s.state.flags.insert a f).get? a = some f
    rw [Dict.get?_insert, if_pos rfl]

end Registry

/-- What a value without floats is stored as is stored as it is, so a flag can be copied: in every
state that `set_flag` leaves, storing the flag under another name leaves the same under both. A raw
text that is read, shown and read again comes to the same. -/
theorem flag_settled :
    (∀ (v : Value) (f : Flag), v.FloatFree → v.toFlag? = some f →
      (Value.ofFlag f).toFlag? = some f) ∧
    (∀ (r : Registry) (globals : Scope) (scopes : List Scope) (a b words : String) (v : Value)
      (s t : Scene),
      r.get? "set_flag" = some (.ofCore .setFlag) → (r.env globals).bound? scopes "flags" = none →
        v.FloatFree →
      r.call "set_flag" [.text a, v] s = (.ok words, t) →
      ∃ f, t.state.flags.get? a = some f ∧
        ((r.env globals).eval scopes (.call "set_flag" [.lit (.text b),
          .attr (.var "flags") a])).run t =
          (.ok (.text ""), { t with state := t.state.setFlag b f })) ∧
    ∀ raw : String, Flag.sniff (Flag.sniff raw).display = Flag.sniff raw := by
  refine ⟨fun v f hv hf => v.toFlag?_ofFlag hv hf, ?_, Flag.sniff_display⟩
  intro r globals scopes a b words v s t hr hfree hv hset
  obtain ⟨f, hf, hget⟩ := Registry.flag_of_setFlag hr hset
  refine ⟨f, hget, Registry.eval_setFlag hr b ?_ (v.toFlag?_ofFlag hv hf)⟩
  rw [Env.eval_flag hfree, hget]
  rfl

theorem flag_settled_mixed :
    let v : Value :=
      .list [.text "TRUE", .text "007", .text "99999999999999999999",
        .list [.clock Clock.start, .int (-5)]]
    let f : Flag := .list [.bool true, .int 7, .text "99999999999999999999",
      .list [.text "08:00, Day 1 of Spring, Year 1", .int (-5)]]
    let t : Scene := ⟨State.setFlag {} "a" f, ⟨0⟩⟩
    Registry.core.call "set_flag" [.text "a", v] ⟨{}, ⟨0⟩⟩ = (.ok "", t) ∧
      ((Registry.core.env ∅).eval [∅] (.call "set_flag" [.lit (.text "b"),
        .attr (.var "flags") "a"])).run t =
        (.ok (.text ""), { t with state := t.state.setFlag "b" f }) := by
  intro v f t
  have hf : v.toFlag? = some f := by rfl
  have hset : Registry.core.call "set_flag" [.text "a", v] ⟨{}, ⟨0⟩⟩ = (.ok "", t) := by
    refine (Registry.call_core Registry.core_hasCore .setFlag [.text "a", v] _).trans ?_
    rw [CoreVerb.apply_setFlag, hf, Option.elim_some]
  have hfree : v.FloatFree := by simp [v, Value.FloatFree, Value.AllFloatFree]
  obtain ⟨g, hg, hcopy⟩ :=
    flag_settled.2.1 Registry.core ∅ [∅] "a" "b" "" v _ t (Registry.core_hasCore .setFlag) rfl
    hfree hset
  have hsame : f = g := by
    have hget : t.state.flags.get? "a" = some f := rfl
    exact Option.some.inj (hget.symm.trans hg)
  subst hsame
  exact ⟨hset, hcopy⟩

end Narrative
