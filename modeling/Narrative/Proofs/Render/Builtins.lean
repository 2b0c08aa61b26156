import Narrative.Proofs.Course.Eval
import Narrative.Proofs.Dict
import Narrative.Proofs.State.Inventory

/-! The functions that ask the state, and the variables that show it. Both tell the same of what is
held, of quests and of relationships, up to the counts that a function can ask for. -/

namespace Narrative

namespace Value

def countOf (id : String) (entry : Value) : Int :=
  match entry.attr "id", entry.attr "count" with
  | .ok (.text i), .ok (.int n) => if i = id then n.toInt else 0
  | _, _ => 0

def total (id : String) : Value → Int
  | .list entries => (entries.map (countOf id)).foldr (· + ·) 0
  | _ => 0

end Value

theorem State.shown?_inventory_total (s : State) (id : String) :
    ∃ v, s.shown? "inventory" = some v ∧ v.total id = s.itemCount id := by
  refine ⟨_, rfl, ?_⟩
  rw [Value.total, State.itemCount, List.map_map]
  induction s.inventory with
  | nil => rfl
  | cons stack inv ih =>
    have hcount : Value.countOf id (.map [("count", .int (Int64.ofNat stack.count.toNat)),
      ("id", .text stack.id)]) =
        if stack.id = id then (stack.count.toNat : Int) else 0 := by
      have hlt := stack.count.toNat_lt
      rw [← Int64.toInt_ofNat_of_lt (n := stack.count.toNat) (by omega)]
      rfl
    rw [List.map_cons, List.foldr_cons, ih, Function.comp_apply, hcount, Inventory.count_cons]
    split <;> simp

theorem State.hasItem_of_le (s : State) (id : String) {n : Int64} (hn : n.toInt ≤ 4294967295) :
    s.hasItem id ((uint32? n.toInt).getD 0).toNat = decide (n.toInt ≤ s.itemCount id) := by
  rw [State.hasItem, decide_eq_decide]
  by_cases hword : 0 ≤ n.toInt ∧ n.toInt ≤ 4294967295
  · have hnat : (UInt32.ofNat n.toInt.toNat).toNat = n.toInt.toNat :=
      UInt32.toNat_ofNat_of_lt' (show n.toInt.toNat < 4294967296 by omega)
    rw [uint32?, if_pos hword, Option.getD_some, hnat]
    omega
  · -- A count below zero is asked for as zero, and there are enough of both.
    rw [uint32?, if_neg hword, Option.getD_none, UInt32.toNat_zero]
    omega

/-- A count that no stack can have is asked for as zero. -/
theorem State.hasItem_of_lt (s : State) (id : String) {n : Int64} (hn : 4294967295 < n.toInt) :
    s.hasItem id ((uint32? n.toInt).getD 0).toNat = true := by
  rw [uint32?, if_neg (by omega)]
  exact decide_eq_true (Nat.zero_le _)

namespace Env

variable {env : Env} {scopes : List Scope}

/-- No verb has the name of a function. -/
def FunctionsFree (env : Env) : Prop :=
  ∀ f : Builtin, env.isVerb f.name = false

/-- No binding has the name of a variable that shows the state. -/
def VariablesFree (env : Env) (scopes : List Scope) : Prop :=
  ∀ name ∈ State.shownNames, (scopes.findSome? (·.get? name)).or (env.globals.get? name) = none

theorem FunctionsFree.eval_call (h : env.FunctionsFree) (s : Scene) (f : Builtin)
    (args : List Value) : (env.eval scopes (.call f.name (args.map .lit))).run s =
      ((f.call args s).1, { s with chance := (f.call args s).2 }) := by
  have hargs : (env.evalAll scopes (args.map .lit)).run s = (.ok args, s) := by
    induction args with
    | nil =>
      rw [List.map_nil, Env.evalAll]
      rfl
    | cons v args ih =>
      rw [List.map_cons, Env.evalAll, Eval.run_bind, Env.eval]
      change (env.evalAll scopes (args.map .lit) >>= fun vs => pure (v :: vs)).run s = _
      rw [Eval.run_bind, ih]
      rfl
  have hname : Builtin.ofName? f.name = some f := by cases f <;> rfl
  rw [Env.eval, Eval.run_bind, hargs]
  change (env.apply f.name args).run s = _
  rw [Env.apply, h, hname]
  rfl

namespace VariablesFree

variable (h : env.VariablesFree scopes) (s : Scene)

include h

theorem eval_shown {name : String} (hname : name ∈ State.shownNames) {v : Value}
    (hv : s.state.shown? name = some v) : (env.eval scopes (.var name)).run s = (.ok v, s) := by
  rw [Env.eval, Env.lookup, ExceptT.run_mk, h name hname, Option.none_or, hv]

theorem eval_entry {α : Type} {name : String} (hname : name ∈ State.shownNames) {f : α → Value}
    {d : Dict α} (hv : s.state.shown? name = some (.map (d.mapValues f).entries)) (id : String) :
    (env.eval scopes (.index (.var name) (.lit (.text id)))).run s =
      (.ok (((d.get? id).map f).getD .none), s) := by
  rw [Env.eval, Eval.run_bind, h.eval_shown s hname hv, ← Dict.get?_mapValues]
  rfl

theorem eval_choose_entry {α : Type} {name : String} (hname : name ∈ State.shownNames)
    {f : α → Value} {d : Dict α} (hv : s.state.shown? name = some (.map (d.mapValues f).entries))
    (id : String) (body : Expr) (v : Value) :
    (env.eval scopes (.choose body (.binary .inside (.lit (.text id)) (.var name)) (.lit v))).run
      s =
      if (d.get? id).isSome then (env.eval scopes body).run s else (.ok v, s) := by
  have htest : (env.eval scopes (.binary .inside (.lit (.text id)) (.var name))).run s =
      (.ok (.bool (d.get? id).isSome), s) := by
    have hentry : (d.mapValues f).contains id = (d.get? id).isSome := by
      rw [Dict.contains_eq_isSome, Dict.get?_mapValues, Option.isSome_map]
    have hlit : (env.eval scopes (.lit (.text id))).run s = (.ok (.text id), s) := by
      rw [Env.eval]
      rfl
    refine (eval_binary (by decide) (by decide) hlit (h.eval_shown s hname hv)).trans ?_
    rw [← hentry]
    rfl
  rw [Env.eval, Eval.run_bind, htest]
  cases (d.get? id).isSome with
  | true => rfl
  | false =>
    simp only [Env.eval]
    rfl

theorem eval_quest (id field : String) (f : Quest → Value)
    (hf : ∀ q : Quest, Value.attr (.map [("completed", .bool q.completed),
      ("stage", .int q.stage)]) field = .ok (f q)) :
    (env.eval scopes (.choose (.attr (.index (.var "quests") (.lit (.text id))) field)
      (.binary .inside (.lit (.text id)) (.var "quests")) (.lit (f {})))).run s =
        (.ok (f (s.state.quest id)), s) := by
  rw [h.eval_choose_entry s (by decide) rfl, State.quest, Dict.getD]
  cases hq : s.state.quests.get? id with
  | none => rfl
  | some q =>
    have hentry := h.eval_entry s (by decide : "quests" ∈ State.shownNames) rfl id
    rw [hq, Option.map_some, Option.getD_some] at hentry
    rw [Option.isSome_some, if_pos rfl, Env.eval, Eval.run_bind, hentry]
    change (Eval.ofExcept ((Value.attr _ field).mapError .type)).run s = _
    rw [hf]
    rfl

theorem eval_relationship (id : String) :
    (env.eval scopes (.choose (.index (.var "relationships") (.lit (.text id)))
      (.binary .inside (.lit (.text id)) (.var "relationships")) (.lit (.int 0)))).run s =
      (.ok (.int (s.state.relationship id)), s) := by
  rw [h.eval_choose_entry s (by decide) rfl, h.eval_entry s (by decide) rfl,
    State.relationship, Dict.getD]
  cases s.state.relationships.get? id <;> rfl

end VariablesFree

/-- The functions that ask the state tell what the variables that show it tell, all but `has_item`
of a count above 4294967295: there it says that there are enough, and there never are. -/
theorem builtins_agree {env' : Env} {scopes' : List Scope} (hf : env.FunctionsFree)
    (hv : env'.VariablesFree scopes') (s : Scene) (hs : (s.state.inventory.map (·.id)).Nodup)
    (id : String) : (∃ v, (env'.eval scopes' (.var "inventory")).run s = (.ok v, s) ∧ ∀ n : Int64,
      (n.toInt ≤ 4294967295 →
        (env.eval scopes (.call "has_item" [.lit (.text id), .lit (.int n)])).run s =
        (.ok (.bool (decide (n.toInt ≤ v.total id))), s)) ∧
      (4294967295 < n.toInt → v.total id < n.toInt ∧
        (env.eval scopes (.call "has_item" [.lit (.text id), .lit (.int n)])).run s =
          (.ok (.bool true), s))) ∧
    (env.eval scopes (.call "has_item" [.lit (.text id)])).run s =
      (env.eval scopes (.call "has_item" [.lit (.text id), .lit (.int 1)])).run s ∧
    (env.eval scopes (.call "quest_stage" [.lit (.text id)])).run s =
      (env'.eval scopes' (.choose (.attr (.index (.var "quests") (.lit (.text id))) "stage")
        (.binary .inside (.lit (.text id)) (.var "quests")) (.lit (.int 0)))).run s ∧
    (env.eval scopes (.call "quest_completed" [.lit (.text id)])).run s =
      (env'.eval scopes' (.choose (.attr (.index (.var "quests") (.lit (.text id))) "completed")
        (.binary .inside (.lit (.text id)) (.var "quests")) (.lit (.bool false)))).run s ∧
    (env.eval scopes (.call "relationship" [.lit (.text id)])).run s =
      (env'.eval scopes' (.choose (.index (.var "relationships") (.lit (.text id)))
        (.binary .inside (.lit (.text id)) (.var "relationships")) (.lit (.int 0)))).run s := by
  obtain ⟨v, hshown, htotal⟩ := s.state.shown?_inventory_total id
  have hmany (n : Int64) :
    (env.eval scopes (.call "has_item" [.lit (.text id), .lit (.int n)])).run s =
      (.ok (.bool (s.state.hasItem id ((uint32? n.toInt).getD 0).toNat)), s) :=
    hf.eval_call s .hasItem [.text id, .int n]
  refine ⟨⟨v, hv.eval_shown s (by decide) hshown, fun n => ⟨fun hn => ?_, fun hn => ⟨?_, ?_⟩⟩⟩,
    ?_, ?_, ?_, ?_⟩
  · rw [hmany, State.hasItem_of_le _ _ hn, htotal]
  · have hle := Inventory.count_le hs id
    rw [htotal, State.itemCount]
    unfold fullStack at hle
    omega
  · rw [hmany, State.hasItem_of_lt _ _ hn]
  · rw [hmany]
    exact hf.eval_call s .hasItem [.text id]
  · exact (hf.eval_call s .questStage [.text id]).trans
      (hv.eval_quest s id "stage" (.int ·.stage) fun _ => rfl).symm
  · exact (hf.eval_call s .questCompleted [.text id]).trans
      (hv.eval_quest s id "completed" (.bool ·.completed) fun _ => rfl).symm
  · exact (hf.eval_call s .relationship [.text id]).trans (hv.eval_relationship s id).symm

theorem core_functionsFree : (Registry.core.env ∅).FunctionsFree := by
  intro f
  cases f <;> decide +kernel

theorem core_variablesFree : (Registry.core.env ∅).VariablesFree [] :=
  fun _ _ => rfl

/-- One who holds nothing is said to hold more of an item than can be held. -/
theorem has_item_too_many :
    ((Registry.core.env ∅).eval [] (.var "inventory")).run ⟨{}, ⟨0⟩⟩ = (.ok (.list []), ⟨{}, ⟨0⟩⟩) ∧
      ((Registry.core.env ∅).eval [] (.call "has_item" [.lit (.text "key"),
        .lit (.int 4294967296)])).run ⟨{}, ⟨0⟩⟩ =
        (.ok (.bool true), ⟨{}, ⟨0⟩⟩) :=
  ⟨core_variablesFree.eval_shown _ (by decide) rfl,
    core_functionsFree.eval_call _ .hasItem [.text "key", .int 4294967296]⟩

def keyring : Scene :=
  ⟨{ inventory := [⟨"lamp", 1⟩, ⟨"key", 3⟩] }, ⟨0⟩⟩

/-- A global that hides the inventory makes no difference to the function. -/
theorem builtins_agree_keyring :
    let env := Registry.core.env ((∅ : Scope).insert "inventory" .none)
    (env.eval [] (.call "has_item" [.lit (.text "key"), .lit (.int 3)])).run keyring =
      (.ok (.bool true), keyring) ∧
      (env.eval [] (.call "has_item" [.lit (.text "key"), .lit (.int 4)])).run keyring =
        (.ok (.bool false), keyring) := by
  intro env
  have hf : env.FunctionsFree := core_functionsFree
  obtain ⟨v, hv, hmany⟩ := (builtins_agree hf core_variablesFree keyring (by decide) "key").1
  have htotal : v.total "key" = 3 := by
    have hshown :=
      core_variablesFree.eval_shown keyring (by decide : "inventory" ∈ State.shownNames) rfl
    obtain rfl := Except.ok.inj (congrArg Prod.fst (hshown.symm.trans hv))
    rfl
  have hthree := (hmany 3).1 (by decide)
  have hfour := (hmany 4).1 (by decide)
  rw [htotal] at hthree hfour
  exact ⟨hthree, hfour⟩

end Env

end Narrative
