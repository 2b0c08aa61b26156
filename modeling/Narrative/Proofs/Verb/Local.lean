import Narrative.Proofs.Addon.Loading
import Narrative.Proofs.State.Part
import Narrative.Registry

/-! Core verbs act on one part of the state each, and on verbs of other parts they have no
effect. -/

namespace Narrative

namespace Deed

variable {p : Part} {named : Option String} {α β : Type}

/-- A deed that reads and changes one part. -/
def Local (p : Part) (named : Option String) (m : Deed α) : Prop :=
  p.Local named fun s => m.run s

theorem get_run (f : State → Deed α) (s : State) : (get >>= f : Deed α).run s = (f s).run s :=
  rfl

theorem Local.read {r : Except VerbError α} {f : α → Deed β} (hf : ∀ a, Local p named (f a)) :
    Local p named (liftM r >>= f) := by
  cases r with
  | error e => exact .still (Except.error e)
  | ok a => exact hf a

theorem Local.readKey {r : Except VerbError String} {f : String → Deed β}
    (hf : ∀ key, Local p (some key) (f key)) : Local p r.toOption (liftM r >>= f) := by
  cases r with
  | error e => exact .still (Except.error e)
  | ok key => exact hf key

theorem Local.change (p : Part) (next : Int64 → p.Content → p.Content) {f : State → State} (a : α)
    (hf : ∀ s, f s = p.put (next s.player.maxHealth (p.get s)) s)
    (hnext : ∀ most c, p.besides named (next most c) = p.besides named c) :
    Local p named (modify f >>= fun _ => pure a) :=
  ⟨fun _ => .ok a, next, fun s => by rw [← hf]; rfl, hnext⟩

theorem Local.inventory {m : Deed α} (answer : Inventory → Except VerbError α)
    (next : Inventory → Inventory)
    (hm : ∀ s, m.run s = (answer s.inventory, { s with inventory := next s.inventory }))
    (hnext : ∀ inv, (next inv).besides named = inv.besides named) :
    Local .inventory named m :=
  ⟨answer, fun _ => next, hm, fun _ inv => congrArg some (hnext inv)⟩

theorem Local.setFlag (key : String) (v : Option Flag → Flag) (a : α) :
    Local .flags (some key) (modify (fun s => s.setFlag key (v (s.flags.get? key))) >>=
      fun _ => pure a) :=
  .change .flags (fun _ d => Dict.insert d key (v (Dict.get? d key))) a (fun _ => rfl) fun _ d =>
    congrArg some (Dict.erase_insert d key _)

end Deed

namespace CoreVerb

def part : CoreVerb → Part
  | giveGold | takeGold => .gold
  | healPlayer | damagePlayer => .health
  | addItem | removeItem => .inventory
  | setFlag | removeFlag | unlockGallery | startScene | cheatMenu | openConsole => .flags
  | modifySkill => .skills
  | modifyRelationship => .relationships
  | travelTo | teleport => .location
  | advanceTime => .time
  | addQuestStage | completeQuest => .quests

/-- The key that a call names in the part of its verb, if it names one. -/
def key? (v : CoreVerb) (args : Args) : Option String :=
  match v with
  | unlockGallery => some galleryFlag
  | startScene => some sceneFlag
  | cheatMenu | openConsole => some requestFlag
  | _ => (args.text 0).toOption

theorem run_local (v : CoreVerb) (args : Args) : Deed.Local v.part (v.key? args) (v.run args) := by
  cases v with
  | giveGold | takeGold =>
    exact .read fun amount =>
      .change .gold (fun _ n => saturate (max 0 (Int64.toInt n + _))) _ (fun _ => rfl)
      fun _ _ => rfl
  | healPlayer | damagePlayer =>
    -- The greatest health bounds what is put there. No verb changes it, so it need not be a part.
    exact .read fun amount => .change .health
      (fun most n => saturate (max 0 (min (max 0 most.toInt) (Int64.toInt n + _)))) _
        (fun _ => rfl) fun _ _ => rfl
  | addItem =>
    exact .readKey fun id => .read fun n => .inventory
      (fun inv => .ok (if inv.holds id then "Added " ++ writeNat n.toNat ++ "x " ++ id ++ "."
        else "Received " ++ id ++ "."))
      (Inventory.add id n) (fun _ => rfl) (Inventory.besides_add id n)
  | removeItem =>
    refine .readKey fun id => .read fun n => .inventory
      (fun inv => .ok (if (inv.remove? id n).isSome
        then "Removed " ++ writeNat n.toNat ++ "x " ++ id ++ "."
        else "Item not found."))
      (fun inv => (inv.remove? id n).getD inv) (fun s => ?_) (Inventory.besides_remove id n)
    -- Whether there are enough items decides the answer and the change at once.
    rw [Deed.get_run]
    split
    · next t ht =>
      obtain ⟨rest, hrest, rfl⟩ := Option.map_eq_some_iff.mp ht
      rw [hrest]
      rfl
    · next ht =>
      rw [Option.map_eq_none_iff.mp ht]
      rfl
  | setFlag => exact .readKey fun key => .read fun raw => .read fun f => .setFlag key (fun _ => f) _
  | removeFlag =>
    exact .readKey fun key =>
      .change .flags (fun _ d => Dict.erase d key) _ (fun _ => rfl)
        fun _ d => congrArg some (Dict.erase_erase d key)
  | unlockGallery => exact .read fun image => .setFlag galleryFlag (unlock image) _
  | startScene => exact .read fun scene => .setFlag sceneFlag (fun _ => .text scene) _
  | cheatMenu => exact .setFlag requestFlag (fun _ => .text "cheat_menu") _
  | openConsole => exact .setFlag requestFlag (fun _ => .text "console") _
  | modifySkill =>
    exact .readKey fun skill => .read fun amount =>
      .change .skills (fun _ d => addTo d skill amount) _ (fun _ => rfl)
      fun _ d => congrArg some (Dict.erase_insert d skill _)
  | modifyRelationship =>
    exact .readKey fun id => .read fun amount =>
      .change .relationships (fun _ d => addTo d id amount) _ (fun _ => rfl)
      fun _ d => congrArg some (Dict.erase_insert d id _)
  | travelTo | teleport =>
    exact .read fun id => .change .location (fun _ _ => id) _ (fun _ => rfl) fun _ _ => rfl
  | advanceTime =>
    exact .read fun minutes =>
      .read fun n => .change .time (fun _ c => Clock.advance c n) _ (fun _ => rfl)
      fun _ _ => rfl
  | addQuestStage =>
    exact .readKey fun id => .read fun stage => .change .quests
      (fun _ d => Dict.insert d id { Dict.getD d id {} with stage }) _ (fun _ => rfl)
      fun _ d => congrArg some (Dict.erase_insert d id _)
  | completeQuest =>
    exact .readKey fun id => .change .quests
      (fun _ d => Dict.insert d id { Dict.getD d id {} with completed := true }) _ (fun _ => rfl)
      fun _ d => congrArg some (Dict.erase_insert d id _)

def apply (v : CoreVerb) (args : List Value) (s : State) : Except VerbError String × State :=
  if v.arity.accepts args.length then (v.run ⟨v.name, args⟩).run s
  else (.error (.arity v.name v.arity args.length), s)

theorem apply_local (v : CoreVerb) (args : List Value) :
    v.part.Local (v.key? ⟨v.name, args⟩) (v.apply args) := by
  by_cases h : v.arity.accepts args.length = true
  · have hrun : v.apply args = fun s => (v.run ⟨v.name, args⟩).run s := funext fun s => if_pos h
    exact hrun ▸ v.run_local ⟨v.name, args⟩
  · have hrun : v.apply args = fun s => (.error (.arity v.name v.arity args.length), s) :=
      funext fun s => if_neg h
    exact hrun ▸ .still _

end CoreVerb

namespace Registry

def HasCore (r : Registry) : Prop :=
  ∀ v : CoreVerb, r.get? v.name = some (.ofCore v)

theorem core_hasCore : core.HasCore := by
  intro v
  have hlast : lastNamed v.name (CoreVerb.all.map Verb.ofCore) = some (.ofCore v) := by
    cases v <;> rfl
  rw [core, get?_registerAll, hlast, Option.some_or]

variable {r : Registry}

theorem handle_core (v : CoreVerb) (depth : Nat) (call : Call) (args : Args) (s : Scene) :
    r.handle (.core v) depth call args s =
      (((v.run args).run s.state).1, { s with state := ((v.run args).run s.state).2 }) :=
  rfl

theorem call_ofCore {v : CoreVerb} (hv : r.get? v.name = some (.ofCore v)) (args : List Value)
    (s : Scene) : r.call v.name args s =
      ((v.apply args s.state).1, { s with state := (v.apply args s.state).2 }) := by
  have hlimit : callLimit = 15 + 1 := rfl
  unfold call callWithin CoreVerb.apply
  rw [hv, hlimit]
  cases h : v.arity.accepts args.length <;> simp [Verb.ofCore, h, handle_core]

theorem call_core (hr : r.HasCore) (v : CoreVerb) (args : List Value) (s : Scene) :
    r.call v.name args s =
      ((v.apply args s.state).1, { s with state := (v.apply args s.state).2 }) :=
  call_ofCore (hr v) args s

/-- A call of a core verb keeps all but the part of the state that it is about, and of this part all
that is not under the key that it names. What it answers depends on its arguments and on this part.
Calls that are about different parts come to the same in either order. -/
theorem call_local (hr : r.HasCore) (v : CoreVerb) (args : List Value) :
    (∀ s, let t := (r.call v.name args s).2
      t = { s with state := v.part.put (v.part.get t.state) s.state } ∧
        v.part.besides (v.key? ⟨v.name, args⟩) (v.part.get t.state) =
          v.part.besides (v.key? ⟨v.name, args⟩) (v.part.get s.state)) ∧
    (∀ s t, v.part.get s.state = v.part.get t.state →
      (r.call v.name args s).1 = (r.call v.name args t).1) ∧
    ∀ (w : CoreVerb) (others : List Value), v.part ≠ w.part → ∀ s,
      let afterV := (r.call v.name args s).2
      let afterW := (r.call w.name others s).2
      (r.call w.name others afterV).1 = (r.call w.name others s).1 ∧
        (r.call v.name args afterW).1 = (r.call v.name args s).1 ∧
        (r.call w.name others afterV).2 = (r.call v.name args afterW).2 := by
  have hv := v.apply_local args
  refine ⟨fun s => ?_, fun s t hst => ?_, fun w others hne s => ?_⟩
  · simp only [call_core hr]
    refine ⟨?_, hv.keyed s.state⟩
    rw [← hv.frame s.state]
  · simp only [call_core hr]
    exact hv.answer hst
  · obtain ⟨hw₁, hv₁, hstate⟩ := hv.comm (w.apply_local others) hne s.state
    simp only [call_core hr]
    exact ⟨hw₁, hv₁, congrArg (Scene.mk · s.chance) hstate⟩

theorem call_local_gift :
    let gift := core.call "give_gold" [.int 5]
    let meet := core.call "set_flag" [.text "met", .bool true]
    core.HasCore ∧ CoreVerb.giveGold.part ≠ CoreVerb.setFlag.part ∧ ∀ s,
      (meet (gift s).2).1 = (meet s).1 ∧ (gift (meet s).2).1 = (gift s).1 ∧
        (meet (gift s).2).2 = (gift (meet s).2).2 := by
  intro gift meet
  have hne : CoreVerb.giveGold.part ≠ CoreVerb.setFlag.part := by decide
  obtain ⟨-, -, hcomm⟩ := call_local core_hasCore .giveGold [.int 5]
  exact ⟨core_hasCore, hne, hcomm .setFlag [.text "met", .bool true] hne⟩

end Registry

end Narrative
