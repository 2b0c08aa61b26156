import Narrative.Proofs.Except
import Narrative.Verb.Core

/-! What core verbs can do to a state. Each of them reads its arguments first and then changes one
part of the state in one way, or nothing. One that fails does so for an argument and has changed
nothing. -/

namespace Narrative

/-- The changes of a state that core verbs make. -/
inductive State.Change (s : State) : State → Prop where
  | gold (delta : Int64) : Change s { s with player := s.player.adjustGold delta }
  | health (delta : Int64) : Change s { s with player := s.player.adjustHealth delta }
  | skills (skills : Dict Int64) : Change s { s with player := { s.player with skills } }
  | gain (id : String) (n : UInt32) (hn : n ≠ 0) : Change s (s.addItem id n)
  | lose (id : String) (n : UInt32) (hn : n ≠ 0) {t : State} (h : s.removeItem? id n = some t) :
      Change s t
  | nothing : Change s s
  | flags (flags : Dict Flag) : Change s { s with flags }
  | relationships (relationships : Dict Int64) : Change s { s with relationships }
  | quests (quests : Dict Quest) : Change s { s with quests }
  | move (location : String) : Change s { s with location }
  | pass (minutes : Nat) : Change s { s with time := s.time.advance minutes }

variable {α β : Type} {verb : String}

/-- What is read fails only for an argument of `verb`. -/
def Args.Blames (verb : String) (r : Except VerbError α) : Prop :=
  ∀ e, r = .error e → ∃ index f, e = .argument verb index f

namespace Args

theorem Blames.ok (a : α) : Blames verb (.ok a) :=
  fun _ h => nomatch h

theorem Blames.bind {r : Except VerbError α} {f : α → Except VerbError β} (hr : Blames verb r)
    (hf : ∀ a, Blames verb (f a)) : Blames verb (r >>= f) := by
  intro e h
  cases r with
  | error e' =>
    cases h
    exact hr e rfl
  | ok a => exact hf a e h

variable (a : Args) (index : Nat)

theorem fault_blames (f : ArgumentFault) :
    Blames a.verb (a.fault index f : Except VerbError α) := by
  intro e h
  cases h
  exact ⟨index, f, rfl⟩

theorem value_blames : Blames a.verb (a.value index) := by
  unfold value
  split
  · exact .ok _
  · exact a.fault_blames index _

theorem int_blames : Blames a.verb (a.int index) := by
  refine .bind (a.value_blames index) fun v => ?_
  cases v with
  | int | bool => exact .ok _
  | float x =>
    dsimp only
    split
    · exact .ok _
    · exact a.fault_blames index _
  | text s =>
    dsimp only
    split
    · exact .ok _
    · exact a.fault_blames index _
  | _ => exact a.fault_blames index _

theorem intOr_blames (n : Int64) : Blames a.verb (a.intOr index n) := by
  unfold intOr
  split
  · exact a.int_blames index
  · exact .ok n

theorem countOr_blames (n : UInt32) : Blames a.verb (a.countOr index n) := by
  refine .bind (a.intOr_blames index _) fun m => ?_
  split
  · split
    · exact a.fault_blames index _
    · exact .ok _
  · exact a.fault_blames index _

theorem text_blames : Blames a.verb (a.text index) := by
  refine .bind (a.value_blames index) fun v => ?_
  cases v with
  | none | list | map => exact a.fault_blames index _
  | _ => exact .ok _

theorem flag_blames (v : Value) : Blames a.verb (a.flag index v) := by
  unfold flag
  split
  · exact .ok _
  · exact a.fault_blames index _

theorem forward_blames (minutes : Int64) : Blames a.verb (a.forward index minutes) := by
  unfold forward
  split
  · exact a.fault_blames index _
  · exact .ok _

theorem countOr_ne_zero {a : Args} {index : Nat} {n c : UInt32} (h : a.countOr index n = .ok c) :
    c ≠ 0 := by
  obtain ⟨m, _, h⟩ := bind_eq_ok.mp h
  split at h
  · split at h
    · cases h
    · next hc => exact pure_eq_ok.mp h ▸ hc
  · cases h

end Args

/-- From `s`, the deed makes one change, or it fails for an argument of `verb` and leaves `s` as it
was. -/
def Deed.Atomic (verb : String) (s : State) (m : Deed α) : Prop :=
  (∃ index f, m.run s = (.error (.argument verb index f), s)) ∨
    ∃ a t, m.run s = (.ok a, t) ∧ s.Change t

namespace Deed.Atomic

variable {s t : State}

/-- What is read before any change does no harm when it fails. -/
theorem read {r : Except VerbError α} {f : α → Deed β} (hr : Args.Blames verb r)
    (hf : ∀ a, r = .ok a → (f a).Atomic verb s) : (liftM r >>= f : Deed β).Atomic verb s := by
  cases r with
  | error e =>
    obtain ⟨index, fault, rfl⟩ := hr e rfl
    exact .inl ⟨index, fault, rfl⟩
  | ok a => exact hf a rfl

theorem look {f : State → Deed β} (hf : (f s).Atomic verb s) : (get >>= f : Deed β).Atomic verb s :=
  hf

theorem change {f : State → State} (hf : s.Change (f s)) (a : α) :
    (modify f >>= fun _ => pure a : Deed α).Atomic verb s :=
  .inr ⟨a, f s, rfl, hf⟩

theorem replace (ht : s.Change t) (a : α) : (set t >>= fun _ => pure a : Deed α).Atomic verb s :=
  .inr ⟨a, t, rfl, ht⟩

theorem rest (a : α) : (pure a : Deed α).Atomic verb s :=
  .inr ⟨a, s, rfl, .nothing⟩

end Deed.Atomic

theorem CoreVerb.run_atomic (v : CoreVerb) (args : Args) (s : State) :
    (v.run args).Atomic args.verb s := by
  cases v with
  | giveGold | takeGold => exact .read (args.int_blames 0) fun amount _ => .change (.gold _) _
  | healPlayer | damagePlayer =>
    exact .read (args.int_blames 0) fun amount _ => .change (.health _) _
  | addItem =>
    refine .read (args.text_blames 0) fun id _ => .read (args.countOr_blames 1 1) fun n hn => ?_
    exact .look (.change (.gain id n (Args.countOr_ne_zero hn)) _)
  | removeItem =>
    refine .read (args.text_blames 0) fun id _ =>
      .read (args.countOr_blames 1 1) fun n hn => .look ?_
    split
    · next ht => exact .replace (.lose id n (Args.countOr_ne_zero hn) ht) _
    · exact .rest _
  | setFlag =>
    exact .read (args.text_blames 0) fun key _ => .read (args.value_blames 1) fun raw _ =>
      .read (args.flag_blames 1 raw) fun f _ => .change (.flags _) _
  | removeFlag | unlockGallery | startScene =>
    exact .read (args.text_blames 0) fun key _ => .change (.flags _) _
  | cheatMenu | openConsole => exact .change (.flags _) _
  | modifySkill =>
    exact .read (args.text_blames 0) fun skill _ => .read (args.int_blames 1) fun amount _ =>
      .change (.skills _) _
  | modifyRelationship =>
    exact .read (args.text_blames 0) fun id _ => .read (args.int_blames 1) fun amount _ =>
      .change (.relationships _) _
  | travelTo | teleport => exact .read (args.text_blames 0) fun id _ => .change (.move id) _
  | advanceTime =>
    exact .read (args.int_blames 0) fun minutes _ =>
      .read (args.forward_blames 0 minutes) fun n _ =>
      .change (.pass n) _
  | addQuestStage =>
    exact .read (args.text_blames 0) fun id _ => .read (args.int_blames 1) fun stage _ =>
      .change (.quests _) _
  | completeQuest => exact .read (args.text_blames 0) fun id _ => .change (.quests _) _

theorem CoreVerb.change_of_run (v : CoreVerb) (args : Args) (s : State) :
    s.Change ((v.run args).run s).2 := by
  rcases v.run_atomic args s with ⟨index, f, h⟩ | ⟨a, t, h, hc⟩
  · rw [h]
    exact .nothing
  · rwa [h]

end Narrative
