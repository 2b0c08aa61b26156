import Mathlib.Order.Lattice
import Narrative.Proofs.State.Change

/-! What holds of a state throughout a story: gold and health stay within their bounds, each item
has one stack, which is not empty, and the clock shows a time of day. -/

namespace Narrative

structure ClockFields.Normal (f : ClockFields) : Prop where
  year : 1 ≤ f.year
  season : f.season < 4
  day : 1 ≤ f.day
  day_le : f.day ≤ 30
  hour : f.hour < 24
  minute : f.minute < 60

theorem Clock.normal (t : Clock) : t.toClockFields.Normal :=
  ⟨t.year_pos, t.season_lt, t.day_pos, t.day_le, t.hour_lt, t.minute_lt⟩

namespace Inventory

/-- Each item has one stack, and no stack is empty. -/
structure Tidy (inv : Inventory) : Prop where
  distinct : (inv.map (·.id)).Nodup
  counts : ∀ s ∈ inv, 1 ≤ s.count.toNat

theorem Tidy.tail {s : Stack} {inv : Inventory} (h : Tidy (s :: inv)) : Tidy inv :=
  ⟨(List.nodup_cons.mp h.distinct).2, fun t ht => h.counts t (List.mem_cons_of_mem _ ht)⟩

theorem Tidy.cons {s : Stack} {inv : Inventory} (h : Tidy inv) (hs : s.id ∉ inv.map (·.id))
    (hc : 1 ≤ s.count.toNat) : Tidy (s :: inv) := by
  refine ⟨List.nodup_cons.mpr ⟨hs, h.distinct⟩, fun t ht => ?_⟩
  rcases List.mem_cons.mp ht with rfl | ht
  · exact hc
  · exact h.counts t ht

theorem Tidy.recount {s : Stack} {inv : Inventory} (h : Tidy (s :: inv)) {count : UInt32}
    (hc : 1 ≤ count.toNat) : Tidy ({ s with count } :: inv) :=
  h.tail.cons (List.nodup_cons.mp h.distinct).1 hc

theorem mem_ids_add {id x : String} {n : UInt32} {inv : Inventory}
    (h : x ∈ (add id n inv).map (·.id)) : x = id ∨ x ∈ inv.map (·.id) := by
  induction inv with
  | nil => simpa [add] using h
  | cons s inv ih =>
    by_cases hs : s.id = id
    · simp only [add, hs, if_true, List.map_cons, List.mem_cons] at h ⊢
      exact h.imp_right .inr
    · simp only [add, hs, if_false, List.map_cons, List.mem_cons] at h ⊢
      rcases h with h | h
      · exact .inr (.inl h)
      · exact (ih h).imp_right .inr

theorem Tidy.add {inv : Inventory} (h : Tidy inv) (id : String) {n : UInt32} (hn : 1 ≤ n.toNat) :
    Tidy (Inventory.add id n inv) := by
  induction inv with
  | nil => exact ⟨by simp [Inventory.add], by simpa [Inventory.add] using hn⟩
  | cons s inv ih =>
    by_cases hs : s.id = id
    · have hsize : UInt32.size = 4294967296 := rfl
      have hc := h.counts s List.mem_cons_self
      subst hs
      simp only [Inventory.add, if_true]
      refine h.recount ?_
      rw [UInt32.toNat_ofNat_of_lt' (by unfold fullStack; omega)]
      unfold fullStack
      omega
    · simp only [Inventory.add, hs, if_false]
      refine (ih h.tail).cons (fun hm => ?_) (h.counts s List.mem_cons_self)
      rcases mem_ids_add hm with hm | hm
      · exact hs hm
      · exact (List.nodup_cons.mp h.distinct).1 hm

theorem ids_remove? {id : String} {n : UInt32} {inv inv' : Inventory}
    (h : remove? id n inv = some inv') : (inv'.map (·.id)).Sublist (inv.map (·.id)) := by
  induction inv generalizing inv' with
  | nil => cases h
  | cons s inv ih =>
    unfold remove? at h
    split at h
    · split at h
      · cases h
      · split at h <;> cases h
        · exact List.sublist_cons_self _ _
        · exact List.Sublist.refl _
    · obtain ⟨rest, hr, rfl⟩ := Option.map_eq_some_iff.mp h
      exact (ih hr).cons_cons _

theorem Tidy.remove? {inv inv' : Inventory} (h : Tidy inv) {id : String} {n : UInt32}
    (hr : Inventory.remove? id n inv = some inv') : Tidy inv' := by
  induction inv generalizing inv' with
  | nil => cases hr
  | cons s inv ih =>
    have hsub := ids_remove? hr
    unfold Inventory.remove? at hr
    split at hr
    · split at hr
      · cases hr
      · next hlt =>
        split at hr <;> cases hr
        · exact h.tail
        · next hne =>
          have hle : n ≤ s.count := UInt32.not_lt.mp hlt
          have hnat : n.toNat ≤ s.count.toNat := UInt32.le_iff_toNat_le.mp hle
          have hne' : s.count.toNat ≠ n.toNat := fun he => hne (UInt32.toNat_inj.mp he)
          refine h.recount ?_
          rw [UInt32.toNat_sub_of_le _ _ hle]
          omega
    · obtain ⟨rest, hrest, rfl⟩ := Option.map_eq_some_iff.mp hr
      refine (ih h.tail hrest).cons (fun hm => ?_) (h.counts s List.mem_cons_self)
      exact (List.nodup_cons.mp h.distinct).1 ((ids_remove? hrest).subset hm)

end Inventory

namespace Player

structure Sound (p : Player) : Prop where
  gold : 0 ≤ p.gold.toInt
  health : 0 ≤ p.health.toInt
  health_le : p.health.toInt ≤ p.maxHealth.toInt

theorem Sound.adjustGold {p : Player} (h : p.Sound) (delta : Int64) :
    (p.adjustGold delta).Sound := by
  refine ⟨?_, h.health, h.health_le⟩
  simp only [Player.adjustGold, toInt_saturate, leastWord, greatestWord]
  omega

theorem Sound.adjustHealth {p : Player} (h : p.Sound) (delta : Int64) :
    (p.adjustHealth delta).Sound := by
  have hm := h.health_le
  have hlt := p.maxHealth.toInt_lt
  have h0 := h.health
  constructor
  · exact h.gold
  · simp only [Player.adjustHealth, toInt_saturate, leastWord, greatestWord]
    omega
  · simp only [Player.adjustHealth, toInt_saturate, leastWord, greatestWord]
    omega

theorem opening_sound (o : Opening) : (Player.opening o).Sound := by
  let most := (o.maxHealth.map fun n => max 0 n.toInt).getD (100 : Int64).toInt
  let health := (o.health.map fun n => max 0 (min most n.toInt)).getD most
  let gold := (o.gold.map fun n => max 0 n.toInt).getD (0 : Int64).toInt
  have hmost : 0 ≤ most := by
    change 0 ≤ (o.maxHealth.map _).getD _
    cases o.maxHealth with
    | none => decide
    | some n => exact le_max_left ..
  have hhealth : 0 ≤ health ∧ health ≤ most := by
    change 0 ≤ (o.health.map _).getD _ ∧ (o.health.map _).getD _ ≤ _
    cases o.health with
    | none => exact ⟨hmost, le_rfl⟩
    | some n => exact ⟨le_max_left .., max_le hmost (min_le_left ..)⟩
  have hgold : 0 ≤ gold := by
    change 0 ≤ (o.gold.map _).getD _
    cases o.gold with
    | none => decide
    | some n => exact le_max_left ..
  constructor
  · change 0 ≤ (saturate gold).toInt
    simp only [toInt_saturate, leastWord, greatestWord]
    omega
  · change 0 ≤ (saturate health).toInt
    simp only [toInt_saturate, leastWord, greatestWord]
    omega
  · change (saturate health).toInt ≤ (saturate most).toInt
    simp only [toInt_saturate, leastWord, greatestWord]
    omega

end Player

namespace State

/-- What holds of a state throughout a story. -/
structure Sound (s : State) : Prop where
  player : s.player.Sound
  inventory : s.inventory.Tidy
  time : s.time.toClockFields.Normal

theorem opening_sound (o : Opening) : (State.opening o).Sound :=
  ⟨Player.opening_sound o, ⟨List.nodup_nil, fun _ h => nomatch h⟩, Clock.normal _⟩

theorem Change.sound {s t : State} (hst : s.Change t) (h : s.Sound) : t.Sound := by
  cases hst with
  | gold delta => exact ⟨h.player.adjustGold delta, h.inventory, h.time⟩
  | health delta => exact ⟨h.player.adjustHealth delta, h.inventory, h.time⟩
  | skills => exact ⟨⟨h.player.gold, h.player.health, h.player.health_le⟩, h.inventory, h.time⟩
  | gain id n hn =>
    have hn' : 1 ≤ n.toNat := by
      have : n.toNat ≠ 0 := fun h0 => hn (UInt32.toNat_inj.mp h0)
      omega
    exact ⟨h.player, h.inventory.add id hn', h.time⟩
  | lose id n _ hr =>
    obtain ⟨inv, hinv, rfl⟩ := Option.map_eq_some_iff.mp hr
    exact ⟨h.player, h.inventory.remove? hinv, h.time⟩
  | pass minutes => exact ⟨h.player, h.inventory, Clock.normal _⟩
  | nothing | flags | relationships | quests | move => exact ⟨h.player, h.inventory, h.time⟩

end State

end Narrative
