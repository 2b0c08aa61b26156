import Narrative.Proofs.Json.Record
import Narrative.Proofs.State.Sound
import Narrative.State.Json

/-! What holds of a state that is read from a document. The clock is set right on the way in; gold,
health and items are taken as the document has them, so they are within their bounds just if they
are in the document. -/

namespace Narrative

namespace Json

def whole (place : Nat) (name : String) (missing : Int) (d : Json) : Int :=
  match d.part? place name with
  | some (.int n) => n
  | _ => missing

theorem whole_of_orDefault {place : Nat} {name : String} {d : Json} {a n : Int64}
    (h : orDefault a int64? (d.part? place name) = some n) :
      n.toInt = d.whole place name a.toInt := by
  unfold whole
  cases hpart : d.part? place name with
  | none =>
    rw [hpart] at h
    cases h
    rfl
  | some e =>
    rw [hpart, orDefault_some] at h
    cases e with
    | int m => exact toInt_of_int64? h
    | _ => cases h

end Json

namespace Stack

def idPart (d : Json) : String :=
  ((d.part? 0 "id").bind Json.text?).getD ""

theorem parts_of_ofJson {d : Json} {s : Stack} (h : Stack.ofJson d = some s) :
    idPart d = s.id ∧ d.whole 1 "count" 0 = s.count.toNat := by
  obtain ⟨parts, hparts, h⟩ := Option.bind_eq_some_iff.mp h
  obtain rfl := Json.record?_parts hparts
  simp only [List.mapIdx_cons, List.mapIdx_nil] at h
  split at h
  · next id count he =>
    obtain ⟨hid, hrest⟩ := List.cons.inj he
    obtain ⟨hcount, -⟩ := List.cons.inj hrest
    obtain ⟨text, htext, h⟩ := Option.bind_eq_some_iff.mp h
    obtain ⟨n, hn, h⟩ := Option.bind_eq_some_iff.mp h
    cases h
    obtain ⟨rfl, hle⟩ := Json.natUpTo_eq_some hn
    have hwhole : d.whole 1 "count" 0 = n := by rw [Json.whole, hcount]
    constructor
    · rw [idPart, hid, Option.bind_some, htext, Option.getD_some]
    · have hsize : UInt32.size = 4294967296 := rfl
      unfold fullStack at hle
      rw [hwhole, UInt32.toNat_ofNat_of_lt' (by omega)]
  · cases h

end Stack

theorem Player.parts_of_ofJson {d : Json} {p : Player} (h : Player.ofJson d = some p) :
    p.gold.toInt = d.whole 1 "gold" 0 ∧ p.health.toInt = d.whole 2 "health" 100 ∧
      p.maxHealth.toInt = d.whole 3 "max_health" 100 := by
  obtain ⟨parts, hparts, h⟩ := Option.bind_eq_some_iff.mp h
  obtain rfl := Json.record?_parts hparts
  simp only [List.mapIdx_cons, List.mapIdx_nil] at h
  obtain ⟨_, -, h⟩ := Option.bind_eq_some_iff.mp h
  obtain ⟨gold, hgold, h⟩ := Option.bind_eq_some_iff.mp h
  obtain ⟨health, hhealth, h⟩ := Option.bind_eq_some_iff.mp h
  obtain ⟨maxHealth, hmaxHealth, h⟩ := Option.bind_eq_some_iff.mp h
  iterate 3 obtain ⟨_, -, h⟩ := Option.bind_eq_some_iff.mp h
  cases h
  exact ⟨Json.whole_of_orDefault hgold, Json.whole_of_orDefault hhealth,
    Json.whole_of_orDefault hmaxHealth⟩

namespace State

def playerPart (d : Json) : Json :=
  (d.part? 0 "player").getD (.table [])

def stackParts (d : Json) : List Json :=
  ((d.part? 1 "inventory").bind Json.list?).getD []

theorem parts_of_ofJson {d : Json} {s : State} (h : State.ofJson d = some s) :
    Json.orDefault {} Player.ofJson (d.part? 0 "player") = some s.player ∧
      Json.orDefault [] (Json.listOf Stack.ofJson) (d.part? 1 "inventory") = some s.inventory := by
  obtain ⟨parts, hparts, h⟩ := Option.bind_eq_some_iff.mp h
  obtain rfl := Json.record?_parts hparts
  simp only [List.mapIdx_cons, List.mapIdx_nil] at h
  obtain ⟨player, hplayer, h⟩ := Option.bind_eq_some_iff.mp h
  obtain ⟨inventory, hinventory, h⟩ := Option.bind_eq_some_iff.mp h
  iterate 6 obtain ⟨_, -, h⟩ := Option.bind_eq_some_iff.mp h
  cases h
  exact ⟨hplayer, hinventory⟩

theorem player_of_ofJson {d : Json} {s : State} (h : State.ofJson d = some s) :
    s.player.gold.toInt = (playerPart d).whole 1 "gold" 0 ∧
      s.player.health.toInt = (playerPart d).whole 2 "health" 100 ∧
      s.player.maxHealth.toInt = (playerPart d).whole 3 "max_health" 100 := by
  have hplayer := (parts_of_ofJson h).1
  unfold playerPart
  cases hpart : d.part? 0 "player" with
  | none =>
    rw [hpart] at hplayer
    rw [← Option.some.inj hplayer]
    exact ⟨rfl, rfl, rfl⟩
  | some e =>
    rw [hpart, Json.orDefault_some] at hplayer
    exact Player.parts_of_ofJson hplayer

theorem inventory_of_ofJson {d : Json} {s : State} (h : State.ofJson d = some s) :
    (stackParts d).map Stack.idPart = s.inventory.map (·.id) ∧
      (stackParts d).map (Json.whole 1 "count" 0) = s.inventory.map fun t =>
        (t.count.toNat : Int) := by
  have hinventory := (parts_of_ofJson h).2
  unfold stackParts
  cases hpart : d.part? 1 "inventory" with
  | none =>
    rw [hpart] at hinventory
    rw [← Option.some.inj hinventory]
    exact ⟨rfl, rfl⟩
  | some e =>
    rw [hpart, Json.orDefault_some] at hinventory
    cases e with
    | list items =>
      exact ⟨Json.map_of_mapM (fun _ _ hs => (Stack.parts_of_ofJson hs).1) hinventory,
        Json.map_of_mapM (fun _ _ hs => (Stack.parts_of_ofJson hs).2) hinventory⟩
    | _ => cases hinventory

/-- The document of a state keeps to the bounds of a state: what it says of gold, health and items,
and what counts where it says nothing. -/
structure DocumentSound (d : Json) : Prop where
  gold : 0 ≤ (playerPart d).whole 1 "gold" 0
  health : 0 ≤ (playerPart d).whole 2 "health" 100
  health_le : (playerPart d).whole 2 "health" 100 ≤ (playerPart d).whole 3 "max_health" 100
  distinct : ((stackParts d).map Stack.idPart).Nodup
  counts : ∀ i ∈ stackParts d, 1 ≤ i.whole 1 "count" 0

theorem sound_iff_document {d : Json} {s : State} (h : State.ofJson d = some s) :
    s.Sound ↔ DocumentSound d := by
  obtain ⟨hgold, hhealth, hmaxHealth⟩ := player_of_ofJson h
  obtain ⟨hids, hcounts⟩ := inventory_of_ofJson h
  have hcounts_iff : (∀ i ∈ stackParts d, 1 ≤ i.whole 1 "count" 0) ↔
      ∀ t ∈ s.inventory, 1 ≤ t.count.toNat := by
    calc (∀ i ∈ stackParts d, 1 ≤ i.whole 1 "count" 0)
      _ ↔ ∀ n ∈ (stackParts d).map (Json.whole 1 "count" 0), 1 ≤ n := List.forall_mem_map.symm
      _ ↔ ∀ t ∈ s.inventory, 1 ≤ (t.count.toNat : Int) := by rw [hcounts, List.forall_mem_map]
      _ ↔ ∀ t ∈ s.inventory, 1 ≤ t.count.toNat := forall₂_congr fun t _ => by omega
  constructor
  · rintro ⟨⟨hg, hh, hle⟩, ⟨hdistinct, hall⟩, -⟩
    exact ⟨hgold ▸ hg, hhealth ▸ hh, hhealth ▸ hmaxHealth ▸ hle, hids ▸ hdistinct,
      hcounts_iff.mpr hall⟩
  · rintro ⟨hg, hh, hle, hdistinct, hall⟩
    exact ⟨⟨hgold ▸ hg, hhealth ▸ hh, hhealth ▸ hmaxHealth ▸ hle⟩,
      ⟨hids ▸ hdistinct, hcounts_iff.mp hall⟩, Clock.normal _⟩

end State

end Narrative
