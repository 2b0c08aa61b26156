import Narrative.Proofs.Instant
import Narrative.Proofs.Json.RoundTrip
import Narrative.Proofs.State.Document
import Narrative.Session.Snapshot

/-! A saved game gives back the game, the time and the state that were saved. -/

namespace Narrative

section Depth

open Json (IsWord Keeps)

mutual

def Flag.nesting : Flag → Nat
  | .list items => nestingAll items + 1
  | _ => 0

def Flag.nestingAll : List Flag → Nat
  | [] => 0
  | f :: fs => max f.nesting (nestingAll fs)

end

theorem Json.isWord_toInt (n : Int64) : IsWord n.toInt := by
  have hl := n.le_toInt
  have hu := n.toInt_lt
  unfold IsWord
  omega

theorem Json.isWord_natCast {n : Nat} (h : n < 4294967296) : IsWord n := by
  unfold IsWord
  omega

mutual

theorem Flag.keeps {k : Nat} (f : Flag) (h : f.nesting ≤ k) : Keeps k f.toJson := by
  cases f with
  | bool b => exact .bool b
  | int n => exact .int (Json.isWord_toInt n)
  | text s => exact .text s
  | list items =>
    cases k with
    | zero => exact absurd h (by simp [nesting])
    | succ k =>
      have hitems : nestingAll items ≤ k := by
        rw [nesting] at h
        omega
      rw [toJson]
      exact .list (Flag.keepsAll items hitems)

theorem Flag.keepsAll {k : Nat} (fs : List Flag) (h : nestingAll fs ≤ k) :
    ∀ d ∈ toJsons fs, Keeps k d := by
  cases fs with
  | nil => exact fun _ hd => nomatch hd
  | cons f fs =>
    rw [nestingAll] at h
    intro d hd
    rcases List.mem_cons.mp hd with rfl | hd
    · exact Flag.keeps f (by omega)
    · exact Flag.keepsAll fs (by omega) d hd

end

theorem Dict.keeps {α : Type} {k : Nat} {encode : α → Json} {d : Dict α}
    (h : ∀ a ∈ d.values, Keeps k (encode a)) : Keeps (k + 1) (d.toJson encode) := by
  refine .table fun f hf => ?_
  obtain ⟨e, he, rfl⟩ := List.mem_map.mp hf
  exact h e.2 (List.mem_map_of_mem he)

theorem Dict.keeps_words {k : Nat} (d : Dict Int64) :
    Keeps (k + 1) (d.toJson fun n => .int n.toInt) :=
  Dict.keeps fun n _ => .int (Json.isWord_toInt n)

theorem Player.keeps {k : Nat} {p : Player} (h : ∀ f ∈ p.kinks.values, f.nesting ≤ k) :
    Keeps (k + 2) p.toJson := by
  have hkinks : Keeps (k + 1) (p.kinks.toJson Flag.toJson) :=
    Dict.keeps fun f hf => Flag.keeps f (h f hf)
  refine .table ?_
  simp only [List.forall_mem_cons, List.not_mem_nil, false_implies, implies_true, and_true]
  exact ⟨.text _, .int (Json.isWord_toInt _), .int (Json.isWord_toInt _),
    .int (Json.isWord_toInt _), p.stats.keeps_words, p.skills.keeps_words, hkinks⟩

theorem Stack.keeps {k : Nat} (s : Stack) : Keeps (k + 1) s.toJson := by
  refine .table ?_
  simp only [List.forall_mem_cons, List.not_mem_nil, false_implies, implies_true, and_true]
  exact ⟨.text _, .int (Json.isWord_natCast s.count.toNat_lt)⟩

theorem Quest.keeps {k : Nat} (q : Quest) : Keeps (k + 1) q.toJson := by
  refine .table ?_
  simp only [List.forall_mem_cons, List.not_mem_nil, false_implies, implies_true, and_true]
  exact ⟨.int (Json.isWord_toInt _), .bool _⟩

theorem Clock.keeps {k : Nat} (t : Clock) : Keeps (k + 1) t.toJson := by
  have hyear : t.year < 4294967296 := Nat.lt_succ_of_le t.year_le
  have hseason : t.season < 4294967296 := by have := t.season_lt; omega
  have hday : t.day < 4294967296 := by have := t.day_le; omega
  have hhour : t.hour < 4294967296 := by have := t.hour_lt; omega
  have hminute : t.minute < 4294967296 := by have := t.minute_lt; omega
  refine .table ?_
  simp only [List.forall_mem_cons, List.not_mem_nil, false_implies, implies_true, and_true]
  exact ⟨.int (Json.isWord_natCast hyear), .int (Json.isWord_natCast hseason),
    .int (Json.isWord_natCast hday), .int (Json.isWord_natCast hhour),
    .int (Json.isWord_natCast hminute), .text _, .bool _⟩

theorem State.keeps {k : Nat} {s : State} (hflags : ∀ f ∈ s.flags.values, f.nesting ≤ k + 1)
    (hkinks : ∀ f ∈ s.player.kinks.values, f.nesting ≤ k) : Keeps (k + 3) s.toJson := by
  have hinventory : Keeps (k + 2) (.list (s.inventory.map Stack.toJson)) := by
    refine .list fun d hd => ?_
    obtain ⟨t, -, rfl⟩ := List.mem_map.mp hd
    exact t.keeps
  have hhistory : Keeps (k + 2) (.list (s.history.map .text)) := by
    refine .list fun d hd => ?_
    obtain ⟨t, -, rfl⟩ := List.mem_map.mp hd
    exact .text t
  refine .table ?_
  simp only [List.forall_mem_cons, List.not_mem_nil, false_implies, implies_true, and_true]
  exact ⟨Player.keeps hkinks, hinventory, Dict.keeps fun f hf => Flag.keeps f (hflags f hf),
    s.relationships.keeps_words, Dict.keeps fun q _ => q.keeps, s.time.keeps, .text _, hhistory⟩

theorem Snapshot.keeps {k : Nat} {x : Snapshot}
    (hflags : ∀ f ∈ x.state.flags.values, f.nesting ≤ k + 1)
    (hkinks : ∀ f ∈ x.state.player.kinks.values, f.nesting ≤ k) : Keeps (k + 4) x.toJson := by
  refine .table ?_
  simp only [List.forall_mem_cons, List.not_mem_nil, false_implies, implies_true, and_true]
  exact ⟨.text _, .text _, State.keeps hflags hkinks⟩

end Depth

theorem Snapshot.ofJson_toJson {x : Snapshot} (h : x.time.Valid) :
    Snapshot.ofJson x.toJson = some x := by
  have hrecord : x.toJson.record? ["gameId", "timestamp", "state"]
      = some [some (.text x.gameId), some (.text x.time.text), some x.state.toJson] :=
    Json.record?_table rfl (by decide)
  simp only [ofJson, hrecord, Json.text?, Instant.read_text h, State.ofJson_toJson,
    Option.bind_eq_bind, Option.bind_some]

theorem Snapshot.read_write_of {x : Snapshot} (h : x.time.Valid)
    (hread : Json.read x.toJson.pretty = some x.toJson) : Snapshot.read x.write = some x := by
  rw [read, write, hread, Option.bind_some, ofJson_toJson h]

/-- A saved game is the one that its text denotes, as long as flags and kinks are not nested too
deep to be read. -/
theorem Snapshot.read_write {x : Snapshot} (h : x.time.Valid)
    (hflags : ∀ f ∈ x.state.flags.values, f.nesting ≤ 124)
    (hkinks : ∀ f ∈ x.state.player.kinks.values, f.nesting ≤ 123) :
      Snapshot.read x.write = some x :=
  read_write_of h (Snapshot.keeps hflags hkinks).read_pretty

/-- Every state is the one that its document stands for, and has the same document then. A saved
game of the state is the one that its own document stands for; so it is the one that its text
denotes, where reading the text that is written for the document gives the document. -/
theorem State.restored (s : State) :
    State.ofJson s.toJson = some s ∧
    (∀ t, State.ofJson s.toJson = some t → t.toJson = s.toJson) ∧
    ∀ x : Snapshot, x.state = s → x.time.Valid →
      Snapshot.ofJson x.toJson = some x ∧
      (Json.read x.toJson.pretty = some x.toJson → Snapshot.read x.write = some x) := by
  have hstate := s.ofJson_toJson
  refine ⟨hstate, fun t ht => ?_,
    fun x _ hx => ⟨Snapshot.ofJson_toJson hx, Snapshot.read_write_of hx⟩⟩
  rw [hstate] at ht
  cases ht
  rfl

theorem State.restored_nested :
    let s : State :=
      { player := { gold := 12 }
        inventory := [⟨"mug", 2⟩]
        flags := Dict.ofList [("tally", .list [.int (-1), .list [.bool true, .text "ale"]])] }
    let x : Snapshot := ⟨"harbor", ⟨⟨2024, 2, 29⟩, 23, 59, 60, 5000000⟩, s⟩
    x.state = s ∧ x.time.Valid ∧ Json.read x.toJson.pretty = some x.toJson ∧
        Snapshot.read x.write = some x := by
  intro s x
  have hx : x.time.Valid := ⟨by decide, by decide, by decide, by decide, by decide⟩
  have hflags : ∀ f ∈ s.flags.values, f.nesting ≤ 124 := by
    intro f hf
    cases List.mem_singleton.mp hf
    decide
  have hkinks : ∀ f ∈ s.player.kinks.values, f.nesting ≤ 123 := fun _ hf => nomatch hf
  have hread : Json.read x.toJson.pretty = some x.toJson :=
    (Snapshot.keeps hflags hkinks).read_pretty
  exact ⟨rfl, hx, hread, (State.restored s).2.2 x rfl hx |>.2 hread⟩

end Narrative
