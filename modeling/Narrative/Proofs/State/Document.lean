import Narrative.Proofs.Clock
import Narrative.Proofs.Dict
import Narrative.Proofs.Json.Record
import Narrative.State.Json

/-! The document of a state stands for that state: each part is read back from what is written for
it. -/

namespace Narrative

namespace Dict

variable {α β : Type}

theorem place_of_lt {k : String} {v : α} {es : List (String × α)} (h : ∀ e ∈ es, e.1 < k) :
    place k v es = es ++ [(k, v)] := by
  induction es with
  | nil => rfl
  | cons e es ih =>
    have he : e.1 < k := h e List.mem_cons_self
    have hlt : ¬ k < e.1 := fun hk => String.lt_irrefl k (String.lt_trans hk he)
    have hne : k ≠ e.1 := fun hk => String.lt_irrefl k (hk ▸ he)
    rw [place, if_neg hlt, if_neg hne, ih fun x hx => h x (List.mem_cons_of_mem _ hx),
      List.cons_append]

theorem foldl_insert {es : List (String × α)} {d : Dict α}
    (h : (d.entries ++ es).Pairwise fun a b => a.1 < b.1) :
    (es.foldl (fun d e => d.insert e.1 e.2) d).entries = d.entries ++ es := by
  induction es generalizing d with
  | nil => exact (List.append_nil _).symm
  | cons e es ih =>
    have hlt : ∀ x ∈ d.entries, x.1 < e.1 := fun x hx =>
      (List.pairwise_append.mp h).2.2 x hx e List.mem_cons_self
    have hentries : (d.insert e.1 e.2).entries = d.entries ++ [e] := place_of_lt hlt
    rw [List.foldl_cons, ih, hentries, List.append_assoc, List.singleton_append]
    rw [hentries, List.append_assoc, List.singleton_append]
    exact h

theorem ofList_entries (d : Dict α) : ofList d.entries = d :=
  ext_entries (foldl_insert (d := empty) d.sorted)

end Dict

namespace Json

variable {α : Type} {encode : α → Json} {decode : Json → Option α}

theorem listOf_map (h : ∀ a, decode (encode a) = some a) (as : List α) :
    listOf decode (.list (as.map encode)) = some as :=
  mapM_map fun a _ => h a

theorem dictOf_toJson (h : ∀ a, decode (encode a) = some a) (d : Dict α) :
    dictOf decode (d.toJson encode) = some d := by
  have hentries : (d.entries.map fun e => (e.1, encode e.2)).mapM
      (fun f => (decode f.2).map fun a => (f.1, a)) = some d.entries :=
    mapM_map fun e _ => by rw [h, Option.map_some]
  exact (congrArg (Option.map Dict.ofList) hentries).trans (congrArg some d.ofList_entries)

end Json

namespace Clock

theorem ofFields_toClockFields (t : Clock) : ofFields t.toClockFields = t :=
  t.advance_zero

theorem ofJson_toJson (t : Clock) : ofJson t.toJson = some t := by
  have hrecord : t.toJson.record? ["year", "season", "day", "hour", "minute", "display", "is_night"]
      = some [some (.int t.year), some (.int t.season), some (.int t.day), some (.int t.hour),
        some (.int t.minute), some (.text t.text), some (.bool t.isNight)] :=
    Json.record?_table rfl (by decide)
  have hyear : t.year ≤ 4294967295 := t.year_le
  have hseason : t.season ≤ 255 := by have := t.season_lt; omega
  have hday : t.day ≤ 4294967295 := by have := t.day_le; omega
  have hhour : t.hour ≤ 4294967295 := by have := t.hour_lt; omega
  have hminute : t.minute ≤ 4294967295 := by have := t.minute_lt; omega
  simp only [ofJson, hrecord, Json.orDefault_some, Json.natUpTo_int, hyear, hseason, hday,
    hhour, hminute, Json.text?, Json.bool?, Option.bind_eq_bind, Option.bind_some]
  exact congrArg some t.ofFields_toClockFields

end Clock

mutual

theorem Flag.ofJson_toJson (f : Flag) : Flag.ofJson f.toJson = some f := by
  cases f with
  | bool b => rfl
  | int n => simp only [Flag.toJson, Flag.ofJson, int64?_toInt, Option.map_some]
  | text s => rfl
  | list items => simp only [Flag.toJson, Flag.ofJson, Flag.ofJsons_toJsons items, Option.map_some]

theorem Flag.ofJsons_toJsons (fs : List Flag) : Flag.ofJsons (Flag.toJsons fs) = some fs := by
  cases fs with
  | nil => rfl
  | cons f fs =>
    simp only [Flag.toJsons, Flag.ofJsons, Flag.ofJson_toJson f, Flag.ofJsons_toJsons fs,
      Option.bind_eq_bind, Option.bind_some]

end

theorem Stack.ofJson_toJson (s : Stack) : Stack.ofJson s.toJson = some s := by
  have hrecord : s.toJson.record? ["id", "count"] =
      some [some (.text s.id), some (.int s.count.toNat)] :=
    Json.record?_table rfl (by decide)
  have hcount : s.count.toNat ≤ fullStack := by
    have := s.count.toNat_lt
    unfold fullStack
    omega
  simp only [Stack.ofJson, hrecord, Json.text?, Json.natUpTo_int hcount, Option.bind_eq_bind,
    Option.bind_some, UInt32.ofNat_toNat]

theorem Quest.ofJson_toJson (q : Quest) : Quest.ofJson q.toJson = some q := by
  have hrecord : q.toJson.record? ["stage", "completed"]
      = some [some (.int q.stage.toInt), some (.bool q.completed)] :=
    Json.record?_table rfl (by decide)
  simp only [Quest.ofJson, hrecord, Json.orDefault_some, Json.int64?_int, Json.bool?,
    Option.bind_eq_bind, Option.bind_some]

theorem Player.ofJson_toJson (p : Player) : Player.ofJson p.toJson = some p := by
  have hrecord : p.toJson.record? ["name", "gold", "health", "max_health", "stats",
    "skills", "kinks"]
      = some [some (.text p.name), some (.int p.gold.toInt), some (.int p.health.toInt),
        some (.int p.maxHealth.toInt), some (p.stats.toJson fun n => .int n.toInt),
        some (p.skills.toJson fun n => .int n.toInt), some (p.kinks.toJson Flag.toJson)] :=
    Json.record?_table rfl (by decide)
  simp only [Player.ofJson, hrecord, Json.orDefault_some, Json.text?, Json.int64?_int,
    Json.dictOf_toJson Json.int64?_int, Json.dictOf_toJson Flag.ofJson_toJson, Option.bind_eq_bind,
    Option.bind_some]

theorem State.ofJson_toJson (s : State) : State.ofJson s.toJson = some s := by
  have hrecord : s.toJson.record? ["player", "inventory", "flags", "relationships",
    "quests", "time", "current_location_id", "history"]
      = some [some s.player.toJson, some (.list (s.inventory.map Stack.toJson)),
        some (s.flags.toJson Flag.toJson), some (s.relationships.toJson fun n => .int n.toInt),
        some (s.quests.toJson Quest.toJson), some s.time.toJson, some (.text s.location),
        some (.list (s.history.map .text))] :=
    Json.record?_table rfl (by decide)
  have htext : ∀ text, Json.text? (.text text) = some text := fun _ => rfl
  simp only [State.ofJson, hrecord, Json.orDefault_some, Player.ofJson_toJson,
    Json.listOf_map Stack.ofJson_toJson, Json.dictOf_toJson Flag.ofJson_toJson,
    Json.dictOf_toJson Json.int64?_int, Json.dictOf_toJson Quest.ofJson_toJson, Clock.ofJson_toJson,
    Json.listOf_map htext, htext, Option.bind_eq_bind, Option.bind_some]

end Narrative
