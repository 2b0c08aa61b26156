import Narrative.Json.Record

/-! Records and their fields: what a document has in a field, reading a table of just the fields of
a record, and reading numbers and lists. -/

namespace Narrative.Json

/-- What stands in a field of a record: under its name in a table, at its place in a list. -/
def part? (place : Nat) (name : String) : Json → Option Json
  | .table fields => field? name fields
  | .list items => items[place]?
  | _ => none

theorem record?_parts {names : List String} {d : Json} {parts : List (Option Json)}
    (h : d.record? names = some parts) : parts = names.mapIdx fun i n => d.part? i n := by
  unfold record? at h
  split at h
  · split at h <;> cases h
    refine List.ext_getElem? fun i => ?_
    rw [List.getElem?_map, List.getElem?_mapIdx]
    rfl
  · next items =>
    split at h <;> cases h
    refine List.ext_getElem? fun i => ?_
    rw [List.getElem?_mapIdx]
    by_cases hi : i < names.length
    · rw [List.getElem?_eq_getElem hi, Option.map_some]
      by_cases hitem : i < items.length
      · rw [List.getElem?_append_left (by simpa using hitem), List.getElem?_map]
        simp only [part?, List.getElem?_eq_getElem hitem, Option.map_some]
      · rw [List.getElem?_append_right (by simpa using hitem), List.length_map,
          List.getElem?_replicate, if_pos (by omega)]
        simp only [part?, List.getElem?_eq_none (Nat.le_of_not_lt hitem)]
    · rw [List.getElem?_eq_none (by simp; omega), List.getElem?_eq_none (by omega), Option.map_none]
  · cases h

section Fields

variable {fields : List (String × Json)}

theorem length_filter_le_one (h : (fields.map (·.1)).Nodup) (name : String) :
    (fields.filter (·.1 = name)).length ≤ 1 := by
  have hcount : (fields.map (·.1)).count name ≤ 1 := List.nodup_iff_count.mp h name
  rw [List.count, List.countP_map] at hcount
  rw [← List.countP_eq_length_filter]
  exact hcount

theorem field?_of_mem (h : (fields.map (·.1)).Nodup) {f : String × Json} (hf : f ∈ fields) :
    field? f.1 fields = some f.2 := by
  induction fields with
  | nil => cases hf
  | cons g fields ih =>
    obtain ⟨hg, hfields⟩ := List.nodup_cons.mp h
    rcases List.mem_cons.mp hf with rfl | hf
    · simp [field?]
    · have hne : g.1 ≠ f.1 := fun he => hg (List.mem_map.mpr ⟨f, hf, he.symm⟩)
      have ih := ih hfields hf
      simpa [field?, List.find?_cons, hne] using ih

theorem record?_table {names : List String} (hnames : fields.map (·.1) = names) (h : names.Nodup) :
    record? names (.table fields) = some (fields.map fun f => some f.2) := by
  subst hnames
  have hall : (fields.map (·.1)).all (fun n => (fields.filter (·.1 = n)).length ≤ 1) :=
    List.all_eq_true.mpr fun n _ => decide_eq_true (length_filter_le_one h n)
  refine (if_pos hall).trans ?_
  rw [List.map_map]
  exact congrArg some (List.map_congr_left fun f hf => field?_of_mem h hf)

end Fields

@[simp] theorem orDefault_some {α : Type} (a : α) (decode : Json → Option α) (d : Json) :
    orDefault a decode (some d) = decode d :=
  rfl

@[simp] theorem int64?_int (n : Int64) : int64? (.int n.toInt) = some n :=
  int64?_toInt n

theorem natUpTo_int {n bound : Nat} (h : n ≤ bound) : natUpTo bound (.int n) = some n := by
  rw [natUpTo, if_pos ⟨Int.natCast_nonneg n, by omega⟩, Int.toNat_natCast]

theorem natUpTo_eq_some {bound n : Nat} {d : Json} (h : natUpTo bound d = some n) :
    d = .int n ∧ n ≤ bound := by
  cases d with
  | int m =>
    obtain ⟨hm, hn⟩ := Option.ite_none_right_eq_some.mp h
    cases hn
    exact ⟨congrArg Json.int (by omega), by omega⟩
  | _ => cases h

theorem mapM_map {α β : Type} {write : α → β} {read : β → Option α} {as : List α}
    (h : ∀ a ∈ as, read (write a) = some a) : (as.map write).mapM read = some as := by
  induction as with
  | nil => rfl
  | cons a as ih =>
    have ih := ih fun b hb => h b (List.mem_cons_of_mem _ hb)
    simp only [List.map_cons, List.mapM_cons, h a List.mem_cons_self, ih, Option.bind_eq_bind,
      Option.bind_some, Option.pure_def]

theorem map_of_mapM {α β γ : Type} {f : α → Option β} {g : α → γ} {k : β → γ}
    (hg : ∀ a b, f a = some b → g a = k b) {as : List α} {bs : List β} (h : as.mapM f = some bs) :
    as.map g = bs.map k := by
  induction as generalizing bs with
  | nil =>
    cases h
    rfl
  | cons a as ih =>
    rw [List.mapM_cons] at h
    obtain ⟨b, hb, h⟩ := Option.bind_eq_some_iff.mp h
    obtain ⟨bs, hbs, h⟩ := Option.bind_eq_some_iff.mp h
    cases h
    rw [List.map_cons, List.map_cons, hg a b hb, ih hbs]

end Narrative.Json
