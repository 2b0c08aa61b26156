import Narrative.Dict

/-! What stands under the keys of a finite map. A map is given by that. -/

namespace Narrative

namespace Dict

variable {α β : Type} {d e : Dict α} {k : String} {v : α}

theorem ext_entries {d e : Dict α} (h : d.entries = e.entries) : d = e := by
  cases d
  cases e
  cases h
  rfl

theorem eq_of_mem (d : Dict α) {x y : String × α} (hx : x ∈ d.entries) (hy : y ∈ d.entries)
    (h : x.1 = y.1) : x = y := by
  have hlt : d.entries.Pairwise fun u v => u.1 = v.1 → u = v :=
    d.sorted.imp fun hlt heq => absurd heq (String.ne_of_lt hlt)
  have hgt : d.entries.Pairwise (flip fun u v : String × α => u.1 = v.1 → u = v) :=
    d.sorted.imp fun hlt heq => absurd heq.symm (String.ne_of_lt hlt)
  exact List.Pairwise.forall_of_forall_of_flip (fun _ _ _ => rfl) hlt hgt hx hy h

theorem get?_eq_some_iff : d.get? k = some v ↔ (k, v) ∈ d.entries := by
  constructor
  · intro h
    obtain ⟨x, hx, rfl⟩ := Option.map_eq_some_iff.mp h
    have hkey : x.1 = k := by simpa using List.find?_some hx
    exact hkey ▸ List.mem_of_find?_eq_some hx
  · intro h
    cases hx : d.entries.find? (·.1 = k) with
    | none => simpa using List.find?_eq_none.mp hx (k, v) h
    | some x =>
      have hkey : x.1 = k := by simpa using List.find?_some hx
      have hsame : x = (k, v) := d.eq_of_mem (List.mem_of_find?_eq_some hx) h hkey
      simp [get?, hx, hsame]

theorem nodup (d : Dict α) : d.entries.Nodup :=
  d.sorted.imp fun hlt heq => String.ne_of_lt hlt (congrArg Prod.fst heq)

theorem ext_get? (h : ∀ k, d.get? k = e.get? k) : d = e := by
  have hmem : ∀ x, x ∈ d.entries ↔ x ∈ e.entries := by
    rintro ⟨k, v⟩
    rw [← get?_eq_some_iff, ← get?_eq_some_iff, h]
  refine ext_entries (List.Perm.eq_of_pairwise ?_ d.sorted e.sorted ?_)
  · exact fun a b _ _ hab hba => absurd (String.lt_trans hab hba) (String.lt_irrefl _)
  · exact (List.perm_ext_iff_of_nodup d.nodup e.nodup).mpr hmem

theorem contains_eq_isSome (d : Dict α) (k : String) : d.contains k = (d.get? k).isSome := by
  rw [contains, get?, Option.isSome_map, List.isSome_find?]

@[simp] theorem get?_empty (k : String) : (∅ : Dict α).get? k = none :=
  rfl

theorem get?_erase (d : Dict α) (k l : String) :
    (d.erase k).get? l = if l = k then none else d.get? l := by
  refine Option.ext fun v => ?_
  rw [get?_eq_some_iff, erase, List.mem_filter]
  by_cases h : l = k
  · simp [h]
  · simp [h, get?_eq_some_iff]

theorem erase_insert (d : Dict α) (k : String) (v : α) : (d.insert k v).erase k = d.erase k := by
  refine ext_get? fun l => ?_
  rw [get?_erase, get?_erase, get?_insert]
  split <;> rfl

theorem erase_erase (d : Dict α) (k : String) : (d.erase k).erase k = d.erase k := by
  refine ext_get? fun l => ?_
  rw [get?_erase, get?_erase]
  split <;> rfl

theorem insert_of_get? (h : d.get? k = some v) : d.insert k v = d := by
  refine ext_get? fun l => ?_
  rw [get?_insert]
  split
  · next hl => rw [hl, h]
  · rfl

theorem values_perm (h : d.get? k = some v) : d.values.Perm (v :: (d.erase k).values) := by
  have hmem := get?_eq_some_iff.mp h
  have hnodup : ((k, v) :: (d.erase k).entries).Nodup :=
    List.nodup_cons.mpr ⟨fun hin => absurd (List.mem_filter.mp hin).2 (by simp), (d.erase k).nodup⟩
  have hentries : d.entries.Perm ((k, v) :: (d.erase k).entries) := by
    refine (List.perm_ext_iff_of_nodup d.nodup hnodup).mpr fun x => ?_
    by_cases hx : x.1 = k
    · have hsame : x ∈ d.entries ↔ x = (k, v) :=
        ⟨fun hin => d.eq_of_mem hin hmem hx, fun he => he ▸ hmem⟩
      simp [erase, hx, hsame]
    · have hne : x ≠ (k, v) := fun he => hx (congrArg Prod.fst he)
      simp [erase, hx, hne]
  exact hentries.map Prod.snd

theorem size_eq_succ_erase (h : d.get? k = some v) : d.size = (d.erase k).size + 1 := by
  have hlength := (values_perm h).length_eq
  rwa [List.length_cons, values, values, List.length_map, List.length_map] at hlength

theorem size_insert (d : Dict α) (k : String) (v : α) :
    (d.insert k v).size = d.size + if (d.get? k).isSome then 0 else 1 := by
  have hnew : (d.insert k v).size = (d.erase k).size + 1 := by
    rw [size_eq_succ_erase (by rw [get?_insert, if_pos rfl]), erase_insert]
  rw [hnew]
  cases h : d.get? k with
  | some v => exact (size_eq_succ_erase h).symm
  | none =>
    have hsame : d.erase k = d := by
      refine ext_get? fun l => ?_
      rw [get?_erase]
      split
      · next hl => rw [hl, h]
      · rfl
    rw [hsame]
    rfl

theorem get?_mapValues (f : α → β) (d : Dict α) (k : String) :
    (d.mapValues f).get? k = (d.get? k).map f := by
  simp only [get?, mapValues, List.find?_map, Option.map_map]
  rfl

theorem get?_ofList_filterMap (f : String → Option α) (ks : List String) (k : String) :
    (ofList (ks.filterMap fun k => (f k).map fun v => (k, v))).get? k = if k ∈ ks then f k
      else none := by
  have hfold : ∀ (d : Dict α), (((ks.filterMap fun k => (f k).map fun v => (k, v)).foldl
      (fun d e => d.insert e.1 e.2) d).get? k) = if k ∈ ks then (f k).or (d.get? k)
          else d.get? k := by
    induction ks with
    | nil => exact fun d => by simp
    | cons l ks ih =>
      intro d
      cases hl : f l with
      | none =>
        rw [List.filterMap_cons_none (by simp [hl]), ih]
        by_cases h : k = l
        · simp [h, hl]
        · simp [h]
      | some v =>
        rw [List.filterMap_cons_some (b := (l, v)) (by simp [hl]), List.foldl_cons, ih, get?_insert]
        by_cases h : k = l
        · simp [h, hl]
        · simp [h]
  rw [ofList, hfold]
  split
  · exact Option.or_none
  · rfl

end Dict

end Narrative
