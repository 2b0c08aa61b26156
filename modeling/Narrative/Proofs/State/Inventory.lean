import Narrative.Proofs.State.Sound

/-! What is held of each item, and what adding and removing items does to it. -/

namespace Narrative

namespace Inventory

variable {id : String} {n : UInt32} {inv rest : Inventory}

theorem count_cons (id : String) (s : Stack) (inv : Inventory) :
    count id (s :: inv) = (if s.id = id then s.count.toNat else 0) + count id inv := by
  by_cases h : s.id = id <;> simp [count, h]

theorem count_of_notMem (h : id ∉ inv.map (·.id)) : count id inv = 0 := by
  induction inv with
  | nil => rfl
  | cons s inv ih =>
    rw [List.map_cons, List.mem_cons, not_or] at h
    rw [count_cons, if_neg (Ne.symm h.1), ih h.2]

theorem count_le (h : (inv.map (·.id)).Nodup) (id : String) : count id inv ≤ fullStack := by
  induction inv with
  | nil => exact Nat.zero_le _
  | cons s inv ih =>
    obtain ⟨hs, hinv⟩ := List.nodup_cons.mp h
    rw [count_cons]
    split
    · next hid =>
      have hlt := s.count.toNat_lt
      rw [count_of_notMem (hid ▸ hs), fullStack]
      omega
    · rw [Nat.zero_add]
      exact ih hinv

theorem Tidy.count_pos_iff (h : Tidy inv) (id : String) :
    0 < count id inv ↔ id ∈ inv.map (·.id) := by
  induction inv with
  | nil => simp [count]
  | cons s inv ih =>
    have hs := h.counts s List.mem_cons_self
    rw [count_cons, List.map_cons, List.mem_cons, ← ih h.tail]
    by_cases hid : s.id = id
    · rw [if_pos hid]
      exact ⟨fun _ => .inl hid.symm, fun _ => by omega⟩
    · rw [if_neg hid, Nat.zero_add]
      exact ⟨.inr, fun h => h.resolve_left (Ne.symm hid)⟩

theorem holds_iff : inv.holds id = true ↔ id ∈ inv.map (·.id) := by
  simp [holds]

theorem ids_add (id : String) (n : UInt32) (inv : Inventory) : (inv.add id n).map (·.id) =
    if id ∈ inv.map (·.id) then inv.map (·.id) else inv.map (·.id) ++ [id] := by
  induction inv with
  | nil => rfl
  | cons s inv ih =>
    rw [add]
    by_cases hs : s.id = id
    · simp [hs]
    · rw [if_neg hs, List.map_cons, ih]
      by_cases hmem : id ∈ inv.map (·.id) <;> simp [hmem, Ne.symm hs]

theorem count_add (h : inv.count id + n.toNat ≤ fullStack) (x : String) :
    (inv.add id n).count x = inv.count x + if id = x then n.toNat else 0 := by
  induction inv with
  | nil => rw [add, count_cons, Nat.add_comm]
  | cons s inv ih =>
    rw [count_cons] at h
    rw [add]
    by_cases hs : s.id = id
    · rw [if_pos hs] at h
      have hsum : s.count.toNat + n.toNat ≤ fullStack := by omega
      have hfits : s.count.toNat + n.toNat < UInt32.size := Nat.lt_succ_of_le hsum
      rw [if_pos hs, count_cons, count_cons, Nat.min_eq_left hsum, UInt32.toNat_ofNat_of_lt' hfits,
        hs]
      split <;> omega
    · rw [if_neg hs, Nat.zero_add] at h
      rw [if_neg hs, count_cons, count_cons, ih h, Nat.add_assoc]

theorem count_remove? (h : inv.remove? id n = some rest) (x : String) :
    rest.count x + (if id = x then n.toNat else 0) = inv.count x := by
  induction inv generalizing rest with
  | nil => cases h
  | cons s inv ih =>
    unfold remove? at h
    split at h
    · next hs =>
      split at h
      · cases h
      · next hlt =>
        have hle : n ≤ s.count := UInt32.not_lt.mp hlt
        have hnat : n.toNat ≤ s.count.toNat := UInt32.le_iff_toNat_le.mp hle
        split at h <;> cases h
        · next heq => rw [count_cons, heq, hs, Nat.add_comm]
        · rw [count_cons, count_cons, UInt32.toNat_sub_of_le _ _ hle, hs]
          split <;> omega
    · obtain ⟨rest, hrest, rfl⟩ := Option.map_eq_some_iff.mp h
      rw [count_cons, count_cons, Nat.add_assoc, ih hrest]

theorem remove?_isSome_iff (hinv : (inv.map (·.id)).Nodup) (hn : n ≠ 0) :
    (inv.remove? id n).isSome = true ↔ n.toNat ≤ inv.count id := by
  induction inv with
  | nil =>
    have hpos : n.toNat ≠ 0 := fun h => hn (UInt32.toNat_inj.mp h)
    simpa [remove?, count] using hpos
  | cons s inv ih =>
    obtain ⟨hs, hinv⟩ := List.nodup_cons.mp hinv
    rw [count_cons, remove?]
    split
    · next hid =>
      rw [count_of_notMem (hid ▸ hs), Nat.add_zero, ← UInt32.le_iff_toNat_le, ← UInt32.not_lt]
      split
      · next hlt => simp [hlt]
      · next hlt => split <;> simp [hlt]
    · rw [Option.isSome_map, Nat.zero_add]
      exact ih hinv

theorem remove?_add (hinv : Tidy inv) (h : inv.count id + n.toNat ≤ fullStack) :
    (inv.add id n).remove? id n = some inv := by
  induction inv with
  | nil => simp [add, remove?]
  | cons s inv ih =>
    have hpos := hinv.counts s List.mem_cons_self
    rw [count_cons] at h
    rw [add]
    by_cases hs : s.id = id
    · rw [if_pos hs] at h
      have hsum : s.count.toNat + n.toNat ≤ fullStack := by omega
      have hcount : UInt32.ofNat (min (s.count.toNat + n.toNat) fullStack) = s.count + n := by
        rw [Nat.min_eq_left hsum, UInt32.ofNat_add, UInt32.ofNat_toNat, UInt32.ofNat_toNat]
      have hnat : (s.count + n).toNat = s.count.toNat + n.toNat := by
        rw [UInt32.toNat_add]
        exact Nat.mod_eq_of_lt (Nat.lt_succ_of_le hsum)
      have hlt : ¬ s.count + n < n := by
        rw [UInt32.lt_iff_toNat_lt, hnat]
        omega
      have hne : s.count + n ≠ n := by
        rw [← UInt32.toNat_inj.ne, hnat]
        omega
      rw [if_pos hs, hcount, remove?, if_pos hs, if_neg hlt, if_neg hne, UInt32.add_sub_cancel]
    · rw [if_neg hs, Nat.zero_add] at h
      rw [if_neg hs, remove?, if_neg hs, ih hinv.tail h]
      rfl

end Inventory

end Narrative
