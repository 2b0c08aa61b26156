/-! Finite maps from text to values, kept in the order of their keys. -/

namespace Narrative

/-- A finite map from text, listed by ascending key, each key once. -/
structure Dict (α : Type) where
  entries : List (String × α)
  sorted : entries.Pairwise fun a b => a.1 < b.1

namespace Dict

variable {α β : Type}

/-- Puts an entry in its place, in front of the greater keys and instead of its own. -/
def place (k : String) (v : α) : List (String × α) → List (String × α)
  | [] => [(k, v)]
  | e :: es =>
    if k < e.1 then (k, v) :: e :: es
    else if k = e.1 then (k, v) :: es
    else e :: place k v es

theorem mem_place {k : String} {v : α} {es : List (String × α)} {x : String × α}
    (h : x ∈ place k v es) : x = (k, v) ∨ x ∈ es := by
  induction es with
  | nil => simpa [place] using h
  | cons e es ih =>
    unfold place at h
    split at h
    · simpa using h
    · split at h
      · rcases List.mem_cons.mp h with h | h
        · exact .inl h
        · exact .inr (List.mem_cons_of_mem _ h)
      · rcases List.mem_cons.mp h with h | h
        · exact .inr (h ▸ List.mem_cons_self)
        · exact (ih h).imp_right (List.mem_cons_of_mem _)

theorem place_sorted {k : String} {v : α} {es : List (String × α)}
    (h : es.Pairwise fun a b => a.1 < b.1) : (place k v es).Pairwise fun a b => a.1 < b.1 := by
  induction es with
  | nil => simp [place]
  | cons e es ih =>
    obtain ⟨he, hes⟩ := List.pairwise_cons.mp h
    unfold place
    split
    · next hlt =>
      refine List.pairwise_cons.mpr ⟨fun x hx => ?_, h⟩
      rcases List.mem_cons.mp hx with rfl | hx
      · exact hlt
      · exact String.lt_trans hlt (he x hx)
    · next hlt =>
      split
      · next heq => exact List.pairwise_cons.mpr ⟨fun x hx => heq ▸ he x hx, hes⟩
      · next hne =>
        refine List.pairwise_cons.mpr ⟨fun x hx => ?_, ih hes⟩
        rcases mem_place hx with rfl | hx
        · have hle : e.1 ≤ k := String.not_lt.mp hlt
          exact Decidable.not_not.mp fun h => hne (String.le_antisymm (String.not_lt.mp h) hle)
        · exact he x hx

theorem find?_place (k l : String) (v : α) (es : List (String × α)) :
    (place k v es).find? (fun e => e.1 = l)
      = if l = k then some (k, v) else es.find? fun e => e.1 = l := by
  induction es with
  | nil => by_cases h : k = l <;> simp [place, h, eq_comm]
  | cons e es ih =>
    unfold place
    split
    · by_cases h : k = l <;> simp [h, eq_comm]
    · split
      · next heq => by_cases h : k = l <;> simp [← heq, h, eq_comm]
      · next hne =>
        by_cases h : e.1 = l
        · have : l ≠ k := fun hk => hne (hk ▸ h.symm)
          simp [h, this]
        · simpa [List.find?_cons, h] using ih

def empty : Dict α :=
  ⟨[], .nil⟩

instance : EmptyCollection (Dict α) := ⟨empty⟩

instance : Inhabited (Dict α) := ⟨empty⟩

def insert (d : Dict α) (k : String) (v : α) : Dict α :=
  ⟨place k v d.entries, place_sorted d.sorted⟩

def erase (d : Dict α) (k : String) : Dict α :=
  ⟨d.entries.filter (·.1 ≠ k), d.sorted.filter _⟩

def get? (d : Dict α) (k : String) : Option α :=
  (d.entries.find? (·.1 = k)).map (·.2)

theorem get?_insert (d : Dict α) (k l : String) (v : α) :
    (d.insert k v).get? l = if l = k then some v else d.get? l := by
  unfold get? insert
  rw [find?_place]
  split <;> rfl

def getD (d : Dict α) (k : String) (v : α) : α :=
  (d.get? k).getD v

def contains (d : Dict α) (k : String) : Bool :=
  d.entries.any (·.1 = k)

def keys (d : Dict α) : List String :=
  d.entries.map (·.1)

def values (d : Dict α) : List α :=
  d.entries.map (·.2)

def size (d : Dict α) : Nat :=
  d.entries.length

def isEmpty (d : Dict α) : Bool :=
  d.entries.isEmpty

/-- The entries of a list in key order, a later one replacing an earlier one of its key. -/
def ofList (es : List (String × α)) : Dict α :=
  es.foldl (fun d e => d.insert e.1 e.2) empty

def mapValues (f : α → β) (d : Dict α) : Dict β :=
  ⟨d.entries.map fun e => (e.1, f e.2), List.pairwise_map.mpr d.sorted⟩

end Dict

end Narrative
