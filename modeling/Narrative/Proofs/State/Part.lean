import Narrative.Proofs.Dict
import Narrative.State

/-! The parts of a state. Each can be read and replaced by itself, and what is put into one of them
does not show in another. -/

namespace Narrative

def Inventory.besides (named : Option String) (inv : Inventory) : Inventory :=
  inv.filter fun i => some i.id ≠ named

namespace Inventory

theorem besides_add (id : String) (n : UInt32) (inv : Inventory) :
    (inv.add id n).besides (some id) = inv.besides (some id) := by
  unfold besides
  induction inv with
  | nil => simp [add]
  | cons i inv ih =>
    unfold add
    split
    · next h => simp [h]
    · next h => rw [List.filter_cons, List.filter_cons, ih]

theorem besides_remove? {id : String} {n : UInt32} {inv rest : Inventory}
    (h : inv.remove? id n = some rest) : rest.besides (some id) = inv.besides (some id) := by
  unfold besides
  induction inv generalizing rest with
  | nil => cases h
  | cons i inv ih =>
    unfold remove? at h
    split at h
    · next hid =>
      split at h
      · cases h
      · split at h <;> cases h <;> simp [hid]
    · next hid =>
      obtain ⟨rest', hrest, rfl⟩ := Option.map_eq_some_iff.mp h
      rw [List.filter_cons, List.filter_cons, ih hrest]

theorem besides_remove (id : String) (n : UInt32) (inv : Inventory) :
    ((inv.remove? id n).getD inv).besides (some id) = inv.besides (some id) := by
  cases h : inv.remove? id n with
  | none => rw [Option.getD_none]
  | some rest => rw [Option.getD_some, besides_remove? h]

end Inventory

def Dict.besides {α : Type} (named : Option String) (d : Dict α) : Dict α :=
  named.elim d d.erase

inductive Part where
  | gold
  | health
  | inventory
  | flags
  | skills
  | relationships
  | location
  | time
  | quests
  deriving DecidableEq

namespace Part

def Content : Part → Type
  | gold | health => Int64
  | inventory => Inventory
  | flags => Dict Flag
  | skills | relationships => Dict Int64
  | location => String
  | time => Clock
  | quests => Dict Quest

def get : (p : Part) → State → p.Content
  | .gold, s => s.player.gold
  | .health, s => s.player.health
  | .inventory, s => s.inventory
  | .flags, s => s.flags
  | .skills, s => s.player.skills
  | .relationships, s => s.relationships
  | .location, s => s.location
  | .time, s => s.time
  | .quests, s => s.quests

def put : (p : Part) → p.Content → State → State
  | .gold, n, s => { s with player := { s.player with gold := n } }
  | .health, n, s => { s with player := { s.player with health := n } }
  | .inventory, inv, s => { s with inventory := inv }
  | .flags, d, s => { s with flags := d }
  | .skills, d, s => { s with player := { s.player with skills := d } }
  | .relationships, d, s => { s with relationships := d }
  | .location, id, s => { s with location := id }
  | .time, c, s => { s with time := c }
  | .quests, d, s => { s with quests := d }

/-- What a part holds that does not stand under the key `named`. A part without keys holds nothing
of the kind. -/
def besides (named : Option String) : (p : Part) → p.Content → Option p.Content
  | .inventory, inv => some (Inventory.besides named inv)
  | .flags, d => some (Dict.besides named d)
  | .skills, d | .relationships, d => some (Dict.besides named d)
  | .quests, d => some (Dict.besides named d)
  | _, _ => none

variable {p q : Part}

theorem get_put (c : p.Content) (s : State) : p.get (p.put c s) = c := by
  cases p <;> rfl

theorem put_get (s : State) : p.put (p.get s) s = s := by
  cases p <;> rfl

theorem get_put_of_ne (h : p ≠ q) (c : p.Content) (s : State) : q.get (p.put c s) = q.get s := by
  cases p <;> cases q <;> first | rfl | exact absurd rfl h

theorem put_comm (h : p ≠ q) (c : p.Content) (d : q.Content) (s : State) :
    q.put d (p.put c s) = p.put c (q.put d s) := by
  cases p <;> cases q <;> first | rfl | exact absurd rfl h

theorem history_put (c : p.Content) (s : State) : (p.put c s).history = s.history := by
  cases p <;> rfl

theorem maxHealth_put (c : p.Content) (s : State) :
    (p.put c s).player.maxHealth = s.player.maxHealth := by
  cases p <;> rfl

/-- A step of the state that reads a part and changes this part alone, and of it nothing but what
stands under the key `named`. Besides the part it reads the greatest health, which is in none of the
parts. -/
def Local {α : Type} (p : Part) (named : Option String) (f : State → α × State) : Prop :=
  ∃ (answer : p.Content → α) (next : Int64 → p.Content → p.Content),
    (∀ s, f s = (answer (p.get s), p.put (next s.player.maxHealth (p.get s)) s)) ∧
      ∀ most c, p.besides named (next most c) = p.besides named c

namespace Local

variable {α β : Type} {named : Option String} {f : State → α × State}

theorem still (a : α) : p.Local named fun s => (a, s) :=
  ⟨fun _ => a, fun _ c => c, fun s => by rw [put_get], fun _ _ => rfl⟩

theorem frame (h : p.Local named f) (s : State) : (f s).2 = p.put (p.get (f s).2) s := by
  obtain ⟨answer, next, hf, -⟩ := h
  rw [hf, get_put]

theorem keyed (h : p.Local named f) (s : State) :
    p.besides named (p.get (f s).2) = p.besides named (p.get s) := by
  obtain ⟨answer, next, hf, hnext⟩ := h
  rw [hf, get_put, hnext]

theorem answer (h : p.Local named f) {s t : State} (hst : p.get s = p.get t) :
    (f s).1 = (f t).1 := by
  obtain ⟨answer, next, hf, -⟩ := h
  rw [hf, hf, hst]

/-- Steps on two parts come to the same in either order. -/
theorem comm {named' : Option String} {g : State → β × State} (hf : p.Local named f)
    (hg : q.Local named' g) (hne : p ≠ q) (s : State) :
    (g (f s).2).1 = (g s).1 ∧ (f (g s).2).1 = (f s).1 ∧ (g (f s).2).2 = (f (g s).2).2 := by
  have hfs := hf.frame s
  have hgs := hg.frame s
  refine ⟨hg.answer ?_, hf.answer ?_, ?_⟩
  · rw [hfs, get_put_of_ne hne]
  · rw [hgs, get_put_of_ne hne.symm]
  · obtain ⟨answer, next, hf, -⟩ := hf
    obtain ⟨answer', next', hg, -⟩ := hg
    simp only [hf, hg, get_put_of_ne hne, get_put_of_ne hne.symm, maxHealth_put]
    exact put_comm hne _ _ s

end Local

end Part

end Narrative
