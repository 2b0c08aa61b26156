import Narrative.Proofs.State.Inventory
import Narrative.Proofs.State.Part

/-! The inventory as an ordered multiset. What a request to add or to remove items answers and does
depends on how many are held, and the stacks stand in the order in which their items last came to be
held. -/

namespace Narrative

namespace Inventory

inductive Request where
  | add (id : String) (n : UInt32)
  | remove (id : String) (n : UInt32)
  deriving DecidableEq

namespace Request

def id : Request → String
  | add id _ => id
  | remove id _ => id

def count : Request → UInt32
  | add _ n => n
  | remove _ n => n

def run (q : Request) (s : State) : Bool × State :=
  match q with
  | add id n => (s.inventory.holds id, s.addItem id n)
  | remove id n =>
    match s.removeItem? id n with
    | some t => (true, t)
    | none => (false, s)

/-- The answer to a request where so many are held: whether the item is held already that is added,
and whether there are enough of the one that is to be taken. -/
def answer (q : Request) (held : String → Nat) : Bool :=
  match q with
  | add id _ => 0 < held id
  | remove id n => n.toNat ≤ held id

def gain (q : Request) (x : String) : Nat :=
  match q with
  | add id n => if id = x then n.toNat else 0
  | remove _ _ => 0

def loss (q : Request) (answer : Bool) (x : String) : Nat :=
  match q with
  | add _ _ => 0
  | remove id n => if id = x ∧ answer = true then n.toNat else 0

def runAll : List Request → State → List (Request × Bool) × State
  | [], s => ([], s)
  | q :: qs, s =>
    let rest := runAll qs (q.run s).2
    ((q, (q.run s).1) :: rest.1, rest.2)

def added (x : String) : List (Request × Bool) → Nat
  | [] => 0
  | e :: told => e.1.gain x + added x told

def taken (x : String) : List (Request × Bool) → Nat
  | [] => 0
  | e :: told => e.1.loss e.2 x + taken x told

end Request

/-- A multiset of items, with the times at which they last came to be held. -/
structure Holding where
  count : String → Nat
  since : String → Nat
  now : Nat

namespace Holding

/-- The items of an inventory, which came to be held one after another before now. -/
def ofInventory (inv : Inventory) : Holding where
  count x := inv.count x
  since x := (inv.map (·.id)).idxOf x
  now := inv.length

/-- What is held after a request. An item that was not held and is now has come to be held now. -/
def after (h : Holding) (q : Request) : Holding :=
  let count x := h.count x + q.gain x - q.loss (q.answer h.count) x
  { count
    since := fun x => if h.count x = 0 ∧ 0 < count x then h.now else h.since x
    now := h.now + 1 }

def afterAll (h : Holding) (qs : List Request) : Holding :=
  qs.foldl after h

/-- Whether requests ask for some items each and never for more of one than a stack holds. -/
def Fits : Holding → List Request → Prop
  | _, [] => True
  | h, q :: qs => q.count ≠ 0 ∧ (h.after q).count q.id ≤ fullStack ∧ (h.after q).Fits qs

theorem count_after (h : Holding) (q : Request) (x : String) :
    (h.after q).count x + q.loss (q.answer h.count) x = h.count x + q.gain x := by
  refine Nat.sub_add_cancel ?_
  cases q with
  | add id n => exact Nat.zero_le _
  | remove id n =>
    simp only [Request.loss, Request.answer, decide_eq_true_eq]
    split
    · next hheld => exact Nat.le_add_right_of_le (hheld.1 ▸ hheld.2)
    · exact Nat.zero_le _

end Holding

/-- Whether an inventory is a list of what is held: one stack of each item with the count of it, in
the order in which the items last came to be held. -/
structure Represents (inv : Inventory) (h : Holding) : Prop where
  tidy : inv.Tidy
  count : ∀ x, inv.count x = h.count x
  ordered : (inv.map (·.id)).Pairwise fun x y => h.since x < h.since y
  past : ∀ x ∈ inv.map (·.id), h.since x < h.now

variable {inv rest : Inventory} {h : Holding} {q : Request} {s : State} {id x : String} {n : UInt32}

theorem Tidy.represents (hinv : inv.Tidy) : inv.Represents (.ofInventory inv) where
  tidy := hinv
  count _ := rfl
  ordered := by
    refine List.pairwise_iff_getElem.mpr fun i j hi hj hij => ?_
    simpa only [Holding.ofInventory, hinv.distinct.idxOf_getElem i hi,
      hinv.distinct.idxOf_getElem j hj] using hij
  past x hx := by
    have hlt := List.idxOf_lt_length_of_mem hx
    rwa [List.length_map] at hlt

namespace Represents

theorem held_iff (hr : inv.Represents h) (x : String) : 0 < h.count x ↔ x ∈ inv.map (·.id) := by
  rw [← hr.count, hr.tidy.count_pos_iff]

theorem since_after (hr : inv.Represents h) (hx : x ∈ inv.map (·.id)) :
    (h.after q).since x = h.since x :=
  if_neg fun hnew => Nat.ne_of_gt ((hr.held_iff x).mpr hx) hnew.1

theorem ordered_after (hr : inv.Represents h) (q : Request) :
    (inv.map (·.id)).Pairwise fun x y => (h.after q).since x < (h.after q).since y := by
  refine hr.ordered.imp_of_mem fun hx hy hxy => ?_
  rwa [hr.since_after hx, hr.since_after hy]

theorem past_after (hr : inv.Represents h) (q : Request) (hx : x ∈ inv.map (·.id)) :
    (h.after q).since x < (h.after q).now := by
  rw [hr.since_after hx]
  exact Nat.lt_succ_of_lt (hr.past x hx)

/-- A request by which no item comes to be held leaves the order as it is. -/
theorem of_sublist (hr : inv.Represents h) (htidy : rest.Tidy)
    (hcount : ∀ x, rest.count x = (h.after q).count x)
    (hsub : (rest.map (·.id)).Sublist (inv.map (·.id))) : rest.Represents (h.after q) :=
  ⟨htidy, hcount, (hr.ordered_after q).sublist hsub, fun _ hx => hr.past_after q (hsub.subset hx)⟩

theorem add (hr : inv.Represents h) (hn : n ≠ 0)
    (hfits : (h.after (.add id n)).count id ≤ fullStack) :
    (inv.add id n).Represents (h.after (.add id n)) := by
  have hpos : 1 ≤ n.toNat := Nat.pos_of_ne_zero fun h0 => hn (UInt32.toNat_inj.mp h0)
  have hafter (x : String) : (h.after (.add id n)).count x = h.count x + if id = x then n.toNat
    else 0 := rfl
  rw [hafter, if_pos rfl, ← hr.count] at hfits
  have htidy := hr.tidy.add id hpos
  have hcount (x : String) : (inv.add id n).count x = (h.after (.add id n)).count x := by
    rw [count_add hfits, hr.count, hafter]
  have hids := ids_add id n inv
  by_cases hid : id ∈ inv.map (·.id)
  · rw [if_pos hid] at hids
    exact hr.of_sublist htidy hcount (hids ▸ List.Sublist.refl _)
  -- The new stack stands behind all others, whose items came to be held before now.
  · rw [if_neg hid] at hids
    have hnone : h.count id = 0 :=
      Nat.eq_zero_of_not_pos fun hheld => hid ((hr.held_iff id).mp hheld)
    have hsome : 0 < (h.after (.add id n)).count id := by
      rw [hafter, if_pos rfl]
      omega
    have hnow : (h.after (.add id n)).since id = h.now := if_pos ⟨hnone, hsome⟩
    refine ⟨htidy, hcount, ?_, fun x hx => ?_⟩
    · rw [hids, List.pairwise_append]
      refine ⟨hr.ordered_after _, List.pairwise_singleton _ _, fun x hx y hy => ?_⟩
      rw [List.mem_singleton.mp hy, hnow, hr.since_after hx]
      exact hr.past x hx
    · rw [hids, List.mem_append, List.mem_singleton] at hx
      rcases hx with hx | rfl
      · exact hr.past_after _ hx
      · rw [hnow]
        exact Nat.lt_succ_self _

theorem answer_eq (hr : inv.Represents h) (hn : n ≠ 0) :
    (Request.remove id n).answer h.count = (inv.remove? id n).isSome := by
  rw [Bool.eq_iff_iff, remove?_isSome_iff hr.tidy.distinct hn, hr.count]
  exact decide_eq_true_iff

theorem remove (hr : inv.Represents h) (hn : n ≠ 0) (hrest : inv.remove? id n = some rest) :
    rest.Represents (h.after (.remove id n)) := by
  refine hr.of_sublist (hr.tidy.remove? hrest) (fun x => ?_) (ids_remove? hrest)
  have hanswer : (Request.remove id n).answer h.count = true := by
    rw [hr.answer_eq hn, hrest, Option.isSome_some]
  have hcount := count_remove? hrest x
  rw [hr.count] at hcount
  rw [Holding.after, hanswer]
  simp only [Request.gain, Request.loss, and_true]
  omega

theorem refused (hr : inv.Represents h) (hn : n ≠ 0) (hnone : inv.remove? id n = none) :
    inv.Represents (h.after (.remove id n)) := by
  refine hr.of_sublist hr.tidy (fun x => ?_) (List.Sublist.refl _)
  have hanswer : (Request.remove id n).answer h.count = false := by
    rw [hr.answer_eq hn, hnone, Option.isSome_none]
  rw [hr.count, Holding.after, hanswer]
  simp [Request.gain, Request.loss]

/-- One request is answered as what is held says, and leaves a list of what is held after it. -/
theorem run (hr : s.inventory.Represents h) (hn : q.count ≠ 0)
    (hfits : (h.after q).count q.id ≤ fullStack) :
    (q.run s).1 = q.answer h.count ∧ (q.run s).2.inventory.Represents (h.after q) := by
  cases q with
  | add id n =>
    refine ⟨?_, hr.add hn hfits⟩
    rw [Bool.eq_iff_iff, Request.run, holds_iff, ← hr.held_iff]
    exact decide_eq_true_iff.symm
  | remove id n =>
    change n ≠ 0 at hn
    rw [Request.run, State.removeItem?, hr.answer_eq hn]
    cases hrest : s.inventory.remove? id n with
    | none => exact ⟨rfl, hr.refused hn hrest⟩
    | some rest => exact ⟨rfl, hr.remove hn hrest⟩

/-- After all requests the inventory is still a list of what is held, and what was added is held or
was taken. -/
theorem runAll {qs : List Request} (hr : s.inventory.Represents h) (hqs : h.Fits qs) :
    (Request.runAll qs s).2.inventory.Represents (h.afterAll qs) ∧
      ∀ x, (h.afterAll qs).count x + Request.taken x (Request.runAll qs s).1 =
        h.count x + Request.added x (Request.runAll qs s).1 := by
  induction qs generalizing s h with
  | nil => exact ⟨hr, fun _ => rfl⟩
  | cons q qs ih =>
    obtain ⟨hn, hfits, hqs⟩ := hqs
    obtain ⟨hanswer, hr'⟩ := hr.run hn hfits
    obtain ⟨hlast, htotal⟩ := ih hr' hqs
    refine ⟨hlast, fun x => ?_⟩
    have hone := h.count_after q x
    have hrest := htotal x
    simp only [Request.runAll, Request.taken, Request.added, hanswer, Holding.afterAll,
      List.foldl_cons] at hrest ⊢
    omega

end Represents

namespace Request

theorem besides_run (q : Request) (s : State) :
    (q.run s).2.inventory.besides (some q.id) = s.inventory.besides (some q.id) := by
  cases q with
  | add id n => exact besides_add id n s.inventory
  | remove id n =>
    rw [run, State.removeItem?]
    cases hrest : s.inventory.remove? id n with
    | none => rfl
    | some rest => exact besides_remove? hrest

theorem run_frame (q : Request) (s : State) :
    (q.run s).2 = { s with inventory := (q.run s).2.inventory } := by
  cases q with
  | add id n => rfl
  | remove id n =>
    rw [run, State.removeItem?]
    cases s.inventory.remove? id n <;> rfl

theorem runAll_frame (qs : List Request) (s : State) :
    (runAll qs s).2 = { s with inventory := (runAll qs s).2.inventory } := by
  induction qs generalizing s with
  | nil => rfl
  | cons q qs ih =>
    let inventory := (runAll (q :: qs) s).2.inventory
    calc (runAll (q :: qs) s).2
      _ = { (q.run s).2 with inventory } := ih (q.run s).2
      _ = { s with inventory } := congrArg (fun t : State => { t with inventory }) (q.run_frame s)

theorem run_add (s : State) (id : String) (n : UInt32) (hs : s.inventory.Tidy) :
    ((add id n).run s).1 = true ↔ 0 < s.itemCount id := by
  rw [run, holds_iff, State.itemCount, hs.count_pos_iff]

/-- More than is held is refused, and nothing else is. -/
theorem run_remove (s : State) (id : String) (hs : s.inventory.Tidy) (hn : n ≠ 0) :
    (((remove id n).run s).1 = false ↔ s.itemCount id < n.toNat) ∧
      (((remove id n).run s).1 = false → ((remove id n).run s).2 = s) := by
  have hheld : (s.inventory.remove? id n).isSome = true ↔ n.toNat ≤ s.inventory.count id :=
    remove?_isSome_iff hs.distinct hn
  rw [run, State.removeItem?, State.itemCount, ← Nat.not_le, ← hheld]
  cases s.inventory.remove? id n <;> simp

theorem run_remove_add (s : State) (id : String) (hs : s.inventory.Tidy)
    (h : s.itemCount id + n.toNat ≤ fullStack) :
    (remove id n).run ((add id n).run s).2 = (true, s) := by
  rw [run, run, State.removeItem?, State.addItem, remove?_add hs h]
  rfl

end Request

/-- The inventory is an ordered multiset. After all requests it has one stack of each item that is
held, with the count that was there at first and was added, less what was taken, in the order in
which the items last came to be held. Then an item to be added is answered with whether it is held,
items are refused only where there are too few, which changes nothing, other items stay as they are,
and what was added can be taken again. -/
theorem inventory_multiset {qs : List Request} (hs : s.inventory.Tidy)
    (hqs : (Holding.ofInventory s.inventory).Fits qs) :
    let h := (Holding.ofInventory s.inventory).afterAll qs
    let told := (Request.runAll qs s).1
    let t := (Request.runAll qs s).2
    t.inventory.Tidy ∧ t = { s with inventory := t.inventory } ∧
      (∀ x, t.itemCount x = h.count x ∧ t.itemCount x ≤ fullStack ∧
        t.itemCount x + Request.taken x told = s.itemCount x + Request.added x told) ∧
      (t.inventory.map (·.id)).Pairwise (fun x y => h.since x < h.since y) ∧
      (∀ q : Request, (q.run t).2 = { t with inventory := (q.run t).2.inventory } ∧
        (q.run t).2.inventory.besides (some q.id) = t.inventory.besides (some q.id)) ∧
      ∀ (id : String) (n : UInt32), n ≠ 0 →
        (((Request.add id n).run t).1 = true ↔ 0 < t.itemCount id) ∧
        (((Request.remove id n).run t).1 = false ↔ t.itemCount id < n.toNat) ∧
        (((Request.remove id n).run t).1 = false → ((Request.remove id n).run t).2 = t) ∧
        (t.itemCount id + n.toNat ≤ fullStack →
          (Request.remove id n).run ((Request.add id n).run t).2 = (true, t)) := by
  intro h told t
  obtain ⟨hr, htotal⟩ := hs.represents.runAll hqs
  have htidy : t.inventory.Tidy := hr.tidy
  refine ⟨htidy, Request.runAll_frame qs s,
    fun x => ⟨hr.count x, count_le htidy.distinct x, ?_⟩, hr.ordered,
    fun q => ⟨q.run_frame t, q.besides_run t⟩, fun id n hn => ⟨Request.run_add t id n htidy, ?_⟩⟩
  · rw [State.itemCount, hr.count]
    exact htotal x
  · obtain ⟨hrefused, hsame⟩ := Request.run_remove t id htidy hn
    exact ⟨hrefused, hsame, Request.run_remove_add t id htidy⟩

/-- Apples that are used up and found again stand behind the rope, of which some are refused
meanwhile. -/
theorem inventory_multiset_apples :
    let s : State := { inventory := [⟨"apple", 2⟩, ⟨"rope", 1⟩] }
    let qs : List Request := [.remove "apple" 2, .remove "rope" 3, .add "apple" 4, .add "rope" 5]
    let t := (Request.runAll qs s).2
    s.inventory.Tidy ∧ (Holding.ofInventory s.inventory).Fits qs ∧
      t.inventory = [⟨"rope", 6⟩, ⟨"apple", 4⟩] ∧
      t.itemCount "apple" + 2 = s.itemCount "apple" + 4 ∧
      (Request.remove "apple" 5).run t = (false, t) ∧
      (Request.remove "pear" 3).run ((Request.add "pear" 3).run t).2 = (true, t) := by
  intro s qs t
  have hs : s.inventory.Tidy := ⟨by decide, by decide⟩
  have hqs : (Holding.ofInventory s.inventory).Fits qs :=
    ⟨by decide, by decide, by decide, by decide, by decide, by decide, by decide,
      by decide, trivial⟩
  obtain ⟨-, -, hcount, -, -, hnext⟩ := inventory_multiset hs hqs
  obtain ⟨-, hfew, hsame, -⟩ := hnext "apple" 5 (by decide)
  obtain ⟨-, -, -, hback⟩ := hnext "pear" 3 (by decide)
  have hrefused := hfew.mpr (by decide)
  exact ⟨hs, hqs, by decide, (hcount "apple").2.2, Prod.ext hrefused (hsame hrefused),
    hback (by decide)⟩

end Inventory

end Narrative
