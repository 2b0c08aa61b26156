import Narrative.Addon.Manager

/-! The add-ons that a manager knows stand under their own ids, whatever is asked of it. -/

namespace Narrative

namespace Manager

/-- Every add-on stands under its own id. -/
def Keyed (m : Manager) : Prop :=
  ∀ entry ∈ m.addons.entries, entry.2.id = entry.1

theorem keyed_ofList (as : List Addon) :
    ∀ entry ∈ (Dict.ofList (as.map fun a => (a.id, a))).entries, entry.2.id = entry.1 := by
  have hfold : ∀ (as : List Addon) (d : Dict Addon), (∀ entry ∈ d.entries, entry.2.id = entry.1) →
      ∀ entry ∈ ((as.map fun a => (a.id, a)).foldl (fun d e => d.insert e.1 e.2) d).entries,
        entry.2.id = entry.1 := by
    intro as
    induction as with
    | nil => exact fun d hd => hd
    | cons a as ih =>
      intro d hd
      refine ih _ fun entry hentry => ?_
      rcases Dict.mem_place hentry with rfl | hmem
      · rfl
      · exact hd entry hmem
  exact hfold as ∅ fun _ h => nomatch h

end Manager

def Managing.KeepsKeyed {α : Type} (a : Managing α) : Prop :=
  ∀ m d, m.Keyed → (a m d).1.2.Keyed

theorem Managing.bind_run {α β : Type} (a : Managing α) (f : α → Managing β) (m : Manager)
    (d : Disk) :
    (a >>= f) m d = match a m d with
      | ((.ok x, m'), d') => f x m' d'
      | ((.error e, m'), d') => ((.error e, m'), d') := by
  show ExceptT.bindCont f (a m d).1.1 (a m d).1.2 (a m d).2 = _
  rcases a m d with ⟨⟨_ | x, m'⟩, d'⟩ <;> rfl

namespace Managing.KeepsKeyed

variable {α β : Type}

theorem bind {a : Managing α} {f : α → Managing β} (ha : KeepsKeyed a)
    (hf : ∀ x, KeepsKeyed (f x)) : KeepsKeyed (a >>= f) := by
  intro m d hm
  have h := ha m d hm
  rw [bind_run]
  rcases hd : a m d with ⟨⟨r | x, m'⟩, d'⟩
  · simpa [hd] using h
  · rw [hd] at h
    exact hf x m' d' h

theorem installing (a : Addon.Installing α) : KeepsKeyed (Managing.installing a) :=
  fun _ _ hm => hm

theorem disk (a : Storage DiskFault α) : KeepsKeyed (Managing.disk a) :=
  fun _ _ hm => hm

theorem pure (x : α) : KeepsKeyed (Pure.pure x : Managing α) :=
  fun _ _ hm => hm

theorem get_bind {f : Manager → Managing β} (hf : ∀ m, m.Keyed → KeepsKeyed (f m)) :
    KeepsKeyed (get >>= f) :=
  fun m d hm => hf m hm m d hm

theorem set {m : Manager} (h : m.Keyed) : KeepsKeyed (MonadStateOf.set m : Managing PUnit) :=
  fun _ _ _ => h

theorem modify {f : Manager → Manager} (hf : ∀ m, m.Keyed → (f m).Keyed) :
    KeepsKeyed (modify f : Managing PUnit) :=
  fun m _ hm => hf m hm

end Managing.KeepsKeyed

namespace Manager

open Managing (KeepsKeyed)

theorem discover_keyed : KeepsKeyed discover := by
  unfold discover
  refine .get_bind fun m _ => .bind (.disk _) fun _ => .bind (.set fun _ h => nomatch h) fun _ => ?_
  refine .bind (.disk _) fun d => .bind (.disk _) fun names => .set ?_
  exact keyed_ofList (names.filterMap (find? d m.dir m.preferences))

theorem save_keyed : KeepsKeyed save := by
  unfold save
  exact .get_bind fun m hm => .bind (.set hm) fun _ => .disk _

theorem known_bind {α : Type} {id : String} {f : Addon → Managing α}
    (h : ∀ a, a.id = id → KeepsKeyed (f a)) : KeepsKeyed (known id >>= f) := by
  intro m d hm
  have hget (g : Manager → Managing Addon) : (get >>= g) m d = g m m d := rfl
  have hbind : (known id >>= f) m d
      = ExceptT.bindCont f (known id m d).1.1 (known id m d).1.2 (known id m d).2 := rfl
  cases hid : m.get? id with
  | none =>
    have hknown : known id m d = ((.error (.unknown id), m), d) := by
      rw [known, hget, hid]
      rfl
    rw [hbind, hknown]
    exact hm
  | some a =>
    have hknown : known id m d = ((.ok a, m), d) := by
      rw [known, hget, hid]
      rfl
    rw [hbind, hknown]
    refine h a ?_ m d hm
    obtain ⟨entry, hentry, rfl⟩ := Option.map_eq_some_iff.mp hid
    have hkey : entry.1 = id := by simpa using List.find?_some hentry
    rw [hm entry (List.mem_of_find?_eq_some hentry), hkey]

theorem choose_keyed (id : String) (f : Preference → Preference) : KeepsKeyed (choose id f) := by
  unfold choose
  refine known_bind fun a ha => .bind (.modify fun m hm entry hentry => ?_) fun _ => save_keyed
  rcases Dict.mem_place hentry with rfl | hmem
  · exact ha
  · exact hm entry hmem

theorem delete_keyed (id : String) : KeepsKeyed (delete id) := by
  unfold delete
  refine known_bind fun a _ => .bind (.disk _) fun _ => .bind (.modify fun m hm entry hentry => ?_)
    fun _ => save_keyed
  exact hm entry (List.mem_filter.mp hentry).1

theorem install_keyed (archive : Path) : KeepsKeyed (install archive) := by
  unfold install
  exact .get_bind fun m _ => .bind (.installing _) fun id => .bind discover_keyed fun _ => .pure id

theorem open?_keyed {dir file : Path} {d : Disk} {m : Manager} (h : (open? dir file d).1 = .ok m) :
    m.Keyed := by
  let opened : Manager := { dir, file, preferences := readPreferences d file }
  have hkeyed := discover_keyed opened d fun _ h => nomatch h
  have hopen : (open? dir file d).1 = (discover opened d).1.1.map fun _ =>
    (discover opened d).1.2 := rfl
  rw [hopen] at h
  cases hr : (discover opened d).1.1 with
  | error e =>
    rw [hr] at h
    cases h
  | ok u =>
    rw [hr] at h
    cases h
    exact hkeyed

inductive Request where
  | discover
  | toggle (id : String) (enabled : Bool)
  | setPriority (id : String) (priority : Int64)
  | delete (id : String)
  | install (archive : Path)

/-- The manager after a request on the store as it is then, whether the request failed or not. -/
def handle (m : Manager) : Disk × Request → Manager
  | (d, .discover) => (discover m d).1.2
  | (d, .toggle id enabled) => (toggle id enabled m d).1.2
  | (d, .setPriority id priority) => (setPriority id priority m d).1.2
  | (d, .delete id) => (delete id m d).1.2
  | (d, .install archive) => (install archive m d).1.2

theorem handle_keyed {m : Manager} (hm : m.Keyed) (q : Disk × Request) : (m.handle q).Keyed := by
  obtain ⟨d, q⟩ := q
  cases q with
  | discover => exact discover_keyed m d hm
  | toggle id enabled => exact choose_keyed id _ m d hm
  | setPriority id priority => exact choose_keyed id _ m d hm
  | delete id => exact delete_keyed id m d hm
  | install archive => exact install_keyed archive m d hm

/-- A manager that was opened keeps its add-ons under their ids, whatever is asked of it and
whatever else happens to the store. -/
theorem run_keyed {dir file : Path} {d : Disk} {m : Manager} (h : (open? dir file d).1 = .ok m)
    (requests : List (Disk × Request)) : (requests.foldl handle m).Keyed := by
  have hm := open?_keyed h
  clear h
  induction requests generalizing m with
  | nil => exact hm
  | cons q requests ih => exact ih (handle_keyed hm q)

end Manager

end Narrative
