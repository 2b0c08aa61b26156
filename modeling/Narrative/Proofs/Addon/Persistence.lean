import Narrative.Proofs.Addon.Synced
import Narrative.Proofs.World.Resolution

/-! What was chosen for add-ons outlasts the manager. A manager that is opened anew knows what the
one before it knew, whatever that one was asked. -/

namespace Narrative

namespace Manager

variable {m m' : Manager} {d d₁ d' : Disk} {dir file : Path} {id : String} {u : Unit} {q : Request}
  {qs : List Request}

/-- A request as an action. -/
def Request.perform : Request → Managing Unit
  | .discover => Manager.discover
  | .toggle id enabled => Manager.toggle id enabled
  | .setPriority id priority => Manager.setPriority id priority
  | .delete id => Manager.delete id
  | .install archive => do
    let _ ← Manager.install archive

/-- Whether a request changes the choice for an add-on. -/
def Request.Chooses (id : String) : Request → Prop
  | .toggle id' _ => id' = id
  | .setPriority id' _ => id' = id
  | _ => False

def Request.chosen : Request → Preference → Preference
  | .toggle _ enabled, p => { p with enabled }
  | .setPriority _ priority, p => { p with priority }
  | _, p => p

theorem Request.Chooses.perform_eq (hq : q.Chooses id) :
    q.perform = Manager.choose id q.chosen := by
  cases q with
  | toggle id' enabled =>
    obtain rfl : id' = id := hq
    rfl
  | setPriority id' priority =>
    obtain rfl : id' = id := hq
    rfl
  | discover => exact hq.elim
  | delete id' => exact hq.elim
  | install archive => exact hq.elim

/-- Requests that succeed one after the other, each on the store as the one before it left it. -/
inductive Runs : Manager → Disk → List Request → Manager → Disk → Prop where
  | nil {m : Manager} {d : Disk} : Runs m d [] m d
  | cons {m m₁ m' : Manager} {d d₁ d' : Disk} {q : Request} {qs : List Request}
      (first : q.perform m d = ((.ok (), m₁), d₁))
      (rest : Runs m₁ d₁ qs m' d') : Runs m d (q :: qs) m' d'

theorem perform_install_inv {archive : Path}
    (h : (Request.install archive).perform m d = ((.ok u, m'), d')) :
    ∃ id, Manager.install archive m d = ((.ok id, m'), d') := by
  rw [Request.perform, Managing.bind_run] at h
  rcases hi : Manager.install archive m d with ⟨⟨e | id, m₁⟩, d₂⟩ <;> rw [hi] at h <;> cases h
  exact ⟨id, rfl⟩

theorem Synced.perform (h : m.Synced d) (hok : q.perform m d = ((.ok u, m'), d')) :
    m'.Synced d' ∧ m'.dir = m.dir ∧ m'.file = m.file := by
  cases q with
  | discover =>
    obtain ⟨hs, hdir, hfile, -⟩ := h.discover hok
    exact ⟨hs, hdir, hfile⟩
  | toggle id enabled => exact h.choose (f := fun p => { p with enabled }) hok
  | setPriority id priority => exact h.choose (f := fun p => { p with priority }) hok
  | delete id => exact h.delete hok
  | install archive =>
    obtain ⟨id, hinstall⟩ := perform_install_inv hok
    obtain ⟨hs, hdir, hfile, -⟩ := h.install hinstall
    exact ⟨hs, hdir, hfile⟩

theorem Synced.runs (h : m.Synced d) (hruns : Runs m d qs m' d') :
    m'.Synced d' ∧ m'.dir = m.dir ∧ m'.file = m.file := by
  induction hruns with
  | nil => exact ⟨h, rfl, rfl⟩
  | cons first rest ih =>
    obtain ⟨hs, hdir, hfile⟩ := h.perform first
    obtain ⟨hs', hdir', hfile'⟩ := ih hs
    exact ⟨hs', hdir'.trans hdir, hfile'.trans hfile⟩

/-- An add-on for which nothing is chosen stays so until something is chosen for it. -/
theorem Synced.undecided_perform (h : m.Synced d) (hid : m.preferences.getD id {} = {})
    (hq : ¬ q.Chooses id)
    (hok : q.perform m d = ((.ok u, m'), d')) : m'.preferences.getD id {} = {} := by
  have hknown : ((m.addons.get? id).map (·.preference)).getD {} = {} := by
    cases ha : m.addons.get? id with
    | none => rfl
    | some a => exact (h.preference ha).trans hid
  have hchoose : ∀ id' f, id' ≠ id → Manager.choose id' f m d = ((.ok u, m'), d') →
      m'.preferences.getD id {} = {} := by
    intro id' f hne hok
    obtain ⟨a, -, hsave⟩ := choose_inv hok
    rw [(save_inv hsave).1, Dict.getD, Dict.get?_mapValues, Dict.get?_insert, if_neg hne.symm]
    exact hknown
  cases q with
  | discover => rw [(h.discover hok).2.2.2, hid]
  | toggle id' enabled => exact hchoose id' (fun p => { p with enabled }) hq hok
  | setPriority id' priority => exact hchoose id' (fun p => { p with priority }) hq hok
  | delete id' =>
    obtain ⟨a, d₁, -, -, hsave⟩ := delete_inv hok
    rw [(save_inv hsave).1, Dict.getD, Dict.get?_mapValues, Dict.get?_erase]
    split
    · rfl
    · exact hknown
  | install archive =>
    obtain ⟨x, hinstall⟩ := perform_install_inv hok
    rw [(h.install hinstall).2.2.2, hid]

theorem Synced.undecided_runs (h : m.Synced d) (hid : m.preferences.getD id {} = {})
    (hqs : ∀ q ∈ qs, ¬ q.Chooses id)
    (hruns : Runs m d qs m' d') : m'.preferences.getD id {} = {} := by
  induction hruns with
  | nil => exact hid
  | cons first rest ih =>
    obtain ⟨hq, hqs⟩ := List.forall_mem_cons.mp hqs
    exact ih (h.perform first).1 (h.undecided_perform hid hq first) hqs

theorem undecided_of_delete (h : Manager.delete id m d = ((.ok u, m'), d')) :
    m'.preferences.getD id {} = {} := by
  obtain ⟨a, d₁, -, -, hsave⟩ := delete_inv h
  rw [(save_inv hsave).1, Dict.getD, Dict.get?_mapValues, Dict.get?_erase, if_pos rfl]
  rfl

theorem active_perm (m : Manager) : m.active.Perm (m.addons.values.filter (·.preference.enabled)) :=
  (List.mergeSort_perm _ _).filter _

/-- What was chosen for the add-ons outlasts the manager. After requests that all succeed, a manager
opened anew on the directory and the file is the one that there was; looking for the add-ons anew
changes nothing, and installing one changes no choice; an add-on that was deleted comes back
undecided; and what is turned on is listed in the order of loading. The working directory must not
be in an add-on, and the path of the file must not need what the directory of add-ons holds, nor
directories that are missing at first. -/
theorem persistent {dir file : Path} {d₀ d₁ d : Disk} {m₀ m : Manager} {qs : List Request}
    (hreg : d₀.Regular) (hstart : ¬ d₀.Inside dir (d₀.start dir)) (hapart : d₀.Apart dir file)
    (hopen : Manager.open? dir file d₀ = (.ok m₀, d₁)) (hruns : Runs m₀ d₁ qs m d) :
    (∃ d', Manager.open? dir file d = (.ok m, d')) ∧
    (∃ d', Manager.discover m d = ((.ok (), m), d')) ∧
    (∀ archive id m' d', Manager.install archive m d = ((.ok id, m'), d') →
      ∀ n a a', m.get? n = some a → m'.get? n = some a' → a'.preference = a.preference) ∧
    (∀ id m₁ d₂ qs m' d', Manager.delete id m d = ((.ok (), m₁), d₂) → (∀ q ∈ qs, ¬ q.Chooses id) →
      Runs m₁ d₂ qs m' d' → ∀ a, m'.get? id = some a → a.preference = {}) ∧
    m.active.Perm (m.addons.values.filter (·.preference.enabled)) ∧
    m.active.Pairwise fun a b => a.before b = true := by
  obtain ⟨hs₀, hdir₀, hfile₀⟩ := Aligned.open? hreg hstart hapart hopen
  obtain ⟨hs, hdir, hfile⟩ := hs₀.runs hruns
  refine ⟨?_, hs.discover_same m.addons, ?_, ?_, m.active_perm, m.active_pairwise⟩
  · rw [← hdir₀, ← hfile₀, ← hdir, ← hfile]
    exact hs.open?
  · exact fun archive id m' d' hok n a a' ha ha' => hs.preference_of_install hok ha ha'
  · intro id m₁ d₂ qs m' d' hdelete hqs hruns' a ha
    have hs₁ := (hs.delete hdelete).1
    rw [(hs₁.runs hruns').1.preference ha]
    exact hs₁.undecided_runs (undecided_of_delete hdelete) hqs hruns'

def stocked (choices : String) : Disk :=
  let stock : Storage DiskFault Unit := do
    Disk.makeDir ⟨"mods/x"⟩
    Disk.write ⟨"mods/x/mod.toml"⟩ (.text "[metadata]\nname = \"X\"\n")
    Disk.write ⟨"mods.json"⟩ (.text choices)
  (stock ⟨.dir [], []⟩).2

theorem regular_stocked (choices : String) : (stocked choices).Regular :=
  Disk.KeepsRegular.bind (Disk.keepsRegular_makeDir _)
    (fun _ => .bind (Disk.keepsRegular_write _ _) fun _ => Disk.keepsRegular_write _ _) _
      (Disk.regular_empty [])

def opened (dir file : Path) (d : Disk) : Manager :=
  ((Manager.open? dir file d).1.toOption).getD { dir, file }

theorem open?_opened (h : (Manager.open? dir file d).1.isOk = true) :
    Manager.open? dir file d = (.ok (opened dir file d), (Manager.open? dir file d).2) := by
  rcases hd : Manager.open? dir file d with ⟨e | m, d'⟩
  · rw [hd] at h
    cases h
  · rw [opened, hd]
    rfl

theorem runs_toggle {enabled : Bool} (h : (toggle id enabled m d).1.1.isOk = true) :
    Runs m d [.toggle id enabled] (toggle id enabled m d).1.2 (toggle id enabled m d).2 := by
  have hok : (toggle id enabled m d).1.1 = .ok () := eq_ok_of_isOk h
  exact .cons (Prod.ext (Prod.ext hok rfl) rfl) .nil

theorem persistent_toggled :
    let dir : Path := ⟨"mods"⟩
    let file : Path := ⟨"mods.json"⟩
    let d₀ := stocked "no choices"
    let m₀ := opened dir file d₀
    let d₁ := (Manager.open? dir file d₀).2
    let m := (toggle "x" true m₀ d₁).1.2
    let d := (toggle "x" true m₀ d₁).2
    d₀.Regular ∧ ¬ d₀.Inside dir (d₀.start dir) ∧ d₀.Apart dir file ∧
      Manager.open? dir file d₀ = (.ok m₀, d₁) ∧
      Runs m₀ d₁ [.toggle "x" true] m d ∧ (m.get? "x").map (·.preference.enabled) = some true ∧
      ∃ d', Manager.open? dir file d = (.ok m, d') := by
  intro dir file d₀ m₀ d₁ m d
  have hreg : d₀.Regular := regular_stocked _
  have hstart : ¬ d₀.Inside dir (d₀.start dir) := fun h => absurd h.1 (by decide +kernel)
  have hapart : d₀.Apart dir file := .of_steps (by decide +kernel) (by decide +kernel)
  have hopen : Manager.open? dir file d₀ = (.ok m₀, d₁) := open?_opened (by decide +kernel)
  have hruns : Runs m₀ d₁ [.toggle "x" true] m d := runs_toggle (by decide +kernel)
  exact ⟨hreg, hstart, hapart, hopen, hruns, by decide +kernel,
    (persistent hreg hstart hapart hopen hruns).1⟩

/-- A directory that is missing on the way to the file is made after the file was looked for. A
manager that is opened anew can read the choices that the first one could not. -/
theorem not_persistent_missing :
    let dir : Path := ⟨"a/../mods"⟩
    let file : Path := ⟨"a/../mods.json"⟩
    let d₀ := stocked "\x7b\"x\": \x7b\"enabled\": true, \"priority\": 5\x7d\x7d"
    let d₁ := (Manager.open? dir file d₀).2
    d₀.place dir = ["mods"] ∧ d₀.place file = ["mods.json"] ∧
      Manager.open? dir file d₀ = (.ok (opened dir file d₀), d₁) ∧
      Manager.open? dir file d₁ = (.ok (opened dir file d₁), (Manager.open? dir file d₁).2) ∧
      ((opened dir file d₀).get? "x").map (·.preference) = some {} ∧
      ((opened dir file d₁).get? "x").map (·.preference) = some ⟨true, 5⟩ := by
  intro dir file d₀ d₁
  exact ⟨by decide +kernel, by decide +kernel, open?_opened (by decide +kernel),
    open?_opened (by decide +kernel),
    by decide +kernel, by decide +kernel⟩

end Manager

end Narrative
