import Narrative.Proofs.Addon.Installed
import Narrative.Proofs.Addon.Persistence

/-! What a manager knows after an installation: the add-on if its manifest can be read, and of the
others those of which the manifests can still be read, with the choices that it had for them. -/

namespace Narrative

namespace Manager

variable {m m' : Manager} {d d' : Disk} {dir file : Path} {id : String} {q : Disk × Request}
  {u : Unit}

/-- The choices with which add-ons are known are those that the manager keeps. -/
def Agreed (m : Manager) : Prop :=
  ∀ n a, m.addons.get? n = some a → a.preference = m.preferences.getD n {}

theorem agreed_findAll (m : Manager) (d : Disk) (names : List String) :
    ({ m with addons := findAll d m.dir m.preferences names } : Manager).Agreed := by
  intro n a ha
  have ha : (findAll d m.dir m.preferences names).get? n = some a := ha
  rw [findAll_get?] at ha
  split at ha
  · unfold find? at ha
    dsimp only at ha
    split at ha
    · obtain ⟨x, -, rfl⟩ := Option.map_eq_some_iff.mp ha
      rfl
    · cases ha
  · cases ha

theorem discover_agreed (h : m.Agreed) (d : Disk) : (discover m d).1.2.Agreed := by
  rw [discover_run]
  rcases Disk.makeDir m.dir d with ⟨e | u, d'⟩
  · exact h
  · dsimp only
    cases d'.names m.dir with
    | error e => exact fun n a ha => by cases ha
    | ok names => exact agreed_findAll m d' names

theorem save_agreed (m : Manager) (d : Disk) : (save m d).1.2.Agreed := by
  rw [save_run]
  intro n a ha
  have ha : m.addons.get? n = some a := ha
  show a.preference = (m.addons.mapValues (·.preference)).getD n {}
  rw [Dict.getD, Dict.get?_mapValues, ha]
  rfl

theorem choose_agreed (h : m.Agreed) (id : String) (f : Preference → Preference) (d : Disk) :
    (choose id f m d).1.2.Agreed := by
  rw [choose_run]
  cases m.addons.get? id with
  | none => exact h
  | some a => exact save_agreed _ d

theorem delete_agreed (h : m.Agreed) (id : String) (d : Disk) : (delete id m d).1.2.Agreed := by
  rw [delete_run]
  cases m.addons.get? id with
  | none => exact h
  | some a =>
    dsimp only
    rcases Disk.removeDir a.path d with ⟨e | u, d'⟩
    · exact h
    · exact save_agreed _ d'

theorem install_run (archive : Path) (m : Manager) (d : Disk) :
    install archive m d = match Addon.install archive m.dir d with
      | (.error e, d') => ((.error e, m), d')
      | (.ok id, d') => (discover >>= fun _ => pure id) m d' := by
  have hget (f : Manager → Managing String) : (get >>= f) m d = f m m d := rfl
  have hinstalling : Managing.installing (Addon.install archive m.dir) m d
      = (((Addon.install archive m.dir d).1, m), (Addon.install archive m.dir d).2) := rfl
  rw [install, hget, Managing.bind_run, hinstalling]
  rcases Addon.install archive m.dir d with ⟨e | id, d'⟩ <;> rfl

theorem install_agreed (h : m.Agreed) (archive : Path) (d : Disk) :
    (install archive m d).1.2.Agreed := by
  rw [install_run]
  rcases Addon.install archive m.dir d with ⟨e | id, d'⟩
  · exact h
  · have hm := discover_agreed h d'
    dsimp only
    rw [Managing.bind_run]
    rcases hd : discover m d' with ⟨⟨e | u, m'⟩, d''⟩ <;> rw [hd] at hm <;> exact hm

theorem handle_agreed (h : m.Agreed) (q : Disk × Request) : (m.handle q).Agreed := by
  obtain ⟨d, q⟩ := q
  cases q with
  | discover => exact discover_agreed h d
  | toggle id enabled => exact choose_agreed h id _ d
  | setPriority id priority => exact choose_agreed h id _ d
  | delete id => exact delete_agreed h id d
  | install archive => exact install_agreed h archive d

/-- The choices agree in a manager that was opened, whatever is asked of it and whatever else
happens to the store. -/
theorem run_agreed (h : (open? dir file d).1 = .ok m) (requests : List (Disk × Request)) :
    (requests.foldl handle m).Agreed := by
  have hm : m.Agreed := by
    have hempty : Agreed { dir, file, preferences := readPreferences d file } :=
      fun n a ha => by cases ha
    have hagreed := discover_agreed hempty d
    rcases hd : discover { dir, file, preferences := readPreferences d file } d with ⟨⟨r, m'⟩, d'⟩
    rw [open?_of_discover hd] at h
    rw [hd] at hagreed
    cases r with
    | error e => cases h
    | ok u =>
      cases h
      exact hagreed
  clear h
  induction requests generalizing m with
  | nil => exact hm
  | cons q requests ih => exact ih (handle_agreed hm q)

/-- A manager that was opened at some time, whatever was asked of it since. -/
def Reached (m : Manager) : Prop :=
  ∃ (dir file : Path) (d : Disk) (m₀ : Manager) (requests : List (Disk × Request)),
    (open? dir file d).1 = .ok m₀ ∧ m = requests.foldl handle m₀

theorem Reached.agreed (h : m.Reached) : m.Agreed := by
  obtain ⟨dir, file, d, m₀, requests, hopen, rfl⟩ := h
  exact run_agreed hopen requests

theorem mapError_ne_unknown {α : Type} (r : Except DiskFault α) (n : String) :
    r.mapError AddonError.io ≠ .error (.unknown n) := by
  cases r with
  | error e => exact fun h => by cases h
  | ok a => exact fun h => by cases h

theorem save_ne_unknown (m : Manager) (d : Disk) (n : String) :
    (save m d).1.1 ≠ .error (.unknown n) := by
  rw [save_run]
  exact mapError_ne_unknown _ n

theorem choose_ne_unknown (h : m.get? id ≠ none) (f : Preference → Preference) (d : Disk)
    (n : String) : (choose id f m d).1.1 ≠ .error (.unknown n) := by
  obtain ⟨a, ha⟩ := Option.ne_none_iff_exists'.mp h
  have ha : m.addons.get? id = some a := ha
  rw [choose_run, ha]
  exact save_ne_unknown _ d n

theorem delete_ne_unknown (h : m.get? id ≠ none) (d : Disk) (n : String) :
    (delete id m d).1.1 ≠ .error (.unknown n) := by
  obtain ⟨a, ha⟩ := Option.ne_none_iff_exists'.mp h
  have ha : m.addons.get? id = some a := ha
  rw [delete_run, ha]
  dsimp only
  rcases Disk.removeDir a.path d with ⟨e | u, d'⟩
  · exact fun h => by cases h
  · exact save_ne_unknown _ d' n

theorem found_of_install {archive : Path} (h : install archive m d = ((.ok id, m'), d'))
    (hreg : d.Regular) : ∃ d₁, Addon.install archive m.dir d = (.ok id, d₁) ∧
      (∀ l c, d'.seen? l = some (some c) ↔ d₁.seen? l = some (some c)) ∧ d'.working = d.working ∧
        d'.Regular ∧
      d'.IsOpen m.dir ∧ ∀ n, m'.get? n = found? d' m.dir m.preferences n := by
  obtain ⟨d₁, hinstall, hdiscover⟩ := install_inv h
  obtain ⟨hmake, hopen, names, hnames, rfl⟩ := discover_inv hdiscover
  have hconf := Addon.install_confined_dir archive m.dir d
  have hreg₁ := Addon.keepsRegular_install archive m.dir d hreg
  rw [hinstall] at hconf hreg₁
  have hmade := Disk.makeDir_confined m.dir d₁
  have hreg' := Disk.keepsRegular_makeDir m.dir d₁ hreg₁
  rw [hmake] at hmade hreg'
  exact ⟨d₁, hinstall, fun l c => hmade.file_iff fun h => h, hmade.working.trans hconf.working,
    hreg', hopen,
    fun n => findAll_names hopen hreg' hnames n⟩

theorem install_known {archive : Path} (hm : m.Reached) (hreg : d.Regular)
    (hinside : ∀ p ∈ Addon.writtenPaths d archive, p.isEnclosed = true)
    (hmanifest : ∃ i ∈ Addon.storedItems d archive, i.content?.isSome = true ∧
      i.path.parts = [.name manifestName])
    (h : install archive m d = ((.ok id, m'), d')) :
    (∃ c, d'.content ((m.dir.join id).join manifestName) = .ok c ∧
      (m'.get? id).isSome = (manifestOf c).isSome) ∧
    (m'.get? id ≠ none → ∀ d₁ n, (∀ enabled, (toggle id enabled m' d₁).1.1 ≠ .error (.unknown n)) ∧
      (∀ priority, (setPriority id priority m' d₁).1.1 ≠ .error (.unknown n)) ∧
      (delete id m' d₁).1.1 ≠ .error (.unknown n)) ∧
    ∀ n a, n ≠ id → m.get? n = some a → (m'.get? n).map (·.preference) =
      if (manifestAt d (d.place m.dir ++ [n, manifestName])).isSome then some a.preference
        else none := by
  obtain ⟨d₁, hinstall, hfile, hwork, hreg', hopen, hfound⟩ := found_of_install h hreg
  obtain ⟨hid, c, hc⟩ := Addon.install_manifest hinside hmanifest hinstall
  have hplace : d'.place m.dir = d.place m.dir := Disk.place_congr hwork m.dir
  have hseen : d'.seen? (d'.place m.dir ++ [id, manifestName]) = some (some c) :=
    hplace ▸ (hfile _ c).mpr hc
  have hname : Disk.IsName id := hreg' _ (by rw [hseen]; simp) id (by simp)
  refine ⟨⟨c, content_manifest hopen hname hseen, ?_⟩, fun hknown d₁ n => ?_, fun n a hne ha => ?_⟩
  · rw [hfound, found?, manifestAt, hseen, Option.isSome_map]
    rfl
  · exact ⟨fun enabled => choose_ne_unknown hknown _ d₁ n,
      fun priority => choose_ne_unknown hknown _ d₁ n,
      delete_ne_unknown hknown d₁ n⟩
  · have hconf := Addon.install_confined archive m.dir d hinside
    rw [hinstall] at hconf
    have hout : ¬ ∃ id, Addon.idOfArchive? archive = some id ∧
        d.place m.dir ++ [id] <+: d.place m.dir ++ [n, manifestName] := by
      rintro ⟨id', hid', hpre⟩
      obtain rfl := Option.some.inj (hid.symm.trans hid')
      rw [List.prefix_append_right_inj] at hpre
      exact hne (List.cons_prefix_cons.mp hpre).1.symm
    have hsame : manifestAt d' (d'.place m.dir ++ [n, manifestName])
        = manifestAt d (d.place m.dir ++ [n, manifestName]) := by
      rw [hplace]
      exact manifestAt_congr fun c => (hfile _ c).trans (hconf.file_iff hout)
    rw [hfound, found?, hsame, Option.map_map, hm.agreed n a ha]
    cases manifestAt d (d.place m.dir ++ [n, manifestName]) <;> rfl

theorem reached_opened (h : (open? dir file d).1.isOk = true) : (opened dir file d).Reached :=
  ⟨dir, file, d, opened dir file d, [], congrArg Prod.fst (open?_opened h), rfl⟩

theorem toggle_of_unknown (h : m.get? id = none) (enabled : Bool) (d : Disk) :
    (toggle id enabled m d).1.1 = .error (.unknown id) := by
  have h : m.addons.get? id = none := h
  rw [toggle, choose_run, h]

theorem run_eq_ok {α ε σ τ : Type} {r : (Except ε α × σ) × τ} {a : α}
    (h : r.1.1.toOption = some a) : r = ((.ok a, r.1.2), r.2) := by
  rcases r with ⟨⟨e | x, s⟩, t⟩
  · cases h
  · cases h
    rfl

def packedStore : Disk :=
  Addon.packed [("mods/x/mod.toml", .text "[metadata]\n")] [("in/mod.toml", .text "[metadata]\n")]

def packedManager : Manager :=
  opened ⟨"mods"⟩ ⟨"mods.json"⟩ packedStore

def packedRun : (Except AddonError String × Manager) × Disk :=
  install ⟨"packed.zip"⟩ packedManager packedStore

theorem install_known_packed :
    packedManager.Reached ∧ packedStore.Regular ∧
      (∀ p ∈ Addon.writtenPaths packedStore ⟨"packed.zip"⟩, p.isEnclosed = true) ∧
      (∃ i ∈ Addon.storedItems packedStore ⟨"packed.zip"⟩,
        i.content?.isSome = true ∧ i.path.parts = [.name manifestName]) ∧
      packedRun = ((.ok "packed", packedRun.1.2), packedRun.2) ∧
      (∃ c, packedRun.2.content ((packedManager.dir.join "packed").join manifestName) = .ok c) ∧
      (packedRun.1.2.get? "packed").isSome = true ∧
      (toggle "packed" true packedRun.1.2 packedRun.2).1.1 ≠ .error (.unknown "packed") := by
  have hm : packedManager.Reached := reached_opened (by decide +kernel)
  have hreg : packedStore.Regular := Addon.regular_packed _ _
  have hinside : ∀ p ∈ Addon.writtenPaths packedStore ⟨"packed.zip"⟩, p.isEnclosed = true := by
    decide +kernel
  have hmanifest : ∃ i ∈ Addon.storedItems packedStore ⟨"packed.zip"⟩,
      i.content?.isSome = true ∧ i.path.parts = [.name manifestName] := by decide +kernel
  have hr : packedRun = ((.ok "packed", packedRun.1.2), packedRun.2) :=
    run_eq_ok (by decide +kernel)
  have hknown : (packedRun.1.2.get? "packed").isSome = true := by decide +kernel
  obtain ⟨⟨c, hfile, -⟩, hpossible, -⟩ := install_known hm hreg hinside hmanifest hr
  have htoggle := (hpossible (Option.isSome_iff_ne_none.mp hknown) packedRun.2 "packed").1 true
  exact ⟨hm, hreg, hinside, hmanifest, hr, ⟨c, hfile⟩, hknown, htoggle⟩

/-- A store with an add-on `y`, and with an archive of which the manifest cannot be read. -/
def brokenStore : Disk :=
  Addon.packed [("mods/y/mod.toml", .text "[metadata]\n")] [("mod.toml", .text "[metadata\n")]

/-- The archive is installed when the manifest of the add-on cannot be read any more. -/
def brokenRun : (Except AddonError String × Manager) × Disk :=
  install ⟨"packed.zip"⟩ (opened ⟨"mods"⟩ ⟨"mods.json"⟩ brokenStore)
    (Disk.write ⟨"mods/y/mod.toml"⟩ (.text "[metadata\n") brokenStore).2

/-- A manifest that cannot be read makes no add-on known, and an add-on of which the manifest can no
longer be read is forgotten. -/
theorem not_install_known :
    (opened ⟨"mods"⟩ ⟨"mods.json"⟩ brokenStore).Reached ∧
      (opened ⟨"mods"⟩ ⟨"mods.json"⟩ brokenStore).get? "y" ≠ none ∧
      brokenRun = ((.ok "packed", brokenRun.1.2), brokenRun.2) ∧
      brokenRun.1.2.get? "packed" = none ∧ brokenRun.1.2.get? "y" = none ∧
      ∀ enabled, (toggle "packed" enabled brokenRun.1.2 brokenRun.2).1.1 =
        .error (.unknown "packed") := by
  have hunknown : brokenRun.1.2.get? "packed" = none :=
    Option.not_isSome_iff_eq_none.mp (by decide +kernel)
  have hforgotten : brokenRun.1.2.get? "y" = none :=
    Option.not_isSome_iff_eq_none.mp (by decide +kernel)
  exact ⟨reached_opened (by decide +kernel), Option.isSome_iff_ne_none.mp (by decide +kernel),
    run_eq_ok (by decide +kernel), hunknown, hforgotten, fun enabled =>
      toggle_of_unknown hunknown enabled brokenRun.2⟩

end Manager

end Narrative
