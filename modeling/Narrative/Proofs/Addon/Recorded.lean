import Narrative.Proofs.Addon.Known

/-! What a choice for one add-on leaves of the choices for the others. Those that the manager knows
keep theirs, and those that it does not know lose theirs, even if they can be found again later. -/

namespace Narrative

namespace Manager

variable {m m' m₁ : Manager} {d d' d₁ d₂ : Disk} {dir file : Path} {id n : String} {q : Request}
  {p : Preference} {u : Unit}

theorem save_read (h : save m d = ((.ok u, m'), d')) :
    readPreferences d' m.file = m.addons.mapValues (·.preference) := by
  obtain ⟨rfl, hreplace⟩ := save_inv h
  obtain ⟨e, d₂, hr, -⟩ | ⟨d₁, d₂, hr, -, hc, -, -, -⟩ := Disk.replace_cases m.file
    (.text ((m.addons.mapValues (·.preference)).toJson Preference.toJson).pretty) d <;>
      rw [hreplace] at hr <;> cases hr
  exact readPreferences_of_content hc

/-- What is recorded once a choice was made for an add-on: for each of the others, the choice with
which it is known. -/
theorem choose_read {f : Preference → Preference} (h : choose id f m d = ((.ok u, m'), d'))
    (hn : n ≠ id) : (readPreferences d' m.file).get? n = (m.get? n).map (·.preference) := by
  obtain ⟨a, -, hsave⟩ := choose_inv h
  have hread := save_read hsave
  dsimp only at hread
  rw [hread, Dict.get?_mapValues, Dict.get?_insert, if_neg hn, get?]

theorem perform_read (hq : q.Chooses id) (h : q.perform m d = ((.ok u, m'), d')) (hn : n ≠ id) :
    (readPreferences d' m.file).get? n = (m.get? n).map (·.preference) := by
  rw [hq.perform_eq] at h
  exact choose_read h hn

theorem open?_inv (h : open? dir file d = (.ok m, d')) :
    m.file = file ∧ m.preferences = readPreferences d file := by
  rcases hd : discover { dir, file, preferences := readPreferences d file }
    d with ⟨⟨e | v, m₁⟩, d₂⟩ <;>
    rw [open?_of_discover hd] at h <;> cases h
  obtain ⟨-, -, names, -, rfl⟩ := discover_inv hd
  exact ⟨rfl, rfl⟩

/-- After a choice for one add-on, the record has of the others those that the manager knows, each
with the choice that was recorded for it before. A manager that is opened on this record goes by it,
whatever has happened to the add-ons since then. -/
theorem choose_recorded (hm : m.Reached) (hread : readPreferences d m.file = m.preferences)
    (hq : q.Chooses id) (h : q.perform m d = ((.ok u, m'), d')) (hn : n ≠ id)
    (hp : (readPreferences d m.file).get? n = some p) :
    (readPreferences d' m.file).get? n = (m.get? n).map (fun _ => p) ∧
    ∀ dir m₁ d₁ d₂, readPreferences d₁ m.file = readPreferences d' m.file →
      open? dir m.file d₁ = (.ok m₁, d₂) →
      m₁.preferences.get? n = (m.get? n).map (fun _ => p) ∧
      ∀ a, m₁.get? n = some a → a.preference = ((m.get? n).map fun _ => p).getD {} := by
  have hrecord : (readPreferences d' m.file).get? n = (m.get? n).map (fun _ => p) := by
    rw [perform_read hq h hn]
    cases ha : m.get? n with
    | none => rfl
    | some a =>
      have hpref : a.preference = p := by
        rw [hm.agreed n a ha, Dict.getD, ← hread, hp]
        rfl
      rw [Option.map_some, Option.map_some, hpref]
  refine ⟨hrecord, fun dir m₁ d₁ d₂ hsame hopen => ?_⟩
  have hpreferences : m₁.preferences.get? n = (m.get? n).map (fun _ => p) := by
    rw [(open?_inv hopen).2, hsame, hrecord]
  have hagreed : m₁.Agreed := run_agreed (congrArg Prod.fst hopen) []
  refine ⟨hpreferences, fun a ha => ?_⟩
  rw [hagreed n a ha, Dict.getD, hpreferences]

theorem readPreferences_opened (h : (open? dir file d).1.isOk = true) :
    readPreferences d (opened dir file d).file = (opened dir file d).preferences := by
  obtain ⟨hfile, hpreferences⟩ := open?_inv (open?_opened h)
  rw [hfile, hpreferences]

/-- A store with a record of choices for `x`, `y` and `z`, with an add-on `x`, and with this
manifest for `y`. -/
def recorded (manifest : String) : Disk :=
  let choices :=
    "\x7b\"x\": \x7b\x7d, \"y\": \x7b\"enabled\": true, \"priority\": 5\x7d, \"z\": \x7b\x7d\x7d"
  Disk.filled [("mods/x/mod.toml", .text "[metadata]\n"), ("mods/y/mod.toml", .text manifest),
    ("mods.json", .text choices)]

def turnedOn (manifest : String) (d : Disk) : (Except AddonError Unit × Manager) × Disk :=
  (Request.toggle "x" true).perform (opened ⟨"mods"⟩ ⟨"mods.json"⟩ (recorded manifest)) d

theorem choose_recorded_turnedOn :
    let d := recorded "[metadata]\n"
    let m := opened ⟨"mods"⟩ ⟨"mods.json"⟩ d
    let r := turnedOn "[metadata]\n" d
    m.Reached ∧ readPreferences d m.file = m.preferences ∧ (Request.toggle "x" true).Chooses "x" ∧
      r = ((.ok (), r.1.2), r.2) ∧ (readPreferences d m.file).get? "y" = some ⟨true, 5⟩ ∧
      (readPreferences r.2 m.file).get? "y" = (m.get? "y").map (fun _ => ⟨true, 5⟩) ∧
        (m.get? "y").isSome = true := by
  intro d m r
  have hopen : (open? ⟨"mods"⟩ ⟨"mods.json"⟩ d).1.isOk = true := by decide +kernel
  have hr : r = ((.ok (), r.1.2), r.2) := run_eq_ok (by decide +kernel)
  have hq : (Request.toggle "x" true).Chooses "x" := rfl
  have hp : (readPreferences d m.file).get? "y" = some ⟨true, 5⟩ := by decide +kernel
  exact ⟨reached_opened hopen, readPreferences_opened hopen, hq, hr, hp,
    (choose_recorded (reached_opened hopen) (readPreferences_opened hopen) hq hr (by decide) hp).1,
    by decide +kernel⟩

def edited : Disk :=
  (Disk.write ⟨"mods.json"⟩ (.text "\x7b\"y\": \x7b\"priority\": 9\x7d\x7d")
    (recorded "[metadata]\n")).2

/-- The choice for an add-on of which the manifest cannot be read is lost, and it is not there when
the manifest is repaired. A choice that somebody else recorded is lost too, to the one that the
manager has. -/
theorem not_choose_recorded :
    let d := recorded "[metadata\n"
    let m := opened ⟨"mods"⟩ ⟨"mods.json"⟩ d
    let r := turnedOn "[metadata\n" d
    let repaired := (Disk.write ⟨"mods/y/mod.toml"⟩ (.text "[metadata]\n") r.2).2
    let r' := turnedOn "[metadata]\n" edited
    m.Reached ∧ readPreferences d m.file = m.preferences ∧ r = ((.ok (), r.1.2), r.2) ∧
      (readPreferences d m.file).get? "y" = some ⟨true, 5⟩ ∧
        (readPreferences r.2 m.file).get? "y" = none ∧
      ((opened m.dir m.file repaired).get? "y").map (·.preference) = some {} ∧
      r' = ((.ok (), r'.1.2), r'.2) ∧ (readPreferences edited m.file).get? "y" = some ⟨false, 9⟩ ∧
      (readPreferences r'.2 m.file).get? "y" = some ⟨true, 5⟩ := by
  intro d m r repaired r'
  have hopen : (open? ⟨"mods"⟩ ⟨"mods.json"⟩ d).1.isOk = true := by decide +kernel
  exact ⟨reached_opened hopen, readPreferences_opened hopen, run_eq_ok (by decide +kernel),
    by decide +kernel,
    by decide +kernel, by decide +kernel, run_eq_ok (by decide +kernel), by decide +kernel, by
      decide +kernel⟩

end Manager

end Narrative
