import Mathlib.Data.Multiset.ZeroCons
import Narrative.Proofs.Addon.Known

/-! Choices that could not be recorded. The manager makes them all the same, and a manager that is
opened later still reads those that were recorded before. -/

namespace Narrative

namespace Manager

variable {m m' : Manager} {d d' : Disk} {id : String} {q : Request} {a b : Addon} {e : AddonError}

theorem save_error_inv (h : save m d = ((.error e, m'), d')) :
    ∃ fault, e = .io fault ∧ m' = { m with preferences := m.addons.mapValues (·.preference) } ∧
      Disk.replace m.file
        (.text ((m.addons.mapValues (·.preference)).toJson Preference.toJson).pretty) d
        = (.error fault, d') := by
  rw [save_run] at h
  rcases hr : Disk.replace m.file
    (.text ((m.addons.mapValues (·.preference)).toJson Preference.toJson).pretty) d
    with ⟨fault | u, d₁⟩ <;> rw [hr] at h <;> cases h
  exact ⟨fault, rfl, rfl, hr⟩

/-- A choice fails with nothing done if the add-on is not known. Otherwise it fails where it is to
be recorded. -/
theorem choose_error_inv {f : Preference → Preference}
    (h : choose id f m d = ((.error e, m'), d')) :
    m.get? id = none ∧ e = .unknown id ∧ m' = m ∧ d' = d ∨
      ∃ a, m.get? id = some a ∧
        save { m with addons := m.addons.insert id { a with preference := f a.preference } } d
          = ((.error e, m'), d') := by
  rw [choose_run, ← get?] at h
  cases ha : m.get? id with
  | none =>
    rw [ha] at h
    cases h
    exact .inl ⟨rfl, rfl, rfl, rfl⟩
  | some a =>
    rw [ha] at h
    exact .inr ⟨a, rfl, h⟩

theorem all_insert_iff (ha : m.get? id = some a) (hm : m'.addons = m.addons.insert id b) :
    m'.all = m.all ↔ b = a := by
  have hb : m'.addons.get? id = some b := by rw [hm, Dict.get?_insert, if_pos rfl]
  have hothers : m'.addons.erase id = m.addons.erase id := by rw [hm, Dict.erase_insert]
  constructor
  · intro hall
    -- The place in the list may differ, but all the others are in both lists.
    have hvalues : m'.addons.values.Perm m.addons.values :=
      (List.mergeSort_perm _ _).symm.trans ((List.Perm.of_eq hall).trans (List.mergeSort_perm _ _))
    have hcons : (b :: (m.addons.erase id).values).Perm (a :: (m.addons.erase id).values) := by
      rw [← hothers]
      exact (Dict.values_perm hb).symm.trans (hvalues.trans (hothers ▸ Dict.values_perm ha))
    have hsame := Multiset.coe_eq_coe.mpr hcons
    rw [← Multiset.cons_coe, ← Multiset.cons_coe] at hsame
    exact (Multiset.cons_inj_left _).mp hsame
  · rintro rfl
    rw [all, hm, Dict.insert_of_get? ha, all]

/-- What could not be recorded leaves what a manager reads, if the record could be read or the way
to it was passable. A way that is not may have been made passable, before recording failed. -/
theorem readPreferences_of_replace_error {file : Path} {c : Content} {fault : DiskFault}
    (h : Disk.replace file c d = (.error fault, d'))
    (hfile : (d.content file).isOk = true ∨ d.Passable file) :
    readPreferences d' file = readPreferences d file := by
  refine readPreferences_congr fun c' => ⟨fun hc' => ?_, Disk.content_of_replace_error h⟩
  rcases hfile with hok | hpass
  · cases hc : d.content file with
    | ok c =>
      have hsame := Disk.content_of_replace_error h hc
      rw [hc'] at hsame
      cases hsame
      rfl
    | error e =>
      rw [hc] at hok
      cases hok
  · have hwork := Disk.working_of_replace_error h
    refine hpass.content_of hwork hc' ?_
    have hseen := Disk.seen?_of_content hc'
    rw [Disk.place_congr hwork] at hseen
    rcases Disk.seen?_of_replace_error h List.prefix_rfl with he | ⟨-, -, hdir⟩
    · exact he.symm.trans hseen
    · rw [hdir] at hseen
      cases hseen

/-- A choice that fails leaves all as it was if the add-on is not known. Otherwise the file could
not be written, and the manager lists its add-ons as before if and only if the choice was made
already. A manager that is opened later reads what it would have read, if the record could be read
or the way to it was passable. -/
theorem perform_refused (hq : q.Chooses id) (h : q.perform m d = ((.error e, m'), d')) :
    (m.get? id = none → e = .unknown id ∧ m' = m ∧ d' = d) ∧
    (∀ a, m.get? id = some a → (∃ fault, e = .io fault) ∧
      ((m'.all = m.all ∧ m'.active = m.active) ↔ q.chosen a.preference = a.preference)) ∧
    ((d.content m.file).isOk = true ∨ d.Passable m.file →
      readPreferences d' m.file = readPreferences d m.file) := by
  rw [hq.perform_eq] at h
  rcases choose_error_inv h with ⟨hnone, rfl, rfl, rfl⟩ | ⟨a, ha, hsave⟩
  · refine ⟨fun _ => ⟨rfl, rfl, rfl⟩, fun a ha => ?_, fun _ => rfl⟩
    rw [hnone] at ha
    cases ha
  · obtain ⟨fault, rfl, hm, hreplace⟩ := save_error_inv hsave
    refine ⟨fun hnone => ?_, fun b hb => ⟨⟨fault, rfl⟩, ?_⟩,
      readPreferences_of_replace_error hreplace⟩
    · rw [ha] at hnone
      cases hnone
    · obtain rfl := Option.some.inj (ha.symm.trans hb)
      have hall : m'.all = m.all ↔ q.chosen a.preference = a.preference := by
        rw [all_insert_iff ha (congrArg Manager.addons hm)]
        exact ⟨congrArg Addon.preference, fun hp => by rw [hp]⟩
      rw [hall]
      refine and_iff_left_of_imp fun hp => ?_
      rw [active, active, hall.mpr hp]

theorem run_eq_error {α ε σ τ : Type} {r : (Except ε α × σ) × τ} (h : r.1.1.isOk = false) :
    ∃ e, r = ((.error e, r.1.2), r.2) := by
  obtain ⟨e, he⟩ := exists_error_of_isOk h
  exact ⟨e, Prod.ext (Prod.ext he rfl) rfl⟩

/-- A store with an add-on that is turned on in the record, and with a directory where the draft of
a record goes. -/
def blocked : Disk :=
  Disk.filled [("mods/x/mod.toml", .text "[metadata]\n"),
    ("mods.json", .text "\x7b\"x\": \x7b\"enabled\": true, \"priority\": 5\x7d\x7d"),
    ("mods.json.tmp/y", .text "")]

def blockedRun (file : Path) (enabled : Bool) : (Except AddonError Unit × Manager) × Disk :=
  (Request.toggle "x" enabled).perform (opened ⟨"mods"⟩ file blocked) blocked

theorem perform_refused_blocked :
    let m := opened ⟨"mods"⟩ ⟨"mods.json"⟩ blocked
    let r := blockedRun ⟨"mods.json"⟩ true
    (Request.toggle "x" true).Chooses "x" ∧ (∃ e, r = ((.error e, r.1.2), r.2)) ∧
      (m.get? "x").map (·.preference) = some ⟨true, 5⟩ ∧ r.1.2.all = m.all ∧
        r.1.2.active = m.active ∧
      readPreferences r.2 m.file = readPreferences blocked m.file := by
  intro m r
  have hq : (Request.toggle "x" true).Chooses "x" := rfl
  have hx : (m.get? "x").map (·.preference) = some ⟨true, 5⟩ := by decide +kernel
  obtain ⟨e, hr⟩ : ∃ e, r = ((.error e, r.1.2), r.2) := run_eq_error (by decide +kernel)
  obtain ⟨a, ha, hp⟩ := Option.map_eq_some_iff.mp hx
  obtain ⟨-, hknown, hread⟩ := perform_refused hq hr
  have hchosen : (Request.toggle "x" true).chosen a.preference = a.preference := by rw [hp]; rfl
  obtain ⟨hall, hactive⟩ := (hknown a ha).2.mpr hchosen
  exact ⟨hq, ⟨e, hr⟩, hx, hall, hactive, hread (.inr (.of_steps (by decide +kernel)))⟩

/-- An add-on that could not be turned off is off for the manager and on in the record. A manager
that could not read the record, as a directory is missing on the way, makes that directory before it
fails, and then the record is read. -/
theorem not_perform_refused :
    let file : Path := ⟨"mods.json"⟩
    let r := blockedRun file false
    let around : Path := ⟨"a/../mods.json"⟩
    let r' := blockedRun around false
    (∃ e, r = ((.error e, r.1.2), r.2)) ∧ (opened ⟨"mods"⟩ file blocked).active.map (·.id) = ["x"] ∧
      r.1.2.active.map (·.id) = [] ∧ (readPreferences r.2 file).get? "x" = some ⟨true, 5⟩ ∧
      (∃ e, r' = ((.error e, r'.1.2), r'.2)) ∧ (readPreferences blocked around).get? "x" = none ∧
      (readPreferences r'.2 around).get? "x" = some ⟨true, 5⟩ := by
  intro file r around r'
  exact ⟨run_eq_error (by decide +kernel), by decide +kernel, by decide +kernel, by decide +kernel,
    run_eq_error (by decide +kernel), by decide +kernel, by decide +kernel⟩

end Manager

end Narrative
