import Narrative.Proofs.Addon.Discovery
import Narrative.Proofs.Addon.Install
import Narrative.Proofs.Json.RoundTrip
import Narrative.Proofs.Session.Snapshot

/-! What a manager knows and what there is. They agree when a manager is opened, and go on to agree
after whatever it does that succeeds. -/

namespace Narrative

namespace Addon

open Disk (KeepsRegular)

theorem keepsRegular_disk {a : Storage DiskFault Unit} (h : KeepsRegular a) :
    KeepsRegular (Installing.disk a) :=
  h.adapt _

theorem keepsRegular_extract (dest : Path) (t : Archive.Top) (e : ArchiveEntry) :
    KeepsRegular (extract dest t e) := by
  unfold extract
  cases t.relative? e.path with
  | none => exact .pure _
  | some p =>
    have hwrite : KeepsRegular (do
        Installing.disk (Disk.write (dest.join p.text) e.content)
        if !e.isWhole then throw (.io .damaged) : Installing Unit) := by
      refine .bind (keepsRegular_disk (Disk.keepsRegular_write _ _)) fun _ => ?_
      cases e.isWhole <;> exact fun _ h => h
    dsimp only
    split
    · exact keepsRegular_disk (Disk.keepsRegular_makeDir _)
    · split
      · exact .bind (keepsRegular_disk (Disk.keepsRegular_makeDir _)) fun _ => hwrite
      · exact hwrite

theorem keepsRegular_unpack (dest : Path) (t : Archive.Top) (e : String × Packed) :
    KeepsRegular (unpack dest t e) := by
  unfold unpack
  cases e.2.opened?.isNone with
  | true => exact fun _ h => h
  | false =>
    cases ArchiveEntry.ofNamed? e with
    | none => exact .pure _
    | some entry => exact keepsRegular_extract dest t entry

theorem keepsRegular_forM_unpack (dest : Path) (t : Archive.Top) (es : List (String × Packed)) :
    KeepsRegular (es.forM (unpack dest t)) := by
  induction es with
  | nil => exact .pure _
  | cons e es ih => exact .bind (keepsRegular_unpack dest t e) fun _ => ih

theorem keepsRegular_rebuild (id : String) (dest : Path) (t : Archive.Top)
    (es : List (String × Packed)) :
    KeepsRegular (do
      Installing.disk (Disk.makeDir dest)
      es.forM (unpack dest t)
      pure id : Installing String) :=
  .bind (keepsRegular_disk (Disk.keepsRegular_makeDir _)) fun _ =>
    .bind (keepsRegular_forM_unpack _ _ _) fun _ => .pure _

theorem keepsRegular_install (archive dir : Path) : KeepsRegular (install archive dir) := by
  have hentries : KeepsRegular (archiveEntries archive) := by
    intro d h
    rwa [archiveEntries_disk]
  unfold install
  cases idOfArchive? archive with
  | none => exact fun _ h => h
  | some id =>
    simp only [pure_bind]
    refine .bind hentries fun entries => ?_
    cases Archive.top? ((ArchiveEntry.listed entries).map (·.path)) with
    | none => exact fun _ h => h
    | some top =>
      dsimp only
      refine .get_bind fun d => ?_
      split
      · exact .bind (keepsRegular_disk (Disk.keepsRegular_removeDir _)) fun _ =>
          keepsRegular_rebuild _ _ _ _
      · exact keepsRegular_rebuild _ _ _ _

end Addon

theorem Preference.ofJson_toJson (p : Preference) : Preference.ofJson p.toJson = some p := by
  have hrecord : p.toJson.record? ["enabled", "priority"]
      = some [some (.bool p.enabled), some (.int p.priority.toInt)] :=
    Json.record?_table rfl (by decide)
  simp only [ofJson, hrecord, Json.orDefault_some, Json.int64?_int, Json.bool?, Option.bind_eq_bind,
    Option.bind_some]

theorem Preference.keeps {k : Nat} (p : Preference) : Json.Keeps (k + 1) p.toJson := by
  refine .table ?_
  simp only [List.forall_mem_cons, List.not_mem_nil, false_implies, implies_true, and_true]
  exact ⟨.bool _, .int (Json.isWord_toInt _)⟩

/-- An add-on as it is before anything is chosen for it. -/
def Addon.undecided (a : Addon) : Addon :=
  { a with preference := {} }

namespace Manager

open Disk (Confined)

variable {m m' : Manager} {d d₁ d' : Disk} {dir file : Path} {id : String} {u : Unit}

section Reading

theorem readPreferences_congr (h : ∀ c, d'.content file = .ok c ↔ d.content file = .ok c) :
    readPreferences d' file = readPreferences d file := by
  have hread : ∀ s, d'.readText file = .ok s ↔ d.readText file = .ok s := by
    intro s
    simp only [Disk.readText, bind_eq_ok, h]
  unfold readPreferences
  cases hd : d.readText file with
  | ok s => rw [(hread s).mpr hd]
  | error e =>
    cases hd' : d'.readText file with
    | ok s =>
      rw [(hread s).mp hd'] at hd
      cases hd
    | error e' => rfl

theorem readPreferences_of_content {preferences : Dict Preference}
    (h : d.content file = .ok (.text (preferences.toJson Preference.toJson).pretty)) :
    readPreferences d file = preferences := by
  have htext : d.readText file = .ok (preferences.toJson Preference.toJson).pretty := by
    rw [Disk.readText, h]
    rfl
  have hjson : Json.read (preferences.toJson Preference.toJson).pretty =
      some (preferences.toJson Preference.toJson) :=
    (Dict.keeps fun p _ => p.keeps).read_pretty
  rw [readPreferences, htext]
  dsimp only
  rw [hjson, Option.bind_some, Json.dictOf_toJson Preference.ofJson_toJson, Option.getD_some]

theorem manifestAt_congr {loc : List String}
    (h : ∀ c, d'.seen? loc = some (some c) ↔ d.seen? loc = some (some c)) :
    manifestAt d' loc = manifestAt d loc := by
  have hjoin : (d'.seen? loc).join = (d.seen? loc).join :=
    Option.ext fun c => by simp only [Option.join_eq_some_iff, h]
  rw [manifestAt, hjoin, manifestAt]

end Reading

/-- The choices that a manager knows are those in its file, which does not need what is in the
directory of add-ons. -/
structure Aligned (m : Manager) (d : Disk) : Prop where
  regular : d.Regular
  apart : d.Apart m.dir m.file
  read : readPreferences d m.file = m.preferences

/-- What a manager knows is what there is: in its file, and in the directory of add-ons. -/
structure Synced (m : Manager) (d : Disk) : Prop extends Aligned m d where
  standing : d.Standing m.dir
  addons : ∀ n, m.addons.get? n = found? d m.dir m.preferences n

/-- The add-ons that a manager knows are there, whatever was chosen for them. -/
def Described (m : Manager) (d : Disk) : Prop :=
  ∀ n, (m.addons.get? n).map Addon.undecided =
    (manifestAt d (d.place m.dir ++ [n, manifestName])).map fun x =>
      Addon.ofManifest n (m.dir.join n) x {}

theorem Aligned.discover (h : m.Aligned d) (hstart : ¬ d.Inside m.dir (d.start m.dir))
    (hconf : Confined (d.OnWay m.dir) (d.place m.dir <+: ·) d d₁) (hreg : d₁.Regular)
    (hok : Manager.discover m d₁ = ((.ok u, m'), d')) :
    m'.Synced d' ∧ m'.dir = m.dir ∧ m'.file = m.file ∧ m'.preferences = m.preferences := by
  obtain ⟨hmake, hopen, names, hnames, rfl⟩ := discover_inv hok
  have hmade := Disk.makeDir_confined m.dir d₁
  have hreg' := Disk.keepsRegular_makeDir m.dir d₁ hreg
  rw [hmake] at hmade hreg'
  rw [Disk.onWay_congr hconf.working] at hmade
  have hall : Confined (d.OnWay m.dir) (d.place m.dir <+: ·) d d' :=
    hconf.trans (hmade.mono (fun _ h => h.elim) fun _ h => .inl h)
  have hplace := Disk.place_congr hall.working m.dir
  have hapart : d'.Apart m.dir m.file := by
    refine h.apart.of_kept hall.working fun l hdir hout => ?_
    by_cases hpre : d.place m.dir <+: l
    · have hl : l = d.place m.dir := Decidable.not_not.mp fun hne => hout ⟨hpre, hne⟩
      rw [hl, ← hplace]
      exact hopen.2 _ (d'.onWay_place m.dir)
    · exact hall.isDirAt hpre hdir
  have hread : readPreferences d' m.file = readPreferences d m.file :=
    readPreferences_congr (h.apart.content_iff hapart hall.working
      fun c => hall.file_iff h.apart.place)
  have hstart' : ¬ d'.Inside m.dir (d'.start m.dir) := by
    rw [Disk.Inside, hplace, Disk.start_congr hall.working]
    exact hstart
  have hstand := hopen.standing hreg' (Disk.makeDir_inv hopen.1 hmake).1 hstart'
  exact ⟨⟨⟨hreg', hapart, hread.trans h.read⟩, hstand, findAll_names hopen hreg' hnames⟩,
    rfl, rfl, rfl⟩

theorem save_run (m : Manager) (d : Disk) :
    save m d =
      (((Disk.replace m.file
        (.text ((m.addons.mapValues (·.preference)).toJson Preference.toJson).pretty)
          d).1.mapError .io, { m with preferences := m.addons.mapValues (·.preference) }),
        (Disk.replace m.file
          (.text ((m.addons.mapValues (·.preference)).toJson Preference.toJson).pretty) d).2) := by
  have hget (f : Manager → Managing Unit) : (get >>= f) m d = f m m d := rfl
  have hset (f : Unit → Managing Unit) (m₁ : Manager) : (set m₁ >>= f) m d = f () m₁ d := rfl
  rw [save, hget, hset, disk_run]

theorem save_inv (h : save m d = ((.ok u, m'), d')) :
    m' = { m with preferences := m.addons.mapValues (·.preference) } ∧
      Disk.replace m.file (.text (m'.preferences.toJson Preference.toJson).pretty) d =
        (.ok (), d') := by
  rw [save_run] at h
  rcases hr : Disk.replace m.file
    (.text ((m.addons.mapValues (·.preference)).toJson Preference.toJson).pretty) d
    with ⟨e | v, d₂⟩ <;> rw [hr] at h <;> cases h
  exact ⟨rfl, hr⟩

/-- The add-ons that were known when the choices were written are those that are there, with their
choices. -/
theorem found?_of_described (h : m.Described d) (n : String) :
    m.addons.get? n = found? d m.dir (m.addons.mapValues (·.preference)) n := by
  have hn := h n
  rw [found?, Dict.getD, Dict.get?_mapValues]
  cases ha : m.addons.get? n with
  | none =>
    rw [ha, Option.map_none] at hn
    cases hx : manifestAt d (d.place m.dir ++ [n, manifestName]) with
    | none => rfl
    | some x =>
      rw [hx] at hn
      cases hn
  | some a =>
    rw [ha, Option.map_some] at hn
    obtain ⟨x, hx, hsame⟩ := Option.map_eq_some_iff.mp hn.symm
    rw [hx]
    have ha' : a = { a.undecided with preference := a.preference } := rfl
    rw [ha', ← hsame]
    rfl

theorem save_synced (h : save m d = ((.ok u, m'), d')) (hreg : d.Regular)
    (hapart : d.Apart m.dir m.file) (hstand : d.Standing m.dir) (hdesc : m.Described d) :
    m'.Synced d' ∧ m'.dir = m.dir ∧ m'.file = m.file := by
  obtain ⟨rfl, hreplace⟩ := save_inv h
  refine ⟨?_, rfl, rfl⟩
  have hreg' := Disk.keepsRegular_replace m.file
    (.text ((m.addons.mapValues (·.preference)).toJson Preference.toJson).pretty) d hreg
  rw [hreplace] at hreg'
  obtain ⟨e, d₂, hr, -⟩ | ⟨d₁, d₂, hr, hmade, hc, hwork, hdirs, hseen⟩ := Disk.replace_cases m.file
    (.text ((m.addons.mapValues (·.preference)).toJson Preference.toJson).pretty) d
  · rw [hreplace] at hr
    cases hr
  · rw [hreplace] at hr
    cases hr
    have hplace := Disk.place_congr hwork
    have hkept : ∀ l, d.isDirAt l = true → d'.isDirAt l = true :=
      fun l hl => hdirs l (hmade.isDirAt (fun h => h) hl)
    -- What is in the directory of add-ons is neither the file nor its draft.
    have hinside : ∀ l, d.Inside m.dir l → d'.seen? l = d₁.seen? l := by
      intro l hl
      have hfile : l ≠ d.place m.file := fun he => hapart.place (he ▸ hl.1)
      have hdraft : l ≠ d.place (Disk.draft m.file) := fun he => hapart.not_inside_draft (he ▸ hl)
      rw [hseen, if_neg hfile, if_neg hdraft]
    refine ⟨⟨hreg', hapart.of_kept hwork fun l hl _ => hkept l hl, readPreferences_of_content hc⟩,
      ?_, fun n => ?_⟩
    · refine hstand.of_kept hwork fun l hl => ?_
      rcases hl with hdir | ⟨hnone, hin⟩
      · exact .inl (hkept l hdir)
      · rcases hmade.outside l fun h => h with he | ⟨-, -, hdir⟩
        · exact .inr ⟨(hinside l hin).trans (he.trans hnone), hin⟩
        · exact .inl (Disk.isDirAt_iff_seen.mpr ((hinside l hin).trans hdir))
    · have hin : d.Inside m.dir (d.place m.dir ++ [n, manifestName]) :=
        ⟨List.prefix_append _ _, by simp⟩
      have hmanifest : manifestAt d' (d.place m.dir ++ [n, manifestName])
          = manifestAt d (d.place m.dir ++ [n, manifestName]) :=
        manifestAt_congr fun c => by rw [hinside _ hin, hmade.file_iff fun h => h]
      have hfound := found?_of_described hdesc n
      rw [found?, ← hmanifest, ← hplace] at hfound
      exact hfound

theorem Synced.described (h : m.Synced d) : m.Described d := by
  intro n
  rw [h.addons, found?, Option.map_map]
  rfl

theorem Synced.place_path (h : m.Synced d) {a : Addon} (ha : m.addons.get? id = some a) :
    d.place a.path = d.place m.dir ++ [id] := by
  rw [h.addons, found?] at ha
  obtain ⟨x, hx, rfl⟩ := Option.map_eq_some_iff.mp ha
  have hseen : d.seen? (d.place m.dir ++ [id, manifestName]) ≠ none := by
    intro hnone
    rw [manifestAt, hnone] at hx
    cases hx
  have hid : Disk.IsName id := h.regular _ hseen id (by simp)
  exact Disk.place_join_name d m.dir hid.written

theorem known_run (id : String) (m : Manager) (d : Disk) :
    known id m d = match m.addons.get? id with
      | some a => ((.ok a, m), d)
      | none => ((.error (.unknown id), m), d) := by
  have hget (f : Manager → Managing Addon) : (get >>= f) m d = f m m d := rfl
  rw [known, hget, get?]
  cases m.addons.get? id <;> rfl

theorem modify_bind_run (f : Manager → Manager) (g : PUnit → Managing Unit) (m : Manager)
    (d : Disk) : ((modify f : Managing PUnit) >>= g) m d = g () (f m) d :=
  rfl

theorem choose_run (id : String) (f : Preference → Preference) (m : Manager) (d : Disk) :
    choose id f m d = match m.addons.get? id with
      | some a =>
        save { m with addons := m.addons.insert id { a with preference := f a.preference } } d
      | none => ((.error (.unknown id), m), d) := by
  rw [choose, Managing.bind_run, known_run]
  cases m.addons.get? id with
  | none => rfl
  | some a =>
    dsimp only
    rw [modify_bind_run]

theorem delete_run (id : String) (m : Manager) (d : Disk) :
    delete id m d = match m.addons.get? id with
      | some a =>
        match Disk.removeDir a.path d with
        | (.ok _, d') => save { m with addons := m.addons.erase id } d'
        | (.error e, d') => ((.error (.io e), m), d')
      | none => ((.error (.unknown id), m), d) := by
  rw [delete, Managing.bind_run, known_run]
  cases m.addons.get? id with
  | none => rfl
  | some a =>
    dsimp only
    rw [Managing.bind_run, disk_run]
    rcases Disk.removeDir a.path d with ⟨e | u, d'⟩
    · rfl
    · dsimp only [Except.mapError]
      rw [modify_bind_run]

theorem choose_inv {f : Preference → Preference} (h : choose id f m d = ((.ok u, m'), d')) :
    ∃ a, m.addons.get? id = some a ∧
      save { m with addons := m.addons.insert id { a with preference := f a.preference } } d =
        ((.ok u, m'), d') := by
  rw [choose_run] at h
  cases ha : m.addons.get? id with
  | none =>
    rw [ha] at h
    cases h
  | some a =>
    rw [ha] at h
    exact ⟨a, rfl, h⟩

theorem delete_inv (h : delete id m d = ((.ok u, m'), d')) :
    ∃ a d₁, m.addons.get? id = some a ∧ Disk.removeDir a.path d = (.ok (), d₁) ∧
      save { m with addons := m.addons.erase id } d₁ = ((.ok u, m'), d') := by
  rw [delete_run] at h
  cases ha : m.addons.get? id with
  | none =>
    rw [ha] at h
    cases h
  | some a =>
    rw [ha] at h
    dsimp only at h
    rcases hr : Disk.removeDir a.path d with ⟨e | v, d₁⟩ <;> rw [hr] at h
    · cases h
    · exact ⟨a, d₁, rfl, hr, h⟩

theorem install_inv {archive : Path} (h : install archive m d = ((.ok id, m'), d')) :
    ∃ d₁, Addon.install archive m.dir d = (.ok id, d₁) ∧
      Manager.discover m d₁ = ((.ok (), m'), d') := by
  have hget (f : Manager → Managing String) : (get >>= f) m d = f m m d := rfl
  have hinstalling : Managing.installing (Addon.install archive m.dir) m d
      = (((Addon.install archive m.dir d).1, m), (Addon.install archive m.dir d).2) := rfl
  rw [install, hget, Managing.bind_run, hinstalling] at h
  rcases hr : Addon.install archive m.dir d with ⟨e | x, d₁⟩ <;> rw [hr] at h
  · cases h
  · dsimp only at h
    rw [Managing.bind_run] at h
    rcases hd : Manager.discover m d₁ with ⟨⟨e | v, m₁⟩, d₂⟩ <;> rw [hd] at h <;> cases h
    exact ⟨d₁, rfl, hd⟩

theorem Synced.discover (h : m.Synced d) (hok : Manager.discover m d = ((.ok u, m'), d')) :
    m'.Synced d' ∧ m'.dir = m.dir ∧ m'.file = m.file ∧ m'.preferences = m.preferences :=
  h.toAligned.discover h.standing.start .refl h.regular hok

theorem Synced.install {archive : Path} (h : m.Synced d)
    (hok : Manager.install archive m d = ((.ok id, m'), d')) :
    m'.Synced d' ∧ m'.dir = m.dir ∧ m'.file = m.file ∧ m'.preferences = m.preferences := by
  obtain ⟨d₁, hinstall, hdiscover⟩ := install_inv hok
  have hconf := Addon.install_confined_dir archive m.dir d
  have hreg := Addon.keepsRegular_install archive m.dir d h.regular
  rw [hinstall] at hconf hreg
  exact h.toAligned.discover h.standing.start hconf hreg hdiscover

theorem Synced.choose {f : Preference → Preference} (h : m.Synced d)
    (hok : Manager.choose id f m d = ((.ok u, m'), d')) :
      m'.Synced d' ∧ m'.dir = m.dir ∧ m'.file = m.file := by
  obtain ⟨a, ha, hsave⟩ := choose_inv hok
  have hdesc : Described
      { m with addons := m.addons.insert id { a with preference := f a.preference } } d := by
    intro n
    dsimp only
    rw [← h.described, Dict.get?_insert]
    split
    · next hn =>
      rw [hn, ha]
      rfl
    · rfl
  have hsaved := save_synced hsave h.regular h.apart h.standing hdesc
  exact hsaved

theorem Synced.delete (h : m.Synced d) (hok : Manager.delete id m d = ((.ok u, m'), d')) :
    m'.Synced d' ∧ m'.dir = m.dir ∧ m'.file = m.file := by
  obtain ⟨a, d₁, ha, hremove, hsave⟩ := delete_inv hok
  have hreg := Disk.keepsRegular_removeDir a.path d h.regular
  obtain ⟨e, hr⟩ | ⟨d₂, hr, hwork, hgone, hkept⟩ := Disk.removeDir_cases a.path d
  · rw [hremove] at hr
    cases hr
  · rw [hremove] at hr hreg
    cases hr
    rw [h.place_path ha] at hgone hkept
    have hplace := Disk.place_congr hwork
    have hin : ∀ l, d.place m.dir ++ [id] <+: l → d.Inside m.dir l := by
      rintro l ⟨rest, rfl⟩
      exact ⟨by simp [List.append_assoc], by simp⟩
    have hapart : d₁.Apart m.dir m.file := by
      refine h.apart.of_kept hwork fun l hdir hout => ?_
      rw [Disk.isDirAt_congr (hkept l fun hpre => hout (hin l hpre)), hdir]
    have hstand : d₁.Standing m.dir := by
      refine h.standing.of_kept hwork fun l hl => ?_
      by_cases hpre : d.place m.dir ++ [id] <+: l
      · exact .inr ⟨hgone l hpre, hin l hpre⟩
      · rwa [Disk.isDirAt_congr (hkept l hpre), hkept l hpre]
    have hdesc : Described { m with addons := m.addons.erase id } d₁ := by
      intro n
      dsimp only
      rw [Dict.get?_erase, hplace]
      split
      · next hn =>
        rw [hn, manifestAt, hgone _ ⟨[manifestName], by simp⟩]
        rfl
      · next hn =>
        have hother : ¬ d.place m.dir ++ [id] <+: d.place m.dir ++ [n, manifestName] := by
          intro hpre
          rw [List.prefix_append_right_inj] at hpre
          exact hn (List.cons_prefix_cons.mp hpre).1.symm
        rw [h.described, manifestAt_congr fun c => by rw [hkept _ hother]]
    have hsaved := save_synced hsave hreg hapart hstand hdesc
    exact hsaved

theorem Synced.preference (h : m.Synced d) {a : Addon} (ha : m.addons.get? id = some a) :
    a.preference = m.preferences.getD id {} := by
  rw [h.addons, found?] at ha
  obtain ⟨x, -, rfl⟩ := Option.map_eq_some_iff.mp ha
  rfl

theorem Aligned.open? (hreg : d.Regular) (hstart : ¬ d.Inside dir (d.start dir))
    (hapart : d.Apart dir file)
    (h : Manager.open? dir file d = (.ok m, d')) : m.Synced d' ∧ m.dir = dir ∧ m.file = file := by
  rcases hd : Manager.discover { dir, file, preferences := readPreferences d file }
    d with ⟨⟨e | v, m₁⟩, d₂⟩ <;>
    rw [open?_of_discover hd] at h <;> cases h
  have haligned : Aligned { dir, file, preferences := readPreferences d file } d :=
    ⟨hreg, hapart, rfl⟩
  obtain ⟨hs, hdir, hfile, -⟩ := haligned.discover hstart .refl hreg hd
  exact ⟨hs, hdir, hfile⟩

/-- Looking for the add-ons anew finds those that are known, whatever add-ons are known at first. -/
theorem Synced.discover_same (h : m.Synced d) (before : Dict Addon) :
    ∃ d', Manager.discover { m with addons := before } d = ((.ok (), m), d') := by
  have hstand : d.Standing ({ m with addons := before } : Manager).dir := h.standing
  obtain ⟨m', d', hok⟩ := discover_ok hstand
  obtain ⟨hmake, hopen, names, hnames, rfl⟩ := discover_inv hok
  have hmade := Disk.makeDir_confined m.dir d
  have hreg := Disk.keepsRegular_makeDir m.dir d h.regular
  rw [show Disk.makeDir m.dir d = (.ok (), d') from hmake] at hmade hreg
  have hsame : findAll d' m.dir m.preferences names = m.addons := by
    refine Dict.ext_get? fun n => ?_
    rw [findAll_names hopen hreg hnames, h.addons, found?, found?, Disk.place_congr hmade.working,
      manifestAt_congr fun c => hmade.file_iff fun h => h]
  refine ⟨d', ?_⟩
  rw [hok]
  dsimp only
  rw [hsame]

/-- A manager that is opened anew is the one that there was. -/
theorem Synced.open? (h : m.Synced d) : ∃ d', Manager.open? m.dir m.file d = (.ok m, d') := by
  obtain ⟨d', hok⟩ := h.discover_same ∅
  refine ⟨d', ?_⟩
  have hopen :
    Manager.discover { dir := m.dir, file := m.file, preferences := readPreferences d m.file } d
      = ((.ok (), m), d') := by
    rw [h.read]
    exact hok
  exact open?_of_discover hopen

theorem Synced.preference_of_install {archive : Path} (h : m.Synced d)
    (hok : Manager.install archive m d = ((.ok id, m'), d')) {n : String} {a a' : Addon}
    (ha : m.addons.get? n = some a)
    (ha' : m'.addons.get? n = some a') : a'.preference = a.preference := by
  obtain ⟨hs, -, -, hpreferences⟩ := h.install hok
  rw [hs.preference ha', hpreferences, h.preference ha]

end Manager

end Narrative
