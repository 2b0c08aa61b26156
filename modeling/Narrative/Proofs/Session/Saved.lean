import Narrative.Proofs.Session.Snapshot
import Narrative.Proofs.Storage.Written
import Narrative.Tool.Play

/-! Saving and loading. A game that is saved can be loaded until its file is changed, and a save
that fails leaves what was saved before. -/

namespace Narrative

namespace Session

variable {s t : Session} {now : Instant} {p : Path} {d d' : Disk}

theorem save_run (s : Session) (now : Instant) (p : Path) (d : Disk) :
    s.save now p d =
      ((Disk.replace p (.text (s.snapshot now).write) d).1.mapError .io,
        (Disk.replace p (.text (s.snapshot now).write) d).2) :=
  rfl

theorem content_of_save (h : s.save now p d = (.ok (), d')) :
    d'.content p = .ok (.text (s.snapshot now).write) := by
  rw [save_run] at h
  rcases Disk.replace_cases p (.text (s.snapshot now).write) d with ⟨e, d₁, hr, -⟩ |
    ⟨-, d₁, hr, -, hc, -⟩
  · rw [hr] at h
    cases h
  · rw [hr] at h
    cases h
    exact hc

theorem load_of_content (hnow : now.Valid)
    (hread : Json.read (s.snapshot now).toJson.pretty = some (s.snapshot now).toJson)
    (hc : d.content p = .ok (.text (s.snapshot now).write)) :
    Playing.load d p = Playing.restore (s.snapshot now) := by
  have htext : d.readText p = .ok (s.snapshot now).write := by
    rw [Disk.readText, hc]
    rfl
  have hsaved : Snapshot.read (s.snapshot now).write = some (s.snapshot now) :=
    Snapshot.read_write_of hnow hread
  funext t
  rw [Playing.load, htext]
  dsimp only
  rw [hsaved]

theorem seen?_of_save_error {e : SessionError} (h : s.save now p d = (.error e, d')) :
    (∀ l, d.place p <+: l →
      d'.seen? l = d.seen? l ∨ d.OnLead p l ∧ d.seen? l = none ∧ d'.seen? l = some none) ∧
    ∀ c, d.content p = .ok c → d'.content p = .ok c := by
  rw [save_run] at h
  rcases hr : Disk.replace p (.text (s.snapshot now).write) d with ⟨e | u, d₁⟩ <;>
    rw [hr] at h <;> cases h
  exact ⟨fun l hl => Disk.seen?_of_replace_error hr hl,
    fun c hc => Disk.content_of_replace_error hr hc⟩

end Session

namespace Tool

variable {α β : Type}

theorem get_run (f : Console → Tool α) (c : Console) : (get >>= f) c = f c c :=
  rfl

theorem complain_run (line : String) (x : α) (c : Console) :
    (do Tool.complain line; return x : Tool α) c =
      (.ok x, { c with err := c.err ++ line ++ "\n" }) :=
  rfl

end Tool

namespace Playing

variable {s t : Session} {saved : Snapshot} {d : Disk} {p : Path} {e : SessionError}

theorem restore_ok (h : saved.gameId = s.gameId) :
    restore saved s = (.ok (), s.setState saved.state) :=
  if_pos h

/-- A saved game is only refused by a session of another game, which then stays as it was. -/
theorem restore_error_iff :
    restore saved s = (.error e, t) ↔
      saved.gameId ≠ s.gameId ∧ e = .otherGame s.gameId saved.gameId ∧ t = s := by
  unfold restore
  split
  · next h => exact ⟨fun hrun => (by cases hrun), fun ⟨hne, _⟩ => absurd h hne⟩
  · next h =>
    constructor
    · intro hrun
      cases hrun
      exact ⟨h, rfl, rfl⟩
    · rintro ⟨-, rfl, rfl⟩
      rfl

theorem load_error (h : load d p s = (.error e, t)) : t = s := by
  unfold load at h
  split at h
  · exact (Prod.mk.inj h).2.symm
  · split at h
    · exact (Prod.mk.inj h).2.symm
    · exact (restore_error_iff.mp h).2.2

end Playing

theorem Play.load_error {play : Play} {slot : String} {c : Console} {e : SessionError} {t : Session}
    (h : Playing.load c.disk (play.savePath slot) play.session = (.error e, t)) :
    Play.load slot play c =
      (.ok play, { c with err := c.err ++ ("ERROR: " ++ e.message) ++ "\n" }) := by
  rw [Play.load, Tool.get_run, h, Playing.load_error h]
  exact Tool.complain_run _ _ _

namespace Session

/-- After a save that succeeds, and as long as its file holds what it held then, every session of
the same game can load the state that was saved, and none of another game can. A save that fails
leaves the files at the place of its file and below as they were, and there makes no more than
directories that its own path leads through; what the path read, it still reads. And where restoring
or loading fails, the session is as it was and the play goes on. -/
theorem save_load (s : Session) (now : Instant) (p : Path) (d : Disk) (hnow : now.Valid)
    (hread : Json.read (s.snapshot now).toJson.pretty = some (s.snapshot now).toJson) :
    (∀ d', s.save now p d = (.ok (), d') → ∀ later : Disk, later.content p = d'.content p →
      ∀ t : Session,
      (t.gameId = s.gameId → Playing.load later p t = (.ok (), t.setState s.state)) ∧
      (t.gameId ≠ s.gameId →
        Playing.load later p t = (.error (.otherGame t.gameId s.gameId), t))) ∧
    (∀ e d', s.save now p d = (.error e, d') →
      (∀ l, d.place p <+: l →
        d'.seen? l = d.seen? l ∨ d.OnLead p l ∧ d.seen? l = none ∧ d'.seen? l = some none) ∧
      ∀ c, d.content p = .ok c → d'.content p = .ok c) ∧
    (∀ (t t' : Session) (saved : Snapshot) (e : SessionError),
      Playing.restore saved t = (.error e, t') ↔
        saved.gameId ≠ t.gameId ∧ e = .otherGame t.gameId saved.gameId ∧ t' = t) ∧
    (∀ (t t' : Session) (d : Disk) (q : Path) (e : SessionError),
      Playing.load d q t = (.error e, t') → t' = t) ∧
    ∀ (play : Play) (slot : String) (c : Console) (e : SessionError) (t : Session),
      Playing.load c.disk (play.savePath slot) play.session = (.error e, t) →
        Play.load slot play c =
          (.ok play, { c with err := c.err ++ ("ERROR: " ++ e.message) ++ "\n" }) := by
  refine ⟨fun d' hsave later hlater t => ?_, fun e d' h => seen?_of_save_error h,
    fun t t' saved e => Playing.restore_error_iff, fun t t' d q e => Playing.load_error,
    fun play slot c e t => Play.load_error⟩
  have hload : Playing.load later p = Playing.restore (s.snapshot now) :=
    load_of_content hnow hread (hlater.trans (content_of_save hsave))
  rw [hload]
  refine ⟨fun hid => Playing.restore_ok hid.symm, fun hid => ?_⟩
  exact Playing.restore_error_iff.mpr ⟨fun h => hid h.symm, rfl, rfl⟩

def earned (id : String) : Session :=
  ⟨id, {}, Registry.core, ⟨{ player := { gold := 12 } }, ⟨7⟩⟩⟩

theorem save_load_other :
    let s := earned "harbor"
    let now : Instant := ⟨⟨2024, 2, 29⟩, 23, 59, 60, 5000000⟩
    let p : Path := ⟨"saves/harbor/quick.json"⟩
    let d : Disk := ⟨.dir [], []⟩
    now.Valid ∧ Json.read (s.snapshot now).toJson.pretty = some (s.snapshot now).toJson ∧
      ∃ d', s.save now p d = (.ok (), d') ∧ Playing.load d' p (earned "tavern") =
        (.error (.otherGame "tavern" "harbor"), earned "tavern") := by
  intro s now p d
  have hnow : now.Valid := ⟨by decide, by decide, by decide, by decide, by decide⟩
  have hread : Json.read (s.snapshot now).toJson.pretty = some (s.snapshot now).toJson :=
    (Snapshot.keeps (k := 123) (fun f hf => by cases hf) fun f hf => by cases hf).read_pretty
  have hsave : (s.save now p d).1 = .ok () := eq_ok_of_isOk (by decide +kernel)
  refine ⟨hnow, hread, (s.save now p d).2, Prod.ext hsave rfl, ?_⟩
  exact ((save_load s now p d hnow hread).1 _ (Prod.ext hsave rfl) _ rfl (earned "tavern")).2
    (by decide)

/-- A path that leads through its own place: where the file should be there is nothing before a save
that fails, and a directory after it. -/
theorem not_save_load_through :
    let s := earned "harbor"
    let p : Path := ⟨"saves/harbor/b.json/../b.json"⟩
    let d : Disk := ⟨.dir [], []⟩
    ∃ e d', s.save ⟨⟨2024, 2, 29⟩, 23, 59, 60, 5000000⟩ p d = (.error e, d') ∧
      d.contains p = false ∧ d'.isDir p = true := by
  intro s p d
  obtain ⟨e, he⟩ : ∃ e, (s.save ⟨⟨2024, 2, 29⟩, 23, 59, 60, 5000000⟩ p d).1 = .error e :=
    exists_error_of_isOk (by decide +kernel)
  exact ⟨e, _, Prod.ext he rfl, by decide +kernel, by decide +kernel⟩

end Session

end Narrative
