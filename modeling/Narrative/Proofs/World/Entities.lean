import Narrative.Proofs.Dict
import Narrative.Proofs.Except
import Narrative.World.Source

/-! The entities of a document. A document with an `id` is one entity, and one without is a
collection of the tables in it; either way an entity is known by the name under which it stands. -/

namespace Narrative

namespace Entity

variable {doc : Document} {es : List (String × Entity)} {v : Json} {k id : String} {e : Entity}

theorem idText?_eq_none_iff :
    idText? v = none ↔ (∀ s, v ≠ .text s) ∧ (∀ n, v ≠ .int n) ∧ ∀ x, v ≠ .float x := by
  cases v <;> simp [idText?]

theorem split?_of_id (h : doc.get? "id" = some v) :
    split? doc = (idText? v).map fun id => [(id, ⟨doc⟩)] := by
  have hthere : doc.contains "id" = true := by rw [Dict.contains_eq_isSome, h, Option.isSome_some]
  have hid : id? ⟨doc⟩ = idText? v := by rw [id?, h, Option.bind_some]
  rw [split?, if_pos hthere]
  exact congrArg (Option.map fun id => [(id, mk doc)]) hid

theorem split?_of_no_id (h : doc.get? "id" = none) :
    split? doc = some (doc.entries.filterMap ofField?) := by
  refine if_neg ?_
  rw [Dict.contains_eq_isSome, h, Option.isSome_none]
  exact Bool.false_ne_true

theorem split?_eq_none_iff :
    split? doc = none ↔ ∃ v, doc.get? "id" = some v ∧ idText? v = none := by
  cases h : doc.get? "id" with
  | none => simp [split?_of_no_id h]
  | some v => simp [split?_of_id h]

theorem ofField?_eq_some_iff {field : String × Json} : ofField? field = some (k, e) ↔
    field.1 = k ∧ ∃ fields, field.2 = .table fields ∧
      e = ⟨(Dict.ofList fields).insert "id" (.text k)⟩ := by
  obtain ⟨name, d⟩ := field
  constructor
  · intro h
    obtain ⟨fields, hfields, he⟩ := Option.map_eq_some_iff.mp h
    cases he
    cases d with
    | table =>
      cases hfields
      exact ⟨rfl, fields, rfl, rfl⟩
    | _ => cases hfields
  · rintro ⟨rfl, fields, rfl, rfl⟩
    rfl

/-- Whether entities are those of a document without an `id`: one for each field that holds a table,
known by the name of the field, with the fields of the table besides. -/
structure Collected (doc : Document) (es : List (String × Entity)) : Prop where
  distinct : es.Pairwise fun a b => a.1 ≠ b.1
  mem_iff : ∀ k e, (k, e) ∈ es ↔ ∃ fields, doc.get? k = some (.table fields) ∧
    ∀ f, e.get? f = if f = "id" then some (.text k) else (Dict.ofList fields).get? f

theorem collected (doc : Document) : Collected doc (doc.entries.filterMap ofField?) where
  distinct := by
    refine List.pairwise_filterMap.mpr (doc.sorted.imp fun {a b} hab x hx y hy => ?_)
    rw [← (ofField?_eq_some_iff.mp hx).1, ← (ofField?_eq_some_iff.mp hy).1]
    exact String.ne_of_lt hab
  mem_iff k e := by
    rw [List.mem_filterMap]
    constructor
    · rintro ⟨⟨name, d⟩, hfield, hsome⟩
      obtain ⟨rfl, fields, rfl, rfl⟩ := ofField?_eq_some_iff.mp hsome
      exact ⟨fields, Dict.get?_eq_some_iff.mpr hfield, fun f => Dict.get?_insert _ _ _ _⟩
    · rintro ⟨fields, hdoc, hget⟩
      have he : e = ⟨(Dict.ofList fields).insert "id" (.text k)⟩ :=
        congrArg mk (Dict.ext_get? fun f => (hget f).trans (Dict.get?_insert _ _ _ _).symm)
      exact ⟨(k, .table fields), Dict.get?_eq_some_iff.mp hdoc,
        ofField?_eq_some_iff.mpr ⟨rfl, fields, rfl, he⟩⟩

/-- A document has one entity at most for an id. -/
theorem nodup_of_split? (h : split? doc = some es) : es.Pairwise fun a b => a.1 ≠ b.1 := by
  cases hid : doc.get? "id" with
  | some v =>
    rw [split?_of_id hid] at h
    obtain ⟨id, -, rfl⟩ := Option.map_eq_some_iff.mp h
    exact List.pairwise_singleton _ _
  | none =>
    rw [split?_of_no_id hid] at h
    cases h
    exact (collected doc).distinct

theorem id?_of_split? (h : split? doc = some es) (he : (k, e) ∈ es) : e.id? = some k := by
  cases hid : doc.get? "id" with
  | some v =>
    rw [split?_of_id hid] at h
    obtain ⟨id, hv, rfl⟩ := Option.map_eq_some_iff.mp h
    cases List.mem_singleton.mp he
    rw [id?, hid, Option.bind_some, hv]
  | none =>
    rw [split?_of_no_id hid] at h
    cases h
    obtain ⟨fields, -, hget⟩ := ((collected doc).mem_iff k e).mp he
    have hname : e.fields.get? "id" = some (.text k) := (hget "id").trans (if_pos rfl)
    rw [id?, hname]
    rfl

end Entity

theorem Disk.split?_of_readEntities {d : Disk} {p : Path} {es : List (String × Entity)}
    (h : d.readEntities p = .ok es) : ∃ doc, Entity.split? doc = some es := by
  obtain ⟨doc, -, hsplit⟩ := bind_eq_ok.mp h
  split at hsplit
  · next hes =>
    cases hsplit
    exact ⟨doc, hes⟩
  · cases hsplit

end Narrative
