import GuestCode.Proofs.Capability.BestCases
import GuestCode.Proofs.Json.RoundTrip

/-!
# Documents and their summaries

The document of a case that has been made of a JSON parameter holds nothing but what can be read
from its text. So it is read as a record with the same fields, of which a summary can be given,
whatever the parameter has under its names.

## Main statements

* `BestCases.exists_of_newDocument`: the fields of a new document.
* `BestCases.exists_summary_of_record`: a summary asks only for notes with a list of tags.
* `BestCases.Saved.loaded_eq`, `BestCases.Saved.exists_summary`: a document read from its text.
-/

namespace GuestCode

/-! ## Members and entries of readable values -/

namespace Json.IsReadable

variable {v : Value} {items : List Value} {entries : List (Value × Value)}

theorem members (h : IsReadable v) (hmembers : v.members = .ok items) :
    ∀ w ∈ items, IsReadable w := by
  unfold Value.members at hmembers
  cases h with
  | text s =>
    cases hmembers
    intro w hw
    obtain ⟨c, -, rfl⟩ := List.mem_map.mp hw
    exact .text _
  | list members | tuple members =>
    cases hmembers
    exact members
  | mapping keys _ =>
    cases hmembers
    intro w hw
    obtain ⟨e, he, rfl⟩ := List.mem_map.mp hw
    exact keys e he
  | _ => cases hmembers

theorem membersOrNone (h : IsReadable v) (hmembers : v.membersOrNone = .ok items) :
    ∀ w ∈ items, IsReadable w := by
  unfold Value.membersOrNone at hmembers
  split at hmembers
  · exact h.members hmembers
  · cases hmembers
    simp

theorem insertPairs {index : Nat} {result : List (Value × Value)}
    (hentries : IsReadable (.mapping entries)) (hitems : ∀ w ∈ items, IsReadable w)
    (h : Value.insertPairs index entries items = .ok result) : IsReadable (.mapping result) := by
  induction items generalizing index entries with
  | nil =>
    cases h
    exact hentries
  | cons v rest ih =>
    obtain ⟨hv, hrest⟩ := List.forall_mem_cons.mp hitems
    rw [Value.insertPairs] at h
    cases hparts : v.members with
    | error failure =>
      rw [hparts] at h
      cases h
    | ok parts =>
      rw [hparts] at h
      have hmembers := hv.members hparts
      dsimp only [pure, Except.pure, bind, Except.bind] at h
      split at h
      · next key value =>
        obtain ⟨-, -, h⟩ := Outcome.exists_of_bind_eq_ok h
        exact ih (hentries.insert (hmembers key (by simp)) (hmembers value (by simp))) hrest h
      · cases h

theorem asMapping (h : IsReadable v) (hentries : v.asMapping = .ok entries) :
    IsReadable (.mapping entries) := by
  have hempty : IsReadable (.mapping []) := .mapping (by simp) (by simp)
  -- No readable value is a knot.
  have hunfolded : v.unfolded = v := by cases h <;> rfl
  unfold Value.asMapping at hentries
  rw [hunfolded] at hentries
  split at hentries
  · cases hentries
    exact h
  · obtain ⟨items, hitems, hentries⟩ := Outcome.exists_of_bind_eq_ok hentries
    exact hempty.insertPairs (h.members hitems) hentries

theorem lookup? {key found : Value} (h : ∀ e ∈ entries, IsReadable e.2)
    (hfound : Value.lookup? key entries = some found) : IsReadable found := by
  induction entries with
  | nil => cases hfound
  | cons e rest ih =>
    obtain ⟨he, hrest⟩ := List.forall_mem_cons.mp h
    rw [Value.lookup?] at hfound
    split at hfound
    · cases hfound
      exact he
    · exact ih hrest hfound

theorem field?_getD (h : IsReadable (.mapping entries)) (name : String) {other : Value}
    (hother : IsReadable other) : IsReadable ((Value.field? entries name).getD other) := by
  unfold Value.field?
  cases hfound : Value.lookup? (.text name) entries with
  | none => exact hother
  | some found => exact lookup? (fun e he => (h.mem e he).2) hfound

theorem field (h : IsReadable (.mapping entries)) (name : String) :
    IsReadable (Value.field entries name) :=
  h.field?_getD name .null

end Json.IsReadable

theorem lookup_map_snd {α β : Type} (g : α → β) (fields : List (String × α)) (name : String) :
    (fields.map fun f => (f.1, g f.2)).lookup name = (fields.lookup name).map g := by
  induction fields with
  | nil => rfl
  | cons f rest ih =>
    rw [List.map_cons, List.lookup_cons, List.lookup_cons, ih]
    cases name == f.1 <;> rfl

namespace BestCases

/-! ## New documents -/

variable {entries : List (Value × Value)} {id : String} {time : Value}

/-- The fields of the notes in a document. -/
def noteFields (time : Value) (tags : List Value) : List (String × Value) :=
  [("createdAt", time), ("updatedAt", time), ("tags", .list tags)]

/-- The fields of a document, with its files, patterns and tags as they have been taken from the
parameter. -/
def documentFields (entries : List (Value × Value)) (id : String) (time : Value)
    (files : List Value) (patterns : List (Value × Value)) (tags : List Value) :
    List (String × Value) :=
  [("id", .text id),
    ("projectName", Value.field entries "projectName"),
    ("category", Value.field entries "category"),
    ("description", (Value.field? entries "description").getD (.text "")),
    ("files", .list files),
    ("patterns", .mapping patterns),
    ("metadata", Value.record (noteFields time tags))] ++ scoresOf entries

/-- The files, patterns and tags of a new document are taken from the parameter. -/
theorem exists_parts_of_newDocument {document : Value}
    (h : newDocument entries id time = .ok document) :
    ∃ files patterns tags, (Value.field entries "files").membersOrNone = .ok files ∧
      (patterns = [] ∨ (Value.field entries "patterns").asMapping = .ok patterns) ∧
      (Value.field entries "tags").membersOrNone = .ok tags ∧
      document = Value.record (documentFields entries id time files patterns tags) := by
  unfold newDocument at h
  obtain ⟨files, hfiles, h⟩ := Outcome.exists_of_bind_eq_ok h
  dsimp only at h
  split at h
  · obtain ⟨patterns, hpatterns, h⟩ := Outcome.exists_of_bind_eq_ok h
    obtain ⟨tags, htags, h⟩ := Outcome.exists_of_bind_eq_ok h
    cases h
    exact ⟨files, patterns, tags, hfiles, .inr hpatterns, htags, rfl⟩
  · obtain ⟨patterns, hnone, h⟩ := Outcome.exists_of_bind_eq_ok h
    cases hnone
    obtain ⟨tags, htags, h⟩ := Outcome.exists_of_bind_eq_ok h
    cases h
    exact ⟨files, [], tags, hfiles, .inl rfl, htags, rfl⟩

/-- A new document has its fields, and what they hold can be read if the parameter can be. -/
theorem exists_of_newDocument {document : Value} (h : newDocument entries id time = .ok document)
    (hentries : Json.IsReadable (.mapping entries)) (htime : Json.IsReadable time) :
    ∃ files patterns tags,
      document = Value.record (documentFields entries id time files patterns tags) ∧
      ∀ f ∈ documentFields entries id time files patterns tags, Json.IsReadable f.2 := by
  obtain ⟨files, patterns, tags, hfiles, hpatterns, htags, hdocument⟩ :=
    exists_parts_of_newDocument h
  refine ⟨files, patterns, tags, hdocument, ?_⟩
  have hreadFiles := (hentries.field "files").membersOrNone hfiles
  have hreadTags := (hentries.field "tags").membersOrNone htags
  have hreadPatterns : Json.IsReadable (.mapping patterns) := by
    rcases hpatterns with rfl | hpatterns
    · exact .mapping (by simp) (by simp)
    · exact (hentries.field "patterns").asMapping hpatterns
  have hscores : ∀ f ∈ scoresOf entries, Json.IsReadable f.2 := by
    intro f hf
    obtain ⟨name, -, hname⟩ := List.mem_filterMap.mp hf
    split at hname
    · cases hname
    · cases hname
      exact hentries.field name
  have hnotes : Json.IsReadable (Value.record (noteFields time tags)) :=
    .record (by simp [noteFields, htime, Json.IsReadable.list hreadTags])
  refine List.forall_mem_append.mpr ⟨?_, hscores⟩
  simp only [List.forall_mem_cons]
  exact ⟨.text id, hentries.field _, hentries.field _, hentries.field?_getD _ (.text ""),
    .list hreadFiles, hreadPatterns, hnotes, by simp⟩

theorem sublist_scoresOf (entries : List (Value × Value)) :
    ((scoresOf entries).map Prod.fst).Sublist scoreFields := by
  unfold scoresOf
  generalize scoreFields = names
  induction names with
  | nil => exact .slnil
  | cons name rest ih =>
    rw [List.filterMap_cons]
    split
    · exact ih.cons name
    · next field hfield =>
      split at hfield
      · cases hfield
      · cases hfield
        exact ih.cons_cons name

/-- No document has two fields of one name. -/
theorem nodup_documentFields (files : List Value) (patterns : List (Value × Value))
    (tags : List Value) :
    ((documentFields entries id time files patterns tags).map Prod.fst).Nodup := by
  have hall : (["id", "projectName", "category", "description", "files", "patterns", "metadata"] ++
      scoreFields).Nodup := by decide
  -- Of the scores only those that are given are fields, in their order.
  rw [documentFields, List.map_append]
  exact hall.sublist ((List.Sublist.refl _).append (sublist_scoresOf entries))

/-! ## Summaries -/

/-- What is given as a score is found under its name, and null if it is not given. -/
theorem lookup_scoresOf (entries : List (Value × Value)) (name : String) :
    ((scoresOf entries).lookup name).getD .null =
      if name ∈ scoreFields then Value.field entries name else .null := by
  unfold scoresOf
  generalize scoreFields = names
  induction names with
  | nil => rfl
  | cons first rest ih =>
    rw [List.filterMap_cons]
    split
    · next hnone =>
      have hnull : Value.field entries first = .null := by
        split at hnone
        · assumption
        · cases hnone
      rw [ih]
      by_cases heq : name = first
      · simp [heq, hnull]
      · simp [heq]
    · next field hfield =>
      have hfield : field = (first, Value.field entries first) := by
        split at hfield
        · cases hfield
        · cases hfield
          rfl
      rw [hfield, List.lookup_cons]
      by_cases heq : name = first
      · simp [heq]
      · have hne : (name == first) = false := by simpa using heq
        simp [hne, heq, ih]

/-- A record has a summary if its notes are a record with a list of tags. -/
theorem exists_summary_of_record {fields notes : List (String × Value)} {tags : List Value}
    (hnotes : fields.lookup "metadata" = some (Value.record notes))
    (htags : notes.lookup "tags" = some (.list tags)) :
    ∃ s, summary (Value.record fields) = .ok s ∧
      s.field "id" = (fields.lookup "id").getD .null ∧
      s.field "updatedAt" = (notes.lookup "updatedAt").getD .null ∧
      s.field "totalScore" = (fields.lookup "totalScore").getD .null := by
  have hentries : (Value.record fields).entries = .ok (fields.map fun f => (.text f.1, f.2)) := rfl
  have hmetadata : Value.field (fields.map fun f => (.text f.1, f.2)) "metadata" =
      Value.record notes := by
    rw [Value.field_record, hnotes]
    rfl
  have htruthy : (Value.record notes).isTruthy = true := by
    cases notes with
    | nil => cases htags
    | cons note notes => rfl
  have hmembers : (Value.field (notes.map fun f => (.text f.1, f.2)) "tags").membersOrNone =
      .ok tags := by
    rw [Value.field_record, htags]
    cases tags with
    | nil => rfl
    | cons tag tags => rfl
  unfold summary
  rw [hentries]
  dsimp only [bind, Except.bind]
  rw [hmetadata, orElse, if_pos htruthy]
  dsimp only [Value.record, Value.entries, Value.unfolded]
  rw [hmembers]
  dsimp only [pure, Except.pure]
  refine ⟨_, rfl, ?_, ?_, ?_⟩
  · exact Value.field_record fields "id"
  · exact Value.field_record notes "updatedAt"
  · have hscore := lookup_scoresOf (fields.map fun f => (.text f.1, f.2)) "totalScore"
    rw [if_pos (by decide), Value.field_record] at hscore
    exact hscore

/-! ## Documents that are loaded -/

namespace Saved

variable {s : Saved}

/-- The case has been made of what can be read from JSON texts. -/
def IsOfJson (s : Saved) : Prop :=
  ∃ entries clock, s.IsMadeOf entries clock ∧ Json.IsReadable (.mapping entries)

/-- The document is read from its text with the same fields. -/
theorem IsMadeOf.exists_fields {clock : Int} (hmade : s.IsMadeOf entries clock)
    (hentries : Json.IsReadable (.mapping entries)) :
    ∃ (time : String) (files : List Value) (patterns : List (Value × Value)) (tags : List Value),
      timeText clock = .ok time ∧ s.loaded = .ok (Value.record
        ((documentFields entries s.id (.text time) files patterns tags).map
          fun f => (f.1, Json.reread f.2))) := by
  obtain ⟨time, htime, hdocument⟩ := hmade.document
  obtain ⟨files, patterns, tags, hrecord, hreadable⟩ :=
    exists_of_newDocument hdocument hentries (.text time)
  have hread : Json.IsReadable s.document := hrecord ▸ .record hreadable
  refine ⟨time, files, patterns, tags, htime, ?_⟩
  rw [loaded, hread.read_write hmade.written, hrecord,
    Json.reread_record (nodup_documentFields files patterns tags)]
  rfl

/-- What is listed of a case is read from its document. -/
theorem IsMadeOf.exists_summary {clock : Int} (hmade : s.IsMadeOf entries clock)
    (hentries : Json.IsReadable (.mapping entries)) :
    ∃ told, s.loaded.bind summary = .ok told ∧ told.field "id" = .text s.id ∧
      (∃ time, timeText clock = .ok time ∧ told.field "updatedAt" = .text time) ∧
      told.field "totalScore" = Json.reread (Value.field entries "totalScore") := by
  obtain ⟨time, files, patterns, tags, hnow, hloaded⟩ := hmade.exists_fields hentries
  have hnotes : Json.reread (Value.record (noteFields (.text time) tags)) =
      Value.record (noteFields (.text time) (tags.map Json.reread)) := by
    have hnames : ["createdAt", "updatedAt", "tags"].Nodup := by decide
    have hdistinct : ((noteFields (.text time) tags).map Prod.fst).Nodup := hnames
    rw [Json.reread_record hdistinct]
    simp [noteFields]
  have hscores : (((documentFields entries s.id (.text time) files patterns tags).map
      fun f => (f.1, Json.reread f.2)).lookup "totalScore").getD .null =
      Json.reread (Value.field entries "totalScore") := by
    have hgiven := lookup_scoresOf entries "totalScore"
    rw [if_pos (by decide)] at hgiven
    -- A score that is not given is null, and so is what is read for it.
    have hnull : Json.reread .null = .null := rfl
    rw [lookup_map_snd, ← hgiven, ← Option.getD_map Json.reread, hnull]
    rfl
  generalize hfields : (documentFields entries s.id (.text time) files patterns tags).map
    (fun f => (f.1, Json.reread f.2)) = fields at hloaded hscores
  have hlookup : fields.lookup "metadata" =
      some (Value.record (noteFields (.text time) (tags.map Json.reread))) := by
    rw [← hnotes, ← hfields]
    rfl
  obtain ⟨told, htold, hid, htime, hscore⟩ := exists_summary_of_record hlookup rfl
  refine ⟨told, ?_, ?_, ⟨time, hnow, htime⟩, hscore.trans hscores⟩
  · rw [hloaded]
    exact htold
  · rw [hid, ← hfields]
    exact Json.reread_text s.id

end Saved

end BestCases

end GuestCode
