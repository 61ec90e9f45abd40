import GuestCode.Proofs.Capability.GuideConflicts

/-!
# What combined guides are told as

Guides are combined for a list of ids. The caller is told which guides are used, the highest rank
first, and is reminded of those among them that are mandatory. An id that is asked for again adds
nothing, since the guides are looked up once for each id.

## Main statements

* `Guides.requested_repeated`: an id that is asked for again.
* `Guides.IsAnswer`: what is told of the guides that are used.
* `Guides.isAnswer_used`: the guides that are used are told so.
* `Guides.run_combine_ranked`: what combining guides comes to, whatever the folder holds.
-/

namespace GuestCode.Guides

variable {guides : List Guide} {ids : List String} {g : Guide} {folder : Path} {m : Machine}

/-! ## Guides that are asked for -/

/-- The parameter with which the guides of some ids are asked for. -/
def asking (ids : List String) : Value := Value.record [("ids", Value.texts ids)]

/-- A guide that is asked for is one of the index; its id is asked for or is that of a mandatory
guide. -/
theorem mem_and_asked_of_mem_requested (h : g ∈ requested guides ids) :
    g ∈ guides ∧ (g.id ∈ ids ∨ ∃ k ∈ guides, k.isMandatory = true ∧ k.id = g.id) := by
  obtain ⟨id, hid, hfind⟩ := List.mem_filterMap.mp h
  obtain rfl : g.id = id := by simpa using List.find?_some hfind
  refine ⟨List.mem_reverse.mp (List.mem_of_find?_eq_some hfind), ?_⟩
  rcases List.mem_append.mp (Text.mem_distinct.mp hid) with hmandatory | hasked
  · obtain ⟨k, hk, hsame⟩ := List.mem_map.mp hmandatory
    obtain ⟨hmem, hmandatory⟩ := List.mem_filter.mp hk
    exact .inr ⟨k, hmem, hmandatory, hsame⟩
  · exact .inl hasked

/-- An id that is asked for again adds no guide. -/
theorem requested_repeated (guides : List Guide) (before middle after : List String)
    (id : String) :
    requested guides (before ++ id :: (middle ++ id :: after)) =
      requested guides (before ++ id :: (middle ++ after)) := by
  have hdistinct := Text.distinct_append_cons_append_cons
    ((guides.filter Guide.isMandatory).map Guide.id ++ before) middle after id
  simp only [List.append_assoc] at hdistinct
  unfold requested
  dsimp only
  rw [hdistinct]

/-! ## The answer -/

/-- What a caller is told of a guide that is used. -/
def toldOf (g : Guide) : Value :=
  Value.record
    [("id", .text g.id), ("priority", .int g.priority), ("version", .text g.version),
      ("scope", .text g.scope)]

/-- What a caller is reminded of by a mandatory guide. -/
def reminderOf (g : Guide) : Value := .text (g.id ++ ": " ++ g.summary)

/-- What guides that are used for some ids are told as: each id once, only what was asked for or is
mandatory, the highest rank first, and reminders of the mandatory ones if there are any. -/
structure IsAnswer (guides : List Guide) (ids : List String) (gs : List Guide)
    (entries : List (Value × Value)) : Prop where
  told : Value.field? entries "usedGuides" = some (.list (gs.map toldOf))
  nodup : (gs.map Guide.id).Nodup
  asked : ∀ g ∈ gs,
    g ∈ guides ∧ (g.id ∈ ids ∨ ∃ k ∈ guides, k.isMandatory = true ∧ k.id = g.id)
  ordered : gs.Pairwise fun g h => rankKey h ≤ rankKey g
  reminded : ∀ v, Value.field? entries "mandatoryReminders" = some v ↔
    (∃ g ∈ gs, g.isMandatory = true) ∧
      v = .list ((gs.filter Guide.isMandatory).map reminderOf)

/-- The entries of the answer that combining guides gives. -/
def answerEntries (gs : List Guide) : List (String × Value) :=
  let sections := gs.map fun g => "# " ++ g.summary ++ "\n\n" ++ String.ofList g.content
  let reminders := (gs.filter Guide.isMandatory).map fun g => g.id ++ ": " ++ g.summary
  [("combined", .text ("\n\n---\n\n".intercalate sections)),
    ("usedGuides", .list (gs.map toldOf))] ++
      if reminders.isEmpty then [] else [("mandatoryReminders", Value.texts reminders)]

/-- Reminders are told if a guide is mandatory. -/
theorem lookup_answerEntries_reminders (gs : List Guide) (v : Value) :
    (answerEntries gs).lookup "mandatoryReminders" = some v ↔
      (∃ g ∈ gs, g.isMandatory = true) ∧
        v = .list ((gs.filter Guide.isMandatory).map reminderOf) := by
  have hnone : ((gs.filter Guide.isMandatory).map fun g => g.id ++ ": " ++ g.summary).isEmpty =
      true ↔ ¬∃ g ∈ gs, g.isMandatory = true := by
    simp
  have hreminders : Value.texts ((gs.filter Guide.isMandatory).map fun g =>
      g.id ++ ": " ++ g.summary) = .list ((gs.filter Guide.isMandatory).map reminderOf) := by
    simp [Value.texts, reminderOf]
  unfold answerEntries
  dsimp only
  rw [hreminders]
  by_cases h : ∃ g ∈ gs, g.isMandatory = true
  · rw [if_neg (fun hempty => hnone.mp hempty h), and_iff_right h]
    exact ⟨fun heq => (Option.some.inj heq).symm, fun heq => congrArg some heq.symm⟩
  · rw [if_pos (hnone.mpr h)]
    exact ⟨fun heq => absurd heq.symm (Option.some_ne_none v), fun hsome => absurd hsome.1 h⟩

/-- The guides that are used for some ids are told as such. -/
theorem isAnswer_used (guides : List Guide) (ids : List String) :
    IsAnswer guides ids (used guides ids)
      ((answerEntries (used guides ids)).map fun f => (.text f.1, f.2)) where
  told := by
    rw [Value.field?_record]
    rfl
  nodup := nodup_id_used
  asked := fun g hg => mem_and_asked_of_mem_requested (mem_requested_of_mem_used hg)
  ordered := (pairwise_used guides ids).imp fun hpair => outranks_eq_false_iff.mp hpair.1
  reminded := fun v => by
    rw [Value.field?_record]
    exact lookup_answerEntries_reminders _ v

/-! ## Combining guides -/

/-- Combining the guides of a folder that cannot be indexed fails as the index does. -/
theorem run_combine_of_index_error {failure : Failure}
    (h : index m.disk m.workdir folder = .error failure) (parameter : Value) :
    (combine folder parameter).run m = (.error failure, m) := by
  unfold combine
  rw [Action.run_bind, Action.run_onDisk, h]

/-- Combining guides fails only where the folder cannot be indexed. Otherwise the guides that are
used have different ids, each of which is asked for or is that of a mandatory guide, they are told in
the order of scope, priority and version, the greater first, and the caller is reminded of the
mandatory ones among them, in that order, exactly if there are any. An id that is asked for again
changes nothing. -/
theorem run_combine_ranked (folder : Path) (m : Machine) (ids : List String) :
    ((∃ failure, index m.disk m.workdir folder = .error failure ∧
        (combine folder (asking ids)).run m = (.error failure, m)) ∨
      ∃ guides gs entries, index m.disk m.workdir folder = .ok guides ∧
        (combine folder (asking ids)).run m = (.ok (.mapping entries), m) ∧
        IsAnswer guides ids gs entries) ∧
    ∀ (before middle after : List String) (id : String),
      (combine folder (asking (before ++ id :: (middle ++ id :: after)))).run m =
        (combine folder (asking (before ++ id :: (middle ++ after)))).run m := by
  cases hindex : index m.disk m.workdir folder with
  | error failure =>
    have hfails := @run_combine_of_index_error folder m failure hindex
    refine ⟨.inl ⟨failure, rfl, hfails _⟩, fun before middle after id => ?_⟩
    rw [hfails, hfails]
  | ok guides =>
    refine ⟨.inr ⟨guides, used guides ids, _, rfl, run_combine_ids ids hindex,
      isAnswer_used guides ids⟩, fun before middle after id => ?_⟩
    -- The answer depends on the guides that are asked for, and these are the same.
    have hused : used guides (before ++ id :: (middle ++ id :: after)) =
        used guides (before ++ id :: (middle ++ after)) := by
      rw [used, used, requested_repeated]
    rw [asking, asking, run_combine_ids _ hindex, run_combine_ids _ hindex, hused]

end GuestCode.Guides
