import GuestCode.Proofs.Capability.Documents
import GuestCode.Proofs.Capability.GuideIndex
import GuestCode.Proofs.Text.Words

/-!
# Guides with one id

An id need not be that of one guide only, since a guide without an id of its own has the name of its
file, and files in different folders may have one name. Loading an id gives the first guide that has
it, in the order of the paths; combining guides uses the last one.

## Main statements

* `Guides.find?_reverse_of_mem_requested`: the guides that may be used.
* `Guides.run_combine_ids`: what combining the guides of some ids comes to.
* `Guides.load_first_combine_last`: the guide that is loaded and the one that is used.
-/

namespace GuestCode

theorem Value.shown_text (s : String) : (Value.text s).shown = .ok s := by
  have hshort : (Value.text s).holdsLongInteger = false := by simp [holdsLongInteger]
  rw [shown, hshort, if_neg Bool.false_ne_true, display]

namespace Guides

variable {folder : Path} {m : Machine} {guides : List Guide} {ids : List String}

/-! ## The guides that are used -/

/-- Of guides with one id the last one counts. -/
theorem find?_reverse_of_mem_requested {g : Guide} (h : g ∈ requested guides ids) :
    guides.reverse.find? (fun other => other.id == g.id) = some g := by
  obtain ⟨id, -, hfind⟩ := List.mem_filterMap.mp h
  obtain rfl : g.id = id := by simpa using List.find?_some hfind
  exact hfind

/-- No id is used twice. -/
theorem nodup_id_requested : ((requested guides ids).map Guide.id).Nodup := by
  have hsublist : ∀ all : List String,
      ((all.filterMap fun id => guides.reverse.find? fun g => g.id == id).map Guide.id).Sublist
        all := by
    intro all
    rw [List.map_filterMap]
    induction all with
    | nil => exact .slnil
    | cons id rest ih =>
      cases hfind : guides.reverse.find? fun g => g.id == id with
      | none =>
        rw [List.filterMap_cons_none (by rw [hfind]; rfl)]
        exact ih.cons id
      | some g =>
        obtain rfl : g.id = id := by simpa using List.find?_some hfind
        rw [List.filterMap_cons_some (by rw [hfind]; rfl)]
        exact ih.cons_cons g.id
  exact (Text.nodup_distinct _).sublist (hsublist _)

/-- Selection adds some of the guides, in their order. -/
theorem exists_select_eq (ids : List String) (selected ranking : List Guide) :
    ∃ kept, kept.Sublist ranking ∧ select ids selected ranking = selected ++ kept := by
  induction ranking generalizing selected with
  | nil => exact ⟨[], .slnil, (List.append_nil _).symm⟩
  | cons g rest ih =>
    rw [select]
    split
    · obtain ⟨kept, hkept, heq⟩ := ih (selected ++ [g])
      exact ⟨g :: kept, hkept.cons_cons g, by rw [heq, List.append_assoc, List.singleton_append]⟩
    · obtain ⟨kept, hkept, heq⟩ := ih selected
      exact ⟨kept, hkept.cons g, heq⟩

/-- The guides that are used when some ids are asked for, in the order in which they are used. -/
def used (guides : List Guide) (ids : List String) : List Guide :=
  select ((ranked (requested guides ids)).map Guide.id) [] (ranked (requested guides ids))

/-- What combining guides tells its caller. -/
def combineReply (selected : List Guide) : Value :=
  let sections := selected.map fun g => "# " ++ g.summary ++ "\n\n" ++ String.ofList g.content
  let used := selected.map fun g =>
    Value.record
      [("id", .text g.id), ("priority", .int g.priority), ("version", .text g.version),
        ("scope", .text g.scope)]
  let reminders := (selected.filter Guide.isMandatory).map fun g => g.id ++ ": " ++ g.summary
  Value.record
    ([("combined", .text ("\n\n---\n\n".intercalate sections)), ("usedGuides", .list used)] ++
      if reminders.isEmpty then [] else [("mandatoryReminders", Value.texts reminders)])

/-- The guides that are used are some of those that are asked for. -/
theorem exists_sublist_used (guides : List Guide) (ids : List String) :
    ∃ ranking, ranking.Perm (requested guides ids) ∧ (used guides ids).Sublist ranking := by
  obtain ⟨kept, hkept, heq⟩ := exists_select_eq ((ranked (requested guides ids)).map Guide.id) []
    (ranked (requested guides ids))
  refine ⟨ranked (requested guides ids), List.mergeSort_perm _ _, ?_⟩
  rw [used, heq, List.nil_append]
  exact hkept

theorem mem_requested_of_mem_used {g : Guide} (h : g ∈ used guides ids) :
    g ∈ requested guides ids := by
  obtain ⟨ranking, hperm, hsublist⟩ := exists_sublist_used guides ids
  exact hperm.mem_iff.mp (hsublist.subset h)

theorem nodup_id_used : ((used guides ids).map Guide.id).Nodup := by
  obtain ⟨ranking, hperm, hsublist⟩ := exists_sublist_used guides ids
  exact ((hperm.map Guide.id).nodup_iff.mpr nodup_id_requested).sublist (hsublist.map Guide.id)

/-! ## Loading and combining -/

/-- The guides that have an id. -/
def named (guides : List Guide) (id : String) : List Guide := guides.filter fun g => g.id == id

/-- The first guide with an id is loaded. -/
theorem run_load {id : String} (hid : id ≠ "") (h : index m.disk m.workdir folder = .ok guides) :
    (load folder (Value.record [("id", .text id)])).run m =
      (match (named guides id).head? with
        | some g => .ok (Value.record [("guide", g.toValue)])
        | none => .error (.notFound ("guide " ++ id)), m) := by
  have hfield : Value.field [(.text "id", .text id)] "id" = .text id :=
    Value.field_record [("id", .text id)] "id"
  have htruthy : (Value.text id).isTruthy = true := by simpa [Value.isTruthy] using hid
  have hsame : ∀ g : Guide, (Value.text g.id).same (.text id) = (g.id == id) :=
    fun g => by rw [Value.same]
  simp only [load, Value.record, List.map_cons, List.map_nil, hfield, htruthy, hsame, if_true,
    Action.run_bind, Action.run_onDisk, h]
  rw [named, List.head?_filter]
  cases guides.find? fun g => g.id == id with
  | none => rfl
  | some g => rfl

/-- Combining the guides of some ids uses them as `used` tells. -/
theorem run_combine_ids (ids : List String) (h : index m.disk m.workdir folder = .ok guides) :
    (combine folder (Value.record [("ids", Value.texts ids)])).run m =
      (.ok (combineReply (used guides ids)), m) := by
  have hentries : (Value.record [("ids", Value.texts ids)]).optionalEntries =
      .ok [(.text "ids", Value.texts ids)] := rfl
  have hids : Guide.nameList (Value.field [(.text "ids", Value.texts ids)] "ids") = .ok ids := by
    have hfield : Value.field [(.text "ids", Value.texts ids)] "ids" = Value.texts ids :=
      Value.field_record [("ids", Value.texts ids)] "ids"
    have hshown : (ids.map Value.text).mapM Value.shown = .ok (ids.map id) := by
      rw [List.mapM_map]
      exact Outcome.mapM_eq_ok_map fun id _ => Value.shown_text id
    rw [hfield]
    rwa [List.map_id] at hshown
  simp only [combine, Action.run_bind, Action.run_onDisk, Action.run_ofExcept, h, hentries, hids]
  rfl

/-- The guide that is used under an id is the last one that has the id. -/
theorem getLast?_named_of_mem_used {g : Guide} (h : g ∈ used guides ids) :
    (named guides g.id).getLast? = some g := by
  have hlast := find?_reverse_of_mem_requested (mem_requested_of_mem_used h)
  rwa [← List.head?_filter, List.filter_reverse, List.head?_reverse] at hlast

/-- Of the guides with an id the first one is loaded and the last one is used. So they are the same
guide if no other guide has the id, and they need not be otherwise. -/
theorem load_first_combine_last {id : String} (hid : id ≠ "")
    (h : index m.disk m.workdir folder = .ok guides) :
    (load folder (Value.record [("id", .text id)])).run m =
      (match (named guides id).head? with
        | some g => .ok (Value.record [("guide", g.toValue)])
        | none => .error (.notFound ("guide " ++ id)), m) ∧
    (combine folder (Value.record [("ids", Value.texts [id])])).run m =
      (.ok (combineReply (used guides [id])), m) ∧
    ((used guides [id]).map Guide.id).Nodup ∧
    (∀ g ∈ used guides [id], (named guides g.id).getLast? = some g) ∧
    ∀ loaded g, (named guides id).head? = some loaded → g ∈ used guides [id] → g.id = id →
      (loaded = g ↔ (named guides id).head? = (named guides id).getLast?) ∧
      ((named guides id).length = 1 → loaded = g) := by
  refine ⟨run_load hid h, run_combine_ids [id] h, nodup_id_used,
    fun g hg => getLast?_named_of_mem_used hg, ?_⟩
  rintro loaded g hloaded hg rfl
  have hlast := getLast?_named_of_mem_used hg
  refine ⟨by rw [hloaded, hlast, Option.some.injEq], fun hone => ?_⟩
  obtain ⟨only, honly⟩ := List.length_eq_one_iff.mp hone
  rw [honly] at hloaded hlast
  exact Option.some.inj (hloaded.symm.trans hlast)

/-! ## Two guides with one id -/

/-- A disk with guides in two folders, whose files have one name. -/
def introDisk : Disk :=
  ⟨[(["guides"], .folder), (["guides", "a"], .folder),
    (["guides", "a", "intro.md"], .file (Utf8.encode "first".toList)),
    (["guides", "b"], .folder),
    (["guides", "b", "intro.md"], .file (Utf8.encode "second".toList))]⟩

/-- A machine with these guides. -/
def introMachine : Machine := { Machine.bare [] [] with disk := introDisk }

/-- The guide in one of the folders. -/
def introGuide (name content : String) : Guide :=
  { id := "intro", summary := "intro", content := content.toList, file := name ++ "/intro.md",
    tags := [], priority := 50, scope := "global", version := "1.0", isMandatory := false,
    requires := [], excludes := [] }

theorem isPlain_intro {names : List String} {entry : Disk.Entry}
    (h : (names, entry) ∈ introDisk.entries) : Disk.IsPlain ⟨"", names⟩ := by
  simp only [introDisk, List.mem_cons, List.not_mem_nil, or_false, Prod.mk.injEq] at h
  rcases h with ⟨rfl, -⟩ | ⟨rfl, -⟩ | ⟨rfl, -⟩ | ⟨rfl, -⟩ | ⟨rfl, -⟩
  all_goals exact ⟨rfl, by decide, by decide⟩

theorem locate_intro {goal : Disk.Goal} {names : List String} {entry : Disk.Entry}
    (h : (names, entry) ∈ introDisk.entries) :
    introDisk.locate [] goal ⟨"", names⟩ = .ok (.found names entry) := by
  have hplain := isPlain_intro h
  simp only [introDisk, List.mem_cons, List.not_mem_nil, or_false, Prod.mk.injEq] at h
  rcases h with ⟨rfl, rfl⟩ | ⟨rfl, rfl⟩ | ⟨rfl, rfl⟩ | ⟨rfl, rfl⟩ | ⟨rfl, rfl⟩
  all_goals exact hplain.locate_eq (by decide) rfl nofun

theorem names_intro {names : List String} {inside : List String}
    (h : (names, .folder) ∈ introDisk.entries) (hinside : introDisk.namesIn names = inside)
    (hsorted : inside.Pairwise fun a b => decide (a ≤ b) = true) :
    introDisk.names [] ⟨"", names⟩ = inside := by
  rw [Disk.names, locate_intro h, ← hinside]
  exact List.mergeSort_of_pairwise (hinside ▸ hsorted)

theorem isFolder_intro {names : List String} {entry : Disk.Entry}
    (h : (names, entry) ∈ introDisk.entries) :
    introDisk.isFolder [] ⟨"", names⟩ = .ok (decide (entry = .folder)) := by
  rw [Disk.isFolder, Disk.look, (isPlain_intro h).noNul, locate_intro h]
  cases entry with
  | folder | file | link => rfl

/-- In each of the two folders there is one file. -/
theorem filesUpTo_intro {name : String} (hname : name ∈ ["a", "b"]) :
    introDisk.isFolder [] (guidesFolder.child name) = .ok true ∧
    introDisk.isLink [] (guidesFolder.child name) = false ∧
    filesUpTo introDisk [] 5 (guidesFolder.child name) =
      .ok [⟨"", ["guides", name, "intro.md"]⟩] := by
  have hentries : (["guides", name], .folder) ∈ introDisk.entries ∧
      introDisk.namesIn ["guides", name] = ["intro.md"] ∧
      ∃ octets, (["guides", name, "intro.md"], .file octets) ∈ introDisk.entries := by
    simp only [List.mem_cons, List.not_mem_nil, or_false] at hname
    rcases hname with rfl | rfl
    · exact ⟨by decide, rfl, Utf8.encode "first".toList, by decide⟩
    · exact ⟨by decide, rfl, Utf8.encode "second".toList, by decide⟩
  obtain ⟨hfolder, hinside, octets, hfile⟩ := hentries
  have hnames : introDisk.names [] (guidesFolder.child name) = ["intro.md"] :=
    names_intro hfolder hinside (by simp)
  have hnone : introDisk.isFolder [] ((guidesFolder.child name).child "intro.md") = .ok false :=
    isFolder_intro hfile
  have hlocate : introDisk.locate [] .entry (guidesFolder.child name) =
      .ok (.found ["guides", name] .folder) := locate_intro hfolder
  refine ⟨isFolder_intro hfolder, by rw [Disk.isLink, hlocate], ?_⟩
  rw [filesUpTo, hnames]
  dsimp only
  rw [List.mapM_cons, hnone]
  rfl

theorem files_intro : files introDisk [] guidesFolder =
    .ok [⟨"", ["guides", "a", "intro.md"]⟩, ⟨"", ["guides", "b", "intro.md"]⟩] := by
  have hthere : introDisk.isFolder [] guidesFolder = .ok true :=
    @isFolder_intro _ .folder (by decide)
  have hnames : introDisk.names [] guidesFolder = ["a", "b"] :=
    names_intro (by decide) rfl (by decide)
  have hfound : filesUpTo introDisk [] 6 guidesFolder =
      .ok [⟨"", ["guides", "a", "intro.md"]⟩, ⟨"", ["guides", "b", "intro.md"]⟩] := by
    rw [filesUpTo, hnames]
    dsimp only
    rw [Outcome.mapM_eq_ok_map fun name hname => ?inner]
    case inner =>
      obtain ⟨hfolder, hlink, hfiles⟩ := filesUpTo_intro hname
      rw [hfolder, hlink]
      exact hfiles
    rfl
  have hsorted : [(⟨"", ["guides", "a", "intro.md"]⟩ : Path),
      ⟨"", ["guides", "b", "intro.md"]⟩].Pairwise fun p q => (!q.precedes p) = true := by
    decide
  have hlimit : introDisk.entries.length + 1 = 6 := rfl
  rw [files, hthere, hlimit]
  dsimp only [bind, Except.bind]
  rw [if_pos rfl, hfound]
  exact congrArg Except.ok (List.mergeSort_of_pairwise hsorted)

/-- A guide without data in front has the name of its file for its id. -/
theorem read_intro {name content : String}
    (hfile : (["guides", name, "intro.md"], .file (Utf8.encode content.toList)) ∈ introDisk.entries)
    (hlines : '\r' ∉ content.toList)
    (hparse : (Guide.parse content.toList (nameInside guidesFolder
      ⟨"", ["guides", name, "intro.md"]⟩)).toOption = some (introGuide name content)) :
    read introDisk [] guidesFolder ⟨"", ["guides", name, "intro.md"]⟩ =
      .ok (introGuide name content) := by
  have hread : introDisk.readText [] ⟨"", ["guides", name, "intro.md"]⟩ = .ok content.toList :=
    Disk.Holds.readText ⟨(isPlain_intro hfile).noNul, locate_intro hfile⟩ hlines
  exact (read_of_readText hread).trans (Outcome.eq_ok_of_toOption hparse)

theorem index_intro : index introDisk [] guidesFolder =
    .ok [introGuide "a" "first", introGuide "b" "second"] := by
  have ha := @read_intro "a" "first" (by decide) (by decide) (by decide +kernel)
  have hb := @read_intro "b" "second" (by decide) (by decide) (by decide +kernel)
  rw [index, files_intro]
  dsimp only [bind, Except.bind]
  rw [List.mapM_cons, List.mapM_cons, read?, read?, ha, hb]
  rfl

theorem used_intro :
    used [introGuide "a" "first", introGuide "b" "second"] ["intro"] = [introGuide "b" "second"] := by
  have hrequested : requested [introGuide "a" "first", introGuide "b" "second"] ["intro"] =
      [introGuide "b" "second"] := by
    decide
  rw [used, hrequested, ranked, List.mergeSort_singleton]
  rfl

/-- What is loaded is not what is used. -/
theorem load_introMachine_ne_combine : ∃ loaded g : Guide,
    (load guidesFolder (Value.record [("id", .text "intro")])).run introMachine =
      (.ok (Value.record [("guide", loaded.toValue)]), introMachine) ∧
    (combine guidesFolder (Value.record [("ids", Value.texts ["intro"])])).run introMachine =
      (.ok (combineReply [g]), introMachine) ∧
    loaded.id = "intro" ∧ g.id = "intro" ∧ loaded.content ≠ g.content := by
  have hload := @run_load _ introMachine _ "intro" (by decide) index_intro
  have hcombine := @run_combine_ids _ introMachine _ ["intro"] index_intro
  rw [used_intro] at hcombine
  exact ⟨introGuide "a" "first", introGuide "b" "second", hload, hcombine, rfl, rfl, by decide⟩

theorem load_first_combine_last_introMachine :
    (load guidesFolder (Value.record [("id", .text "intro")])).run introMachine =
      (.ok (Value.record [("guide", (introGuide "a" "first").toValue)]), introMachine) ∧
    (combine guidesFolder (Value.record [("ids", Value.texts ["intro"])])).run introMachine =
      (.ok (combineReply [introGuide "b" "second"]), introMachine) := by
  obtain ⟨hload, hcombine, -⟩ :=
    @load_first_combine_last _ introMachine _ "intro" (by decide) index_intro
  rw [used_intro] at hcombine
  exact ⟨hload, hcombine⟩

end Guides

end GuestCode
