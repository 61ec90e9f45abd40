import GuestCode.Proofs.Capability.FileContents
import GuestCode.Proofs.Disk.Visiting
import Mathlib

/-!
# Searched folders

A search goes through the folders of a tree breadth first, and reports what a pattern accepts. If it
comes to an end, it has reported just the entries below its root, each once and in order. It fails
at the first entry that cannot be reported: a link that leads nowhere is reported by itself only if
nothing is there, not if it cannot be followed at all.

## Main statements

* `Files.searchFolders_eq`: a search reports one entry after the other.
* `Files.run_searchFiles`: the method as a whole.
* `Files.searchFiles_lists`: what a search lists.
* `Files.searchFiles_outcome`: when a search fails, and how.
-/

namespace GuestCode.Files

variable {disk : Disk} {workdir place : Place} {root folder path : Path} {pattern : Option Value}
  {recursive : Bool}

/-! ## One entry -/

/-- Whether a pattern accepts a name; without a pattern every name is accepted. -/
def accepts? (pattern : Option Value) (name : String) : Except Failure Bool :=
  match pattern with
  | none => .ok true
  | some p => (nameTest p).map fun test => test name

/-- What a search reports of one entry. -/
def entryReport (disk : Disk) (workdir : Place) (pattern : Option Value) (path : Path) :
    Except Failure (List Value) := do
  let isFolder ← disk.isFolder workdir path
  if ← accepts? pattern path.name then (report disk workdir path isFolder).map ([·]) else pure []

/-- Whether a search goes into an entry. -/
def isEntered (disk : Disk) (workdir : Place) (path : Path) : Bool :=
  (disk.isFolder workdir path).toOption == some true && !disk.isLink workdir path

theorem name_child (folder : Path) (name : String) : (folder.child name).name = name := by
  simp [Path.name, Path.child]

theorem searchFolder_cons (name : String) (rest : List String) :
    searchFolder disk workdir pattern folder (name :: rest) = do
      let reports ← entryReport disk workdir pattern (folder.child name)
      let (others, folders) ← searchFolder disk workdir pattern folder rest
      return (reports ++ others,
        (if isEntered disk workdir (folder.child name) then [folder.child name] else []) ++
          folders) := by
  rw [searchFolder, entryReport, isEntered, name_child]
  cases disk.isFolder workdir (folder.child name) with
  | error failure => rfl
  | ok isFolder =>
    have hentered :
        ((Except.ok isFolder : Except Failure Bool).toOption == some true) = isFolder := by
      cases isFolder <;> rfl
    rw [hentered]
    cases pattern with
    | none => cases report disk workdir (folder.child name) isFolder <;> rfl
    | some p =>
      dsimp only [accepts?, bind, Except.bind]
      cases nameTest p with
      | error failure => rfl
      | ok test =>
        dsimp only [Except.map]
        cases test name with
        | false => rfl
        | true => cases report disk workdir (folder.child name) isFolder <;> rfl

/-- The entries of a folder are reported one after the other. -/
theorem searchFolder_eq (names : List String) :
    searchFolder disk workdir pattern folder names =
      ((names.map folder.child).mapM (entryReport disk workdir pattern)).map fun reports =>
        (reports.flatten, (names.map folder.child).filter (isEntered disk workdir)) := by
  induction names with
  | nil => rfl
  | cons name rest ih =>
    rw [searchFolder_cons, ih, List.map_cons, List.mapM_cons, List.filter_cons]
    cases entryReport disk workdir pattern (folder.child name) with
    | error failure => rfl
    | ok reports =>
      cases (rest.map folder.child).mapM (entryReport disk workdir pattern) with
      | error failure => rfl
      | ok others => cases isEntered disk workdir (folder.child name) <;> rfl

/-! ## Entries of a tree -/

/-- What has been looked at has a short path. -/
theorem short_of_isFolder {isFolder : Bool} (hnul : Disk.hasNul path = false)
    (h : disk.isFolder workdir path = .ok isFolder) :
    path.display.utf8ByteSize ≤ Disk.maxPathLength := by
  by_contra hlong
  have hfailed : disk.isFolder workdir path = .error (Disk.failAt path .nameTooLong) :=
    (Disk.isFolder_eq_error_iff hnul).mpr
      ⟨Disk.locate_of_long .thing (Nat.lt_of_not_le hlong), rfl⟩
  cases h.symm.trans hfailed

/-- The entries that a search goes into are the folders. -/
theorem isEntered_iff {entry : Disk.Entry} (h : disk.Reaches workdir path place entry)
    (hshort : path.display.utf8ByteSize ≤ Disk.maxPathLength) :
    isEntered disk workdir path = true ↔ entry = .folder := by
  rw [isEntered, Bool.and_eq_true, beq_iff_eq, Bool.not_eq_true', Bool.eq_false_iff, ne_eq,
    h.isLink_iff hshort]
  constructor
  · rintro ⟨hfolder, hlink⟩
    exact (h.isFolder_iff hshort (not_exists.mp hlink)).mp (Outcome.eq_ok_of_toOption hfolder)
  · rintro rfl
    rw [(h.isFolder_iff hshort nofun).mpr rfl]
    exact ⟨rfl, nofun⟩

/-- A folder on a tree that a search has come to: its path is short. -/
structure IsWaiting (disk : Disk) (root : Path) (place : Place) (names : List String) : Prop where
  folder : disk.IsFolderBelow place names
  short : (root.below names).display.utf8ByteSize ≤ Disk.maxPathLength

theorem paths_entriesBelow (disk : Disk) (root : Path) (place : Place) (names : List String) :
    (disk.sortedNamesIn (place ++ names)).map (root.below names).child =
      (disk.entriesBelow place names).map root.below := by
  rw [Disk.entriesBelow, List.map_map]
  exact List.map_congr_left fun name _ => Disk.child_below root names name

/-- The folders of a folder whose entries have all been reported wait next. -/
theorem filter_isEntered (htree : disk.IsTree) (hopens : disk.Opens workdir root place)
    {names : List String} (hwaiting : IsWaiting disk root place names)
    (hreported : ∀ inner ∈ disk.entriesBelow place names,
      ∃ reports, entryReport disk workdir pattern (root.below inner) = .ok reports) :
    ((disk.entriesBelow place names).map root.below).filter (isEntered disk workdir) =
        (disk.foldersBelow true place names).map root.below ∧
      ∀ inner ∈ disk.foldersBelow true place names, IsWaiting disk root place inner := by
  -- An entry with a path that is too long would not have been reported.
  have hshort : ∀ {name : String} {entry : Disk.Entry},
      disk.entry? (place ++ (names ++ [name])) = some entry →
        (root.below (names ++ [name])).display.utf8ByteSize ≤ Disk.maxPathLength ∧
          disk.Reaches workdir (root.below (names ++ [name])) (place ++ (names ++ [name]))
            entry := by
    intro name entry hthere
    obtain ⟨reports, hreports⟩ := hreported _ (Disk.mem_entriesBelow.mpr ⟨name, entry, rfl, hthere⟩)
    obtain ⟨isFolder, hlooked, -⟩ := Outcome.exists_of_bind_eq_ok hreports
    have hreaches := hopens.reaches_below htree ⟨⟨names, name, rfl, hwaiting.folder⟩, hthere⟩
    exact ⟨short_of_isFolder hreaches.noNul hlooked, hreaches⟩
  constructor
  · rw [List.filter_map, Disk.foldersBelow, if_pos rfl]
    refine congrArg _ (List.filter_congr fun inner hinner => Bool.eq_iff_iff.mpr ?_)
    obtain ⟨name, entry, rfl, hthere⟩ := Disk.mem_entriesBelow.mp hinner
    rw [hthere, beq_iff_eq, Option.some.injEq]
    exact isEntered_iff (hshort hthere).2 (hshort hthere).1
  · intro inner hinner
    obtain ⟨-, name, rfl, hthere⟩ := Disk.mem_foldersBelow.mp hinner
    exact ⟨.inner hwaiting.folder hthere, (hshort hthere).1⟩

/-- A search reports one entry after the other, as the folders are visited. -/
theorem searchFolders_eq_mapM (htree : disk.IsTree) (hopens : disk.Opens workdir root place)
    {turns : Nat} {pending : List (List String)}
    (hpending : ∀ names ∈ pending, IsWaiting disk root place names) :
    searchFolders disk workdir pattern recursive turns (pending.map root.below) =
      ((((Disk.breadthFirst (disk.foldersBelow recursive place) turns pending).flatMap
        (disk.entriesBelow place)).map root.below).mapM
          (entryReport disk workdir pattern)).map List.flatten := by
  induction turns generalizing pending with
  | zero => rfl
  | succ turns ih =>
    cases pending with
    | nil => rfl
    | cons names pending =>
      obtain ⟨hwaiting, hothers⟩ := List.forall_mem_cons.mp hpending
      have hfolder := hopens.below htree hwaiting.folder hwaiting.short
      rw [List.map_cons, searchFolders, searchFolder_eq, hfolder.names_eq, paths_entriesBelow,
        Disk.breadthFirst, List.flatMap_cons, List.map_append, List.mapM_append]
      cases hreports :
          ((disk.entriesBelow place names).map root.below).mapM
            (entryReport disk workdir pattern) with
      | error failure => rfl
      | ok reports =>
        have hreported : ∀ inner ∈ disk.entriesBelow place names,
            ∃ reports, entryReport disk workdir pattern (root.below inner) = .ok reports :=
          fun inner hinner => Outcome.exists_mapM_eq_ok_iff.mp ⟨_, hreports⟩ _
            (List.mem_map_of_mem hinner)
        obtain ⟨hfolders, hnext⟩ := filter_isEntered htree hopens hwaiting hreported
        -- The queues of the two searches hold the same folders again after the turn.
        have hqueue : (if recursive then pending.map root.below ++
            ((disk.entriesBelow place names).map root.below).filter (isEntered disk workdir)
            else pending.map root.below) =
              (pending ++ disk.foldersBelow recursive place names).map root.below ∧
            ∀ inner ∈ pending ++ disk.foldersBelow recursive place names,
              IsWaiting disk root place inner := by
          cases recursive with
          | false => simpa [Disk.foldersBelow] using hothers
          | true =>
            rw [if_pos rfl, hfolders, List.map_append]
            exact ⟨rfl, List.forall_mem_append.mpr ⟨hothers, hnext⟩⟩
        change (searchFolders disk workdir pattern recursive turns (if recursive then _ else _) >>=
          fun others => pure (reports.flatten ++ others)) = _
        rw [hqueue.1, ih hqueue.2]
        cases (((Disk.breadthFirst (disk.foldersBelow recursive place) turns
          (pending ++ disk.foldersBelow recursive place names)).flatMap
            (disk.entriesBelow place)).map root.below).mapM (entryReport disk workdir pattern) with
        | error failure => rfl
        | ok others => exact congrArg Except.ok List.flatten_append.symm

/-! ## The method -/

/-- The pattern in the entries of a parameter. -/
def patternIn (entries : List (Value × Value)) : Option Value :=
  let pattern := Value.field entries "pattern"
  if pattern.isTruthy then some pattern else none

/-- Whether the entries of a parameter ask for what is in folders. -/
def isRecursive (entries : List (Value × Value)) : Bool :=
  (Value.field entries "recursive").isTruthy

/-- The reply that lists files. -/
def listing (files : List Value) : Value := Value.record [("files", .list files)]

variable {scope : Scope} {entries : List (Value × Value)} {asked target : String} {m n : Machine}

/-- A search of a path that is valid. -/
theorem run_searchFiles (hpath : Value.field entries "path" = .text asked) (hne : asked ≠ "")
    (htarget : resolve scope asked = .ok target) :
    (searchFiles scope (.mapping entries)).run m =
      (match m.disk.isFolder m.workdir (Path.ofString target) with
        | .error failure => .error failure
        | .ok false => .error (.notFound (Path.ofString target).display)
        | .ok true =>
          (searchFolders m.disk m.workdir (patternIn entries) (isRecursive entries)
            (m.disk.entries.length + 1) [Path.ofString target]).map listing, m) := by
  unfold searchFiles
  rw [requirePath_of_text "searchFiles" hpath hne, Action.run_bind_ok (Action.run_ofExcept _ _)]
  dsimp only
  rw [htarget, Action.run_bind_ok (Action.run_ofExcept _ _)]
  simp only [Action.run_bind, Action.run_onDisk]
  cases m.disk.isFolder m.workdir (Path.ofString target) with
  | error failure => rfl
  | ok isFolder =>
    cases isFolder with
    | false => rfl
    | true =>
      simp only [if_true, Action.run_pure, Action.run_bind, Action.run_onDisk]
      rw [← patternIn, ← isRecursive]
      cases searchFolders m.disk m.workdir (patternIn entries) (isRecursive entries)
        (m.disk.entries.length + 1) [Path.ofString target] <;> rfl

/-- A search of a folder of a tree. -/
theorem run_searchFiles_of_opens (htree : m.disk.IsTree)
    (hpath : Value.field entries "path" = .text asked) (hne : asked ≠ "")
    (htarget : resolve scope asked = .ok target)
    (hopens : m.disk.Opens m.workdir (Path.ofString target) place) :
    (searchFiles scope (.mapping entries)).run m =
      ((((m.disk.searched (isRecursive entries) place).map (Path.ofString target).below).mapM
        (entryReport m.disk m.workdir (patternIn entries))).map fun reports =>
          listing reports.flatten, m) := by
  have hwaiting : ∀ names ∈ [[]], IsWaiting m.disk (Path.ofString target) place names := by
    refine List.forall_mem_singleton.mpr ⟨.self hopens.entry?_eq, ?_⟩
    rw [Disk.below_nil]
    exact hopens.short
  have hfolders := @searchFolders_eq_mapM _ _ _ _ (patternIn entries) (isRecursive entries)
    htree hopens (m.disk.entries.length + 1) _ hwaiting
  rw [List.map_singleton, Disk.below_nil] at hfolders
  rw [run_searchFiles hpath hne htarget, Disk.isFolder_eq_true_iff.mpr ⟨place, hopens⟩]
  dsimp only
  rw [hfolders]
  refine congrArg (·, m) ?_
  rw [Disk.searched, Disk.visited]
  generalize List.mapM (entryReport m.disk m.workdir (patternIn entries)) _ = reported
  cases reported <;> rfl

/-! ## What is listed -/

/-- What is said of what is at a path. -/
def IsReport (disk : Disk) (workdir : Place) (path : Path) (v : Value) : Prop :=
  ∃ size isFolder, disk.size workdir path = .ok size ∧ disk.isFolder workdir path = .ok isFolder ∧
    v = Value.record
      [("path", .text path.display), ("name", .text path.name), ("size", .int size),
        ("isDirectory", .bool isFolder)]

/-- Whether a pattern accepts the name of what is at a path. -/
def isAccepted (pattern : Option Value) (path : Path) : Bool :=
  (accepts? pattern path.name).toOption == some true

theorem isAccepted_iff :
    isAccepted pattern path = true ↔ accepts? pattern path.name = .ok true := by
  rw [isAccepted, beq_iff_eq]
  refine ⟨Outcome.eq_ok_of_toOption, fun h => ?_⟩
  rw [h]
  rfl

/-- An entry is reported exactly if the pattern accepts it. -/
theorem exists_of_entryReport {reports : List Value}
    (h : entryReport disk workdir pattern path = .ok reports) :
    (isAccepted pattern path = true ∧ ∃ v, IsReport disk workdir path v ∧ reports = [v]) ∨
      (isAccepted pattern path = false ∧ reports = []) := by
  obtain ⟨isFolder, hfolder, h⟩ := Outcome.exists_of_bind_eq_ok h
  obtain ⟨accepted, haccepted, h⟩ := Outcome.exists_of_bind_eq_ok h
  rw [isAccepted, haccepted]
  cases accepted with
  | false =>
    cases h
    exact .inr ⟨rfl, rfl⟩
  | true =>
    obtain ⟨v, hv, rfl⟩ := Outcome.exists_of_map_eq_ok h
    obtain ⟨size, hsize, hv⟩ := Outcome.exists_of_bind_eq_ok hv
    cases hv
    exact .inl ⟨rfl, _, ⟨size, isFolder, hsize, hfolder, rfl⟩, rfl⟩

/-- The accepted entries are reported one after the other. -/
theorem forall₂_isReport {paths : List Path} {reports : List (List Value)}
    (h : paths.mapM (entryReport disk workdir pattern) = .ok reports) :
    List.Forall₂ (IsReport disk workdir) (paths.filter (isAccepted pattern)) reports.flatten := by
  induction paths generalizing reports with
  | nil =>
    cases h
    exact .nil
  | cons path paths ih =>
    rw [List.mapM_cons] at h
    obtain ⟨first, hfirst, h⟩ := Outcome.exists_of_bind_eq_ok h
    obtain ⟨others, hothers, h⟩ := Outcome.exists_of_bind_eq_ok h
    cases h
    rw [List.filter_cons, List.flatten_cons]
    rcases exists_of_entryReport hfirst with ⟨haccepted, v, hv, rfl⟩ | ⟨haccepted, rfl⟩
    · rw [if_pos haccepted]
      exact .cons hv (ih hothers)
    · rw [haccepted, if_neg Bool.false_ne_true]
      exact ih hothers

/-- Files are listed that are the entries below a folder of a tree, or just those in it: those that
a pattern accepts, each once, folders breadth first and names in order. -/
structure Lists (disk : Disk) (workdir : Place) (root : Path) (place : Place)
    (pattern : Option Value) (recursive : Bool) (names : List (List String))
    (files : List Value) : Prop where
  reports : List.Forall₂ (fun inner => IsReport disk workdir (root.below inner)) names files
  inOrder : names.Pairwise Disk.Precedes
  mem_iff : ∀ {inner : List String}, inner ∈ names ↔
    (∃ entry, disk.IsSearched recursive place inner entry) ∧
      accepts? pattern (root.below inner).name = .ok true

theorem lists_of_reported (htree : disk.IsTree) (hopens : disk.Opens workdir root place)
    {reports : List (List Value)}
    (h : ((disk.searched recursive place).map root.below).mapM (entryReport disk workdir pattern) =
      .ok reports) :
    Lists disk workdir root place pattern recursive
      ((disk.searched recursive place).filter (isAccepted pattern ∘ root.below))
      reports.flatten where
  reports := by
    have hreports := forall₂_isReport h
    rw [List.filter_map, List.forall₂_map_left_iff] at hreports
    exact hreports
  inOrder := (Disk.pairwise_searched htree.placedOnce recursive place).filter _
  mem_iff := by
    intro inner
    rw [List.mem_filter, Disk.mem_searched htree.placedOnce hopens.entry?_eq, Function.comp_apply,
      isAccepted_iff]

/-- What a search comes to that succeeds. -/
theorem exists_of_run_searchFiles {parameter reply : Value}
    (h : (searchFiles scope parameter).run m = (.ok reply, n)) :
    ∃ entries asked target place, parameter = .mapping entries ∧
      Value.field entries "path" = .text asked ∧ asked ≠ "" ∧ resolve scope asked = .ok target ∧
      m.disk.Opens m.workdir (Path.ofString target) place := by
  have hsteps := h
  unfold searchFiles at hsteps
  obtain ⟨⟨entries, asked⟩, k, hfirst, hothers⟩ := Action.exists_of_run_bind hsteps
  obtain ⟨hrequire, rfl⟩ := Action.run_ofExcept_eq_ok_iff.mp hfirst
  obtain ⟨target, k, hsecond, -⟩ := Action.exists_of_run_bind hothers
  have htarget := (Action.run_ofExcept_eq_ok_iff.mp hsecond).1
  obtain ⟨rfl, hpath, hne⟩ := exists_of_requirePath hrequire
  rw [run_searchFiles hpath hne htarget] at h
  have houtcome := congrArg Prod.fst h
  dsimp only at houtcome
  split at houtcome
  · cases houtcome
  · cases houtcome
  · next hfolder =>
    obtain ⟨place, hopens⟩ := Disk.isFolder_eq_true_iff.mp hfolder
    exact ⟨entries, asked, target, place, rfl, hpath, hne, htarget, hopens⟩

/-- A search that comes to an end has listed just what it is asked for. Without folders in folders
it lists the first of the same files. -/
theorem searchFiles_lists {parameter reply : Value} (htree : m.disk.IsTree)
    (h : (searchFiles scope parameter).run m = (.ok reply, n)) :
    ∃ entries asked target place names files, parameter = .mapping entries ∧
      Value.field entries "path" = .text asked ∧ resolve scope asked = .ok target ∧
      m.disk.Opens m.workdir (Path.ofString target) place ∧ reply = listing files ∧
      Lists m.disk m.workdir (Path.ofString target) place (patternIn entries) (isRecursive entries)
        names files ∧
      ∀ entries', Value.field entries' "path" = .text asked →
        patternIn entries' = patternIn entries → isRecursive entries' = false →
        ∃ first, (searchFiles scope (.mapping entries')).run m = (.ok (listing first), m) ∧
          first <+: files := by
  obtain ⟨entries, asked, target, place, rfl, hpath, hne, htarget, hopens⟩ :=
    exists_of_run_searchFiles h
  rw [run_searchFiles_of_opens htree hpath hne htarget hopens] at h
  obtain ⟨reports, hreports, rfl⟩ := Outcome.exists_of_map_eq_ok (Prod.mk.inj h).1
  refine ⟨entries, asked, target, place, _, reports.flatten, rfl, hpath, htarget, hopens, rfl,
    lists_of_reported htree hopens hreports, fun entries' hpath' hpattern hflat => ?_⟩
  -- The flat search comes across a first part of the same entries, all of which are reported.
  obtain ⟨others, hothers⟩ := m.disk.searched_prefix (isRecursive entries) place
  rw [← hothers, List.map_append, List.mapM_append] at hreports
  obtain ⟨first, hfirst, hreports⟩ := Outcome.exists_of_bind_eq_ok hreports
  obtain ⟨rest, -, hreports⟩ := Outcome.exists_of_bind_eq_ok hreports
  cases hreports
  refine ⟨first.flatten, ?_, rest.flatten, List.flatten_append.symm⟩
  rw [run_searchFiles_of_opens htree hpath' hne htarget hopens, hpattern, hflat, hfirst]
  rfl

/-- A machine with a folder, a file in it, and a link to the folder. -/
def linkedMachine : Machine :=
  { Machine.bare [] [] with
    disk := ⟨[(["p"], .folder), (["p", "b"], .folder), (["p", "b", "x"], .file [120, 121]),
      (["p", "l"], .link "b")]⟩ }

/-- The parameter that asks for all that is below the projects root. -/
def everything : List (Value × Value) :=
  [(.text "path", .text "."), (.text "recursive", .bool true)]

/-- The report of an entry. -/
def reportOf (path name : String) (size : Int) (isFolder : Bool) : Value :=
  Value.record
    [("path", .text path), ("name", .text name), ("size", .int size),
      ("isDirectory", .bool isFolder)]

/-- The link is listed, but what is in the folder is not listed again through it. -/
def linkedFiles : List Value :=
  [reportOf "p/b" "b" 0 true, reportOf "p/l" "l" 0 true, reportOf "p/b/x" "x" 2 false]

theorem isTree_linkedMachine : linkedMachine.disk.IsTree :=
  Disk.isTree_of_entries (by unfold Disk.PlacedOnce; decide) (by decide)

theorem opens_linkedMachine : linkedMachine.disk.Opens [] (Path.ofString "p/.") ["p"] :=
  ⟨rfl, by cbv⟩

theorem path_everything : Value.field everything "path" = .text "." := by cbv

theorem isRecursive_everything : isRecursive everything = true := by cbv

theorem patternIn_everything : patternIn everything = none := by cbv

theorem resolve_everything : resolve (.ofRoot "p" .null) "." = .ok "p/." := rfl

theorem run_searchFiles_everything :
    (searchFiles (.ofRoot "p" .null) (.mapping everything)).run linkedMachine =
      (.ok (listing linkedFiles), linkedMachine) := by
  have hsearched : (linkedMachine.disk.searched (isRecursive everything) ["p"]).map
      (Path.ofString "p/.").below =
        [⟨"", ["p", "b"]⟩, ⟨"", ["p", "l"]⟩, ⟨"", ["p", "b", "x"]⟩] := by
    cbv
  have hreports : ([⟨"", ["p", "b"]⟩, ⟨"", ["p", "l"]⟩, ⟨"", ["p", "b", "x"]⟩] : List Path).mapM
      (entryReport linkedMachine.disk linkedMachine.workdir (patternIn everything)) =
        .ok (linkedFiles.map ([·])) := by
    cbv
  rw [run_searchFiles_of_opens isTree_linkedMachine path_everything (by decide) resolve_everything
    opens_linkedMachine, hsearched, hreports]
  rfl

/-- It lists the folder, the link and the file; without the file just the other two. -/
theorem searchFiles_lists_linkedMachine :
    ∃ names, Lists linkedMachine.disk [] ⟨"", ["p"]⟩ ["p"] none true names linkedFiles ∧
      ∃ first, (searchFiles (.ofRoot "p" .null) (.mapping [(.text "path", .text ".")])).run
        linkedMachine = (.ok (listing first), linkedMachine) ∧ first <+: linkedFiles := by
  obtain ⟨entries, asked, target, place, names, files, hentries, hpath, htarget, hopens, hfiles,
    hlists, hfirst⟩ := searchFiles_lists isTree_linkedMachine run_searchFiles_everything
  obtain rfl := Value.mapping.inj hentries
  obtain rfl : "." = asked := Value.text.inj (path_everything.symm.trans hpath)
  obtain rfl : "p/." = target := Except.ok.inj htarget
  obtain rfl : linkedFiles = files := by
    simpa [listing, Value.record] using hfiles
  cases opens_linkedMachine.found.symm.trans hopens.found
  rw [isRecursive_everything, patternIn_everything] at hlists
  exact ⟨names, hlists, hfirst _ (by cbv) (by cbv) (by cbv)⟩

/-! ## What cannot be reported -/

/-- Why an entry cannot be reported. -/
inductive Obstacle (disk : Disk) (workdir : Place) (pattern : Option Value) (path : Path) :
    Disk.Entry → Failure → Prop where
  /-- Its path is too long. -/
  | longPath {entry : Disk.Entry} (long : Disk.maxPathLength < path.display.utf8ByteSize) :
      Obstacle disk workdir pattern path entry (Disk.failAt path .nameTooLong)
  /-- It is a link through a name that is too long. -/
  | longTarget {target : String}
      (fails : disk.locate workdir .thing path = .error .nameTooLong) :
      Obstacle disk workdir pattern path (.link target) (Disk.failAt path .nameTooLong)
  /-- The pattern cannot be used. -/
  | badPattern {entry : Disk.Entry} {failure : Failure}
      (fails : accepts? pattern path.name = .error failure) :
      Obstacle disk workdir pattern path entry failure
  /-- It is a link that the pattern accepts, and what it leads to cannot be reached. -/
  | unreachable {target : String} {fault : Disk.Fault}
      (fails : disk.locate workdir .thing path = .error fault) (notMissing : fault ≠ .missing)
      (accepted : accepts? pattern path.name = .ok true) :
      Obstacle disk workdir pattern path (.link target) (Disk.failAt path fault)

variable {entry : Disk.Entry} {failure : Failure}

theorem entryReport_eq_error_iff : entryReport disk workdir pattern path = .error failure ↔
    disk.isFolder workdir path = .error failure ∨
      ∃ isFolder, disk.isFolder workdir path = .ok isFolder ∧
        (accepts? pattern path.name = .error failure ∨
          accepts? pattern path.name = .ok true ∧ disk.size workdir path = .error failure) := by
  rw [entryReport, Outcome.bind_eq_error_iff]
  refine or_congr_right (exists_congr fun isFolder => and_congr_right fun _ => ?_)
  rw [Outcome.bind_eq_error_iff]
  refine or_congr_right ⟨?_, ?_⟩
  · rintro ⟨accepted, haccepted, h⟩
    cases accepted with
    | false => cases h
    | true =>
      refine ⟨haccepted, ?_⟩
      rw [if_pos rfl, report] at h
      cases hsize : disk.size workdir path with
      | error failure' =>
        rw [hsize] at h
        exact congrArg Except.error (Except.error.inj h)
      | ok size =>
        rw [hsize] at h
        cases h
  · rintro ⟨haccepted, hsize⟩
    refine ⟨true, haccepted, ?_⟩
    rw [if_pos rfl, report, hsize]
    rfl

/-- An entry that is not reported has an obstacle. -/
theorem obstacle_of_entryReport (hreaches : disk.Reaches workdir path place entry)
    (h : entryReport disk workdir pattern path = .error failure) :
    Obstacle disk workdir pattern path entry failure := by
  rcases entryReport_eq_error_iff.mp h with
    hfolder | ⟨isFolder, hfolder, hfails | ⟨haccepted, hsize⟩⟩
  · obtain ⟨hlocate, rfl⟩ := (Disk.isFolder_eq_error_iff hreaches.noNul).mp hfolder
    -- The path itself is too long, or a name in the target of a link is.
    by_cases hlong : Disk.maxPathLength < path.display.utf8ByteSize
    · exact .longPath hlong
    · obtain ⟨target, rfl⟩ := hreaches.exists_link_of_error (Nat.le_of_not_lt hlong) hlocate
      exact .longTarget hlocate
  · exact .badPattern hfails
  · have hshort := short_of_isFolder hreaches.noNul hfolder
    obtain ⟨fault, hlocate, hmissing, rfl⟩ := (hreaches.size_eq_error_iff hshort).mp hsize
    obtain ⟨target, rfl⟩ := hreaches.exists_link_of_error hshort hlocate
    exact .unreachable hlocate hmissing haccepted

/-- An entry with an obstacle is not reported. -/
theorem Obstacle.entryReport_ne_ok (h : Obstacle disk workdir pattern path entry failure)
    (hreaches : disk.Reaches workdir path place entry) (reports : List Value) :
    entryReport disk workdir pattern path ≠ .ok reports := by
  intro hreports
  obtain ⟨isFolder, hfolder, hothers⟩ := Outcome.exists_of_bind_eq_ok hreports
  -- Whether it is a folder was known, so no name on the way was too long.
  have hknown : disk.locate workdir .thing path ≠ .error .nameTooLong := by
    intro hlocate
    have hfails := (Disk.isFolder_eq_error_iff hreaches.noNul).mpr ⟨hlocate, rfl⟩
    cases hfolder.symm.trans hfails
  obtain ⟨failure', hfails⟩ :
      ∃ failure', entryReport disk workdir pattern path = .error failure' := by
    simp only [entryReport_eq_error_iff, hfolder]
    cases h with
    | longPath long => exact absurd (Disk.locate_of_long .thing long) hknown
    | longTarget fails => exact absurd fails hknown
    | badPattern fails => exact ⟨failure, .inr ⟨isFolder, rfl, .inl fails⟩⟩
    | unreachable fails notMissing accepted =>
      have hshort := short_of_isFolder hreaches.noNul hfolder
      exact ⟨_, .inr ⟨isFolder, rfl, .inr ⟨accepted,
        (hreaches.size_eq_error_iff hshort).mpr ⟨_, fails, notMissing, rfl⟩⟩⟩⟩
  cases hreports.symm.trans hfails

/-- An entry that a search from a folder comes across has an obstacle. -/
def IsBlocked (disk : Disk) (workdir : Place) (root : Path) (pattern : Option Value)
    (recursive : Bool) (failure : Failure) : Prop :=
  ∃ place names entry, disk.Opens workdir root place ∧
    disk.IsSearched recursive place names entry ∧
      Obstacle disk workdir pattern (root.below names) entry failure

theorem isBlocked_of_mapM_entryReport (htree : disk.IsTree)
    (hopens : disk.Opens workdir root place)
    (h : ((disk.searched recursive place).map root.below).mapM (entryReport disk workdir pattern) =
      .error failure) :
    IsBlocked disk workdir root pattern recursive failure := by
  obtain ⟨before, path, after, hpaths, hfails, -⟩ := Outcome.mapM_eq_error_iff.mp h
  obtain ⟨names, hnames, rfl⟩ :=
    List.mem_map.mp (hpaths ▸ List.mem_append_right before List.mem_cons_self)
  obtain ⟨entry, hsearched⟩ := (Disk.mem_searched htree.placedOnce hopens.entry?_eq).mp hnames
  exact ⟨place, names, entry, hopens, hsearched,
    obstacle_of_entryReport (hopens.reaches_below htree hsearched.toIsBelow) hfails⟩

theorem IsBlocked.mapM_entryReport_ne_ok (h : IsBlocked disk workdir root pattern recursive failure)
    (htree : disk.IsTree) (hopens : disk.Opens workdir root place) (reports : List (List Value)) :
    ((disk.searched recursive place).map root.below).mapM (entryReport disk workdir pattern) ≠
      .ok reports := by
  intro hreports
  obtain ⟨place', names, entry, hopens', hsearched, hobstacle⟩ := h
  cases hopens'.found.symm.trans hopens.found
  have hmem := (Disk.mem_searched htree.placedOnce hopens.entry?_eq).mpr ⟨entry, hsearched⟩
  obtain ⟨report, hreport⟩ :=
    Outcome.exists_mapM_eq_ok_iff.mp ⟨reports, hreports⟩ _ (List.mem_map_of_mem hmem)
  exact hobstacle.entryReport_ne_ok (hopens.reaches_below htree hsearched.toIsBelow) report hreport

/-- A search with a valid path lists files exactly if the path leads to a folder and no entry that
it comes across has an obstacle; with a folder, it fails with an obstacle otherwise. -/
theorem searchFiles_outcome (htree : m.disk.IsTree)
    (hpath : Value.field entries "path" = .text asked) (hne : asked ≠ "")
    (htarget : resolve scope asked = .ok target) :
    ((∃ files, (searchFiles scope (.mapping entries)).run m = (.ok (listing files), m)) ↔
      m.disk.isFolder m.workdir (Path.ofString target) = .ok true ∧
        ∀ failure, ¬IsBlocked m.disk m.workdir (Path.ofString target) (patternIn entries)
          (isRecursive entries) failure) ∧
    ∀ failure n, (searchFiles scope (.mapping entries)).run m = (.error failure, n) →
      IsBlocked m.disk m.workdir (Path.ofString target) (patternIn entries) (isRecursive entries)
        failure ∨
      m.disk.isFolder m.workdir (Path.ofString target) = .error failure ∨
      m.disk.isFolder m.workdir (Path.ofString target) = .ok false ∧
        failure = .notFound (Path.ofString target).display := by
  cases hfolder : m.disk.isFolder m.workdir (Path.ofString target) with
  | error failure =>
    rw [run_searchFiles hpath hne htarget, hfolder]
    simp
  | ok isFolder =>
    cases isFolder with
    | false =>
      rw [run_searchFiles hpath hne htarget, hfolder]
      simp +contextual
    | true =>
      obtain ⟨place, hopens⟩ := Disk.isFolder_eq_true_iff.mp hfolder
      rw [run_searchFiles_of_opens htree hpath hne htarget hopens]
      cases hreports : ((m.disk.searched (isRecursive entries) place).map
          (Path.ofString target).below).mapM
            (entryReport m.disk m.workdir (patternIn entries)) with
      | error failure =>
        have hblocked := isBlocked_of_mapM_entryReport htree hopens hreports
        refine ⟨⟨fun ⟨files, h⟩ => (by cases h), fun h => absurd hblocked (h.2 failure)⟩, ?_⟩
        intro failure' n h
        cases h
        exact .inl hblocked
      | ok reports =>
        refine ⟨⟨fun _ => ⟨rfl, fun failure hblocked => ?_⟩, fun _ => ⟨reports.flatten, rfl⟩⟩,
          fun failure n h => (by cases h)⟩
        exact hblocked.mapM_entryReport_ne_ok htree hopens reports hreports

/-- Nothing blocks the search of the tree with a link to a folder. -/
theorem searchFiles_outcome_linkedMachine :
    linkedMachine.disk.isFolder [] ⟨"", ["p"]⟩ = .ok true ∧
      ∀ failure, ¬IsBlocked linkedMachine.disk [] ⟨"", ["p"]⟩ none true failure := by
  have houtcome := (searchFiles_outcome isTree_linkedMachine path_everything (by decide)
    resolve_everything).1.mp ⟨linkedFiles, run_searchFiles_everything⟩
  rw [isRecursive_everything, patternIn_everything] at houtcome
  exact houtcome

/-- A machine with a link to itself beside a file. -/
def loopMachine : Machine :=
  { Machine.bare [] [] with
    disk := ⟨[(["p"], .folder), (["p", "a"], .file [97]), (["p", "loop"], .link "loop")]⟩ }

theorem locate_loop :
    loopMachine.disk.locate loopMachine.workdir .thing ⟨"", ["p", "loop"]⟩ =
      .error .tooManyLinks := by
  have hname : Disk.IsLookedUp .thing "loop" [] := ⟨by decide, by decide, nofun, rfl⟩
  have htop : Disk.IsLookedUp .thing "p" ["loop"] := ⟨by decide, by decide, nofun, rfl⟩
  have hrelative : "loop".startsWith "/" = false := by cbv
  have hfolder : loopMachine.disk.entry? ["p"] = some .folder := rfl
  have hthere : loopMachine.disk.entry? (["p"] ++ ["loop"]) = some (.link "loop") := rfl
  rw [Disk.locate, if_neg (by decide)]
  exact (Disk.follow_lookedUp rfl htop).trans
    (Disk.follow_selfLink hname (by decide) hrelative hfolder hthere _)

theorem entryReport_loop :
    entryReport loopMachine.disk loopMachine.workdir none ⟨"", ["p", "loop"]⟩ =
      .error (.disk .tooManyLinks "p/loop") := by
  have hfolder : loopMachine.disk.isFolder loopMachine.workdir ⟨"", ["p", "loop"]⟩ = .ok false := by
    rw [Disk.isFolder, Disk.look, locate_loop]
    rfl
  have hsize : loopMachine.disk.size loopMachine.workdir ⟨"", ["p", "loop"]⟩ =
      .error (.disk .tooManyLinks "p/loop") := by
    rw [Disk.size, locate_loop]
    rfl
  exact entryReport_eq_error_iff.mpr (.inr ⟨_, hfolder, .inr ⟨rfl, hsize⟩⟩)

/-- The search of a folder fails at the link, whatever else is in the folder. -/
theorem searchFiles_loop :
    loopMachine.disk.isFolder loopMachine.workdir (Path.ofString "p/.") = .ok true ∧
      (searchFiles (.ofRoot "p" .null) (.mapping everything)).run loopMachine =
        (.error (.disk .tooManyLinks "p/loop"), loopMachine) := by
  have htree : loopMachine.disk.IsTree :=
    Disk.isTree_of_entries (by unfold Disk.PlacedOnce; decide) (by decide)
  have hopens : loopMachine.disk.Opens loopMachine.workdir (Path.ofString "p/.") ["p"] :=
    ⟨rfl, by cbv⟩
  have hsearched : (loopMachine.disk.searched (isRecursive everything) ["p"]).map
      (Path.ofString "p/.").below = [⟨"", ["p", "a"]⟩, ⟨"", ["p", "loop"]⟩] := by
    cbv
  have hfile : entryReport loopMachine.disk loopMachine.workdir none ⟨"", ["p", "a"]⟩ =
      .ok [reportOf "p/a" "a" 1 false] := by
    cbv
  refine ⟨Disk.isFolder_eq_true_iff.mpr ⟨_, hopens⟩, ?_⟩
  rw [run_searchFiles_of_opens htree path_everything (by decide) resolve_everything hopens,
    hsearched, patternIn_everything, List.mapM_cons, List.mapM_cons, hfile, entryReport_loop]
  rfl

end GuestCode.Files
