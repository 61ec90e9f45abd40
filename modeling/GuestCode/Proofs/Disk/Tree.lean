import GuestCode.Proofs.Disk.Folders

/-!
# Below a folder

On a disk that is a tree, each place is there once and the name of an entry stands for nothing else.
What is below a folder is named by the names that lead there through other folders. A path to the
folder with these names after it leads to the same place, unless it is too long; links on the way to
the folder do not matter.

## Main statements

* `Disk.IsTree`, `Disk.IsFolderBelow`, `Disk.IsBelow`: trees, and what is below a folder of a tree.
* `Disk.Leads.exists_append`: names after a path are followed from where the path leads to.
* `Disk.Opens.below`, `Disk.Opens.reaches_below`: a path to a folder leads on to what is below it.
* `Disk.Reaches.size_eq_error_iff`: when the size of an entry is not known.
* `Disk.pairwise_sortedNamesIn`: the names in a folder are in order.
-/

namespace GuestCode

/-- A path with names after it. -/
def Path.below (root : Path) (names : List String) : Path :=
  { root with names := root.names ++ names }

namespace Disk

/-! ## Trees -/

/-- A name that stands for nothing but an entry of a folder. -/
structure IsEntryName (name : String) : Prop where
  notSelf : name ≠ "" ∧ name ≠ "."
  notUp : name ≠ ".."
  noNul : name.toList.contains '\x00' = false
  short : isTooLong name = false

theorem IsEntryName.isLookedUp {name : String} (h : IsEntryName name) {goal : Goal}
    (hgoal : goal ≠ .file) (rest : List String) : IsLookedUp goal name rest :=
  ⟨h.notSelf, h.notUp, fun hfile => absurd hfile hgoal, h.short⟩

/-- A disk with each place once, whose entries have names that stand for nothing else. -/
structure IsTree (disk : Disk) : Prop where
  placedOnce : PlacedOnce disk
  named : ∀ {place : Place} {name : String} {entry : Entry},
    disk.entry? (place ++ [name]) = some entry → IsEntryName name

instance (name : String) : Decidable (IsEntryName name) :=
  decidable_of_iff ((name ≠ "" ∧ name ≠ ".") ∧ name ≠ ".." ∧
      name.toList.contains '\x00' = false ∧ isTooLong name = false)
    ⟨fun h => ⟨h.1, h.2.1, h.2.2.1, h.2.2.2⟩, fun h => ⟨h.notSelf, h.notUp, h.noNul, h.short⟩⟩

theorem isTree_of_entries {disk : Disk} (hplaced : PlacedOnce disk)
    (hnames : ∀ place ∈ disk.entries.map Prod.fst, ∀ name ∈ place.getLast?, IsEntryName name) :
    disk.IsTree where
  placedOnce := hplaced
  named {place name entry} hthere := by
    rw [ entry?, if_neg (by simp)] at hthere
    exact hnames _ (mem_places.mpr ⟨entry, hthere⟩) name (by simp)

/-- The names of folders below a folder, and of the folder itself. -/
inductive IsFolderBelow (disk : Disk) (place : Place) : List String → Prop where
  | self (folder : disk.entry? place = some .folder) : IsFolderBelow disk place []
  | inner {names : List String} {name : String} (outer : IsFolderBelow disk place names)
      (folder : disk.entry? (place ++ (names ++ [name])) = some .folder) :
      IsFolderBelow disk place (names ++ [name])

/-- The names of an entry below a folder: it is in the folder or in a folder below it. -/
structure IsBelow (disk : Disk) (place : Place) (names : List String) (entry : Entry) : Prop where
  outer : ∃ folder name, names = folder ++ [name] ∧ IsFolderBelow disk place folder
  there : disk.entry? (place ++ names) = some entry

variable {disk : Disk} {workdir place : Place} {root : Path} {names : List String} {entry : Entry}

theorem IsFolderBelow.entry?_eq (h : disk.IsFolderBelow place names) :
    disk.entry? (place ++ names) = some .folder := by
  cases h with
  | self folder => rwa [List.append_nil]
  | inner _ folder => exact folder

theorem IsFolderBelow.isBelow (h : disk.IsFolderBelow place names) (hne : names ≠ []) :
    disk.IsBelow place names .folder := by
  cases h with
  | self => exact absurd rfl hne
  | inner outer folder => exact ⟨⟨_, _, rfl, outer⟩, folder⟩

/-- The place of an entry below a folder is listed on the disk. -/
theorem IsBelow.mem_places (h : disk.IsBelow place names entry) :
    place ++ names ∈ disk.entries.map Prod.fst := by
  obtain ⟨⟨folder, name, rfl, -⟩, hthere⟩ := h
  refine Disk.mem_places.mpr ⟨entry, ?_⟩
  rw [← hthere, entry?]
  simp

theorem IsTree.isEntryName (h : disk.IsTree) {name : String}
    (hthere : disk.entry? (place ++ (names ++ [name])) = some entry) : IsEntryName name := by
  rw [← List.append_assoc] at hthere
  exact h.named hthere

theorem IsFolderBelow.isEntryName (htree : disk.IsTree) (h : disk.IsFolderBelow place names) :
    ∀ name ∈ names, IsEntryName name := by
  induction h with
  | self => simp
  | inner _ folder ih =>
    exact List.forall_mem_append.mpr ⟨ih, by simpa using htree.isEntryName folder⟩

/-! ## Following -/

/-- Names after a path that leads to a folder are followed from there, with the links that are left.
-/
theorem Leads.exists_append {links : Nat} {q : Place}
    (h : disk.Leads .thing links place names (.found q .folder)) :
    ∃ left, ∀ {goal : Goal} {rest : List String} {l : Location}, goal ≠ .file → rest ≠ [] →
      disk.Leads goal left q rest l → disk.Leads goal links place (names ++ rest) l := by
  have hmore : ∀ {goal : Goal} {name : String} {others more : List String}, goal ≠ .file →
      IsLookedUp .thing name others → IsLookedUp goal name more :=
    fun hgoal h => ⟨h.notSelf, h.notUp, fun hfile => absurd hfile hgoal, h.short⟩
  generalize hl : Location.found q .folder = l at h
  -- How many links are left is known where the path ends, and handed back along the way.
  induction h with
  | @found links place entry there =>
    cases hl
    exact ⟨links, fun _ _ hrest => hrest⟩
  | vacant => cases hl
  | self folder isSelf _ ih =>
    obtain ⟨left, hleft⟩ := ih hl
    exact ⟨left, fun hgoal hne hrest => .self folder isSelf (hleft hgoal hne hrest)⟩
  | up folder _ ih =>
    obtain ⟨left, hleft⟩ := ih hl
    exact ⟨left, fun hgoal hne hrest => .up folder (hleft hgoal hne hrest)⟩
  | missing => cases hl
  | link => cases hl
  | @through links place name target others l folder lookedUp there _ _ ih =>
    obtain ⟨left, hleft⟩ := ih hl
    refine ⟨left, fun hgoal hne hrest => ?_⟩
    have hothers := hleft hgoal hne hrest
    rw [List.append_assoc] at hothers
    -- Something follows the link, so it is followed whatever is wanted.
    exact .through folder (hmore hgoal lookedUp) there
      (fun hnil => absurd (List.append_eq_nil_iff.mp hnil).2 hne) hothers
  | into folder lookedUp there noLink _ ih =>
    obtain ⟨left, hleft⟩ := ih hl
    exact ⟨left, fun hgoal hne hrest =>
      .into folder (hmore hgoal lookedUp) there noLink (hleft hgoal hne hrest)⟩

/-- A path that is too long leads nowhere. -/
theorem locate_of_long {path : Path} (goal : Goal)
    (h : maxPathLength < path.display.utf8ByteSize) :
    disk.locate workdir goal path = .error .nameTooLong := if_pos h

/-- A link to itself is never followed to an end. -/
theorem follow_selfLink {name : String} (hname : IsLookedUp .thing name [])
    (htarget : targetNames name = [name]) (hrelative : name.startsWith "/" = false)
    (hfolder : disk.entry? place = some .folder)
    (hthere : disk.entry? (place ++ [name]) = some (.link name)) (links : Nat) :
    disk.follow .thing links place [name] = .error .tooManyLinks := by
  induction links with
  | zero =>
    rw [follow_lookedUp hfolder hname, hthere]
    rfl
  | succ links ih =>
    rw [follow_lookedUp hfolder hname, hthere]
    dsimp only
    rw [if_neg (by decide), hrelative, if_neg Bool.false_ne_true, htarget, List.append_nil]
    exact ih

/-! ## Open folders -/

/-- A path leads to a folder. -/
structure Opens (disk : Disk) (workdir : Place) (path : Path) (place : Place) : Prop where
  noNul : hasNul path = false
  found : disk.locate workdir .thing path = .ok (.found place .folder)

theorem isFolder_eq_true_iff {path : Path} :
    disk.isFolder workdir path = .ok true ↔ ∃ place, disk.Opens workdir path place := by
  constructor
  · intro h
    obtain ⟨place, hfound⟩ := exists_locate_of_isFolder h
    refine ⟨place, Bool.eq_false_iff.mpr fun hnul => ?_, hfound⟩
    rw [isFolder, look, if_pos hnul] at h
    cases h
  · rintro ⟨place, hopens⟩
    exact isFolder_of_locate hopens.noNul hopens.found

/-- It is not known whether a path leads to a folder only if it holds a name that is too long. -/
theorem isFolder_eq_error_iff {path : Path} {failure : Failure} (hnul : hasNul path = false) :
    disk.isFolder workdir path = .error failure ↔
      disk.locate workdir .thing path = .error .nameTooLong ∧
        failure = failAt path .nameTooLong := by
  rw [isFolder, look, if_neg (Bool.eq_false_iff.mp hnul)]
  cases disk.locate workdir .thing path with
  | ok l => cases l <;> simp [Except.map]
  | error fault => cases fault <;> simp [Except.map, eq_comm]

/-- A path that leads to an entry, unless it is too long. -/
structure Reaches (disk : Disk) (workdir : Place) (path : Path) (place : Place) (entry : Entry) :
    Prop where
  noNul : hasNul path = false
  there : path.display.utf8ByteSize ≤ maxPathLength →
    disk.locate workdir .entry path = .ok (.found place entry)
  followed : path.display.utf8ByteSize ≤ maxPathLength → (∀ target, entry ≠ .link target) →
    disk.locate workdir .thing path = .ok (.found place entry)

namespace Reaches

variable {path : Path}

theorem isLink_iff (h : disk.Reaches workdir path place entry)
    (hshort : path.display.utf8ByteSize ≤ maxPathLength) :
    disk.isLink workdir path = true ↔ ∃ target, entry = .link target := by
  rw [isLink, h.there hshort]
  cases entry <;> simp

/-- An entry that is no link and is said to be a folder is one. -/
theorem isFolder_iff (h : disk.Reaches workdir path place entry)
    (hshort : path.display.utf8ByteSize ≤ maxPathLength) (hlink : ∀ target, entry ≠ .link target) :
    disk.isFolder workdir path = .ok true ↔ entry = .folder := by
  have hlocate := h.followed hshort hlink
  constructor
  · intro hfolder
    obtain ⟨q, hq⟩ := exists_locate_of_isFolder hfolder
    cases hlocate.symm.trans hq
    rfl
  · rintro rfl
    exact isFolder_of_locate h.noNul hlocate

/-- The size of an entry is not known only if it leads, as a link, to something that cannot be
reached for another reason than that nothing is there. -/
theorem size_eq_error_iff (h : disk.Reaches workdir path place entry)
    (hshort : path.display.utf8ByteSize ≤ maxPathLength) {failure : Failure} :
    disk.size workdir path = .error failure ↔
      ∃ fault, disk.locate workdir .thing path = .error fault ∧ fault ≠ .missing ∧
        failure = failAt path fault := by
  rw [size, h.there hshort]
  cases disk.locate workdir .thing path with
  | ok l => cases l <;> simp
  | error fault => cases fault <;> simp [eq_comm]

/-- An entry that cannot be followed is a link. -/
theorem exists_link_of_error {fault : Fault} (h : disk.Reaches workdir path place entry)
    (hshort : path.display.utf8ByteSize ≤ maxPathLength)
    (hfails : disk.locate workdir .thing path = .error fault) : ∃ target, entry = .link target := by
  by_contra hlink
  cases (h.followed hshort (not_exists.mp hlink)).symm.trans hfails

theorem opens (h : disk.Reaches workdir path place .folder)
    (hshort : path.display.utf8ByteSize ≤ maxPathLength) : disk.Opens workdir path place :=
  ⟨h.noNul, h.followed hshort nofun⟩

end Reaches

theorem Opens.entry?_eq {folder : Path} (h : disk.Opens workdir folder place) :
    disk.entry? place = some .folder :=
  (locate_eq_ok_iff.mp h.found).2.entry?_eq

theorem Opens.short {folder : Path} (h : disk.Opens workdir folder place) :
    folder.display.utf8ByteSize ≤ maxPathLength :=
  (locate_eq_ok_iff.mp h.found).1

/-- The path of an entry of a folder leads to the entry. -/
theorem Opens.reaches_child {folder : Path} {name : String}
    (h : disk.Opens workdir folder place) (hname : IsEntryName name)
    (hthere : disk.entry? (place ++ [name]) = some entry) :
    disk.Reaches workdir (folder.child name) (place ++ [name]) entry := by
  obtain ⟨left, hleft⟩ := (locate_eq_ok_iff.mp h.found).2.exists_append
  have hentry : Goal.entry ≠ .file := by decide
  have hthing : Goal.thing ≠ .file := by decide
  refine ⟨?_, fun hshort => locate_eq_ok_iff.mpr ⟨hshort, ?_⟩,
    fun hshort hlink => locate_eq_ok_iff.mpr ⟨hshort, ?_⟩⟩
  · have hlast : hasNul ⟨"", [name]⟩ = false := by simpa [hasNul] using hname.noNul
    rw [hasNul, Path.child, List.any_append, Bool.or_eq_false_iff]
    exact ⟨h.noNul, hlast⟩
  · refine hleft hentry (List.cons_ne_nil _ _) ?_
    have hlookedUp := hname.isLookedUp hentry []
    -- A link is looked at itself if an entry is wanted.
    cases entry with
    | link target => exact .link h.entry?_eq hlookedUp hthere rfl
    | file octets => exact .into h.entry?_eq hlookedUp hthere (by simp) (.found hthere)
    | folder => exact .into h.entry?_eq hlookedUp hthere (by simp) (.found hthere)
  · exact hleft hthing (List.cons_ne_nil _ _)
      (.into h.entry?_eq (hname.isLookedUp hthing []) hthere hlink (.found hthere))

/-! ## Paths below a folder -/

theorem below_nil (root : Path) : root.below [] = root := by
  simp [Path.below]

theorem child_below (root : Path) (names : List String) (name : String) :
    (root.below names).child name = root.below (names ++ [name]) := by
  simp [Path.below, Path.child]

/-- The path of a folder is short if that of an entry of it is. -/
theorem display_below_le {name : String} (hname : name ≠ "")
    (hshort : (root.below (names ++ [name])).display.utf8ByteSize ≤ maxPathLength) :
    (root.below names).display.utf8ByteSize ≤ maxPathLength := by
  rw [← child_below] at hshort
  exact Nat.le_trans (display_child_le _ hname) hshort

theorem Opens.hasNul_below (h : disk.Opens workdir root place)
    (hnames : ∀ name ∈ names, IsEntryName name) : hasNul (root.below names) = false := by
  rw [hasNul, Path.below, List.any_append, Bool.or_eq_false_iff]
  refine ⟨h.noNul, List.any_eq_false.mpr fun name hname => ?_⟩
  exact Bool.eq_false_iff.mp (hnames name hname).noNul

/-- A path to a folder leads on to the folders below it. -/
theorem Opens.below (h : disk.Opens workdir root place) (htree : disk.IsTree)
    (hfolder : disk.IsFolderBelow place names)
    (hshort : (root.below names).display.utf8ByteSize ≤ maxPathLength) :
    disk.Opens workdir (root.below names) (place ++ names) := by
  induction hfolder with
  | self =>
    rw [below_nil, List.append_nil]
    exact h
  | @inner names name outer folder ih =>
    have hname := htree.isEntryName folder
    have houter := ih (display_below_le hname.notSelf.1 hshort)
    rw [← child_below] at hshort ⊢
    rw [← List.append_assoc] at folder ⊢
    exact (houter.reaches_child hname folder).opens hshort

/-- It leads on to the entries below it. -/
theorem Opens.reaches_below (h : disk.Opens workdir root place) (htree : disk.IsTree)
    (hbelow : disk.IsBelow place names entry) :
    disk.Reaches workdir (root.below names) (place ++ names) entry := by
  obtain ⟨⟨folder, name, rfl, hfolder⟩, hthere⟩ := hbelow
  have hname := htree.isEntryName hthere
  -- That the folder before the last name is open is only known of short paths.
  have hreaches : (root.below (folder ++ [name])).display.utf8ByteSize ≤ maxPathLength →
      disk.Reaches workdir (root.below (folder ++ [name])) (place ++ (folder ++ [name])) entry := by
    intro hshort
    have houter := h.below htree hfolder (display_below_le hname.notSelf.1 hshort)
    rw [← List.append_assoc] at hthere ⊢
    rw [← child_below]
    exact houter.reaches_child hname hthere
  refine ⟨h.hasNul_below (List.forall_mem_append.mpr ⟨hfolder.isEntryName htree, by simpa⟩),
    fun hshort => (hreaches hshort).there hshort, fun hshort => (hreaches hshort).followed hshort⟩

/-! ## Names in order -/

/-- The names of the entries of a folder, in order. -/
def sortedNamesIn (disk : Disk) (place : Place) : List String :=
  (disk.namesIn place).mergeSort fun a b => decide (a ≤ b)

theorem Opens.names_eq {folder : Path} (h : disk.Opens workdir folder place) :
    disk.names workdir folder = disk.sortedNamesIn place := by
  rw [names, h.found]
  rfl

theorem mem_sortedNamesIn {name : String} : name ∈ disk.sortedNamesIn place ↔
    ∃ entry, disk.entry? (place ++ [name]) = some entry :=
  (List.mergeSort_perm _ _).mem_iff.trans mem_namesIn

/-- The names in a folder are in order, each once. -/
theorem pairwise_sortedNamesIn (h : PlacedOnce disk) (place : Place) :
    (disk.sortedNamesIn place).Pairwise (· < ·) := by
  have hsorted : (disk.sortedNamesIn place).Pairwise (· ≤ ·) :=
    (List.pairwise_mergeSort (fun a b c => by simpa using String.le_trans)
      (fun a b => by simpa using String.le_total a b) _).imp (by simp)
  have hnodup : (disk.sortedNamesIn place).Nodup :=
    (List.mergeSort_perm _ _).nodup_iff.mpr (nodup_namesIn h place)
  refine (hsorted.and hnodup).imp fun {a b} h => ?_
  by_contra hlt
  exact h.2 (String.le_antisymm h.1 (String.not_lt.mp hlt))

end Disk

end GuestCode
