import GuestCode.Proofs.Disk.Folders
import GuestCode.Proofs.Disk.Following

/-!
# What files hold and where paths lead

Where a path leads depends on the folders, the links and the names of the files of a disk, but not
on what the files hold. So if files are written anew without any being added or removed, all paths
lead where they led before, and what is read by a path is different only if the file that it leads
to is.

## Main statements

* `Disk.follow_rewriteFiles`: a path leads to the same place.
* `Disk.readText_rewriteFiles`: what is read by a path if its file is as before.
-/

namespace GuestCode.Disk

variable {disk : Disk} {change : Place → List UInt8 → List UInt8} {workdir place : Place}
  {path : Path}

/-- What the file at a place holds, if there is one. -/
def contents? (disk : Disk) (place : Place) : Option (List UInt8) :=
  match disk.entry? place with
  | some (.file octets) => some octets
  | _ => none

theorem contents?_eq_some_iff {octets : List UInt8} :
    disk.contents? place = some octets ↔ disk.entry? place = some (.file octets) := by
  unfold contents?
  split
  · next octets' h => simp [h]
  · next h =>
    constructor
    · intro hnone
      cases hnone
    · exact fun hfile => absurd hfile (h octets)

/-- The same files hold the same if folders are added. -/
theorem FoldersAdded.contents?_eq {disk' : Disk} (h : FoldersAdded disk disk') (place : Place) :
    disk'.contents? place = disk.contents? place :=
  Option.ext fun _ => by simp only [contents?_eq_some_iff, h.file_iff]

/-! ## Other contents -/

/-- An entry with other contents if it is a file. -/
def Entry.rewrite (change : List UInt8 → List UInt8) : Entry → Entry
  | file octets => .file (change octets)
  | folder => .folder
  | link target => .link target

/-- A location with other contents if there is a file. -/
def Location.rewrite (change : Place → List UInt8 → List UInt8) : Location → Location
  | found place entry => .found place (entry.rewrite (change place))
  | vacant place => .vacant place

/-- A disk with other contents in its files. -/
def rewriteFiles (disk : Disk) (change : Place → List UInt8 → List UInt8) : Disk :=
  ⟨disk.entries.map fun e => (e.1, e.2.rewrite (change e.1))⟩

@[simp] theorem entry?_rewriteFiles (disk : Disk) (change : Place → List UInt8 → List UInt8)
    (place : Place) : entry? (disk.rewriteFiles change) place =
      Option.map (Entry.rewrite (change place)) ( disk.entry? place) := by
  have hlookup : ∀ entries : List (Place × Entry),
      (entries.map fun e => (e.1, e.2.rewrite (change e.1))).lookup place =
        (entries.lookup place).map (Entry.rewrite (change place)) := by
    intro entries
    induction entries with
    | nil => rfl
    | cons e rest ih =>
      rw [List.map_cons, List.lookup_cons, List.lookup_cons, ih]
      by_cases hplace : place = e.1
      · subst hplace
        simp
      · simp [beq_false_of_ne hplace]
  unfold entry?
  split
  · rfl
  · exact hlookup disk.entries

theorem namesIn_rewriteFiles (disk : Disk) (change : Place → List UInt8 → List UInt8)
    (place : Place) : (disk.rewriteFiles change).namesIn place = disk.namesIn place := by
  unfold namesIn rewriteFiles
  rw [List.filterMap_map]
  rfl

/-- A path leads to the same place whatever the files hold. -/
theorem follow_rewriteFiles (goal : Goal) (links : Nat) (place : Place) (names : List String) :
    (disk.rewriteFiles change).follow goal links place names =
      (disk.follow goal links place names).map (Location.rewrite change) := by
  have hfolder : ∀ {p}, disk.entry? p = some .folder →
      entry? (disk.rewriteFiles change) p = some .folder := fun h => by
    rw [entry?_rewriteFiles, h]
    rfl
  fun_induction disk.follow goal links place names with
  | case1 links place entry there =>
    rw [follow, entry?_rewriteFiles, there]
    rfl
  | case2 links place notThere =>
    rw [follow, entry?_rewriteFiles, notThere]
    rfl
  | case3 links place name rest notThere =>
    rw [follow, entry?_rewriteFiles, notThere]
    rfl
  | case4 links place name rest octets there =>
    rw [follow, entry?_rewriteFiles, there]
    rfl
  | case5 links place name rest target there =>
    rw [follow, entry?_rewriteFiles, there]
    rfl
  | case6 links place name rest folder isSelf ih =>
    rw [follow, hfolder folder]
    simpa only [if_pos isSelf] using ih
  | case7 links place name rest folder isSelf isUp ih =>
    rw [follow, hfolder folder]
    simpa only [if_neg isSelf, if_pos isUp] using ih
  | case8 links place name rest folder isSelf isUp slash =>
    rw [follow, hfolder folder]
    simp only [if_neg isSelf, if_neg isUp, if_pos slash]
    rfl
  | case9 links place name rest folder isSelf isUp slash long =>
    rw [follow, hfolder folder]
    simp only [if_neg isSelf, if_neg isUp, if_neg slash, if_pos long]
    rfl
  | case10 links place name rest folder hself hup hslash hshort next notThere hrest =>
    rw [follow_lookedUp (hfolder folder) (.of_tests hself hup hslash hshort),
      entry?_rewriteFiles, notThere]
    exact if_pos hrest
  | case11 links place name rest folder hself hup hslash hshort next notThere hrest =>
    rw [follow_lookedUp (hfolder folder) (.of_tests hself hup hslash hshort),
      entry?_rewriteFiles, notThere]
    exact if_neg hrest
  | case12 links place name rest folder hself hup hslash hshort next target there hwanted =>
    rw [follow_lookedUp (hfolder folder) (.of_tests hself hup hslash hshort),
      entry?_rewriteFiles, there]
    exact if_pos hwanted
  | case13 place name rest folder hself hup hslash hshort next target there hgo =>
    rw [follow_lookedUp (hfolder folder) (.of_tests hself hup hslash hshort),
      entry?_rewriteFiles, there]
    exact if_neg hgo
  | case14 place name rest folder hself hup hslash hshort next target there hgo links start ih =>
    rw [follow_lookedUp (hfolder folder) (.of_tests hself hup hslash hshort),
      entry?_rewriteFiles, there]
    exact (if_neg hgo).trans ih
  | case15 links place name rest folder hself hup hslash hshort next entry noLink there ih =>
    rw [follow_lookedUp (hfolder folder) (.of_tests hself hup hslash hshort),
      entry?_rewriteFiles, there]
    cases entry with
    | link target => exact absurd rfl (noLink target)
    | file octets => exact ih
    | folder => exact ih

theorem locate_rewriteFiles (goal : Goal) : (disk.rewriteFiles change).locate workdir goal path =
    (disk.locate workdir goal path).map (Location.rewrite change) := by
  unfold locate
  split
  · rfl
  · exact follow_rewriteFiles goal maxLinks _ path.names

/-! ## Looking and reading -/

/-- What does not depend on the contents of a file is said of a path as before. -/
theorem map_look_rewriteFiles {α : Type} {judge : Option Entry → α}
    (hjudge : ∀ entry anew, judge (some (Entry.rewrite anew entry)) = judge (some entry)) :
    ((disk.rewriteFiles change).look workdir path).map judge =
      (disk.look workdir path).map judge := by
  unfold look
  rw [locate_rewriteFiles]
  split
  · rfl
  · rcases disk.locate workdir .thing path with fault | ⟨q, entry⟩ | q
    · cases fault <;> rfl
    · exact congrArg Except.ok (hjudge entry (change q))
    · rfl

theorem isFile_rewriteFiles :
    (disk.rewriteFiles change).isFile workdir path = disk.isFile workdir path :=
  map_look_rewriteFiles fun entry _ => by cases entry <;> rfl

theorem isFolder_rewriteFiles :
    (disk.rewriteFiles change).isFolder workdir path = disk.isFolder workdir path :=
  map_look_rewriteFiles fun entry _ => by cases entry <;> rfl

theorem names_rewriteFiles :
    (disk.rewriteFiles change).names workdir path = disk.names workdir path := by
  unfold names
  rw [locate_rewriteFiles]
  rcases disk.locate workdir .thing path with fault | ⟨q, entry⟩ | q
  · rfl
  · cases entry with
    | folder => exact congrArg (List.mergeSort · _) (namesIn_rewriteFiles disk change q)
    | file | link => rfl
  · rfl

/-- What is read by a path is as before if its file is. -/
theorem readText_rewriteFiles (h : ∀ q octets,
      disk.Holds workdir path q octets → change q octets = octets) :
    (disk.rewriteFiles change).readText workdir path = disk.readText workdir path := by
  have hread : (disk.rewriteFiles change).read workdir path = disk.read workdir path := by
    unfold read
    rw [locate_rewriteFiles]
    split
    · rfl
    next hnul =>
    rcases hlocate : disk.locate workdir .thing path with fault | ⟨q, entry⟩ | q
    · rfl
    · cases entry with
      | file octets => exact congrArg Except.ok (h q octets ⟨by simpa using hnul, hlocate⟩)
      | folder | link => rfl
    · rfl
  unfold readText
  rw [hread]

end GuestCode.Disk
