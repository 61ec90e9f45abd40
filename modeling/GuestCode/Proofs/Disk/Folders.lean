import GuestCode.Proofs.Data.Outcome
import GuestCode.Proofs.Disk.Files
import Mathlib.Data.List.Nodup

/-!
# What is in a folder

The names in a folder are those under which something is there, each name once. A file that is
found by a path under a name is in the folder that the path before it leads to.

## Main statements

* `Disk.mem_names`, `Disk.nodup_names`: the names in a folder.
* `Disk.Holds.exists_folder`: the folder of a file.
-/

namespace GuestCode.Disk

variable {disk disk' : Disk} {workdir place q : Place} {path folder : Path} {name : String}
  {octets : List UInt8}

/-! ## Disks with each place once -/

/-- No place is on a disk twice. -/
def PlacedOnce (disk : Disk) : Prop := (disk.entries.map Prod.fst).Nodup

theorem PlacedOnce.put (h : PlacedOnce disk) (place : Place) (entry : Entry) :
    PlacedOnce (disk.put place entry) := by
  unfold Disk.put
  split
  · -- What is replaced keeps its place.
    have hplaces : (disk.entries.map fun e => if e.1 == place then (place, entry) else e).map
        Prod.fst = disk.entries.map Prod.fst := by
      rw [List.map_map]
      refine List.map_congr_left fun e _ => ?_
      by_cases heq : e.1 = place <;> simp [heq]
    rw [PlacedOnce, hplaces]
    exact h
  · next hnew =>
    have hmissing : place ∉ disk.entries.map Prod.fst := by
      intro hmem
      obtain ⟨e, he, rfl⟩ := List.mem_map.mp hmem
      exact hnew (List.any_eq_true.mpr ⟨e, he, beq_self_eq_true _⟩)
    rw [PlacedOnce, List.map_append]
    refine List.nodup_append.mpr ⟨h, List.nodup_singleton _, fun a ha b hb heq => hmissing ?_⟩
    obtain rfl : b = place := List.mem_singleton.mp hb
    exact heq ▸ ha

theorem FoldersAdded.placedOnce (h : FoldersAdded disk disk') (hdisk : PlacedOnce disk) :
    PlacedOnce disk' := by
  induction h with
  | none => exact hdisk
  | put _ _ ih => exact ih.put _ _

theorem PlacedOnce.write (h : PlacedOnce disk)
    (hwrite : disk.write workdir path octets = .ok disk') : PlacedOnce disk' := by
  unfold Disk.write at hwrite
  split at hwrite
  · cases hwrite
  · split at hwrite
    · cases hwrite
      exact h.put _ _
    · cases hwrite
      exact h.put _ _
    · cases hwrite
    · cases hwrite
    · cases hwrite

/-! ## Names -/

theorem mem_places : place ∈ disk.entries.map Prod.fst ↔
    ∃ entry, disk.entries.lookup place = some entry := by
  rw [← Option.isSome_iff_exists, ← Option.ne_none_iff_isSome, ne_eq, List.lookup_eq_none_iff,
    List.mem_map]
  simp only [bne_iff_ne, ne_eq, not_forall, not_not, exists_prop]
  exact exists_congr fun e => and_congr_right' eq_comm

/-- The name under which a place is in a folder, if it is. -/
def nameIn? (folder place : Place) : Option String :=
  match place.getLast? with
  | none => none
  | some name => if place.dropLast == folder then some name else none

theorem nameIn?_eq_some_iff {folder : Place} :
    nameIn? folder place = some name ↔ place = folder ++ [name] := by
  constructor
  · intro h
    unfold nameIn? at h
    split at h
    · cases h
    · next last hlast =>
      split at h
      · next hfolder =>
        obtain rfl : last = name := Option.some.inj h
        rw [← beq_iff_eq.mp hfolder]
        exact (List.dropLast_append_getLast? last hlast).symm
      · cases h
  · rintro rfl
    simp [nameIn?]

theorem namesIn_eq_filterMap (disk : Disk) (place : Place) :
    disk.namesIn place = (disk.entries.map Prod.fst).filterMap (nameIn? place) := by
  rw [List.filterMap_map]
  rfl

theorem mem_namesIn : name ∈ disk.namesIn place ↔
    ∃ entry, disk.entry? (place ++ [name]) = some entry := by
  have hentry : disk.entry? (place ++ [name]) = disk.entries.lookup (place ++ [name]) := by
    simp [ Disk.entry?]
  rw [hentry, ← mem_places, namesIn_eq_filterMap, List.mem_filterMap]
  simp only [nameIn?_eq_some_iff, exists_eq_right]

theorem nodup_namesIn (h : PlacedOnce disk) (place : Place) : (disk.namesIn place).Nodup := by
  rw [namesIn_eq_filterMap]
  refine List.Nodup.filterMap (fun p p' name hp hp' => ?_) h
  exact (nameIn?_eq_some_iff.mp hp).trans (nameIn?_eq_some_iff.mp hp').symm

theorem perm_names (h : disk.locate workdir .thing folder = .ok (.found q .folder)) :
    (disk.names workdir folder).Perm (disk.namesIn q) := by
  rw [names, h]
  exact List.mergeSort_perm _ _

/-- The names in a folder are those under which something is there. -/
theorem mem_names (h : disk.locate workdir .thing folder = .ok (.found q .folder)) :
    name ∈ disk.names workdir folder ↔ ∃ entry, disk.entry? (q ++ [name]) = some entry :=
  (perm_names h).mem_iff.trans mem_namesIn

/-- No name is in a folder twice. -/
theorem nodup_names (hdisk : PlacedOnce disk) (workdir : Place) (folder : Path) :
    (disk.names workdir folder).Nodup := by
  unfold names
  split
  · exact (List.mergeSort_perm _ _).nodup_iff.mpr (nodup_namesIn hdisk _)
  · exact List.nodup_nil

/-! ## Files in folders -/

/-- What can be read is a file. -/
theorem exists_holds_of_read (h : disk.read workdir path = .ok octets) :
    ∃ place, disk.Holds workdir path place octets := by
  unfold read at h
  split at h
  · cases h
  · next hnul =>
    split at h
    · next hfound =>
      cases h
      exact ⟨_, by simpa using hnul, hfound⟩
    · cases h
    · cases h
    · cases h
    · cases h

theorem display_child_le (folder : Path) (hname : name ≠ "") :
    folder.display.utf8ByteSize ≤ (folder.child name).display.utf8ByteSize := by
  have hlong : 1 ≤ name.utf8ByteSize :=
    Nat.pos_of_ne_zero fun hzero => hname (String.utf8ByteSize_eq_zero_iff.mp hzero)
  have hchild : (folder.child name).display =
      folder.root ++ "/".intercalate (folder.names ++ [name]) := by
    simp [Path.display, Path.child]
  rw [hchild]
  unfold Path.display
  by_cases hnames : folder.names = []
  · rw [hnames, List.nil_append, String.intercalate_singleton, String.intercalate_nil]
    split
    · rw [String.utf8ByteSize_append]
      exact Nat.le_trans hlong (Nat.le_add_left _ _)
    · rw [String.append_empty, String.utf8ByteSize_append]
      exact Nat.le_add_right _ _
  · have hmore : ¬(folder.root.isEmpty && folder.names.isEmpty) = true := by simp [hnames]
    rw [if_neg hmore, String.intercalate_append_of_ne_nil hnames (List.cons_ne_nil _ _)]
    simp only [String.utf8ByteSize_append]
    omega

/-- A file that is found under a name is in the folder that the path before it leads to. -/
theorem Holds.exists_folder (h : disk.Holds workdir (folder.child name) place octets)
    (hname : disk.IsFileName name) :
    ∃ q, disk.locate workdir .thing folder = .ok (.found q .folder) ∧
      hasNul folder = false ∧ place = q ++ [name] := by
  obtain ⟨hshort, hleads⟩ := locate_eq_ok_iff.mp h.found
  obtain ⟨q, hfolder, hplace⟩ := hleads.exists_folder hname.notSelf hname.notUp hname.noLink
  have hnul : hasNul folder = false := by
    have hchild := h.noNul
    rw [hasNul, Path.child, List.any_append, Bool.or_eq_false_iff] at hchild
    exact hchild.1
  refine ⟨q, locate_eq_ok_iff.mpr ⟨?_, hfolder⟩, hnul, hplace⟩
  exact Nat.le_trans (display_child_le folder hname.notSelf.1) hshort

theorem isFolder_of_locate (hnul : hasNul folder = false)
    (h : disk.locate workdir .thing folder = .ok (.found q .folder)) :
    disk.isFolder workdir folder = .ok true := by
  rw [isFolder, look, hnul, if_neg Bool.false_ne_true, h]
  rfl

theorem exists_locate_of_isFolder (h : disk.isFolder workdir folder = .ok true) :
    ∃ q, disk.locate workdir .thing folder = .ok (.found q .folder) := by
  obtain ⟨found, hlook, hfolder⟩ := Outcome.exists_of_map_eq_ok h
  unfold look at hlook
  split at hlook
  · cases hlook
    cases hfolder
  · split at hlook
    · next q entry hlocate =>
      cases hlook
      cases entry with
      | folder => exact ⟨q, hlocate⟩
      | file | link => cases hfolder
    · cases hlook
      cases hfolder
    · cases hlook
    · cases hlook
      cases hfolder

end GuestCode.Disk
