import GuestCode.Proofs.Disk.Following
import GuestCode.Proofs.Text.Utf8

/-!
# Files at paths

What is known of the file at a path when folders are made and files are written: a file that has
been written is found at its place and stays there, until something is written by the same path.

## Main statements

* `Disk.exists_of_write`: a file that has been written is found, and nothing else has changed.
* `Disk.Holds.write_same`, `Disk.Holds.write_other`: a file after another one has been written.
* `Disk.extended_makeFolders`: making folders changes no file.
-/

namespace GuestCode.Disk

variable {disk disk' : Disk} {workdir place : Place} {path folder : Path} {goal : Goal}
  {octets octets' : List UInt8}

/-! ## Paths -/

/-- The place that a path is followed from. -/
def startOf (workdir : Place) (path : Path) : Place := if path.root.isEmpty then workdir else []

theorem locate_eq_ok_iff {l : Location} :
    disk.locate workdir goal path = .ok l ↔
      path.display.utf8ByteSize ≤ maxPathLength ∧
        disk.Leads goal maxLinks (startOf workdir path) path.names l := by
  unfold locate
  split
  · next hlong => simp [Nat.not_le.mpr hlong]
  · next hshort => simp [Nat.not_lt.mp hshort, follow_eq_ok_iff, startOf]

/-- A path that can be followed name by name. -/
structure IsPlain (path : Path) : Prop where
  noNul : hasNul path = false
  short : path.display.utf8ByteSize ≤ maxPathLength
  names : ∀ name ∈ path.names,
    (name ≠ "" ∧ name ≠ ".") ∧ name ≠ ".." ∧ isTooLong name = false

/-- A plain path leads through folders to what is there. -/
theorem IsPlain.locate_eq {entry : Entry} (h : IsPlain path)
    (hfolders : ∀ k < path.names.length,
      disk.entry? (startOf workdir path ++ path.names.take k) = some .folder)
    (hthere : disk.entry? (startOf workdir path ++ path.names) = some entry)
    (hlink : ∀ target, entry ≠ .link target) :
    disk.locate workdir goal path = .ok (.found (startOf workdir path ++ path.names) entry) := by
  refine locate_eq_ok_iff.mpr ⟨h.short, ?_⟩
  have hnames := h.names
  generalize startOf workdir path = place at hfolders hthere ⊢
  generalize path.names = names at hnames hfolders hthere ⊢
  induction names generalizing place with
  | nil =>
    rw [List.append_nil] at hthere ⊢
    exact .found hthere
  | cons name rest ih =>
    obtain ⟨⟨hself, hup, hshort⟩, hrest⟩ := List.forall_mem_cons.mp hnames
    have hfolder : disk.entry? place = some .folder := by
      simpa using hfolders 0 (Nat.succ_pos _)
    have hslash : rest ≠ [""] := by
      rintro rfl
      exact (hrest "" List.mem_cons_self).1.1 rfl
    have hlookedUp : IsLookedUp goal name rest := ⟨hself, hup, fun _ => hslash, hshort⟩
    have hinner : ∀ k < rest.length,
        disk.entry? (place ++ [name] ++ rest.take k) = some .folder := by
      intro k hk
      simpa using hfolders (k + 1) (Nat.succ_lt_succ hk)
    rw [List.append_cons] at hthere ⊢
    have hothers := ih _ hrest hinner hthere
    cases rest with
    | nil =>
      rw [List.append_nil] at hthere
      exact .into hfolder hlookedUp hthere hlink hothers
    | cons =>
      have hfirst : disk.entry? (place ++ [name]) = some .folder := by
        simpa using hinner 0 (Nat.succ_pos _)
      exact .into hfolder hlookedUp hfirst nofun hothers

/-- A name that stands for no other place, and for no link of a disk. -/
structure IsFileName (disk : Disk) (name : String) : Prop where
  notSelf : name ≠ "" ∧ name ≠ "."
  notUp : name ≠ ".."
  noLink : ∀ q target, disk.entry? (q ++ [name]) ≠ some (.link target)

theorem IsFileName.grown {name : String} (h : disk.IsFileName name) (hgrown : Grown disk disk') :
    disk'.IsFileName name :=
  ⟨h.notSelf, h.notUp, fun q target hq => h.noLink q target (hgrown.link.mp hq)⟩

/-- A path leads to a file at a place. -/
structure Holds (disk : Disk) (workdir : Place) (path : Path) (place : Place)
    (octets : List UInt8) : Prop where
  noNul : hasNul path = false
  found : disk.locate workdir .thing path = .ok (.found place (.file octets))

namespace Holds

theorem entry?_eq (h : disk.Holds workdir path place octets) :
    disk.entry? place = some (.file octets) :=
  (locate_eq_ok_iff.mp h.found).2.entry?_eq

theorem isFile (h : disk.Holds workdir path place octets) :
    disk.isFile workdir path = .ok true := by
  simp [Disk.isFile, look, h.noNul, h.found, Except.map]

theorem isThere (h : disk.Holds workdir path place octets) :
    disk.isThere workdir path = .ok true := by
  simp [Disk.isThere, look, h.noNul, h.found, Except.map]

theorem read (h : disk.Holds workdir path place octets) :
    disk.read workdir path = .ok octets := by
  simp [Disk.read, h.noNul, h.found]

/-- The text that has been written to a file, if it has no carriage returns. -/
theorem readText {text : List Char} (h : disk.Holds workdir path place (Utf8.encode text))
    (hreturn : '\r' ∉ text) : disk.readText workdir path = .ok text := by
  unfold Disk.readText
  rw [h.read]
  dsimp only [bind, Except.bind]
  rw [Utf8.decode_encode]
  dsimp only [pure, Except.pure]
  rw [Utf8.universalLineEnds_eq_self hreturn]

/-- A path leads to the same place while a disk grows. -/
theorem grown (h : disk.Holds workdir path place octets) (hgrown : Grown disk disk')
    (hentry : disk'.entry? place = some (.file octets')) :
    disk'.Holds workdir path place octets' := by
  obtain ⟨hshort, hleads⟩ := locate_eq_ok_iff.mp h.found
  obtain ⟨entry, hleads'⟩ := hleads.grown hgrown
  obtain rfl : entry = .file octets' := Option.some.inj (hleads'.entry?_eq.symm.trans hentry)
  exact ⟨h.noNul, locate_eq_ok_iff.mpr ⟨hshort, hleads'⟩⟩

theorem place_unique {place' : Place} (h : disk.Holds workdir path place octets)
    (h' : disk.Holds workdir path place' octets') : place = place' := by
  have heq := h.found.symm.trans h'.found
  cases heq
  rfl

end Holds

/-! ## Making folders -/

/-- A disk grows without a change of a file. -/
structure Extended (disk disk' : Disk) : Prop extends Grown disk disk' where
  contents : ∀ {q octets}, disk.entry? q = some (.file octets) →
    disk'.entry? q = some (.file octets)

theorem Extended.refl (disk : Disk) : Extended disk disk := ⟨.refl disk, id⟩

theorem Extended.trans {disk'' : Disk} (h : Extended disk disk') (h' : Extended disk' disk'') :
    Extended disk disk'' :=
  ⟨h.toGrown.trans h'.toGrown, fun hq => h'.contents (h.contents hq)⟩

/-- Folders are put where nothing is, one after the other. -/
inductive FoldersAdded (disk : Disk) : Disk → Prop where
  | none : FoldersAdded disk disk
  | put {disk' : Disk} {place : Place} (before : FoldersAdded disk disk')
      (vacant : disk'.entry? place = none) : FoldersAdded disk (disk'.put place .folder)

namespace FoldersAdded

theorem trans {disk'' : Disk} (h : FoldersAdded disk disk') (h' : FoldersAdded disk' disk'') :
    FoldersAdded disk disk'' := by
  induction h' with
  | none => exact h
  | put _ vacant ih => exact .put ih vacant

theorem grown (h : FoldersAdded disk disk') : Grown disk disk' := by
  induction h with
  | none => exact .refl disk
  | put _ vacant ih => exact ih.trans (.put_vacant vacant nofun)

/-- There are the same files as before. -/
theorem file_iff (h : FoldersAdded disk disk') {q : Place} :
    disk'.entry? q = some (.file octets) ↔ disk.entry? q = some (.file octets) := by
  induction h with
  | none => rfl
  | put _ vacant ih =>
    rw [← ih, entry?_put (ne_nil_of_vacant vacant)]
    split
    · next heq => simp [heq, vacant]
    · rfl

theorem extended (h : FoldersAdded disk disk') : Extended disk disk' := ⟨h.grown, h.file_iff.mpr⟩

end FoldersAdded

theorem foldersAdded_makeFolder (h : disk.makeFolder workdir path = .ok disk') :
    FoldersAdded disk disk' := by
  unfold makeFolder at h
  split at h
  · split at h
    · cases h
    · cases h
  · split at h
    · cases h
    · next q hq =>
      cases h
      exact .put .none (locate_eq_ok_iff.mp hq).2.entry?_eq
    · cases h

theorem foldersAdded_makeFoldersUpTo (depth : Nat) (path : Path) (disk : Disk) :
    FoldersAdded disk (makeFoldersUpTo workdir depth path disk).1 := by
  induction depth generalizing path disk with
  | zero =>
    unfold makeFoldersUpTo
    split
    · exact .none
    · split
      · next hmake => exact foldersAdded_makeFolder hmake
      · exact .none
      · exact .none
  | succ depth ih =>
    unfold makeFoldersUpTo
    split
    · exact .none
    · split
      · next hmake => exact foldersAdded_makeFolder hmake
      · -- The parent is made first, and then the folder itself.
        have hparent := ih path.parent disk
        dsimp only
        split
        · next hfailed =>
          rw [hfailed] at hparent
          exact hparent
        · next hmade =>
          rw [hmade] at hparent
          split
          · next hmake => exact hparent.trans (foldersAdded_makeFolder hmake)
          · exact hparent
          · exact hparent
      · exact .none

/-- Making folders does nothing else. -/
theorem foldersAdded_makeFolders (disk : Disk) (workdir : Place) (path : Path) :
    FoldersAdded disk (disk.makeFolders workdir path).1 :=
  foldersAdded_makeFoldersUpTo path.names.length path disk

/-- Making folders changes no file. -/
theorem extended_makeFolders (disk : Disk) (workdir : Place) (path : Path) :
    Extended disk (disk.makeFolders workdir path).1 :=
  (foldersAdded_makeFolders disk workdir path).extended

/-- A path that ends in the name of what it leads to, so that a folder can be made there. -/
structure IsFolderPath (path : Path) : Prop where
  noNul : hasNul path = false
  named : ¬(path.names.getLast? == some ".." || path.names.isEmpty) = true

/-- A folder whose parent is there is made where nothing is. -/
theorem IsFolderPath.makeFolders_of_vacant (hpath : IsFolderPath path)
    (h : disk.locate workdir .entry path = .ok (.vacant place)) :
    disk.makeFolders workdir path = (disk.put place .folder, none) := by
  have hmade : disk.makeFolder workdir path = .ok (disk.put place .folder) := by
    rw [makeFolder, if_neg hpath.named, h]
  unfold makeFolders makeFoldersUpTo
  rw [hpath.noNul, if_neg Bool.false_ne_true, hmade]

/-- A folder that is there is left as it is. -/
theorem IsFolderPath.makeFolders_of_found (hpath : IsFolderPath path)
    (h : ∀ goal, disk.locate workdir goal path = .ok (.found place .folder)) :
    disk.makeFolders workdir path = (disk, none) := by
  have hpresent : disk.makeFolder workdir path = .error .present := by
    rw [makeFolder, if_neg hpath.named, h]
  have hfolder : disk.isFolder workdir path = .ok true := by
    rw [isFolder, look, hpath.noNul, if_neg Bool.false_ne_true, h]
    rfl
  unfold makeFolders makeFoldersUpTo
  rw [hpath.noNul, if_neg Bool.false_ne_true, hpresent]
  dsimp only
  rw [settleFolder, hfolder]

/-! ## Writing -/

theorem write_of_vacant (hnul : hasNul path = false)
    (h : disk.locate workdir .file path = .ok (.vacant place)) :
    disk.write workdir path octets = .ok (disk.put place (.file octets)) := by
  rw [write, hnul, if_neg Bool.false_ne_true, h]

theorem write_of_found (hnul : hasNul path = false)
    (h : disk.locate workdir .file path = .ok (.found place (.file octets))) :
    disk.write workdir path octets' = .ok (disk.put place (.file octets')) := by
  rw [write, hnul, if_neg Bool.false_ne_true, h]

/-- A file that has been written is found, and nothing else has changed. -/
theorem exists_of_write (h : disk.write workdir path octets = .ok disk') :
    ∃ place, disk'.Holds workdir path place octets ∧ Grown disk disk' ∧
      ∀ q, q ≠ place → disk'.entry? q = disk.entry? q := by
  unfold write at h
  split at h
  · cases h
  · next hnul =>
    have hnoNul : hasNul path = false := by simpa using hnul
    split at h
    · next q old hq =>
      cases h
      obtain ⟨hshort, hleads⟩ := locate_eq_ok_iff.mp hq
      have hfile : disk.entry? q = some (.file old) := hleads.entry?_eq
      have hroot := ne_nil_of_file hfile
      have hgrown := @Grown.put_file disk q old octets hfile
      have hold : disk.Holds workdir path q old :=
        ⟨hnoNul, locate_eq_ok_iff.mpr ⟨hshort, hleads.thing⟩⟩
      refine ⟨q, hold.grown hgrown ?_, hgrown, fun p hp => ?_⟩
      · rw [entry?_put hroot, if_pos rfl]
      · rw [entry?_put hroot, if_neg hp]
    · next q hq =>
      cases h
      obtain ⟨hshort, hleads⟩ := locate_eq_ok_iff.mp hq
      have hvacant : disk.entry? q = none := hleads.entry?_eq
      have hroot := ne_nil_of_vacant hvacant
      refine ⟨q, ⟨hnoNul, locate_eq_ok_iff.mpr ⟨hshort, hleads.thing.put_vacant nofun⟩⟩,
        .put_vacant hvacant nofun, fun p hp => ?_⟩
      rw [entry?_put hroot, if_neg hp]
    · cases h
    · cases h
    · cases h

namespace Holds

/-- A file that is written again has its new contents at its old place. -/
theorem write_same (h : disk.Holds workdir path place octets)
    (hwrite : disk.write workdir path octets' = .ok disk') :
    disk'.Holds workdir path place octets' := by
  obtain ⟨place', hholds, hgrown, -⟩ := exists_of_write hwrite
  obtain ⟨old, hold⟩ := hgrown.file h.entry?_eq
  obtain rfl := (h.grown hgrown hold).place_unique hholds
  exact hholds

theorem exists_place_eq {name : String} (h : disk.Holds workdir (folder.child name) place octets)
    (hname : disk.IsFileName name) : ∃ q, place = q ++ [name] := by
  obtain ⟨q, -, hplace⟩ :=
    (locate_eq_ok_iff.mp h.found).2.exists_folder hname.notSelf hname.notUp hname.noLink
  exact ⟨q, hplace⟩

/-- A file does not change when a file of another name is written. -/
theorem write_other {name other : String} {folder' : Path}
    (h : disk.Holds workdir (folder.child name) place octets)
    (hwrite : disk.write workdir (folder'.child other) octets' = .ok disk')
    (hname : disk.IsFileName name) (hother : disk.IsFileName other) (hne : other ≠ name) :
    disk'.Holds workdir (folder.child name) place octets := by
  obtain ⟨place', hholds, hgrown, hkept⟩ := exists_of_write hwrite
  obtain ⟨q, rfl⟩ := h.exists_place_eq hname
  obtain ⟨q', rfl⟩ := hholds.exists_place_eq (hother.grown hgrown)
  refine h.grown hgrown ?_
  rw [hkept _ ?_, h.entry?_eq]
  intro heq
  exact hne (List.cons.inj (List.append_inj' heq rfl).2).1.symm

end Holds

end GuestCode.Disk
