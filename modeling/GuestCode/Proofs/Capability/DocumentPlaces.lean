import GuestCode.Proofs.Capability.BestCases
import GuestCode.Proofs.Capability.Confined
import GuestCode.Proofs.Disk.Contents
import GuestCode.Proofs.Disk.Tree

/-!
# The folder of the best cases

The store writes and reads documents of its folder only. An id that is no plain name is refused, so
the path of an id is that of a document in the folder; and the ids that the store makes itself are
plain names, whatever the project and the category are called. A path can still lead elsewhere if
somebody has put a link into the folder.

## Main statements

* `BestCases.confined`: ids, and what saving and loading have to do with files.
-/

namespace GuestCode

namespace Action

variable {α β : Type} {m n : Machine}

/-- An operation has the same outcome on two machines. -/
def Agrees (m n : Machine) (x : Action α) : Prop := (x.run n).1 = (x.run m).1

theorem agrees_pure (a : α) : Agrees m n (pure a : Action α) := rfl

theorem agrees_ofExcept (outcome : Except Failure α) : Agrees m n (ofExcept outcome) := by
  rw [Agrees, run_ofExcept, run_ofExcept]

theorem agrees_onDisk {look : Disk → Place → Except Failure α}
    (h : look n.disk n.workdir = look m.disk m.workdir) : Agrees m n (onDisk look) := by
  rw [Agrees, run_onDisk, run_onDisk, h]

theorem Agrees.bind {x : Action α} {f : α → Action β} (h : Agrees m n x) (hx : x.Reads)
    (hf : ∀ a, (x.run m).1 = .ok a → Agrees m n (f a)) : Agrees m n (x >>= f) := by
  have hsame : ∀ k : Machine, x.run k = ((x.run k).1, k) := fun k => Prod.ext rfl (hx k).symm
  rw [Agrees] at h
  rw [Agrees, run_bind, run_bind, hsame n, hsame m, h]
  cases hrun : (x.run m).1 with
  | error failure => rfl
  | ok a => exact hf a hrun

end Action

open GuestCode.Action

namespace BestCases

/-! ## Ids -/

theorem isIdChar_of_mem_hyphenate {text : List Char} {inRun : Bool} :
    ∀ c ∈ hyphenate inRun text, isIdChar c = true := by
  fun_induction hyphenate inRun text with
  | case1 => simp
  | case2 inRun c rest hc ih => exact List.forall_mem_cons.mpr ⟨hc, ih⟩
  | case3 c rest hc ih => exact ih
  | case4 inRun c rest hc hrun ih => exact List.forall_mem_cons.mpr ⟨by decide, ih⟩

theorem isIdChar_of_isDigit {c : Char} (h : c.isDigit = true) : isIdChar c = true := by
  have halphanum : c.isAlphanum = true := (Bool.or_eq_true c.isAlpha c.isDigit).mpr (.inr h)
  have hcode : c.toNat < 128 := Nat.lt_trans (Text.toNat_lt_of_isAlphanum halphanum) (by decide)
  simp [isIdChar, Text.isWordChar, Text.isLetterOrNumeral, hcode, halphanum]

theorem isIdChar_of_mem_toString (clock : Int) :
    ∀ c ∈ (toString clock).toList, isIdChar c = true := by
  have hnat : ∀ n : Nat, ∀ c ∈ (toString n).toList, isIdChar c = true := by
    intro n c hc
    rw [Nat.toString_eq_repr, Nat.toList_repr] at hc
    exact isIdChar_of_isDigit (Nat.isDigit_of_mem_toDigits (by decide) (by decide) hc)
  cases clock with
  | ofNat n => exact hnat n
  | negSucc n =>
    intro c hc
    have htext : (toString (Int.negSucc n)).toList = '-' :: (toString (n + 1)).toList :=
      String.toList_append
    rw [htext] at hc
    rcases List.mem_cons.mp hc with rfl | hc
    · decide
    · exact hnat (n + 1) c hc

/-- A text of characters of ids with a hyphen among them is an id. -/
theorem isId_of_hyphen_mem {id : String} (hchars : ∀ c ∈ id.toList, isIdChar c = true)
    (hhyphen : '-' ∈ id.toList) : isId id = true := by
  have hdots : id ≠ "." ∧ id ≠ ".." := by
    constructor <;> rintro rfl <;> exact absurd hhyphen (by decide)
  have hsome : id.toList ≠ [] := List.ne_nil_of_mem hhyphen
  unfold isId
  -- No character of an id ends a line.
  split
  · next rest hrest =>
    have hline : '\n' ∈ id.toList := List.mem_reverse.mp (hrest ▸ .head rest)
    exact absurd (hchars _ hline) (by decide)
  · simp only [Bool.and_eq_true, List.all_eq_true, bne_iff_ne]
    exact ⟨⟨⟨by simpa using hsome, hchars⟩, hdots.1⟩, hdots.2⟩

/-- The ids that the store makes are ids. -/
theorem isId_makeId (project category : String) (clock : Int) :
    isId (makeId project category clock) = true := by
  have hhyphen : isIdChar '-' = true := by decide
  refine isId_of_hyphen_mem ?_ (by simp [makeId])
  simp only [makeId, String.toList_append, String.toList_ofList, List.forall_mem_append]
  refine ⟨⟨⟨⟨isIdChar_of_mem_hyphenate, ?_⟩, isIdChar_of_mem_hyphenate⟩, ?_⟩,
    isIdChar_of_mem_toString clock⟩
  · simpa using hhyphen
  · simpa using hhyphen

theorem parent_child (folder : Path) (name : String) : (folder.child name).parent = folder := by
  simp [Path.child, Path.parent]

theorem name_child (folder : Path) (name : String) : (folder.child name).name = name := by
  simp [Path.child, Path.name]

theorem exists_of_pathFor {folder path : Path} {id : String} (h : pathFor folder id = .ok path) :
    ∃ name, isDocumentName name = true ∧ path = folder.child name :=
  ⟨fileName id, isDocumentName_fileName id, pathFor_eq h⟩

/-! ## Places of documents -/

/-- A place that the path of a document of a folder leads to: the entry of the folder that has its
name or, if that is a link, the file that the link leads to. -/
def IsDocumentPlace (disk : Disk) (workdir : Place) (folder : Path) (place : Place) : Prop :=
  ∃ name q, isDocumentName name = true ∧ disk.Opens workdir folder q ∧
    (place = q ++ [name] ∨ (∃ target, disk.entry? (q ++ [name]) = some (.link target)) ∧
      ∃ octets, disk.Holds workdir (folder.child name) place octets)

theorem isDocumentPlace_of_holds {disk : Disk} {workdir place : Place} {folder : Path}
    {name : String} {octets : List UInt8} (hname : isDocumentName name = true)
    (h : disk.Holds workdir (folder.child name) place octets) :
    IsDocumentPlace disk workdir folder place := by
  have hself : name ≠ "" ∧ name ≠ "." := by
    constructor <;> rintro rfl <;> exact absurd hname (by decide)
  have hup : name ≠ ".." := by
    rintro rfl
    exact absurd hname (by decide)
  obtain ⟨hshort, hleads⟩ := Disk.locate_eq_ok_iff.mp h.found
  obtain ⟨q, hfolder, hplace⟩ := hleads.exists_folder_of_last hself hup
  have hnul : Disk.hasNul folder = false := by
    have hchild := h.noNul
    rw [Disk.hasNul, Path.child, List.any_append, Bool.or_eq_false_iff] at hchild
    exact hchild.1
  refine ⟨name, q, hname, ⟨hnul, Disk.locate_eq_ok_iff.mpr ⟨?_, hfolder⟩⟩,
    hplace.imp_right fun hlink => ⟨hlink, octets, h⟩⟩
  exact Nat.le_trans (Disk.display_child_le folder hself.1) hshort

/-! ## Saving -/

/-- The files of two machines hold the same. -/
def SameContents (m n : Machine) : Prop :=
  ∀ place, n.disk.contents? place = m.disk.contents? place

instance : Std.Refl SameContents := ⟨fun _ _ => rfl⟩

/-- The files that hold something else than before are documents of a folder. -/
def ChangesDocuments (folder : Path) (m n : Machine) : Prop :=
  ∀ place, n.disk.contents? place ≠ m.disk.contents? place →
    IsDocumentPlace n.disk n.workdir folder place

instance (folder : Path) : Std.Refl (ChangesDocuments folder) := ⟨fun _ _ h => absurd rfl h⟩

theorem sameContents_makeFolders (path : Path) : (makeFolders path).Keeps SameContents := by
  intro m
  have hadded := Disk.foldersAdded_makeFolders m.disk m.workdir path
  rw [run_makeFolders]
  rcases hmade : m.disk.makeFolders m.workdir path with ⟨disk, _ | failure⟩
  · rw [hmade] at hadded
    exact hadded.contents?_eq
  · rw [hmade] at hadded
    exact hadded.contents?_eq

section Steps

variable {α β : Type} {folder : Path} {x : Action α} {f : α → Action β}

/-- What changes behind a step that changes nothing. -/
theorem changesDocuments_bind (hx : x.Keeps SameContents)
    (hf : ∀ a m, (x.run m).1 = .ok a → (f a).Keeps (ChangesDocuments folder)) :
    (x >>= f).Keeps (ChangesDocuments folder) := by
  intro m
  have hfirst := hx m
  rw [run_bind]
  rcases hrun : x.run m with ⟨failure | a, n⟩
  · rw [hrun] at hfirst
    exact fun place hne => absurd (hfirst place) hne
  · rw [hrun] at hfirst
    have ha : (x.run m).1 = .ok a := by rw [hrun]
    exact fun place hne => hf a m ha n place (hfirst place ▸ hne)

/-- What changes before a step that changes nothing. -/
theorem changesDocuments_bind_reads (hx : x.Keeps (ChangesDocuments folder))
    (hf : ∀ a, (f a).Reads) : (x >>= f).Keeps (ChangesDocuments folder) := by
  intro m
  have hfirst := hx m
  rw [run_bind]
  rcases hrun : x.run m with ⟨failure | a, n⟩
  · rwa [hrun] at hfirst
  · rw [hrun] at hfirst
    exact hf a n ▸ hfirst

end Steps

theorem changesDocuments_writeText {folder : Path} {name : String}
    (hname : isDocumentName name = true) (text : String) :
    (writeText (folder.child name) text).Keeps (ChangesDocuments folder) := by
  intro m
  rw [run_writeText]
  cases hwrite : m.disk.write m.workdir (folder.child name) (Utf8.encode text.toList) with
  | error failure => exact Std.Refl.refl m
  | ok disk =>
    obtain ⟨written, hholds, -, hothers⟩ := Disk.exists_of_write hwrite
    intro place hne
    by_cases hplace : place = written
    · exact hplace ▸ isDocumentPlace_of_holds hname hholds
    · refine absurd ?_ hne
      unfold Disk.contents?
      rw [hothers place hplace]

theorem changesDocuments_save (folder : Path) (parameter : Value) :
    (save folder parameter).Keeps (ChangesDocuments folder) := by
  unfold save
  split
  · dsimp only
    split
    · -- Nothing changes until the document is written, under the name that its id gives.
      refine changesDocuments_bind (.of_reads reads_get) fun m _ _ => ?_
      refine changesDocuments_bind (.of_reads (reads_ofExcept _)) fun time _ _ => ?_
      refine changesDocuments_bind (.of_reads (reads_ofExcept _)) fun document _ _ => ?_
      refine changesDocuments_bind (.of_reads (reads_ofExcept _)) fun path _ hpath => ?_
      simp only [run_ofExcept] at hpath
      obtain ⟨name, hname, rfl⟩ := exists_of_pathFor hpath
      refine changesDocuments_bind (sameContents_makeFolders _) fun _ _ _ => ?_
      split
      · exact .of_reads (reads_fail_bind _ _)
      · exact changesDocuments_bind_reads (changesDocuments_writeText hname _) fun _ => reads_pure _
    · exact .of_reads (reads_fail_bind _ _)
  · exact .of_reads (reads_fail _)

/-! ## Loading -/

section Loading

variable {m : Machine} {folder : Path} {change : Place → List UInt8 → List UInt8}

theorem readDocument_rewriteFiles {disk : Disk} {workdir : Place} {path : Path}
    (h : ∀ q octets, disk.Holds workdir path q octets → change q octets = octets) :
    readDocument (disk.rewriteFiles change) workdir path = readDocument disk workdir path := by
  unfold readDocument
  rw [Disk.readText_rewriteFiles h]

/-- The documents of a folder are the same if their files are. -/
theorem agrees_documents
    (h : ∀ name q octets, isDocumentName name = true →
      m.disk.Holds m.workdir (folder.child name) q octets → change q octets = octets) :
    Agrees m { m with disk := m.disk.rewriteFiles change } (documents folder) := by
  refine agrees_onDisk ?_
  have hread : ∀ name ∈ (m.disk.names m.workdir folder).filter isDocumentName,
      (readDocument (m.disk.rewriteFiles change) m.workdir (folder.child name)).toOption =
        (readDocument m.disk m.workdir (folder.child name)).toOption := by
    intro name hname
    rw [readDocument_rewriteFiles fun q octets => h name q octets (List.mem_filter.mp hname).2]
  rw [Disk.isFolder_rewriteFiles, Disk.names_rewriteFiles, List.filterMap_congr hread]

theorem agrees_load (parameter : Value)
    (h : ∀ name q octets, isDocumentName name = true →
      m.disk.Holds m.workdir (folder.child name) q octets → change q octets = octets) :
    Agrees m { m with disk := m.disk.rewriteFiles change } (load folder parameter) := by
  unfold load
  refine (agrees_ofExcept _).bind (reads_ofExcept _) fun entries _ => ?_
  dsimp only
  -- Either one document is read, or all of them are until one passes.
  split
  · refine (agrees_ofExcept _).bind (reads_ofExcept _) fun path hpath => ?_
    simp only [run_ofExcept] at hpath
    obtain ⟨name, hname, rfl⟩ := exists_of_pathFor hpath
    refine (agrees_onDisk Disk.isFile_rewriteFiles).bind (reads_onDisk _) fun isFile _ => ?_
    split
    · refine (agrees_onDisk (readDocument_rewriteFiles fun q octets hholds => ?_)).bind
        (reads_onDisk _) fun _ _ => agrees_pure _
      exact h name q octets hname hholds
    · exact (agrees_pure _).bind (reads_pure _) fun _ _ => agrees_pure _
  · refine (agrees_documents h).bind (reads_onDisk _) fun cases _ => ?_
    exact (agrees_ofExcept _).bind (reads_ofExcept _) fun _ _ => agrees_pure _

end Loading

/-- Ids, and what saving and loading have to do with files. The ids that the store makes are ids; a
text is refused or names a document of the folder. Saving changes documents of the folder only,
makes no links, and loading does not depend on what other files hold. -/
theorem confined (folder : Path) :
    (∀ (project category : Value) (clock : Int), ∃ path,
      pathFor folder (makeId project.display category.display clock) = .ok path) ∧
    (∀ id,
      pathFor folder id = .error (.capability ("Invalid best case id: " ++ quotedString id)) ∨
        ∃ path, pathFor folder id = .ok path ∧ path.parent = folder ∧ path.name = id ++ ".json") ∧
    (∀ (parameter : Value) (m n : Machine), ((save folder parameter).run m).2 = n →
      m.DiskGrown n ∧ ∀ place, n.disk.contents? place ≠ m.disk.contents? place →
        IsDocumentPlace n.disk n.workdir folder place) ∧
    ∀ (parameter : Value) (m : Machine) (change : Place → List UInt8 → List UInt8),
      (∀ place octets, IsDocumentPlace m.disk m.workdir folder place →
        change place octets = octets) →
        let n := { m with disk := m.disk.rewriteFiles change }
        (load folder parameter).run m = (((load folder parameter).run m).1, m) ∧
        (load folder parameter).run n = (((load folder parameter).run m).1, n) := by
  refine ⟨fun project category clock => ⟨_, pathFor_of_isId (isId_makeId _ _ clock)⟩, ?_, ?_, ?_⟩
  · intro id
    by_cases hid : isId id = true
    · exact .inr ⟨_, pathFor_of_isId hid, parent_child folder _, name_child folder _⟩
    · exact .inl (if_neg hid)
  · rintro parameter m n rfl
    exact ⟨keeps_save folder parameter m, changesDocuments_save folder parameter m⟩
  · intro parameter m change hchange n
    have hagrees : Agrees m n (load folder parameter) :=
      agrees_load parameter fun name q octets hname hholds =>
        hchange q octets (isDocumentPlace_of_holds hname hholds)
    have hreads := reads_load folder parameter
    exact ⟨Prod.ext rfl (hreads m).symm, Prod.ext hagrees (hreads n).symm⟩

end BestCases

end GuestCode
