import GuestCode.Capability.BestCases
import GuestCode.Proofs.Data.Outcome
import GuestCode.Proofs.Disk.Files
import GuestCode.Proofs.Json.Characters
import GuestCode.Proofs.Json.Plain
import GuestCode.Proofs.Machine.Steps
import GuestCode.Proofs.Text.Utf8
import GuestCode.Proofs.Text.Words
import Mathlib.Data.List.Basic

/-!
# Saved cases

A case that has been saved is in the file that is named after its id, and stays there until a case
is saved under the same id. The id tells the time in milliseconds, so only cases of one millisecond
can have an id in common, and they have if their projects and categories look alike with hyphens for
what no id has.

## Main statements

* `BestCases.exists_of_save`: what a successful save does.
* `BestCases.Saved.id_eq_iff`: which cases have the same id.
* `BestCases.load_last_saved`: an id loads the case that was saved last under it.
-/

namespace GuestCode

/-! ## Names of files -/

/-- A name without a slash is a relative path. -/
theorem Path.ofString_eq {name : String} (hslash : '/' ∉ name.toList)
    (hself : name ≠ "" ∧ name ≠ ".") : Path.ofString name = ⟨"", [name]⟩ := by
  have hnames : Path.namesOf name.toList = [name] := by
    rw [Path.namesOf, Text.splitOn_eq_singleton hslash]
    simp [hself]
  have hroot : name.toList.takeWhile (· == '/') = [] := by
    cases hlist : name.toList with
    | nil => rfl
    | cons c rest =>
      have hc : ¬(c == '/') = true := by
        rintro heq
        rw [hlist, beq_iff_eq.mp heq] at hslash
        exact hslash List.mem_cons_self
      rw [List.takeWhile_cons, if_neg hc]
  unfold Path.ofString Path.ofChars
  rw [hnames, hroot]
  rfl

namespace BestCases

/-! ## Ids -/

theorem not_mem_of_isId {id : String} (h : isId id = true) : '/' ∉ id.toList := by
  intro hmem
  have hslash : isIdChar '/' = false := rfl
  unfold isId at h
  simp only [Bool.and_eq_true, List.all_eq_true] at h
  obtain ⟨⟨⟨-, hall⟩, -⟩, -⟩ := h
  have hbody : ∀ body : List Char, (∀ c ∈ body, isIdChar c = true) → '/' ∉ body := by
    intro body hbody hin
    exact nomatch hslash.symm.trans (hbody _ hin)
  split at hall
  · next rest hrest =>
    have hback : id.toList = rest.reverse ++ ['\n'] := by
      rw [← List.reverse_reverse id.toList, hrest, List.reverse_cons]
    rw [hback] at hmem
    rcases List.mem_append.mp hmem with hin | hin
    · exact hbody _ hall hin
    · exact absurd hin (by decide)
  · exact hbody _ hall hmem

/-- The name of the file of an id. -/
def fileName (id : String) : String := id ++ ".json"

theorem fileName_inj {id id' : String} (h : fileName id = fileName id') : id = id' :=
  (String.append_left_inj _).mp h

theorem isDocumentName_fileName (id : String) : isDocumentName (fileName id) = true := by
  rw [isDocumentName, fileName, String.toList_append, List.isSuffixOf_iff_suffix]
  exact List.suffix_append _ _

theorem fileName_ne {s : String} (h : isDocumentName s = false) (id : String) :
    fileName id ≠ s := by
  rintro rfl
  exact nomatch h.symm.trans (isDocumentName_fileName id)

/-- An id names a file of the folder. -/
theorem pathFor_eq {folder path : Path} {id : String} (h : pathFor folder id = .ok path) :
    path = folder.child (fileName id) := by
  unfold pathFor at h
  split at h
  · next hid =>
    have hslash : '/' ∉ (fileName id).toList := by
      rw [fileName, String.toList_append, List.mem_append]
      exact not_or.mpr ⟨not_mem_of_isId hid, by decide⟩
    have hself : fileName id ≠ "" ∧ fileName id ≠ "." :=
      ⟨fileName_ne (by decide) id, fileName_ne (by decide) id⟩
    rw [← fileName, Path.ofString_eq hslash hself] at h
    exact (Except.ok.inj h).symm
  · cases h

theorem pathFor_of_isId {folder : Path} {id : String} (h : isId id = true) :
    pathFor folder id = .ok (folder.child (fileName id)) := by
  have hjoin : pathFor folder id = .ok (folder.join (Path.ofString (id ++ ".json"))) := if_pos h
  rw [hjoin, pathFor_eq hjoin]

/-- No document is reached through a link of its own. -/
def NoDocumentLinks (disk : Disk) : Prop :=
  ∀ place name target, disk.entry? (place ++ [name]) = some (.link target) →
    isDocumentName name = false

theorem NoDocumentLinks.isFileName_of_isDocumentName {disk : Disk} (h : NoDocumentLinks disk)
    {name : String} (hname : isDocumentName name = true) : disk.IsFileName name where
  notSelf := by constructor <;> rintro rfl <;> cases hname
  notUp := by rintro rfl; cases hname
  noLink place target hlink := nomatch hname.symm.trans (h _ _ _ hlink)

theorem NoDocumentLinks.isFileName {disk : Disk} (h : NoDocumentLinks disk) (id : String) :
    disk.IsFileName (fileName id) :=
  h.isFileName_of_isDocumentName (isDocumentName_fileName id)

theorem NoDocumentLinks.grown {disk disk' : Disk} (h : NoDocumentLinks disk)
    (hgrown : disk.Grown disk') : NoDocumentLinks disk' :=
  fun place name target hlink => h place name target (hgrown.link.mp hlink)

/-! ## Saving -/

/-- A saved case: what it is about, when it was saved, and the document with its text. -/
structure Saved where
  project : Value
  category : Value
  clock : Int
  document : Value
  text : String

namespace Saved

/-- The id that a case is saved under. -/
def id (s : Saved) : String := makeId s.project.display s.category.display s.clock

/-- What the caller who saves a case is told. -/
def reply (s : Saved) : Value := Value.record [("id", .text s.id), ("success", .bool true)]

/-- The document as it is read from its text. -/
def loaded (s : Saved) : Except Failure Value :=
  (Json.read s.text.toList).mapError (Failure.ofReadError s.text.toList)

/-- The entries of a parameter make a case at a time. -/
structure IsMadeOf (s : Saved) (entries : List (Value × Value)) (clock : Int) : Prop where
  project : s.project = Value.field entries "projectName"
  category : s.category = Value.field entries "category"
  time : s.clock = clock
  document : ∃ time, timeText clock = .ok time ∧
    newDocument entries s.id (.text time) = .ok s.document
  written : Json.write .document s.document = .ok s.text

theorem IsMadeOf.unique {s t : Saved} {entries : List (Value × Value)} {clock : Int}
    (hs : s.IsMadeOf entries clock) (ht : t.IsMadeOf entries clock) : s = t := by
  obtain ⟨project, category, time, document, text⟩ := s
  obtain ⟨project', category', time', document', text'⟩ := t
  obtain ⟨rfl, rfl, rfl, ⟨now, hnow, hdocument⟩, hwritten⟩ := hs
  obtain ⟨rfl, rfl, rfl, ⟨now', hnow', hdocument'⟩, hwritten'⟩ := ht
  cases hnow.symm.trans hnow'
  cases hdocument.symm.trans hdocument'
  cases hwritten.symm.trans hwritten'
  rfl

/-- What two cases of one millisecond with one id have in common. -/
def label (s : Saved) : List Char :=
  hyphenate false s.project.display.toList ++ '-' :: hyphenate false s.category.display.toList

theorem toList_id (s : Saved) : s.id.toList = s.label ++ '-' :: (toString s.clock).toList := by
  simp [id, makeId, label]

/-- The first place of a character divides a text in one way. -/
theorem eq_of_append_cons_eq {c : Char} {x y z w : List Char} (hx : c ∉ x) (hz : c ∉ z)
    (h : x ++ c :: y = z ++ c :: w) : x = z ∧ y = w := by
  induction x generalizing z with
  | nil =>
    cases z with
    | nil => exact ⟨rfl, (List.cons.inj h).2⟩
    | cons b z =>
      obtain ⟨rfl, -⟩ := List.cons.inj h
      exact absurd List.mem_cons_self hz
  | cons a x ih =>
    cases z with
    | nil =>
      obtain ⟨rfl, -⟩ := List.cons.inj h
      exact absurd List.mem_cons_self hx
    | cons b z =>
      obtain ⟨rfl, hrest⟩ := List.cons.inj h
      obtain ⟨rfl, rfl⟩ := ih (fun hmem => hx (List.mem_cons_of_mem _ hmem))
        (fun hmem => hz (List.mem_cons_of_mem _ hmem)) hrest
      exact ⟨rfl, rfl⟩

theorem toList_toString {clock : Int} (h : 0 ≤ clock) :
    (toString clock).toList = Nat.toDigits 10 clock.toNat := by
  obtain ⟨n, rfl⟩ := Int.eq_ofNat_of_zero_le h
  exact Nat.toList_repr

theorem hyphen_not_mem {clock : Int} (h : 0 ≤ clock) : '-' ∉ (toString clock).toList := by
  intro hmem
  rw [toList_toString h] at hmem
  exact absurd (Nat.isDigit_of_mem_toDigits (by decide) (by decide) hmem) (by decide)

theorem eq_of_toString_eq {clock clock' : Int} (h : 0 ≤ clock) (h' : 0 ≤ clock')
    (heq : (toString clock).toList = (toString clock').toList) : clock = clock' := by
  rw [toList_toString h, toList_toString h'] at heq
  have hvalue := congrArg (fun digits => Nat.ofDigitChars 10 digits 0) heq
  simp only [Nat.ofDigitChars_toDigits (by decide : 1 < 10) (by decide : 10 ≤ 10)] at hvalue
  omega

/-- Cases have the same id exactly if they are of the same millisecond and look alike. -/
theorem id_eq_iff {s t : Saved} (hs : 0 ≤ s.clock) (ht : 0 ≤ t.clock) :
    s.id = t.id ↔ s.clock = t.clock ∧ s.label = t.label := by
  rw [← String.toList_inj, toList_id, toList_id]
  constructor
  · intro h
    -- Seen from the end, the time is what stands before the first hyphen.
    have hback := congrArg List.reverse h
    simp only [List.reverse_append, List.reverse_cons, List.append_assoc, List.singleton_append]
      at hback
    obtain ⟨hclock, hlabel⟩ := eq_of_append_cons_eq
      (mt List.mem_reverse.mp (hyphen_not_mem hs))
      (mt List.mem_reverse.mp (hyphen_not_mem ht)) hback
    refine ⟨?_, List.reverse_injective hlabel⟩
    exact eq_of_toString_eq hs ht (List.reverse_injective hclock)
  · rintro ⟨hclock, hlabel⟩
    rw [hclock, hlabel]

end Saved

/-- A successful save makes a case of its parameter, makes the folder, writes the text of the case
to the file of the id, and does nothing else. -/
theorem exists_of_save {folder : Path} {parameter reply : Value} {m n : Machine}
    (h : (save folder parameter).run m = (.ok reply, n)) :
    ∃ (entries : List (Value × Value)) (s : Saved) (disk : Disk),
      parameter = .mapping entries ∧ s.IsMadeOf entries m.clock ∧ reply = s.reply ∧
      pathFor folder s.id = .ok (folder.child (fileName s.id)) ∧
      m.disk.makeFolders m.workdir folder = (disk, none) ∧
      disk.write m.workdir (folder.child (fileName s.id)) (Utf8.encode s.text.toList) =
        .ok n.disk ∧
      n = { m with disk := n.disk } := by
  unfold save at h
  split at h
  · next entries =>
    dsimp only at h
    split at h
    · obtain ⟨_, _, hget, h⟩ := Action.exists_of_run_bind h
      cases hget
      obtain ⟨time, _, hrun, h⟩ := Action.exists_of_run_bind h
      obtain ⟨htime, rfl⟩ := Action.run_ofExcept_eq_ok_iff.mp hrun
      obtain ⟨document, _, hrun, h⟩ := Action.exists_of_run_bind h
      obtain ⟨hdocument, rfl⟩ := Action.run_ofExcept_eq_ok_iff.mp hrun
      obtain ⟨path, _, hrun, h⟩ := Action.exists_of_run_bind h
      obtain ⟨hpath, rfl⟩ := Action.run_ofExcept_eq_ok_iff.mp hrun
      -- Up to here nothing has changed; the folder is made even if the document cannot be written.
      obtain ⟨_, _, hrun, h⟩ := Action.exists_of_run_bind h
      obtain ⟨disk, hfolders, rfl⟩ := Action.run_makeFolders_eq_ok_iff.mp hrun
      cases hwrite : Json.write .document document with
      | error e =>
        rw [hwrite] at h
        obtain ⟨_, _, hfail, -⟩ := Action.exists_of_run_bind h
        cases hfail
      | ok text =>
        rw [hwrite] at h
        obtain ⟨_, _, hrun, h⟩ := Action.exists_of_run_bind h
        obtain ⟨disk', hfile, rfl⟩ := Action.run_writeText_eq_ok_iff.mp hrun
        rw [Action.run_pure] at h
        obtain ⟨hreply, rfl⟩ := Prod.mk.inj h
        obtain rfl := pathFor_eq hpath
        exact ⟨entries, ⟨Value.field entries "projectName", Value.field entries "category",
          m.clock, document, text⟩, disk, rfl, ⟨rfl, rfl, rfl, ⟨time, htime, hdocument⟩, hwrite⟩,
          (Except.ok.inj hreply).symm, hpath, hfolders, hfile, rfl⟩
    · obtain ⟨_, _, hfail, -⟩ := Action.exists_of_run_bind h
      cases hfail
  · cases h

/-- Saving succeeds where a case can be made and written. -/
theorem run_save {folder : Path} {entries : List (Value × Value)} {s : Saved} {m : Machine}
    {disk disk' : Disk} (hproject : (Value.field entries "projectName").isTruthy = true)
    (hcategory : (Value.field entries "category").isTruthy = true)
    (hmade : s.IsMadeOf entries m.clock) {path : Path} (hpath : pathFor folder s.id = .ok path)
    (hfolders : m.disk.makeFolders m.workdir folder = (disk, none))
    (hfile : disk.write m.workdir path (Utf8.encode s.text.toList) = .ok disk') :
    (save folder (.mapping entries)).run m = (.ok s.reply, { m with disk := disk' }) := by
  obtain ⟨time, htime, hdocument⟩ := hmade.document
  have hid : s.id = makeId (Value.field entries "projectName").display
      (Value.field entries "category").display m.clock := by
    rw [Saved.id, hmade.project, hmade.category, hmade.time]
  unfold save
  dsimp only
  rw [hproject, hcategory, Bool.and_self, if_pos rfl, Action.run_bind_ok (Action.run_get m), ← hid]
  rw [Action.run_bind_ok (Action.run_ofExcept_eq_ok_iff.mpr ⟨htime, rfl⟩),
    Action.run_bind_ok (Action.run_ofExcept_eq_ok_iff.mpr ⟨hdocument, rfl⟩),
    Action.run_bind_ok (Action.run_ofExcept_eq_ok_iff.mpr ⟨hpath, rfl⟩),
    Action.run_bind_ok (Action.run_makeFolders_eq_ok_iff.mpr ⟨disk, hfolders, rfl⟩),
    hmade.written]
  dsimp only
  rw [Action.run_bind_ok (Action.run_writeText_eq_ok_iff.mpr ⟨disk', hfile, rfl⟩)]
  rfl

/-! ## Loading -/

/-- What is read from a file is what is read from the text in it. -/
theorem readDocument_eq {disk : Disk} {workdir place : Place} {path : Path} {text : String}
    (h : disk.Holds workdir path place (Utf8.encode text.toList)) (hreturn : '\r' ∉ text.toList) :
    readDocument disk workdir path =
      (Json.read text.toList).mapError (Failure.ofReadError text.toList) := by
  unfold readDocument
  rw [h.readText hreturn]
  rfl

/-- An id loads what is read from the text in its file. -/
theorem run_load {folder path : Path} {id text : String} {m : Machine} {place : Place}
    (hpath : pathFor folder id = .ok path)
    (h : m.disk.Holds m.workdir path place (Utf8.encode text.toList))
    (hreturn : '\r' ∉ text.toList) :
    (load folder (Value.record [("id", .text id)])).run m =
      (((Json.read text.toList).mapError (Failure.ofReadError text.toList)).map fun document =>
        Value.record [("bestCase", document)], m) := by
  have hentries : (Value.record [("id", .text id)]).optionalEntries =
      .ok [(.text "id", .text id)] := rfl
  have hfield : Value.field [(.text "id", .text id)] "id" = .text id := by
    simp [Value.field, Value.field?, Value.lookup?, Value.same]
  have htruthy : (Value.text id).isTruthy = true := by
    have hid : id ≠ "" := by
      rintro rfl
      simp [pathFor, isId] at hpath
    simpa [Value.isTruthy] using hid
  unfold load
  rw [hentries, Action.run_bind_ok (Action.run_ofExcept _ _), hfield]
  dsimp only
  have hdisplay : (Value.text id).display = id := rfl
  rw [htruthy, if_pos rfl, hdisplay, hpath]
  simp only [Action.run_bind, Action.run_ofExcept, Action.run_onDisk, h.isFile, if_true,
    readDocument_eq h hreturn]
  cases (Json.read text.toList).mapError (Failure.ofReadError text.toList) with
  | error failure => rfl
  | ok document => rfl

/-! ## Histories -/

/-- Cases are saved to a folder one after the other, each at some time. -/
inductive Saves (folder : Path) : Machine → List Saved → Machine → Prop where
  | none (m : Machine) : Saves folder m [] m
  | save {m n k : Machine} {clock : Int} {entries : List (Value × Value)} {s : Saved}
      {later : List Saved} (made : s.IsMadeOf entries clock)
      (saved : (save folder (.mapping entries)).run { m with clock := clock } = (.ok s.reply, n))
      (others : Saves folder n later k) : Saves folder m (s :: later) k

/-- A file is found in the folder when a case has been saved. -/
theorem exists_holds_of_save {folder : Path} {entries : List (Value × Value)} {s : Saved}
    {m n : Machine} {clock : Int} (hmade : s.IsMadeOf entries clock)
    (hsaved : (save folder (.mapping entries)).run { m with clock := clock } = (.ok s.reply, n)) :
    pathFor folder s.id = .ok (folder.child (fileName s.id)) ∧ n.workdir = m.workdir ∧
      ∃ disk, m.disk.FoldersAdded disk ∧
        disk.write m.workdir (folder.child (fileName s.id)) (Utf8.encode s.text.toList) =
          .ok n.disk := by
  obtain ⟨entries', t, disk, hentries, hmade', -, hpath, hfolders, hfile, hn⟩ :=
    exists_of_save hsaved
  cases hentries
  obtain rfl := hmade.unique hmade'
  refine ⟨hpath, by rw [hn], disk, ?_, hfile⟩
  have hadded := Disk.foldersAdded_makeFolders m.disk m.workdir folder
  rw [hfolders] at hadded
  exact hadded

theorem grown_of_save {folder : Path} {entries : List (Value × Value)} {s : Saved}
    {m n : Machine} {clock : Int} (hmade : s.IsMadeOf entries clock)
    (hsaved : (save folder (.mapping entries)).run { m with clock := clock } = (.ok s.reply, n)) :
    m.disk.Grown n.disk := by
  obtain ⟨-, -, disk, hadded, hfile⟩ := exists_holds_of_save hmade hsaved
  obtain ⟨-, -, hgrown, -⟩ := Disk.exists_of_write hfile
  exact hadded.grown.trans hgrown

namespace Saves

variable {folder : Path} {m n : Machine}

theorem exists_of_append {before after : List Saved} (h : Saves folder m (before ++ after) n) :
    ∃ k, m.disk.Grown k.disk ∧ Saves folder k after n := by
  induction before generalizing m with
  | nil => exact ⟨m, .refl _, h⟩
  | cons s before ih =>
    cases h with
    | save made saved others =>
      obtain ⟨k, hgrown, hafter⟩ := ih others
      exact ⟨k, (grown_of_save made saved).trans hgrown, hafter⟩

theorem write_eq {saved : List Saved} (h : Saves folder m saved n) :
    ∀ s ∈ saved, Json.write .document s.document = .ok s.text := by
  induction h with
  | none => simp
  | save made _ _ ih => exact List.forall_mem_cons.mpr ⟨made.written, ih⟩

/-- A file keeps its text until a case is saved under its id, and then it has the text of that. -/
theorem exists_last {later : List Saved} (h : Saves folder m later n)
    (hlinks : NoDocumentLinks m.disk) {place : Place} {t : Saved}
    (hholds : m.disk.Holds m.workdir (folder.child (fileName t.id)) place
      (Utf8.encode t.text.toList)) :
    ∃ u latest, u :: latest <:+ t :: later ∧ u.id = t.id ∧ (∀ v ∈ latest, v.id ≠ t.id) ∧
      n.disk.Holds n.workdir (folder.child (fileName t.id)) place
        (Utf8.encode u.text.toList) := by
  induction h generalizing t with
  | none m => exact ⟨t, [], List.suffix_refl _, rfl, by simp, hholds⟩
  | @save m n k clock entries s later made saved _ ih =>
    obtain ⟨-, hworkdir, disk, hadded, hfile⟩ := exists_holds_of_save made saved
    have hkept : disk.Holds m.workdir (folder.child (fileName t.id)) place
        (Utf8.encode t.text.toList) :=
      hholds.grown hadded.grown (hadded.file_iff.mpr hholds.entry?_eq)
    have hlinks' := hlinks.grown hadded.grown
    have hlinks'' := hlinks.grown (grown_of_save made saved)
    by_cases hid : s.id = t.id
    · -- The case takes the place of the one before it, and is the one to be followed from here.
      rw [hid] at hfile
      have hnew := hkept.write_same hfile
      rw [← hworkdir, ← hid] at hnew
      obtain ⟨u, latest, hsuffix, hu, hlatest, hlast⟩ := ih hlinks'' hnew
      rw [hid] at hu hlatest hlast
      exact ⟨u, latest, hsuffix.trans (List.suffix_cons _ _), hu, hlatest, hlast⟩
    · -- The case goes to a file of another name.
      have hne : fileName s.id ≠ fileName t.id := mt fileName_inj hid
      have hold := hkept.write_other hfile (hlinks'.isFileName _) (hlinks'.isFileName _) hne
      rw [← hworkdir] at hold
      obtain ⟨u, latest, hsuffix, hu, hlatest, hlast⟩ := ih hlinks'' hold
      rcases List.suffix_cons_iff.mp hsuffix with heq | hsuffix
      · obtain ⟨rfl, rfl⟩ := List.cons.inj heq
        refine ⟨u, s :: latest, List.suffix_refl _, rfl, ?_, hlast⟩
        exact List.forall_mem_cons.mpr ⟨hid, hlatest⟩
      · refine ⟨u, latest, ?_, hu, hlatest, hlast⟩
        exact hsuffix.trans ((List.suffix_cons s later).trans (List.suffix_cons t _))

end Saves

/-- The id of a saved case loads the case that was saved last under this id. Of cases with the same
id all but the last are lost; they are those of one millisecond that look alike. -/
theorem load_last_saved {folder : Path} {m n : Machine} {before after : List Saved} {s : Saved}
    (hsaves : Saves folder m (before ++ s :: after) n) (hlinks : NoDocumentLinks m.disk) :
    (∃ t latest, t :: latest <:+ s :: after ∧ t.id = s.id ∧ (∀ u ∈ latest, u.id ≠ s.id) ∧
      (load folder (Value.record [("id", .text s.id)])).run n =
        (t.loaded.map fun document => Value.record [("bestCase", document)], n)) ∧
    ∀ t : Saved, 0 ≤ s.clock → 0 ≤ t.clock →
      (t.id = s.id ↔ t.clock = s.clock ∧ t.label = s.label) := by
  refine ⟨?_, fun t hs ht => Saved.id_eq_iff ht hs⟩
  obtain ⟨k, hgrown, hafter⟩ := hsaves.exists_of_append
  have hwritten := hafter.write_eq
  cases hafter with
  | @save _ k' _ clock entries _ _ made saved others =>
    obtain ⟨hpath, hworkdir, disk, -, hfile⟩ := exists_holds_of_save made saved
    obtain ⟨place, hholds, -, -⟩ := Disk.exists_of_write hfile
    rw [← hworkdir] at hholds
    have hlinks' := hlinks.grown (hgrown.trans (grown_of_save made saved))
    obtain ⟨t, latest, hsuffix, ht, hlatest, hlast⟩ := others.exists_last hlinks' hholds
    have hreturn := Json.not_mem_of_write (hwritten t (hsuffix.subset List.mem_cons_self))
    exact ⟨t, latest, hsuffix, ht, hlatest, run_load hpath hlast hreturn⟩

/-! ## Two cases with one id -/

/-- The folder of a store. -/
def store : Path := ⟨"", ["cases"]⟩

/-- The entries of a parameter about a project. -/
def pageOf (project : String) : List (Value × Value) :=
  [(.text "projectName", .text project), (.text "category", .text "page")]

/-- The document about a project that is saved in the first millisecond of 1970. -/
def documentOf (project : String) : Value :=
  let time := Value.text "1970-01-01T00:00:00+00:00"
  Value.record
    [("id", .text "my-app-page-0"), ("projectName", .text project), ("category", .text "page"),
      ("description", .text ""), ("files", .list []), ("patterns", .mapping []),
      ("metadata", Value.record [("createdAt", time), ("updatedAt", time), ("tags", .list [])])]

def pageCase (project : String) : Saved :=
  ⟨.text project, .text "page", 0, documentOf project,
    (Json.write .document (documentOf project)).toOption.getD ""⟩

theorem isMadeOf_pageCase {project : String} (hid : (pageCase project).id = "my-app-page-0") :
    (pageCase project).IsMadeOf (pageOf project) 0 := by
  have htime : timeText 0 = .ok "1970-01-01T00:00:00+00:00" := rfl
  have hdocument : newDocument (pageOf project) "my-app-page-0"
      (.text "1970-01-01T00:00:00+00:00") = .ok (documentOf project) := by cbv
  have hplain : Json.IsPlain (documentOf project) := by
    simp [documentOf, Json.IsPlain.mapping_iff]
  obtain ⟨text, htext⟩ := hplain.exists_write .document
  refine ⟨?_, ?_, rfl, ⟨_, htime, ?_⟩, ?_⟩
  · simp [pageOf, pageCase, Value.field, Value.field?, Value.lookup?, Value.same]
  · simp [pageOf, pageCase, Value.field, Value.field?, Value.lookup?, Value.same]
  · rw [hid]
    exact hdocument
  · simp [pageCase, htext, Except.toOption]

/-- The disk on which the store has nothing but a case with some text. -/
def diskWith (octets : List UInt8) : Disk :=
  ⟨[(["cases"], .folder), (["cases", "my-app-page-0.json"], .file octets)]⟩

theorem isLookedUp_store {goal : Disk.Goal} {rest : List String} (h : rest ≠ [""]) :
    Disk.IsLookedUp goal "cases" rest :=
  ⟨by decide, by decide, fun _ => h, rfl⟩

theorem isLookedUp_pageCase : Disk.IsLookedUp .file "my-app-page-0.json" [] :=
  ⟨by decide, by decide, by simp, rfl⟩

theorem isFolderPath_store : Disk.IsFolderPath store := ⟨rfl, by decide⟩

theorem locate_store {disk : Disk} {goal : Disk.Goal} {l : Disk.Location}
    (h : disk.Leads goal Disk.maxLinks [] ["cases"] l) : disk.locate [] goal store = .ok l :=
  Disk.locate_eq_ok_iff.mpr ⟨by decide, h⟩

theorem locate_pageCase {disk : Disk} {l : Disk.Location}
    (h : disk.Leads .file Disk.maxLinks [] ["cases", "my-app-page-0.json"] l) :
    disk.locate [] .file (store.child "my-app-page-0.json") = .ok l :=
  Disk.locate_eq_ok_iff.mpr ⟨by decide, h⟩

theorem hasNul_pageCase : Disk.hasNul (store.child "my-app-page-0.json") = false := rfl

theorem makeFolders_empty :
    Disk.makeFolders .empty [] store = (⟨[(["cases"], .folder)]⟩, none) :=
  isFolderPath_store.makeFolders_of_vacant
    (locate_store (.missing rfl (isLookedUp_store (by simp)) rfl))

theorem makeFolders_diskWith (octets : List UInt8) :
    (diskWith octets).makeFolders [] store = (diskWith octets, none) :=
  isFolderPath_store.makeFolders_of_found fun _ =>
    locate_store (.into rfl (isLookedUp_store (by simp)) rfl (by simp) (.found rfl))

/-- A file under a new name is put into the folder of the store. -/
theorem write_new {disk : Disk} {name : String} {octets : List UInt8}
    (hstore : disk.entry? ["cases"] = some .folder) (hnew : disk.entry? ["cases", name] = none)
    (hname : Disk.IsLookedUp .file name []) (hnul : Disk.hasNul (store.child name) = false)
    (hshort : (store.child name).display.utf8ByteSize ≤ Disk.maxPathLength) :
    disk.write [] (store.child name) octets = .ok (disk.put ["cases", name] (.file octets)) := by
  have hother : [name] ≠ [""] := fun heq => hname.notSelf.1 (List.cons.inj heq).1
  exact Disk.write_of_vacant hnul (Disk.locate_eq_ok_iff.mpr ⟨hshort,
    .into rfl (isLookedUp_store hother) hstore nofun (.missing hstore hname hnew)⟩)

/-- The text of a case is put where nothing is yet. -/
theorem write_vacant (octets : List UInt8) :
    Disk.write ⟨[(["cases"], .folder)]⟩ [] (store.child "my-app-page-0.json") octets =
      .ok (diskWith octets) :=
  write_new rfl rfl isLookedUp_pageCase hasNul_pageCase (by decide)

/-- The text of a case is put in the stead of another one. -/
theorem write_diskWith (octets octets' : List UInt8) :
    (diskWith octets).write [] (store.child "my-app-page-0.json") octets' =
      .ok (diskWith octets') :=
  Disk.write_of_found hasNul_pageCase <| locate_pageCase <|
    .into rfl (isLookedUp_store (by simp)) rfl (by simp)
      (.into rfl isLookedUp_pageCase rfl (by simp) (.found rfl))

/-- The projects of two cases look alike with a hyphen for the space. -/
theorem id_pageCase {project : String} (h : project = "my app" ∨ project = "my-app") :
    (pageCase project).id = "my-app-page-0" := by
  rcases h with rfl | rfl
  · rfl
  · rfl

/-- The machine on which both cases have been saved. -/
def twiceSaved : Machine :=
  { Machine.bare [] [] with disk := diskWith (Utf8.encode (pageCase "my-app").text.toList) }

theorem pathFor_store :
    pathFor store "my-app-page-0" = .ok (store.child "my-app-page-0.json") :=
  pathFor_of_isId rfl

/-- The two cases are saved one after the other. -/
theorem saves_pageCases :
    Saves store (Machine.bare [] []) [pageCase "my app", pageCase "my-app"] twiceSaved := by
  have hspaced := id_pageCase (.inl rfl : "my app" = "my app" ∨ "my app" = "my-app")
  have hhyphened := id_pageCase (.inr rfl : "my-app" = "my app" ∨ "my-app" = "my-app")
  have hproject : ∀ project : String, project ≠ "" →
      (Value.field (pageOf project) "projectName").isTruthy = true := by
    intro project h
    simp [pageOf, Value.field, Value.field?, Value.lookup?, Value.same, Value.isTruthy, h]
  have hcategory : ∀ project, (Value.field (pageOf project) "category").isTruthy = true := by
    intro project
    simp [pageOf, Value.field, Value.field?, Value.lookup?, Value.same, Value.isTruthy]
  refine .save (isMadeOf_pageCase hspaced) (run_save (hproject _ (by decide)) (hcategory _)
    (isMadeOf_pageCase hspaced) (hspaced ▸ pathFor_store) makeFolders_empty (write_vacant _)) ?_
  refine .save (isMadeOf_pageCase hhyphened) (run_save (hproject _ (by decide)) (hcategory _)
    (isMadeOf_pageCase hhyphened) (hhyphened ▸ pathFor_store) (makeFolders_diskWith _)
    (write_diskWith _ _)) ?_
  exact .none _

theorem load_last_saved_pageCase :
    (load store (Value.record [("id", .text (pageCase "my app").id)])).run twiceSaved =
      ((pageCase "my-app").loaded.map fun document => Value.record [("bestCase", document)],
        twiceSaved) := by
  have hlinks : NoDocumentLinks (Machine.bare [] []).disk := by
    intro place name target h
    simp [Machine.bare, Disk.empty, Disk.entry?] at h
  obtain ⟨⟨t, latest, hsuffix, -, hlatest, hload⟩, -⟩ :=
    @load_last_saved store _ _ [] _ _ saves_pageCases hlinks
  have hid : (pageCase "my-app").id = (pageCase "my app").id :=
    (id_pageCase (.inr rfl)).trans (id_pageCase (.inl rfl)).symm
  rcases List.suffix_cons_iff.mp hsuffix with heq | hsuffix
  · obtain ⟨-, rfl⟩ := List.cons.inj heq
    exact absurd hid (hlatest _ List.mem_cons_self)
  · rcases List.suffix_cons_iff.mp hsuffix with heq | hsuffix
    · obtain ⟨rfl, -⟩ := List.cons.inj heq
      exact hload
    · simp at hsuffix

/-- The project that a document is about. -/
def projectOf : Value → Option String
  | .mapping entries =>
    match Value.field entries "projectName" with
    | .text project => some project
    | _ => none
  | _ => none

/-- The text of a document about the second project tells its project. -/
theorem exists_write_documentOf : ∃ text, Json.write .document (documentOf "my-app") = .ok text ∧
    (Json.read text.toList).toOption.bind projectOf = some "my-app" := by
  refine ⟨?text, ?written, ?told⟩
  case written =>
    simp only [documentOf, Value.record, List.map_cons, List.map_nil, Json.write, Json.writeAt,
      Json.writeEntries, Json.writeItems, Json.keyText?, bind, Except.bind, pure, Except.pure]
    rfl
  case told =>
    -- The parts of the text are taken apart into characters, since this takes long for the whole.
    simp only [Json.bracketed, Json.Layout.document, List.isEmpty_cons, List.isEmpty_nil, if_true,
      Bool.false_eq_true, if_false, String.toList_append, String.toList_intercalate,
      List.map_cons, List.map_nil, Json.quote, String.toList_ofList]
    decide +kernel

/-- Of two cases of one millisecond the second one has taken the place of the first one. -/
theorem load_pageCase_lost :
    Saves store (Machine.bare [] []) [pageCase "my app", pageCase "my-app"] twiceSaved ∧
    (pageCase "my app").clock ≤ (pageCase "my-app").clock ∧
    projectOf (pageCase "my app").document = some "my app" ∧
    ∃ found,
      (load store (Value.record [("id", .text (pageCase "my app").id)])).run twiceSaved =
        (.ok (Value.record [("bestCase", found)]), twiceSaved) ∧
      projectOf found = some "my-app" := by
  refine ⟨saves_pageCases, Int.le_refl _, ?_, ?_⟩
  · simp [projectOf, pageCase, documentOf, Value.record, Value.field, Value.field?, Value.lookup?,
      Value.same]
  obtain ⟨place, hholds, -, -⟩ := Disk.exists_of_write
    (write_diskWith [] (Utf8.encode (pageCase "my-app").text.toList))
  have hwritten := (isMadeOf_pageCase (id_pageCase (.inr rfl) : _ = "my-app-page-0")).written
  have hload :=
    @run_load _ _ _ _ twiceSaved _ pathFor_store hholds (Json.not_mem_of_write hwritten)
  obtain ⟨text, hwrite, hproject⟩ := exists_write_documentOf
  obtain rfl : text = (pageCase "my-app").text := Except.ok.inj (hwrite.symm.trans hwritten)
  obtain ⟨found, hread, hfound⟩ := Option.bind_eq_some_iff.mp hproject
  rw [id_pageCase (.inl rfl), hload, Outcome.eq_ok_of_toOption hread]
  exact ⟨found, rfl, hfound⟩

end BestCases

end GuestCode
