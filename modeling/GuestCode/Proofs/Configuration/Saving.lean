import GuestCode.Proofs.Configuration.Outcome
import GuestCode.Proofs.Json.Drafts

/-!
# Failed saves

A configuration is saved in three steps: its folder is made, its data are taken apart, and the file
is written. What fails before the file is opened leaves all files as they were, and most of it is
told as a failure of the configuration. But the file is opened before the data are encoded: data
that the format cannot hold take the old contents of the file with them, and this is told as it is.

## Main statements

* `Configuration.saves_run`: the outcomes of saving, step by step.
* `Configuration.save_failed`: what failed saves have done, and which of them are not told.
* `Configuration.save_loses_date`: a failed save that has emptied a file.
-/

namespace GuestCode

/-! ## Failures of the disk -/

namespace Disk

variable {disk disk' : Disk} {workdir : Place} {path : Path} {f : Failure}

/-- A failure of the disk is one of the operating system, or the path holds a character that no name
can hold. -/
def IsDiskFailure (path : Path) (f : Failure) : Prop :=
  f.concernsSystem = true ∨ hasNul path = true ∧ f = nulFailure

theorem isDiskFailure_failAt (path path' : Path) (fault : Fault) :
    IsDiskFailure path (failAt path' fault) := .inl rfl

theorem isDiskFailure_of_write {octets : List UInt8}
    (h : disk.write workdir path octets = .error f) : IsDiskFailure path f := by
  unfold write at h
  split at h
  · next hnul => exact .inr ⟨hnul, (Except.error.inj h).symm⟩
  · split at h
    · cases h
    · cases h
    all_goals exact Except.error.inj h ▸ isDiskFailure_failAt _ _ _

theorem isDiskFailure_of_settleFolder {fault : Fault}
    (h : disk.settleFolder workdir path fault = some f) : IsDiskFailure path f := by
  unfold settleFolder at h
  split at h
  · cases h
  · exact Option.some.inj h ▸ isDiskFailure_failAt _ _ _
  · next failure hlook =>
    obtain rfl := Option.some.inj h
    unfold isFolder look at hlook
    split at hlook
    · cases hlook
    · split at hlook
      · cases hlook
      · cases hlook
      · cases hlook
        exact isDiskFailure_failAt _ _ _
      · cases hlook

theorem hasNul_of_parent (h : hasNul path.parent = true) : hasNul path = true := by
  obtain ⟨name, hmem, hnul⟩ := List.any_eq_true.mp h
  exact List.any_eq_true.mpr ⟨name, List.mem_of_mem_dropLast hmem, hnul⟩

theorem IsDiskFailure.of_parent (h : IsDiskFailure path.parent f) : IsDiskFailure path f :=
  h.imp_right fun ⟨hnul, hf⟩ => ⟨hasNul_of_parent hnul, hf⟩

theorem isDiskFailure_of_makeFoldersUpTo {depth : Nat}
    (h : makeFoldersUpTo workdir depth path disk = (disk', some f)) : IsDiskFailure path f := by
  induction depth generalizing path disk disk' with
  | zero =>
    unfold makeFoldersUpTo at h
    split at h
    · next hnul => exact .inr ⟨hnul, (Option.some.inj (Prod.mk.inj h).2).symm⟩
    · split at h
      · cases h
      · exact Option.some.inj (Prod.mk.inj h).2 ▸ isDiskFailure_failAt _ _ _
      · exact isDiskFailure_of_settleFolder (Prod.mk.inj h).2
  | succ depth ih =>
    unfold makeFoldersUpTo at h
    split at h
    · next hnul => exact .inr ⟨hnul, (Option.some.inj (Prod.mk.inj h).2).symm⟩
    · split at h
      · cases h
      · dsimp only at h
        split at h
        · next hparent =>
          obtain rfl := Option.some.inj (Prod.mk.inj h).2
          exact (ih hparent).of_parent
        · split at h
          · cases h
          · exact Option.some.inj (Prod.mk.inj h).2 ▸ isDiskFailure_failAt _ _ _
          · exact isDiskFailure_of_settleFolder (Prod.mk.inj h).2
      · exact isDiskFailure_of_settleFolder (Prod.mk.inj h).2

theorem makeFolders_of_hasNul (h : hasNul path = true) :
    disk.makeFolders workdir path = (disk, some nulFailure) := by
  unfold makeFolders
  generalize path.names.length = depth
  cases depth <;> exact (by unfold makeFoldersUpTo; exact if_pos h)

theorem isDiskFailure_of_makeFolders (h : disk.makeFolders workdir path = (disk', some f)) :
    IsDiskFailure path f := isDiskFailure_of_makeFoldersUpTo h

end Disk

namespace Configuration

/-! ## The text of a file -/

/-- Whether data can be written to a file: no integer has too many digits, and a JSON file needs
values that JSON can hold. -/
def CanHold (path : Path) (data : Value) : Prop :=
  (isJsonFile path = true → ∃ text, Json.write .indented data = .ok text) ∧
    data.holdsLongInteger = false

theorem fault_draft_eq_none_iff {path : Path} {data : Value} :
    (draft path data).fault = none ↔ CanHold path data := by
  unfold draft CanHold
  split
  · next hjson => simp [hjson, Json.fault_draft_eq_none_iff]
  · next hyaml =>
    split
    · next hlong => simp [hyaml, hlong, Draft.broken]
    · next hshort => simp [hyaml, hshort, Draft.whole]

theorem isRefusal_of_draft {path : Path} {data : Value} {f : Failure}
    (h : (draft path data).fault = some f) : Json.IsRefusal f := by
  unfold draft at h
  split at h
  · exact Json.isRefusal_of_draft h
  · split at h
    · exact Option.some.inj h ▸ .long
    · cases h

/-! ## Saving -/

section Saving

variable {m n : Machine} {c : Configuration} {path : Path} {folders disk : Disk} {f : Failure}

/-- The outcomes of saving, step by step. -/
inductive Saves (m : Machine) (c : Configuration) (path : Path) :
    Except Failure Unit → Machine → Prop where
  /-- The folder cannot be made. -/
  | noFolder {folders : Disk} {f : Failure}
      (unmade : m.disk.makeFolders m.workdir path.parent = (folders, some f)) :
      Saves m c path (.error (saveFailure f)) { m with disk := folders }
  /-- The data go on without end. -/
  | endless {folders : Disk}
      (made : m.disk.makeFolders m.workdir path.parent = (folders, none))
      (endless : c.toValue.isEndless = true) :
      Saves m c path (.error endlessData) { m with disk := folders }
  /-- The file cannot be opened. -/
  | noFile {folders : Disk} {f : Failure}
      (made : m.disk.makeFolders m.workdir path.parent = (folders, none))
      (finite : c.toValue.isEndless = false)
      (unopened : folders.write m.workdir path
        (Utf8.encode (draft path c.toValue).text.toList) = .error f) :
      Saves m c path (.error (saveFailure f)) { m with disk := folders }
  /-- The file is written as far as the data can be. -/
  | brokenOff {folders disk : Disk} {f : Failure}
      (made : m.disk.makeFolders m.workdir path.parent = (folders, none))
      (finite : c.toValue.isEndless = false)
      (written : folders.write m.workdir path
        (Utf8.encode (draft path c.toValue).text.toList) = .ok disk)
      (fault : (draft path c.toValue).fault = some f) :
      Saves m c path (.error f) { m with disk := disk }
  | saved {folders disk : Disk}
      (made : m.disk.makeFolders m.workdir path.parent = (folders, none))
      (finite : c.toValue.isEndless = false)
      (written : folders.write m.workdir path
        (Utf8.encode (draft path c.toValue).text.toList) = .ok disk)
      (noFault : (draft path c.toValue).fault = none) :
      Saves m c path (.ok ()) { m with disk := disk }

theorem saveFailure_of_refusal (h : Json.IsRefusal f) : saveFailure f = f := by
  cases h <;> rfl

theorem run_save_unmade (unmade : m.disk.makeFolders m.workdir path.parent = (folders, some f)) :
    (save c path).run m = (.error (saveFailure f), { m with disk := folders }) := by
  have hunmade : (Action.makeFolders path.parent).run m =
      (.error f, { m with disk := folders }) := by
    rw [Action.run_makeFolders, unmade]
  rw [save, Action.run_tryCatch, Action.run_bind_error hunmade]
  rfl

section Made

variable (made : m.disk.makeFolders m.workdir path.parent = (folders, none))
include made

theorem run_save_endless (endless : c.toValue.isEndless = true) :
    (save c path).run m = (.error endlessData, { m with disk := folders }) := by
  have hmade : (Action.makeFolders path.parent).run m = (.ok (), { m with disk := folders }) := by
    rw [Action.run_makeFolders, made]
  rw [save, Action.run_tryCatch, Action.run_bind_ok hmade, if_pos endless]
  rfl

/-- Once the folder has been made and the data taken apart, the file is written. -/
theorem run_save_finite (finite : c.toValue.isEndless = false) :
    (save c path).run m =
      match folders.write m.workdir path (Utf8.encode (draft path c.toValue).text.toList) with
      | .error f => (.error (saveFailure f), { m with disk := folders })
      | .ok disk =>
        ((draft path c.toValue).fault.elim (.ok ()) .error, { m with disk := disk }) := by
  have hmade : (Action.makeFolders path.parent).run m = (.ok (), { m with disk := folders }) := by
    rw [Action.run_makeFolders, made]
  rw [save, Action.run_tryCatch, Action.run_bind_ok hmade, if_neg (by simp [finite])]
  dsimp only
  rw [Action.run_bind, Action.run_writeText]
  dsimp only
  cases folders.write m.workdir path (Utf8.encode (draft path c.toValue).text.toList) with
  | error f => rfl
  | ok disk =>
    cases hfault : (draft path c.toValue).fault with
    | none => rfl
    | some f =>
      dsimp only
      rw [Action.run_fail]
      dsimp only
      rw [Action.run_fail, saveFailure_of_refusal (isRefusal_of_draft hfault)]
      rfl

/-- What can be held by the format of a file is saved as its text. -/
theorem run_save (finite : c.toValue.isEndless = false) (held : CanHold path c.toValue)
    (written : folders.write m.workdir path (Utf8.encode (draft path c.toValue).text.toList) =
      .ok disk) :
    (save c path).run m = (.ok (), { m with disk := disk }) := by
  rw [run_save_finite made finite, written, fault_draft_eq_none_iff.mpr held]
  rfl

end Made

theorem saves_run (m : Machine) (c : Configuration) (path : Path) :
    Saves m c path ((save c path).run m).1 ((save c path).run m).2 := by
  rcases made : m.disk.makeFolders m.workdir path.parent with ⟨folders, _ | f⟩
  · cases finite : c.toValue.isEndless with
    | true =>
      rw [run_save_endless made finite]
      exact .endless made finite
    | false =>
      rw [run_save_finite made finite]
      cases written : folders.write m.workdir path
          (Utf8.encode (draft path c.toValue).text.toList) with
      | error f => exact .noFile made finite written
      | ok disk =>
        cases fault : (draft path c.toValue).fault with
        | none => exact .saved made finite written fault
        | some f => exact .brokenOff made finite written fault
  · rw [run_save_unmade made]
    exact .noFolder made

/-! ## Failed saves -/

/-- The failures of saving that are not told as failures of the configuration. -/
inductive SaveEscapes (m : Machine) (c : Configuration) (path : Path) : Failure → Prop where
  /-- The path of the folder holds a character that no name can hold. -/
  | folder (nul : Disk.hasNul path.parent = true) : SaveEscapes m c path Disk.nulFailure
  /-- The data go on without end. -/
  | endless {folders : Disk}
      (made : m.disk.makeFolders m.workdir path.parent = (folders, none))
      (endless : c.toValue.isEndless = true) : SaveEscapes m c path endlessData
  /-- The name of the file holds a character that no name can hold. -/
  | name {folders : Disk}
      (made : m.disk.makeFolders m.workdir path.parent = (folders, none))
      (finite : c.toValue.isEndless = false) (nul : Disk.hasNul path = true) :
      SaveEscapes m c path Disk.nulFailure
  /-- The format of the file cannot hold the data. -/
  | data {folders disk : Disk} {f : Failure}
      (made : m.disk.makeFolders m.workdir path.parent = (folders, none))
      (finite : c.toValue.isEndless = false)
      (written : folders.write m.workdir path
        (Utf8.encode (draft path c.toValue).text.toList) = .ok disk)
      (fault : (draft path c.toValue).fault = some f) : SaveEscapes m c path f

theorem SaveEscapes.not_isTold (h : SaveEscapes m c path f) : ¬IsTold f := by
  rintro ⟨message, rfl⟩
  cases h with
  | data _ _ _ fault => cases isRefusal_of_draft fault

theorem SaveEscapes.exists_run (h : SaveEscapes m c path f) :
    ∃ n, (save c path).run m = (.error f, n) := by
  cases h with
  | folder nul => exact ⟨_, run_save_unmade (Disk.makeFolders_of_hasNul nul)⟩
  | endless made endless => exact ⟨_, run_save_endless made endless⟩
  | name made finite nul =>
    have hunopened : ∀ disk : Disk, ∀ octets, disk.write m.workdir path octets =
        .error Disk.nulFailure := fun _ _ => if_pos nul
    exact ⟨_, by rw [run_save_finite made finite, hunopened]; rfl⟩
  | data made finite written fault =>
    exact ⟨_, by rw [run_save_finite made finite, written, fault]; rfl⟩

/-- What fails on the disk is told, unless a path holds the character that no name can hold. -/
theorem isTold_saveFailure {path : Path} (h : Disk.IsDiskFailure path f) :
    IsTold (saveFailure f) ∨ Disk.hasNul path = true ∧ saveFailure f = Disk.nulFailure := by
  rcases h with hsystem | ⟨hnul, rfl⟩
  · rw [saveFailure, if_pos hsystem]
    exact .inl ⟨_, rfl⟩
  · exact .inr ⟨hnul, rfl⟩

/-- What a failed save leaves: all files as they were, or the file at the path broken off where its
format cannot hold the data. -/
inductive FailedSave (m : Machine) (c : Configuration) (path : Path) (n : Machine) : Prop where
  | kept (extended : m.disk.Extended n.disk)
  | brokenOff {place : Place} (unheld : ¬CanHold path c.toValue)
      (holds : n.disk.Holds n.workdir path place
        (Utf8.encode (draft path c.toValue).text.toList))
      (others : ∀ q octets, q ≠ place → m.disk.entry? q = some (.file octets) →
        n.disk.entry? q = some (.file octets))

theorem extended_of_made {failure : Option Failure}
    (h : m.disk.makeFolders m.workdir path = (folders, failure)) : m.disk.Extended folders := by
  have hextended := Disk.extended_makeFolders m.disk m.workdir path
  rwa [h] at hextended

/-- A failed save leaves all files as they were, unless the format of the file cannot hold the data:
then the file has been written as far as they could be. The failures that are not told as failures of
the configuration are these, data that go on without end, and paths with a character that no name can
hold. -/
theorem save_failed (m : Machine) (c : Configuration) (path : Path) (f : Failure) :
    (∀ n, (save c path).run m = (.error f, n) → FailedSave m c path n) ∧
      ((∃ n, (save c path).run m = (.error f, n)) ∧ ¬IsTold f ↔ SaveEscapes m c path f) := by
  refine ⟨fun n h => ?_, ?_, fun h => ⟨h.exists_run, h.not_isTold⟩⟩
  · have hsaves := saves_run m c path
    rw [h] at hsaves
    cases hsaves with
    | noFolder unmade => exact .kept (extended_of_made unmade)
    | endless made => exact .kept (extended_of_made made)
    | noFile made => exact .kept (extended_of_made made)
    | brokenOff made _ written fault =>
      obtain ⟨place, hholds, -, hothers⟩ := Disk.exists_of_write written
      refine .brokenOff (fun hheld => ?_) hholds fun q octets hne hq => ?_
      · cases fault.symm.trans (fault_draft_eq_none_iff.mpr hheld)
      · exact (hothers q hne).trans ((extended_of_made made).contents hq)
  · rintro ⟨⟨n, h⟩, htold⟩
    have hsaves := saves_run m c path
    rw [h] at hsaves
    cases hsaves with
    | noFolder unmade =>
      obtain ⟨hnul, heq⟩ :=
        (isTold_saveFailure (Disk.isDiskFailure_of_makeFolders unmade)).resolve_left htold
      exact heq ▸ .folder hnul
    | endless made endless => exact .endless made endless
    | noFile made finite unopened =>
      obtain ⟨hnul, heq⟩ :=
        (isTold_saveFailure (Disk.isDiskFailure_of_write unopened)).resolve_left htold
      exact heq ▸ .name made finite hnul
    | brokenOff made finite written fault => exact .data made finite written fault

end Saving

/-! ## A date that JSON has no text for -/

/-- The path of a JSON file. -/
def jsonPath : Path := ⟨"", ["c.json"]⟩

/-- A machine on which this file has an empty mapping. -/
def emptyMappingMachine : Machine :=
  { Machine.bare [] [] with disk := ⟨[(["c.json"], .file (Utf8.encode ['\x7b', '\x7d']))]⟩ }

theorem locate_jsonPath (goal : Disk.Goal) :
    emptyMappingMachine.disk.locate [] goal jsonPath =
      .ok (.found ["c.json"] (.file (Utf8.encode ['\x7b', '\x7d']))) := by
  have hplain : Disk.IsPlain jsonPath := ⟨rfl, by decide, by decide⟩
  refine hplain.locate_eq (fun k hk => ?_) rfl nofun
  obtain rfl : k = 0 := Nat.lt_one_iff.mp hk
  rfl

/-- Data in which the projects root is a date, as in a YAML file. -/
def datedEntries : List (Value × Value) :=
  [(.text "sandbox", Value.record [("projects_root", .date ⟨2024, 1, 2⟩)])]

/-- The configuration that they state. -/
def datedConfiguration : Configuration :=
  { standard with sandbox := { standard.sandbox with projectsRoot := .date ⟨2024, 1, 2⟩ } }

/-- The text of the file as far as it could be written. -/
def datedText : String :=
  "\x7b\n  \"name\": \"codemode\",\n  \"sandbox\": \x7b\n    \"node_executable\": \"node\",\n" ++
    "    \"default_timeout_ms\": 30000,\n    \"projects_root\": "

/-- The failure of writing a date. -/
def dateFailure : Failure := .mismatch .wrongKind "Object of type date is not JSON serializable"

theorem draft_datedConfiguration :
    draft jsonPath datedConfiguration.toValue = .broken datedText dateFailure := by
  have htext : (draft jsonPath datedConfiguration.toValue).text = datedText := by decide +kernel
  have hfault : (draft jsonPath datedConfiguration.toValue).fault = some dateFailure := by
    decide +kernel
  rw [Draft.broken, ← htext, ← hfault]

/-- Saving such a configuration fails with a mismatch of kinds, and the file has lost what it held. -/
theorem save_loses_date :
    ofData [] (.mapping datedEntries) = .ok datedConfiguration ∧
    emptyMappingMachine.disk.Holds [] jsonPath ["c.json"] (Utf8.encode ['\x7b', '\x7d']) ∧
    ∃ n, (save datedConfiguration jsonPath).run emptyMappingMachine = (.error dateFailure, n) ∧
      ¬IsTold dateFailure ∧ n.disk.Holds [] jsonPath ["c.json"] (Utf8.encode datedText.toList) := by
  have hholds : emptyMappingMachine.disk.Holds [] jsonPath ["c.json"]
      (Utf8.encode ['\x7b', '\x7d']) := ⟨rfl, locate_jsonPath .thing⟩
  have hmade : emptyMappingMachine.disk.makeFolders emptyMappingMachine.workdir jsonPath.parent =
      (emptyMappingMachine.disk, none) := by cbv
  have hwrite : emptyMappingMachine.disk.write [] jsonPath
      (Utf8.encode datedText.toList) =
      .ok (emptyMappingMachine.disk.put ["c.json"] (.file (Utf8.encode datedText.toList))) :=
    Disk.write_of_found rfl (locate_jsonPath .file)
  let emptied : Machine :=
    { emptyMappingMachine with
      disk := emptyMappingMachine.disk.put ["c.json"] (.file (Utf8.encode datedText.toList)) }
  have hescapes : ¬IsTold dateFailure := by
    rintro ⟨message, h⟩
    cases h
  refine ⟨by cbv, hholds, emptied, ?_, hescapes, hholds.write_same hwrite⟩
  have hworkdir : emptyMappingMachine.workdir = [] := rfl
  rw [run_save_finite hmade rfl, draft_datedConfiguration]
  dsimp only [Draft.broken]
  rw [hworkdir, hwrite]
  rfl

end Configuration

end GuestCode
