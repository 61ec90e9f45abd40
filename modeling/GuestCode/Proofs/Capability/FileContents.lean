import GuestCode.Capability.Files
import GuestCode.Proofs.Disk.Files
import GuestCode.Proofs.Machine.Steps

/-!
# Written and read

A file that a snippet has written is read back by the same path, with one kind of line ends: reading
turns carriage returns into line feeds, and writing keeps them. No other file changes.

## Main statements

* `Files.exists_of_run_writeFile`, `Files.run_readFile`: the two methods step by step.
* `Files.read_written`: what is read of what has been written.
-/

namespace GuestCode.Files

/-- The parameter that names a path. -/
def atPath (path : String) : Value := Value.record [("path", .text path)]

/-- The parameter that names a path and a content. -/
def withContent (path content : String) : Value :=
  Value.record [("path", .text path), ("content", .text content)]

/-! ## Step by step -/

theorem requirePath_of_text {entries : List (Value × Value)} {path : String} (method : String)
    (hpath : Value.field entries "path" = .text path) (hne : path ≠ "") :
    requirePath (.mapping entries) method = .ok (entries, path) := by
  simp [requirePath, hpath, hne]

theorem exists_of_requirePath {parameter : Value} {method path : String}
    {entries : List (Value × Value)} (h : requirePath parameter method = .ok (entries, path)) :
    parameter = .mapping entries ∧ Value.field entries "path" = .text path ∧ path ≠ "" := by
  unfold requirePath at h
  split at h
  · next entries' =>
    split at h
    · next path' hpath =>
      split at h
      · cases h
      · next hne =>
        cases h
        exact ⟨rfl, hpath, by simpa using hne⟩
    · cases h
  · cases h

variable {scope : Scope} {path content : String} {m n : Machine}

/-- What a successful writing of a file has done. -/
theorem exists_of_run_writeFile {parameter reply : Value}
    (h : (writeFile scope parameter).run m = (.ok reply, n)) :
    ∃ entries path content target disk, parameter = .mapping entries ∧
      Value.field entries "path" = .text path ∧
      (Value.field? entries "content").getD (.text "") = .text content ∧
      path ≠ "" ∧ resolve scope path = .ok target ∧
      m.disk.makeFolders m.workdir (Path.ofString target).parent = (disk, none) ∧
      disk.write m.workdir (Path.ofString target) (Utf8.encode content.toList) = .ok n.disk ∧
      n.workdir = m.workdir := by
  unfold writeFile at h
  obtain ⟨⟨entries, path⟩, k, hfirst, h⟩ := Action.exists_of_run_bind h
  obtain ⟨hrequire, rfl⟩ := Action.run_ofExcept_eq_ok_iff.mp hfirst
  obtain ⟨hentries, hpath, hne⟩ := exists_of_requirePath hrequire
  obtain ⟨target, k, hsecond, h⟩ := Action.exists_of_run_bind h
  obtain ⟨htarget, rfl⟩ := Action.run_ofExcept_eq_ok_iff.mp hsecond
  dsimp only at h
  split at h
  · next content hcontent =>
    obtain ⟨_, k, hmade, h⟩ := Action.exists_of_run_bind h
    obtain ⟨disk, hfolders, rfl⟩ := Action.run_makeFolders_eq_ok_iff.mp hmade
    obtain ⟨_, k, hwritten, h⟩ := Action.exists_of_run_bind h
    obtain ⟨disk', hwrite, rfl⟩ := Action.run_writeText_eq_ok_iff.mp hwritten
    obtain ⟨-, rfl⟩ := Prod.mk.inj h
    exact ⟨entries, path, content, target, disk, hentries, hpath, hcontent, hne, htarget, hfolders,
      hwrite, rfl⟩
  · cases h

theorem run_writeFile {entries : List (Value × Value)} {target : String} {disk disk' : Disk}
    (hpath : Value.field entries "path" = .text path)
    (hcontent : (Value.field? entries "content").getD (.text "") = .text content) (hne : path ≠ "")
    (htarget : resolve scope path = .ok target)
    (hfolders : m.disk.makeFolders m.workdir (Path.ofString target).parent = (disk, none))
    (hwrite : disk.write m.workdir (Path.ofString target) (Utf8.encode content.toList) =
      .ok disk') :
    (writeFile scope (.mapping entries)).run m =
      (.ok (Value.record
        [("success", .bool true), ("path", .text (Path.ofString target).display)]),
        { m with disk := disk' }) := by
  have hmade : (Action.makeFolders (Path.ofString target).parent).run m =
      (.ok (), { m with disk := disk }) := by
    rw [Action.run_makeFolders, hfolders]
  have hwritten : (Action.writeText (Path.ofString target) content).run { m with disk := disk } =
      (.ok (), { m with disk := disk' }) := by
    rw [Action.run_writeText, hwrite]
  unfold writeFile
  rw [requirePath_of_text "writeFile" hpath hne, Action.run_bind_ok (Action.run_ofExcept _ _)]
  dsimp only
  rw [htarget, Action.run_bind_ok (Action.run_ofExcept _ _), hcontent]
  dsimp only
  rw [Action.run_bind_ok hmade, Action.run_bind_ok hwritten]
  rfl

/-- What is read at a path that leads to a file. -/
theorem run_readFile {target : String} {place : Place} {octets : List UInt8} (hne : path ≠ "")
    (htarget : resolve scope path = .ok target)
    (h : m.disk.Holds m.workdir (Path.ofString target) place octets) :
    (readFile scope (atPath path)).run m =
      (.ok (Value.record [("content", .text (String.ofList (readableText octets))),
        ("size", .int (readableText octets).length)]), m) := by
  have hpath : Value.field [(.text "path", .text path)] "path" = .text path := by
    simp [Value.field, Value.field?, Value.lookup?, Value.same]
  have hrequire : requirePath (atPath path) "readFile" = .ok (_, path) :=
    requirePath_of_text "readFile" hpath hne
  unfold readFile
  rw [hrequire]
  simp only [Action.run_bind, Action.run_ofExcept, htarget, Action.run_onDisk, h.isFile, h.read,
    if_true, Action.run_pure]

/-- What is read of what has been written. -/
theorem readableText_encode (text : List Char) :
    readableText (Utf8.encode text) = Utf8.universalLineEnds text := by
  rw [readableText, Utf8.decodeLossy_encode]

/-! ## The same path -/

theorem exists_of_withContent {entries : List (Value × Value)} {path' content' : String}
    (h : withContent path content = .mapping entries)
    (hpath : Value.field entries "path" = .text path')
    (hcontent : (Value.field? entries "content").getD (.text "") = .text content') :
    path' = path ∧ content' = content := by
  obtain rfl := Value.mapping.inj h
  simp [Value.field, Value.field?, Value.lookup?, Value.same] at hpath hcontent
  exact ⟨hpath.symm, hcontent.symm⟩

/-- A file that has been written is read back by the same path with one kind of line ends, and so as
it was written exactly if that has no carriage returns. There are the same other files as before. -/
theorem read_written {reply : Value}
    (h : (writeFile scope (withContent path content)).run m = (.ok reply, n)) :
    ∃ target place, resolve scope path = .ok target ∧
      n.disk.Holds n.workdir (Path.ofString target) place (Utf8.encode content.toList) ∧
      (∀ q, q ≠ place → ∀ octets,
        n.disk.entry? q = some (.file octets) ↔ m.disk.entry? q = some (.file octets)) ∧
      ∃ read : String,
        (readFile scope (atPath path)).run n =
          (.ok (Value.record [("content", .text read), ("size", .int read.length)]), n) ∧
        read.toList = Utf8.universalLineEnds content.toList ∧
        (read = content ↔ '\r' ∉ content.toList) := by
  obtain ⟨entries, path', content', target, disk, hentries, hpath, hcontent, hne, htarget, hfolders,
    hwrite, hworkdir⟩ := exists_of_run_writeFile h
  obtain ⟨rfl, rfl⟩ := exists_of_withContent hentries hpath hcontent
  obtain ⟨place, hholds, -, hkept⟩ := Disk.exists_of_write hwrite
  have hadded := Disk.foldersAdded_makeFolders m.disk m.workdir (Path.ofString target).parent
  rw [hfolders] at hadded
  rw [← hworkdir] at hholds
  -- Folders on the way are made first: they are no files, so the files are those from before.
  have hread := run_readFile hne htarget hholds
  rw [readableText_encode, ← String.length_ofList] at hread
  refine ⟨target, place, htarget, hholds, fun q hq octets => ?_, _, hread, String.toList_ofList, ?_⟩
  · rw [hkept q hq, hadded.file_iff]
  · rw [← Utf8.universalLineEnds_eq_self_iff, ← String.toList_inj, String.toList_ofList]

/-! ## A file of a project -/

/-- A machine with a folder of projects, in which there is a file with other contents. -/
def projectMachine : Machine :=
  { Machine.bare [] [] with
    disk := ⟨[(["projects"], .folder), (["projects", "other.txt"], .file [13])]⟩ }

/-- The disk of that machine with one more file. -/
def diskWithNotes (content : String) : Disk :=
  ⟨projectMachine.disk.entries ++
    [(["projects", "notes.txt"], .file (Utf8.encode content.toList))]⟩

theorem resolve_notes : resolve (.ofRoot "projects" .null) "notes.txt" = .ok "projects/notes.txt" :=
  rfl

theorem entry?_projects : projectMachine.disk.entry? ["projects"] = some .folder := rfl

theorem write_notes (content : String) :
    projectMachine.disk.write [] (Path.ofString "projects/notes.txt") (Utf8.encode content.toList) =
      .ok (diskWithNotes content) := by
  have hlocate : projectMachine.disk.locate [] .file ⟨"", ["projects", "notes.txt"]⟩ =
      .ok (.vacant ["projects", "notes.txt"]) :=
    Disk.locate_eq_ok_iff.mpr ⟨by decide,
      .into rfl ⟨by decide, by decide, fun _ => by decide, rfl⟩ entry?_projects nofun
        (.missing entry?_projects ⟨by decide, by decide, nofun, rfl⟩ rfl)⟩
  exact Disk.write_of_vacant rfl hlocate

theorem run_writeFile_notes (content : String) :
    (writeFile (.ofRoot "projects" .null) (withContent "notes.txt" content)).run projectMachine =
      (.ok (Value.record [("success", .bool true), ("path", .text "projects/notes.txt")]),
        { projectMachine with disk := diskWithNotes content }) := by
  have hlocate : ∀ goal, projectMachine.disk.locate [] goal ⟨"", ["projects"]⟩ =
      .ok (.found ["projects"] .folder) := fun goal =>
    Disk.locate_eq_ok_iff.mpr ⟨by decide,
      .into rfl ⟨by decide, by decide, fun _ => by decide, rfl⟩ entry?_projects nofun
        (.found entry?_projects)⟩
  have hfolders : projectMachine.disk.makeFolders projectMachine.workdir
      (Path.ofString "projects/notes.txt").parent = (projectMachine.disk, none) :=
    Disk.IsFolderPath.makeFolders_of_found ⟨rfl, by decide⟩ hlocate
  exact run_writeFile (by simp [Value.field, Value.field?, Value.lookup?, Value.same])
    (by simp [Value.field?, Value.lookup?, Value.same]) (by decide) resolve_notes hfolders
    (write_notes content)

theorem read_written_notes :
    ∃ n, (writeFile (.ofRoot "projects" .null) (withContent "notes.txt" "1 € = 2 £\n")).run
          projectMachine =
        (.ok (Value.record [("success", .bool true), ("path", .text "projects/notes.txt")]), n) ∧
      (readFile (.ofRoot "projects" .null) (atPath "notes.txt")).run n =
        (.ok (Value.record [("content", .text "1 € = 2 £\n"), ("size", .int 10)]), n) ∧
      n.disk.entry? ["projects", "other.txt"] = some (.file [13]) := by
  have hwritten := run_writeFile_notes "1 € = 2 £\n"
  obtain ⟨target, place, -, hholds, hkept, read, hread, -, hsame⟩ := read_written hwritten
  obtain rfl := hsame.mpr (by decide)
  refine ⟨_, hwritten, hread, (hkept _ ?_ _).mpr rfl⟩
  -- The other file has other contents, so it is not the one that has been written.
  rintro rfl
  exact absurd hholds.entry?_eq (by decide)

/-- A carriage return that has been written is not read. -/
theorem readFile_carriageReturn :
    ∃ n, (writeFile (.ofRoot "projects" .null) (withContent "notes.txt" "a\r\nb")).run
          projectMachine =
        (.ok (Value.record [("success", .bool true), ("path", .text "projects/notes.txt")]), n) ∧
      (readFile (.ofRoot "projects" .null) (atPath "notes.txt")).run n =
        (.ok (Value.record [("content", .text "a\nb"), ("size", .int 3)]), n) := by
  have hwritten := run_writeFile_notes "a\r\nb"
  obtain ⟨place, hholds, -, -⟩ := Disk.exists_of_write (write_notes "a\r\nb")
  have hread := @run_readFile _ _ { projectMachine with disk := diskWithNotes "a\r\nb" } _ _ _
    (by decide) resolve_notes hholds
  have htext : Utf8.universalLineEnds "a\r\nb".toList = ['a', '\n', 'b'] := by decide
  rw [readableText_encode, htext] at hread
  exact ⟨_, hwritten, hread⟩

end GuestCode.Files
