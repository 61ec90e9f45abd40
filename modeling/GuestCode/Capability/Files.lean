import GuestCode.Capability.Binding
import GuestCode.Data.Coercion
import GuestCode.Text.Glob

/-!
# The file capability

Snippets read, write and look for files under a projects root. Relative paths start from the root,
and paths of the host that lie in its projects folder lead to the same place under the root.

* `Files.Scope`, `Files.resolve`: from the paths of a snippet to those of the host
* `Files.readFile`, `Files.writeFile`, `Files.searchFiles`: the methods
* `Files.binding`: the capability
-/

namespace GuestCode.Files

/-! ## Paths -/

/-- Where the paths of a snippet lead. -/
structure Scope where
  /-- The projects root, without slashes at its end. -/
  root : String
  /-- The projects folder as the host knows it, if it has another name there. -/
  hostPath : Value
deriving Repr, Inhabited

/-- A text without the slashes at its end. -/
def withoutSlashes (text : List Char) : List Char := Text.dropEndWhile (· == '/') text

/-- The scope of a projects root; a root of slashes only is the root of the disk. -/
def Scope.ofRoot (root : String) (hostPath : Value) : Scope :=
  let trimmed := withoutSlashes root.toList
  ⟨if trimmed.isEmpty then "/" else String.ofList trimmed, hostPath⟩

/-- The failure of octets that are taken for a text. -/
def octetsFailure : Failure :=
  .mismatch .wrongKind "a bytes-like object is required, not 'str'"

/-- The scope of a projects root that may be of any kind; only a text is one. -/
def Scope.ofValue (root hostPath : Value) : Except Failure Scope :=
  match root with
  | .text root => .ok (.ofRoot root hostPath)
  | .bytes _ => .error octetsFailure
  | v => .error (v.noMember "rstrip")

/-- A path with slashes for backslashes. -/
def forwardSlashes (path : List Char) : List Char :=
  path.map fun c => if c == '\\' then '/' else c

/-- Whether a path starts with the letter of a drive. -/
def hasDrive : List Char → Bool
  | letter :: ':' :: _ => letter.isAlpha
  | _ => false

/-- The path under the root that a path of the host leads to, if it lies in the projects folder. -/
def translate? (root host path : List Char) : Option (List Char) :=
  let host := withoutSlashes (forwardSlashes host)
  if path == host || (host ++ ['/']).isPrefixOf path then some (root ++ path.drop host.length)
  else none

/-- The path of the host that a path of a snippet leads to, given the root and the projects
folder. -/
def resolveUnder (root : List Char) (host? : Option (List Char)) (path : List Char) : List Char :=
  let normal := forwardSlashes path
  match host?.bind fun host => translate? root host normal with
  | some translated => translated
  | none =>
    if normal.head? == some '/' || hasDrive normal then normal
    else
      let relative := if "./".toList.isPrefixOf normal then normal.drop 2 else normal
      withoutSlashes root ++ '/' :: relative

/-- The text that a path is, which may be given as a value of any kind. -/
def textOfPath : Value → Except Failure String
  | .text s => .ok s
  | .date _ | .moment _ =>
    .error (.mismatch .wrongKind "'str' object cannot be interpreted as an integer")
  | .bytes _ => .error octetsFailure
  | v => .error (v.noMember "replace")

/-- The path of the host that a path of a snippet leads to. A projects folder that is no text
cannot be compared with paths. -/
def resolve (scope : Scope) (path : String) : Except Failure String := do
  let host ← if scope.hostPath.isTruthy then textOfPath scope.hostPath else pure ""
  let host? := if host.isEmpty then none else some host.toList
  return String.ofList (resolveUnder scope.root.toList host? path.toList)

/-- The path of the host that a path of any kind leads to. -/
def resolveValue (scope : Scope) (path : Value) : Except Failure String := do
  resolve scope (← textOfPath path)

/-! ## Methods -/

/-- The entries of the parameter of a method, and the path in it. -/
def requirePath (parameter : Value) (method : String) :
    Except Failure (List (Value × Value) × String) :=
  match parameter with
  | .mapping entries =>
    match Value.field entries "path" with
    | .text path =>
      if path.isEmpty then
        .error (.capability
          ("filesystem." ++ method ++ " requires a non-empty 'path' string"))
      else .ok (entries, path)
    | _ =>
      .error (.capability ("filesystem." ++ method ++ " requires a non-empty 'path' string"))
  | _ =>
    .error (.capability
      ("filesystem." ++ method ++ " expects an object parameter, e.g. filesystem." ++ method ++
        "(\x7b path \x7d)"))

/-- The text of octets, with replacement characters where they are no text, and with one kind of
line ends. -/
def readableText (octets : List UInt8) : List Char :=
  Utf8.universalLineEnds (Utf8.decodeLossy octets)

/-- Reads a file. -/
def readFile (scope : Scope) (parameter : Value) : Action Value := do
  let (_, path) ← Action.ofExcept (requirePath parameter "readFile")
  let target := Path.ofString (← Action.ofExcept (resolve scope path))
  unless ← Action.onDisk fun disk workdir => disk.isFile workdir target do
    Action.fail (.notFound target.display)
  let octets ← Action.onDisk fun disk workdir => disk.read workdir target
  let content := readableText octets
  return Value.record
    [("content", .text (String.ofList content)), ("size", .int content.length)]

/-- Writes a file, and makes the folders that it is in. -/
def writeFile (scope : Scope) (parameter : Value) : Action Value := do
  let (entries, path) ← Action.ofExcept (requirePath parameter "writeFile")
  let target := Path.ofString (← Action.ofExcept (resolve scope path))
  match (Value.field? entries "content").getD (.text "") with
  | .text content => do
    Action.makeFolders target.parent
    Action.writeText target content
    return Value.record [("success", .bool true), ("path", .text target.display)]
  | _ => Action.fail (.capability "filesystem.writeFile requires 'content' to be a string")

/-- The test that a pattern of any kind makes of names. Only texts are patterns. -/
def nameTest (pattern : Value) : Except Failure (String → Bool) :=
  match pattern with
  | .text s =>
    let parts := Glob.parse s.toList
    .ok fun name => Glob.accepts parts name.toList
  | v => do
    v.requireHashable
    .error (.mismatch .wrongKind ("object of type '" ++ v.kindName ++ "' has no len()"))

/-- What is reported of an entry of a folder. -/
def report (disk : Disk) (workdir : Place) (path : Path) (isFolder : Bool) :
    Except Failure Value := do
  let size ← disk.size workdir path
  return Value.record
    [("path", .text path.display), ("name", .text path.name), ("size", .int size),
      ("isDirectory", .bool isFolder)]

/-- Reports the entries of a folder that a pattern accepts, and the folders among all entries. -/
def searchFolder (disk : Disk) (workdir : Place) (pattern : Option Value) (folder : Path) :
    List String → Except Failure (List Value × List Path)
  | [] => .ok ([], [])
  | name :: rest => do
    let path := folder.child name
    let isFolder ← disk.isFolder workdir path
    let accepted ←
      match pattern with
      | none => pure true
      | some p => (nameTest p).map fun test => test name
    let reports ← if accepted then (report disk workdir path isFolder).map ([·]) else pure []
    let folders := if isFolder && !disk.isLink workdir path then [path] else []
    let (others, otherFolders) ← searchFolder disk workdir pattern folder rest
    return (reports ++ others, folders ++ otherFolders)

/-- Searches folders one after the other; those that are found wait behind the others. A disk has
no more folders than entries, and one more for its root. -/
def searchFolders (disk : Disk) (workdir : Place) (pattern : Option Value) (recursive : Bool) :
    Nat → List Path → Except Failure (List Value)
  | 0, _ => .ok []
  | _, [] => .ok []
  | fuel + 1, folder :: pending => do
    let (reports, folders) ←
      searchFolder disk workdir pattern folder (disk.names workdir folder)
    let pending := if recursive then pending ++ folders else pending
    let others ← searchFolders disk workdir pattern recursive fuel pending
    return reports ++ others

/-- Looks for entries of a folder and, if asked, of the folders in it. -/
def searchFiles (scope : Scope) (parameter : Value) : Action Value := do
  let (entries, path) ← Action.ofExcept (requirePath parameter "searchFiles")
  let root := Path.ofString (← Action.ofExcept (resolve scope path))
  let pattern := Value.field entries "pattern"
  let pattern? := if pattern.isTruthy then some pattern else none
  let recursive := (Value.field entries "recursive").isTruthy
  unless ← Action.onDisk fun disk workdir => disk.isFolder workdir root do
    Action.fail (.notFound root.display)
  let files ← Action.onDisk fun disk workdir =>
    searchFolders disk workdir pattern? recursive (disk.entries.length + 1) [root]
  return Value.record [("files", .list files)]

/-! ## The capability -/

/-- A method that takes one parameter. -/
def oneParameter (owner : String) (call : Value → Action Value) : Method :=
  Signature.method ⟨"FilesystemCapability." ++ owner, ["params"], 0⟩ fun parameter _ =>
    call parameter

/-- The file capability in a scope. -/
def binding (scope : Scope) : Binding :=
  { name := "filesystem"
    methods :=
      [("readFile", oneParameter "read_file" (readFile scope)),
        ("writeFile", oneParameter "write_file" (writeFile scope)),
        ("searchFiles", oneParameter "search_files" (searchFiles scope))] }

end GuestCode.Files
