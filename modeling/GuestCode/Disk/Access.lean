import GuestCode.Failure

/-!
# Access to a disk

What programs do with a disk by path: looking, reading, listing, making folders and writing. A
failure names the path as it was given.

* `Disk.isFile`, `Disk.isFolder`, `Disk.isThere`: what is at a path
* `Disk.read`, `Disk.names`, `Disk.size`: reading
* `Disk.makeFolders`, `Disk.write`: changing the disk
-/

namespace GuestCode.Disk

/-- The failure of an access at a path. -/
def failAt (path : Path) (fault : Fault) : Failure := .disk fault path.display

/-- Whether a path holds the character that no name can hold. -/
def hasNul (path : Path) : Bool := path.names.any fun name => name.toList.contains '\x00'

/-- The failure of an access at a path that no name can stand for. -/
def nulFailure : Failure := .mismatch .wrongValue "embedded null byte"

/-! ## Looking -/

/-- What is at a path, links followed. What is not there, or cannot be reached, is nothing; only a
name that is too long is a failure. -/
def look (disk : Disk) (workdir : Place) (path : Path) : Except Failure (Option Entry) :=
  if hasNul path then .ok none
  else
    match disk.locate workdir .thing path with
    | .ok (.found _ entry) => .ok (some entry)
    | .ok (.vacant _) => .ok none
    | .error .nameTooLong => .error (failAt path .nameTooLong)
    | .error _ => .ok none

/-- Whether a path leads to a file. -/
def isFile (disk : Disk) (workdir : Place) (path : Path) : Except Failure Bool :=
  (disk.look workdir path).map fun
    | some (.file _) => true
    | _ => false

/-- Whether a path leads to a folder. -/
def isFolder (disk : Disk) (workdir : Place) (path : Path) : Except Failure Bool :=
  (disk.look workdir path).map fun
    | some .folder => true
    | _ => false

/-- Whether a path leads to anything. -/
def isThere (disk : Disk) (workdir : Place) (path : Path) : Except Failure Bool :=
  (disk.look workdir path).map Option.isSome

/-- Whether a path is a link. -/
def isLink (disk : Disk) (workdir : Place) (path : Path) : Bool :=
  match disk.locate workdir .entry path with
  | .ok (.found _ (.link _)) => true
  | _ => false

/-! ## Reading -/

/-- The octets of the file at a path. -/
def read (disk : Disk) (workdir : Place) (path : Path) : Except Failure (List UInt8) :=
  if hasNul path then .error nulFailure
  else
    match disk.locate workdir .thing path with
    | .ok (.found _ (.file octets)) => .ok octets
    | .ok (.found _ .folder) => .error (failAt path .isFolder)
    | .ok (.found _ (.link _)) => .error (failAt path .tooManyLinks)
    | .ok (.vacant _) => .error (failAt path .missing)
    | .error fault => .error (failAt path fault)

/-- The text of the file at a path, with one kind of line ends. -/
def readText (disk : Disk) (workdir : Place) (path : Path) : Except Failure (List Char) := do
  let octets ← disk.read workdir path
  match Utf8.decode octets with
  | .ok text => return Utf8.universalLineEnds text
  | .error flaw => .error (.mismatch .undecodable flaw.message)

/-- The names in the folder at a path, in order; nothing if there is no folder. -/
def names (disk : Disk) (workdir : Place) (path : Path) : List String :=
  match disk.locate workdir .thing path with
  | .ok (.found place .folder) => (disk.namesIn place).mergeSort fun a b => decide (a ≤ b)
  | _ => []

/-- The size of what is at a path, links followed where they lead to something; a folder counts as
nothing and a link as the length of its target. -/
def size (disk : Disk) (workdir : Place) (path : Path) : Except Failure Nat :=
  let sizeOf : Entry → Nat
    | .file octets => octets.length
    | .folder => 0
    | .link target => (Utf8.encode target.toList).length
  match disk.locate workdir .thing path with
  | .ok (.found _ entry) => .ok (sizeOf entry)
  | .ok (.vacant _) | .error .missing =>
    match disk.locate workdir .entry path with
    | .ok (.found _ entry) => .ok (sizeOf entry)
    | .ok (.vacant _) => .error (failAt path .missing)
    | .error fault => .error (failAt path fault)
  | .error fault => .error (failAt path fault)

/-! ## Changing -/

/-- Makes the folder at a path; its parent must be there, and nothing may be at the path. -/
def makeFolder (disk : Disk) (workdir : Place) (path : Path) : Except Fault Disk :=
  if path.names.getLast? == some ".." || path.names.isEmpty then
    match disk.locate workdir .thing path with
    | .ok _ => .error .present
    | .error fault => .error fault
  else
    match disk.locate workdir .entry path with
    | .ok (.found _ _) => .error .present
    | .ok (.vacant place) => .ok (disk.put place .folder)
    | .error fault => .error fault

/-- The outcome of making the folder at a path where `fault` stood in the way: it is no failure if
the folder is there. -/
def settleFolder (disk : Disk) (workdir : Place) (path : Path) (fault : Fault) : Option Failure :=
  match disk.isFolder workdir path with
  | .ok true => none
  | .ok false => some (failAt path fault)
  | .error failure => some failure

/-- Makes the folder at a path unless it is there, and first, if `depth` allows, those that it is
in. Folders made before a failure stay. -/
def makeFoldersUpTo (workdir : Place) : Nat → Path → Disk → Disk × Option Failure
  | depth, path, disk =>
    if hasNul path then (disk, some nulFailure)
    else
      match disk.makeFolder workdir path with
      | .ok disk => (disk, none)
      | .error .missing =>
        match depth with
        | 0 => (disk, some (failAt path .missing))
        | depth + 1 =>
          match makeFoldersUpTo workdir depth path.parent disk with
          | (disk, some failure) => (disk, some failure)
          | (disk, none) =>
            match disk.makeFolder workdir path with
            | .ok disk => (disk, none)
            | .error .missing => (disk, some (failAt path .missing))
            | .error fault => (disk, settleFolder disk workdir path fault)
      | .error fault => (disk, settleFolder disk workdir path fault)

/-- Makes the folder at a path and those that it is in. -/
def makeFolders (disk : Disk) (workdir : Place) (path : Path) : Disk × Option Failure :=
  makeFoldersUpTo workdir path.names.length path disk

/-- Writes a file at a path, which may lead through a link to a place where nothing is yet. -/
def write (disk : Disk) (workdir : Place) (path : Path) (octets : List UInt8) :
    Except Failure Disk :=
  if hasNul path then .error nulFailure
  else
    match disk.locate workdir .file path with
    | .ok (.found place (.file _)) => .ok (disk.put place (.file octets))
    | .ok (.vacant place) => .ok (disk.put place (.file octets))
    | .ok (.found _ .folder) => .error (failAt path .isFolder)
    | .ok (.found _ (.link _)) => .error (failAt path .tooManyLinks)
    | .error fault => .error (failAt path fault)

end GuestCode.Disk
