import GuestCode.Disk.Path
import GuestCode.Text.Utf8

/-!
# Disks

A disk maps places, which are lists of names from the root, to files, folders and links. Paths are
followed name by name: a link is replaced by its target, and `..` leads to the folder that a place
is in. The target of a link is kept as it is written, since a slash or a point at its end asks for a
folder.

* `Disk.Entry`, `Disk`: what is on a disk
* `Disk.Fault`: why an access fails
* `Disk.locate`: the place that a path leads to
-/

namespace GuestCode

/-- A list of names from the root of a disk. -/
abbrev Place := List String

namespace Disk

/-- What is at a place: the octets of a file, a folder, or a link with its target. -/
inductive Entry where
  | file (octets : List UInt8)
  | folder
  | link (target : String)
deriving Repr, DecidableEq, Inhabited

/-- Why an access to a disk fails. -/
inductive Fault where
  | missing
  | present
  | notFolder
  | isFolder
  | nameTooLong
  | tooManyLinks
deriving Repr, DecidableEq, Inhabited

namespace Fault

/-- The number of a fault. -/
def number : Fault → Nat
  | missing => 2
  | present => 17
  | notFolder => 20
  | isFolder => 21
  | nameTooLong => 36
  | tooManyLinks => 40

/-- What a fault says. -/
def text : Fault → String
  | missing => "No such file or directory"
  | present => "File exists"
  | notFolder => "Not a directory"
  | isFolder => "Is a directory"
  | nameTooLong => "File name too long"
  | tooManyLinks => "Too many levels of symbolic links"

end Fault

end Disk

/-- A disk: its entries by place, each place once. The root is a folder always. -/
structure Disk where
  entries : List (Place × Disk.Entry)
deriving Repr, DecidableEq, Inhabited

namespace Disk

/-- The empty disk. -/
def empty : Disk := ⟨[]⟩

/-- What is at a place. -/
def entry? (disk : Disk) (place : Place) : Option Entry :=
  if place.isEmpty then some .folder else disk.entries.lookup place

/-- Puts an entry at a place, in the stead of what is there. -/
def put (disk : Disk) (place : Place) (entry : Entry) : Disk :=
  if disk.entries.any fun e => e.1 == place then
    ⟨disk.entries.map fun e => if e.1 == place then (place, entry) else e⟩
  else ⟨disk.entries ++ [(place, entry)]⟩

/-- The names of the entries of a folder. -/
def namesIn (disk : Disk) (place : Place) : List String :=
  disk.entries.filterMap fun (p, _) =>
    match p.getLast? with
    | none => none
    | some name => if p.dropLast == place then some name else none

/-! ## Following paths -/

/-- Where a path leads: a place with an entry, or a place without one in a folder that exists. -/
inductive Location where
  | found (place : Place) (entry : Entry)
  | vacant (place : Place)
deriving Repr, DecidableEq, Inhabited

/-- The most octets that a name may have. -/
def maxNameLength : Nat := 255

/-- The most octets that a path may have. -/
def maxPathLength : Nat := 4095

/-- The most links that one path may lead through. -/
def maxLinks : Nat := 40

/-- Whether a name is too long. -/
def isTooLong (name : String) : Bool := maxNameLength < (Utf8.encode name.toList).length

/-- What is wanted at the end of a path. -/
inductive Goal where
  /-- What is there, links followed. -/
  | thing
  /-- What is there, a link for itself. -/
  | entry
  /-- A file that can be written, links followed. -/
  | file
deriving Repr, DecidableEq, Inhabited

/-- The names in the target of a link. A slash at the end counts as an empty name. -/
def targetNames (target : String) : List String :=
  let names := (Text.splitOn '/' target.toList).map String.ofList
  names.dropLast.filter (· != "") ++ names.getLast?.toList

/-- Follows names from a place on. An empty name and `.` stand for the place itself, which must be a
folder. Where a file is to be written no slash may follow the last name. -/
def follow (disk : Disk) (goal : Goal) (links : Nat) (place : Place) :
    List String → Except Fault Location
  | [] =>
    match disk.entry? place with
    | some entry => .ok (.found place entry)
    | none => .ok (.vacant place)
  | name :: rest =>
    match disk.entry? place with
    | none => .error .missing
    | some (.file _) => .error .notFolder
    | some (.link _) => .error .notFolder
    | some .folder =>
      if name == "" || name == "." then follow disk goal links place rest
      else if name == ".." then follow disk goal links place.dropLast rest
      else if goal == .file && rest == [""] then .error .isFolder
      else if isTooLong name then .error .nameTooLong
      else
        let next := place ++ [name]
        match disk.entry? next with
        | none => if rest.isEmpty then .ok (.vacant next) else .error .missing
        | some (.link target) =>
          if rest.isEmpty && goal == .entry then .ok (.found next (.link target))
          else
            match links with
            | 0 => .error .tooManyLinks
            | links + 1 =>
              let start := if target.startsWith "/" then [] else place
              follow disk goal links start (targetNames target ++ rest)
        | some _ => follow disk goal links next rest
termination_by names => (links, names.length)

/-- Where a path leads from a working folder. -/
def locate (disk : Disk) (workdir : Place) (goal : Goal) (path : Path) : Except Fault Location :=
  if maxPathLength < path.display.utf8ByteSize then .error .nameTooLong
  else disk.follow goal maxLinks (if path.root.isEmpty then workdir else []) path.names

end Disk

end GuestCode
