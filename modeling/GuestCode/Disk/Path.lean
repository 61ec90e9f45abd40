import GuestCode.Text.Split

/-!
# Paths

Paths as a root and a list of names. Empty names and the name `.` say nothing and are left out; the
name `..` is kept, since what it leads to depends on links.

* `Path`, `Path.ofString`, `Path.display`
* `Path.child`, `Path.parent`, `Path.name`, `Path.suffix`, `Path.stem`
-/

namespace GuestCode

/-- A path: its root, empty for a relative path, and the names after it. -/
structure Path where
  root : String
  names : List String
deriving Repr, DecidableEq, Inhabited

namespace Path

/-- The names in a text that slashes divide. -/
def namesOf (text : List Char) : List String :=
  ((Text.splitOn '/' text).map String.ofList).filter fun name => name != "" && name != "."

/-- The path that a text denotes. Just two slashes at the start are a root of their own. -/
def ofChars (text : List Char) : Path :=
  let slashes := (text.takeWhile (· == '/')).length
  ⟨if slashes = 0 then "" else if slashes = 2 then "//" else "/", namesOf text⟩

/-- The path that a text denotes. -/
def ofString (s : String) : Path := ofChars s.toList

/-- The text of a path; the empty relative path is `.`. -/
def display (p : Path) : String :=
  if p.root.isEmpty && p.names.isEmpty then "." else p.root ++ "/".intercalate p.names

/-- The path of an entry of a folder. -/
def child (p : Path) (name : String) : Path := { p with names := p.names ++ [name] }

/-- A path followed from another one; an absolute path stands for itself. -/
def join (p q : Path) : Path :=
  if q.root.isEmpty then { p with names := p.names ++ q.names } else q

/-- The path without its last name; a root is its own parent. -/
def parent (p : Path) : Path := { p with names := p.names.dropLast }

/-- The last name of a path, empty if there is none. -/
def name (p : Path) : String := p.names.getLast?.getD ""

/-- A name divided before its last point, if the point neither starts nor ends it. -/
def divideName (name : String) : String × String :=
  let reversed := name.toList.reverse
  let ending := reversed.takeWhile (· != '.')
  let rest := (reversed.dropWhile (· != '.')).tail
  if ending.isEmpty || rest.isEmpty then (name, "")
  else (String.ofList rest.reverse, String.ofList ('.' :: ending.reverse))

/-- The ending of the last name, with its point, empty if there is none. -/
def suffix (p : Path) : String := (divideName p.name).2

/-- The last name without its ending. -/
def stem (p : Path) : String := (divideName p.name).1

/-- The order of paths, name by name. -/
def precedes (p q : Path) : Bool :=
  p.root < q.root || (p.root == q.root && decide (p.names < q.names))

end Path

end GuestCode
