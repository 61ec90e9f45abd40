import GuestCode.Snippet.Grammar
import GuestCode.Snippet.Region
import GuestCode.Text.Split

/-!
# Names in a snippet

The local names that `import` declarations bind, and the calls made on capabilities. Both are read
off the redacted view.

* `importedNames`: the names that imports bind
* `CapabilityCall`, `capabilityCalls`: calls on capabilities, in the order of the snippet
-/

namespace GuestCode

open Text Text.Pattern Grammar

/-! ## Imported names -/

/-- The clause of an import: what stands between `import` and `from`, under label 1. -/
def importClause : Pattern :=
  all [wordEdge, lit "import", someBlanks, opt (.seq (lit "type") someBlanks),
    .capture 1 (lazyStar (noneOf ";")), blanks, wordEdge, lit "from", blanks, lit "\"\""]

/-- A list in braces, with its items under label 1. -/
def bracedList : Pattern :=
  all [lit "\x7b", .capture 1 (star (noneOf "\x7d")), lit "\x7d"]

/-- The name that one item of a braced import list binds: the alias, or the name itself. -/
def listedName? (item : List Char) : Option (List Char) :=
  let parts := blankSeparated item
  let parts := if parts.head? == some "type".toList then parts.tail else parts
  let name? := if parts.contains "as".toList then parts.getLast? else parts.head?
  name?.filter isIdentifier

/-- The name that an item outside braces binds: its last word. -/
def plainName? (item : List Char) : Option (List Char) :=
  (blankSeparated item).getLast?.filter fun name =>
    isIdentifier name && name != "as".toList && name != "type".toList

/-- The names that one import clause binds. -/
def clauseNames (clause : List Char) : List (List Char) :=
  match bracedList.search? clause with
  | none => (splitOn ',' clause).filterMap plainName?
  | some m =>
    (splitOn ',' (m.captured 1)).filterMap listedName? ++
      (splitOn ',' (clause.take m.start ++ m.after)).filterMap plainName?

/-- The local names that the imports of a snippet bind, each once. -/
def importedNames (source : List Char) : List (List Char) :=
  distinct ((importClause.findAll (redact source)).flatMap fun m => clauseNames (m.captured 1))

/-! ## Calls on capabilities -/

/-- A call of a method of a capability. Whether the first argument is an object is unknown if the
call has no arguments or starts with a spread. -/
structure CapabilityCall where
  capability : List Char
  method : List Char
  firstIsObject : Option Bool
deriving Repr, DecidableEq, Inhabited

/-- A call on one of the named capabilities: label 1 is the capability, label 2 the method and
label 3 the opening of the arguments. -/
def callOn (capabilities : List (List Char)) : Pattern :=
  all [freeNameEdge, .capture 1 (anyOf (capabilities.map fun name => all (name.map exactly))),
    blanks, opt (lit "?"), lit ".", blanks, .capture 2 identifier, blanks, lit "(", blanks,
    opt (.capture 3 (words [")", "\x7b", "..."]))]

/-- Every call on one of the named capabilities, in the order of the snippet. A single empty name
names nothing. -/
def capabilityCalls (source : List Char) (capabilities : List (List Char)) :
    List CapabilityCall :=
  if capabilities == [] || capabilities == [[]] then []
  else
    ((callOn capabilities).findAll (redact source)).map fun m =>
      let opener := m.captured 3
      ⟨m.captured 1, m.captured 2,
        if opener == ")".toList || opener == "...".toList then none
        else some (opener == "\x7b".toList)⟩

end GuestCode
