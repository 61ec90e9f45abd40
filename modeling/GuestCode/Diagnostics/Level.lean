import GuestCode.Data.Value

/-!
# Diagnostics

Levels of diagnostics, the names of the places they come from, and how their output is set up.

* `Diagnostics.levelNumber`: the number of a level that is given by name or by number
* `Diagnostics.sourceName`: the full name of a source of diagnostics
* `Diagnostics.Setup`: the outcome of setting up the output
-/

namespace GuestCode.Diagnostics

/-- The names of the levels and their numbers. -/
def levels : List (String × Int) :=
  [("CRITICAL", 50), ("FATAL", 50), ("ERROR", 40), ("WARN", 30), ("WARNING", 30), ("INFO", 20),
    ("DEBUG", 10), ("NOTSET", 0)]

/-- The level of ordinary messages. -/
def infoLevel : Int := 20

/-- The upper case of a character, as far as it concerns names in ASCII. -/
def upperChar (c : Char) : Char :=
  if c == '\u0131' then 'I' else if c == '\u017F' then 'S' else c.toUpper

/-- The number of a level given by name, in any case; an unknown name stands for the level of
ordinary messages. -/
def namedLevel (name : String) : Int :=
  (levels.lookup (String.ofList (name.toList.map upperChar))).getD infoLevel

/-- The root of all names of sources. -/
def rootName : String := "codemode"

/-- The full name of a source of diagnostics. -/
def sourceName (name : String) : String :=
  if name == rootName || (rootName ++ ".").toList.isPrefixOf name.toList then name
  else rootName ++ "." ++ name

/-- How diagnostics are put out: from which level on, through which handlers, and whether others
see them too. -/
structure Setup where
  level : Value
  handlers : List String
  propagate : Bool
deriving Repr, Inhabited

/-- Sets up the output from a level on; rich output goes to a handler of its own. -/
def setup (level : Value) (rich : Bool) : Setup :=
  ⟨level, [if rich then "RichHandler" else "StreamHandler"], false⟩

/-- A level given by name or by number; a truth value is a number and stays as it is. -/
def levelOf? : Value → Option Value
  | .text name => some (.int (namedLevel name))
  | .int n => some (.int n)
  | .bool b => some (.bool b)
  | _ => none

end GuestCode.Diagnostics
