import GuestCode.Configuration.Basic
import GuestCode.Json.Draft
import GuestCode.Yaml.Reader
import GuestCode.Yaml.Writer

/-!
# Configuration files

Configurations are kept in JSON or YAML files; the ending of the name tells which. A keeper holds
the configuration of a project: it finds the file, reads it when it is first asked, and writes it
back.

* `Configuration.load`, `Configuration.save`: reading and writing a file
* `ConfigurationKeeper`: the configuration of a project
-/

namespace GuestCode

namespace Configuration

/-- Whether the name of a file says that it holds JSON. -/
def isJsonFile (path : Path) : Bool := lowerString path.suffix == ".json"

/-- What is said of a file that cannot be loaded. -/
def loadFailure (reason : String) : Failure :=
  .configuration ("Failed to load configuration: " ++ reason)

/-- A failure of reading as one of the configuration, if it is one of the system or of a value that
makes no sense. What the formats themselves say is left out. -/
def readFailure (failure : Failure) : Failure :=
  match failure with
  | .mismatch .undecodable _ => loadFailure ""
  | .mismatch .malformed _ => loadFailure ""
  | _ =>
    if failure.concernsSystem || failure.concernsValue then loadFailure failure.message
    else failure

/-- The data in a file. -/
def readData (disk : Disk) (workdir : Place) (path : Path) : Except Failure Value := do
  let text ← (disk.readText workdir path).mapError readFailure
  if isJsonFile path then
    (Json.read text).mapError fun e => readFailure (Failure.ofReadError text e)
  else
    (Yaml.read text).mapError fun
      | .malformed => loadFailure ""
      | .noValue failure => readFailure failure

/-- The configuration that the data of a file state. An empty file says nothing. -/
def ofFileData (environment : List (String × String)) (path : Path) (data : Value) :
    Except Failure Configuration :=
  match data.unfolded with
  | .null => ofData environment (.mapping [])
  | .mapping entries => ofData environment (.mapping entries)
  | _ => .error (loadFailure ("expected a mapping in " ++ path.display))

/-- Loads the configuration in a file. -/
def load (path : Path) : Action Configuration := do
  unless ← Action.onDisk fun disk workdir => disk.isThere workdir path do
    Action.fail (.configuration ("Configuration file not found: " ++ path.display))
  let data ← Action.onDisk fun disk workdir => readData disk workdir path
  Action.ofExcept (ofFileData (← get).environment path data)

/-- Tells a failure of the operating system as one of the configuration. -/
def saveFailure (failure : Failure) : Failure :=
  if failure.concernsSystem then
    .configuration ("Failed to save configuration: " ++ failure.message)
  else failure

/-- The failure of taking data apart that go on without end. -/
def endlessData : Failure := .foreign "RecursionError" "maximum recursion depth exceeded"

/-- Data as the text of a file, as far as it can be written. Where an integer has too many digits
for YAML, nothing is. -/
def draft (path : Path) (data : Value) : Draft :=
  if isJsonFile path then Json.draft .indented data
  else if data.holdsLongInteger then .broken "" Value.tooManyDigits
  else .whole (Yaml.write data)

/-- Saves a configuration to a file, whose folder is made if it is not there. The file is written
as far as the data can be. -/
def save (c : Configuration) (path : Path) : Action Unit :=
  tryCatch
    (do
      Action.makeFolders path.parent
      if c.toValue.isEndless then Action.fail endlessData
      Action.writeText path (draft path c.toValue).text
      match (draft path c.toValue).fault with
      | none => return
      | some failure => Action.fail failure)
    fun failure => Action.fail (saveFailure failure)

end Configuration

/-- Holds the configuration of a project: its file, and what has been loaded from it. -/
structure ConfigurationKeeper where
  path : Path
  loaded : Option Configuration
deriving Repr, Inhabited

namespace ConfigurationKeeper

/-- The names that the file of a configuration can have. -/
def fileNames : List String := ["codemode.yaml", "codemode.yml", "codemode.json"]

/-- The first of some files that is there. -/
def firstThere (disk : Disk) (workdir : Place) : List Path → Except Failure (Option Path)
  | [] => .ok none
  | path :: rest => do
    if ← disk.isThere workdir path then return some path else firstThere disk workdir rest

/-- The keeper of the configuration of a project, which is the working folder if none is given. The
file is the one given, or else the first of the known names that is there. -/
def make (root path : Option Path) : Action ConfigurationKeeper := do
  let workdir := (← get).workdir
  let folder := root.getD ⟨"/", workdir⟩
  match path with
  | some path => return ⟨path, none⟩
  | none => do
    let found ← Action.onDisk fun disk workdir =>
      firstThere disk workdir (fileNames.map folder.child)
    return ⟨found.getD (folder.child "codemode.yaml"), none⟩

/-- Loads the configuration, which is the standard one if there is no file. -/
def load (keeper : ConfigurationKeeper) : Action (Configuration × ConfigurationKeeper) := do
  let c ←
    if ← Action.onDisk fun disk workdir => disk.isThere workdir keeper.path then
      Configuration.load keeper.path
    else do Action.ofExcept (Configuration.inEnvironment (← get).environment)
  return (c, { keeper with loaded := some c })

/-- The configuration, loaded if it has not been. -/
def current (keeper : ConfigurationKeeper) : Action (Configuration × ConfigurationKeeper) :=
  match keeper.loaded with
  | some c => return (c, keeper)
  | none => keeper.load

/-- Saves the configuration to its file. -/
def save (keeper : ConfigurationKeeper) : Action Unit :=
  match keeper.loaded with
  | some c => c.save keeper.path
  | none => Action.fail (.configuration "No configuration to save")

end ConfigurationKeeper

end GuestCode
