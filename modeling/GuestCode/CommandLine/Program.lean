import GuestCode.CommandLine.Invocation
import GuestCode.Configuration.File
import GuestCode.Diagnostics.Level
import GuestCode.Execution.Engine
import GuestCode.Service.Server

/-!
# The program

What the program does on its command line. It loads the configuration of the project, sets up the
diagnostics, and does what it is told. Its exit code is 0 if all goes well, 1 if a snippet fails or
there is no program to run snippets with, and 2 if the program is misused.

* `perform`: doing what a command line says
-/

namespace GuestCode.CommandLine

/-- The exit code where all goes well. -/
def exitFine : Int := 0

/-- The exit code where something that was asked for fails. -/
def exitFailed : Int := 1

/-- The exit code where the program is misused. -/
def exitMisuse : Int := 2

/-- A text in a colour. -/
def colored (color text : String) : String :=
  "[" ++ color ++ "]" ++ text ++ "[/" ++ color ++ "]"

/-- A text that is not empty. -/
def nonempty (s : Option String) : Option String := s.filter (!·.isEmpty)

/-- Shows a fault, and ends in misuse. -/
def refuse (text : String) : Action Int := do
  Action.displayFault (.text (colored "red" text))
  return exitMisuse

/-! ## Running a snippet -/

/-- The text of a snippet: that of a file, or what is to be read from the standard input. -/
def readSnippet (file : String) : Action String := do
  if file == "-" then
    match Utf8.decode (← get).input with
    | .ok text => return String.ofList text
    | .error flaw => Action.fail (.mismatch .undecodable flaw.message)
  else
    let text ← Action.onDisk fun disk workdir => disk.readText workdir (.ofString file)
    return String.ofList text

/-- The context that a JSON text states, none if there is no text. -/
def readContext (text : Option String) : Except Failure Value :=
  match nonempty text with
  | none => .ok .null
  | some s => (Json.read s.toList).mapError (Failure.ofReadError s.toList)

/-- Whether a character only moves the place of writing. Such characters are not shown. -/
def isControl (c : Char) : Bool := [7, 8, 11, 12, 13].contains c.toNat

/-- The text of an output as it is shown. -/
def shownOutput : Value → Except Failure String
  | .text s => .ok s
  | v => (Json.write .document v).mapError fun e => .mismatch .wrongKind e.message

/-- Shows a result. -/
def showResult (r : ExecutionResult) : Action Unit := do
  unless r.logs.isEmpty do
    Action.display (.panel "logs" "dim" ("\n".intercalate (r.logs.map Value.display)))
  match r.ending with
  | .output value => do
    Action.display (.panel "output" "green" (← Action.ofExcept (shownOutput value)))
  | .error kind message _ => do
    let body := String.ofList (message.display.toList.filter (!isControl ·))
    Action.display (.panel (kind.name ++ " error") "red" body)
    match r.failure? with
    | some failure =>
      if failure.advice.isSome then
        Action.display (.text (colored "yellow" failure.shown))
    | none => return

/-- Writes a result as a line of JSON. -/
def writeResult (r : ExecutionResult) : Action Unit := do
  match Json.write ⟨none, false⟩ r.toValue with
  | .ok text => Action.write (text ++ "\n")
  | .error e => Action.fail (.mismatch .wrongKind e.message)

/-- Runs a snippet. -/
def run (c : Configuration) (request : RunRequest) : Action Int := do
  match ← Action.attempt (readSnippet request.file) with
  | .error failure =>
    if failure.concernsSystem then
      refuse ("Cannot read " ++ request.file ++ ": " ++ failure.message)
    else Action.fail failure
  | .ok code =>
    match readContext request.context with
    | .error (.mismatch .malformed reason) => refuse ("--context must be JSON: " ++ reason)
    | .error failure => Action.fail failure
    | .ok context => do
      let engine ← Action.ofExcept (Engine.make c none)
      let timeLimit := (request.timeLimit.map Value.int).getD .null
      let result ← engine.execute (.text code) timeLimit context
      if request.asJson then writeResult result else showResult result
      return if result.isOk then exitFine else exitFailed

/-! ## Serving clients -/

/-- Serves clients until the input ends. -/
def serve (c : Configuration) : Action Int := do
  let engine ← Action.ofExcept (Engine.make c none)
  Server.run ⟨.text programName, .text programVersion, .text "stdio", engine⟩
  return exitFine

/-! ## Reporting -/

/-- A row of the report on a thing that should be there. -/
def reportRow (name : String) (isThere : Bool) (detail : String) : List String :=
  [name, if isThere then colored "green" "ok" else colored "red" "missing", detail]

/-- The row of the report on a folder. -/
def folderRow (name : String) (folder : Value) : Action (List String) := do
  let path ← Action.ofExcept folder.asPath
  let isThere ← Action.onDisk fun disk workdir => disk.isFolder workdir path
  return reportRow name isThere folder.display

/-- Shows what is there of what the program needs. -/
def doctor (c : Configuration) : Action Int := do
  let engine ← Action.ofExcept (Engine.make c none)
  let (isHealthy, detail) ← engine.host.health
  let rows :=
    [reportRow "guest runtime" isHealthy detail,
      ← folderRow "projects root" c.sandbox.projectsRoot,
      ← folderRow "best cases" c.capabilities.caseFolder,
      ← folderRow "guides" c.capabilities.guideFolder]
  let capabilities := engine.table.manifest.map fun (name, methods) =>
    ["capability " ++ name, colored "green" "bound", ", ".intercalate methods]
  Action.display
    (.table (programName ++ " doctor") ["Check", "Status", "Detail"] (rows ++ capabilities))
  return if isHealthy then exitFine else exitFailed

/-! ## All of it -/

/-- Does what the program is told, under a configuration. -/
def follow (invocation : Invocation) (c : Configuration) : Action Int := do
  let level := ((nonempty invocation.level).map Value.text).getD c.diagnostics.level
  if (Diagnostics.levelOf? level).isNone then
    Action.fail
      (.mismatch .wrongKind ("Level not an integer or a valid string: " ++ level.literal))
  match invocation.command with
  | .run request => run c request
  | .serve => serve c
  | .doctor => doctor c

/-- The configuration of the project that the program is used in. -/
def configurationOf (invocation : Invocation) : Action Configuration := do
  let path := (nonempty invocation.configurationFile).map Path.ofString
  let keeper ← ConfigurationKeeper.make none path
  let (c, _) ← keeper.current
  return c

/-- Does what a command line says; the answer is the exit code. -/
def perform (words : List String) : Action Int := do
  match Invocation.read words with
  | .error .misuse => return exitMisuse
  | .error (.information text) => do
    Action.write text
    return exitFine
  | .ok invocation =>
    match ← Action.attempt (configurationOf invocation) with
    | .ok c => follow invocation c
    | .error failure =>
      match failure with
      | .configuration _ => refuse failure.shown
      | _ => Action.fail failure

end GuestCode.CommandLine
