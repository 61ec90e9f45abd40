import GuestCode.Data.Arithmetic
import GuestCode.Data.Coercion
import GuestCode.Execution.LogBuffer
import GuestCode.Execution.Message
import GuestCode.Execution.Result
import GuestCode.Execution.Runner

/-!
# The host

Runs a snippet in a process of its own: starts the runner, sends it the snippet, serves the calls
that come back, and settles the result. The first event that decides the run ends it: a result, the
end of the output, or the deadline.

* `Host`, `Host.make`: what runs depend on
* `Host.serve`: what comes from the runner, up to the deciding event
* `Host.run`: a run
* `Host.health`: whether the program can be started
-/

namespace GuestCode

/-- What runs of snippets depend on. -/
structure Host where
  /-- The program that runs the runner, by name or path. -/
  program : Value
  runnerName : String
  runner : String
  /-- The environment variables that snippets may see. -/
  passedVariables : List Value
  maxLogLines : Int
  maxOutputChars : Int
deriving Repr, Inhabited

namespace Host

/-- A host. At least one log line and a thousand characters of output are kept. -/
def make (program : Value) (runnerName runner : String)
    (passedVariables maxLogLines maxOutputChars : Value) : Except Failure Host := do
  let passed ← passedVariables.membersOrNone
  let lines ← maxLogLines.wholeNumber
  let chars ← maxOutputChars.wholeNumber
  let runnerName := (Path.ofString runnerName).display
  return ⟨program, runnerName, runner, passed, max 1 lines, max 1000 chars⟩

/-! ## The program -/

/-- The path of the program: where it is found by name, or its own path if there is a file. -/
def programPath? (host : Host) : Action (Option String) := do
  Action.ofExcept host.program.requireHashable
  let programs := (← get).programs
  let found :=
    match host.program with
    | .text name => (programs.lookup name).filter (!·.isEmpty)
    | _ => none
  match found with
  | some path => return some path
  | none => do
    let path ← Action.ofExcept host.program.asPath
    if ← Action.onDisk fun disk workdir => disk.isFile workdir path then
      return some host.program.display
    else return none

/-- Whether the program can be started, and what it says about itself. -/
def health (host : Host) : Action (Bool × String) := do
  let name := host.program.display
  match ← host.programPath? with
  | none => return (false, name ++ " not found on PATH")
  | some _ =>
    match (← get).probe with
    | .timedOut => return (false, name ++ " --version timed out")
    | .refused reason => return (false, name ++ " could not be started: " ++ reason)
    | .exited code output errors =>
      let stripped (s : String) : String := String.ofList (Text.trim s.toList)
      if code = 0 then
        let version := stripped output
        return (true,
          "runtime ready (" ++ (if version.isEmpty then "unknown version" else version) ++ ")")
      else
        let detail := stripped (if errors.isEmpty then output else errors)
        return (false, if detail.isEmpty then "runtime unavailable" else detail)

/-! ## The environment of a run -/

/-- How the folder of a run, which has a fresh name each time, is written. -/
def workFolder : String := "$WORK"

/-- The path for programs where the environment states none. -/
def standardPath : String := "/bin:/usr/bin"

/-- Sets a variable: one that is there keeps its place. -/
def setVariable (name value : String) : List (String × String) → List (String × String)
  | [] => [(name, value)]
  | (n, v) :: rest =>
    if n == name then (n, value) :: rest else (n, v) :: setVariable name value rest

/-- The variables of a run: few that every program needs, and those that are passed on. -/
def passVariables (outer : List (String × String)) (environment : List (String × String)) :
    List Value → Except Failure (List (String × String))
  | [] => .ok environment
  | .text name :: rest =>
    match outer.lookup name with
    | some value => passVariables outer (setVariable name value environment) rest
    | none => passVariables outer environment rest
  | v :: _ => .error (.mismatch .wrongKind ("str expected, not " ++ v.shortKindName))

/-- The environment of a run. -/
def childVariables (host : Host) (outer : List (String × String)) :
    Except Failure (List (String × String)) :=
  passVariables outer
    [("PATH", (outer.lookup "PATH").getD standardPath), ("HOME", workFolder),
      ("TMPDIR", workFolder)]
    host.passedVariables

/-! ## What comes from the runner -/

/-- Sends a message to the runner, if its input is open. -/
def send (input : ChildInput) (message : HostMessage) : Action Unit := do
  match Json.encode message.toValue with
  | .error e => Action.fail (.mismatch .wrongKind e.message)
  | .ok text => if input == .open then Action.send text

/-- Serves a call. A method that never completes is called, but not answered. -/
def serveCall (table : BindingTable) (input : ChildInput) (c : CallRequest) : Action Unit := do
  let completes :=
    match table.method c.capability c.method with
    | .ok m => m.completes
    | .error _ => true
  let answer ← table.answer c.capability c.method c.arguments
  if completes then send input (.reply c.id answer)

/-- The event that decides a run. -/
inductive Decision where
  | result (entries : List (Value × Value))
  | ended
  | late
deriving Repr, Inhabited

/-- Serves what comes from the runner up to the deciding event. -/
def serve (table : BindingTable) (input : ChildInput) (logs : LogBuffer) :
    List ChildEvent → Action (Decision × LogBuffer)
  | [] => return (.ended, logs)
  | .hang :: _ => return (.late, logs)
  | .line [] :: _ => return (.ended, logs)
  | .line octets :: rest =>
    match RunnerMessage.ofOctets? octets with
    | none => serve table input logs rest
    | some (.log text) => serve table input (logs.push text) rest
    | some (.call c) => do
      serveCall table input c
      serve table input logs rest
    | some (.result entries) => return (.result entries, logs)

/-! ## The error output of a runner -/

/-- The number of characters of the error output that are reported. -/
def errorTail : Nat := 2000

/-- Drops texts at the start while there are more characters than are reported, but not the last
text. -/
def dropOld (size : Nat) : List (List Char) → Nat × List (List Char)
  | text :: next :: rest =>
    if errorTail < size then dropOld (size - text.length) (next :: rest)
    else (size, text :: next :: rest)
  | texts => (size, texts)

/-- The texts that are kept of chunks of error output. -/
def keepErrors (chunks : List (List UInt8)) : List (List Char) :=
  let kept := (chunks.takeWhile (!·.isEmpty)).foldl
    (fun (size, texts) chunk =>
      let text := Utf8.decodeLossy chunk
      dropOld (size + text.length) (texts ++ [text]))
    (0, [])
  kept.2

/-- What is reported of the error output. -/
def errorReport (chunks : List (List UInt8)) : String :=
  let text := Text.trim (keepErrors chunks).flatten
  String.ofList (text.drop (text.length - errorTail))

/-! ## Settling -/

/-- An output, or the start of its text if it is too long. -/
def limitOutput (host : Host) (output : Value) : Except Failure Value :=
  match Json.encode output with
  | .error e => .error (.mismatch .wrongKind e.message)
  | .ok text =>
    if (text.length : Int) ≤ host.maxOutputChars then .ok output
    else
      .ok (.text
        (String.ofList (text.toList.take host.maxOutputChars.toNat) ++ "...[truncated]"))

/-- The result that the message of a runner tells. -/
def settle (host : Host) (entries : List (Value × Value)) (logs : List String) :
    Except Failure ExecutionResult :=
  if (Value.field entries "ok").isTruthy then
    (host.limitOutput (Value.field entries "output")).map fun output => .success output logs
  else
    let kind :=
      match Value.field entries "phase" with
      | .text "compile" => FailureKind.parse
      | _ => FailureKind.runtime
    let message :=
      match Value.field entries "error" with
      | .null => "Unknown error"
      | v => v.display
    .ok ⟨.error kind (.text message) (Value.field entries "errorName"), logs.map .text⟩

/-- Whether there is no time left to wait for anything. -/
def isOver (seconds : Binary64) : Bool :=
  match seconds.compareInt? 0 with
  | some .lt | some .eq => true
  | _ => false

/-- Runs a runner that has been started. -/
def converse (host : Host) (script : ChildScript) (code : String) (timeLimit : Value)
    (table : BindingTable) (globals : Value) : Action ExecutionResult := do
  let globals := if globals.isTruthy then globals else Value.record []
  send script.input (.start code table.manifest globals timeLimit)
  let seconds ← Action.ofExcept timeLimit.thousandth
  let logs := LogBuffer.ofLimit host.maxLogLines
  let (decision, logs) ←
    if isOver seconds then pure (.late, logs) else serve table script.input logs script.events
  match decision with
  | .result entries => Action.ofExcept (host.settle entries logs.lines)
  | .late => do
    Action.note .warning ("Execution timeout after " ++ timeLimit.display ++ "ms")
    let failure ← Action.ofExcept (Failure.ofTimeLimit timeLimit)
    return .failed .timeout failure.message logs.lines
  | .ended =>
    let report := errorReport script.errorChunks
    let message :=
      "Guest runtime exited without a result (exit code " ++ toString script.exitCode ++ ")"
    return .failed .host (if report.isEmpty then message else message ++ ": " ++ report) logs.lines

/-- Runs a snippet under a time limit in milliseconds. -/
def run (host : Host) (code : String) (timeLimit : Value) (table : BindingTable)
    (globals : Value) : Action ExecutionResult := do
  match ← host.programPath? with
  | none =>
    return .failed .host (Failure.noRuntime host.program.display).message []
  | some program => do
    let environment ← Action.ofExcept (host.childVariables (← get).environment)
    match ← Action.launch ⟨program, host.runnerName, host.runner, environment, []⟩ with
    | .error reason => do
      let message := "Failed to start guest runtime: " ++ reason
      Action.note .error message
      return .failed .host message []
    | .ok script => host.converse script code timeLimit table globals

end Host

end GuestCode
