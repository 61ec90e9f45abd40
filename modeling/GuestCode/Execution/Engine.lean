import GuestCode.Capability.BestCases
import GuestCode.Capability.Files
import GuestCode.Capability.Guides
import GuestCode.Capability.Metadata
import GuestCode.Configuration.Basic
import GuestCode.Diagnostics.Masking
import GuestCode.Execution.Host
import GuestCode.Rewrite.Runnable
import GuestCode.Snippet.Remedy

/-!
# The engine

Executes snippets: rewrites them into runnable form, runs them on the host with the capabilities
bound, and puts errors of the snippet into words that say what to do.

* `Engine`, `Engine.make`: an engine with a configuration
* `Engine.timeLimitOf`: the time limit of an execution
* `Engine.execute`: an execution
-/

namespace GuestCode

/-- The capabilities that a configuration states. -/
def standardBindings (c : Configuration) : Except Failure (List Binding) := do
  let scope ← Files.Scope.ofValue c.sandbox.projectsRoot c.capabilities.hostPath
  let cases ← c.capabilities.caseFolder.asPath
  let guides ← c.capabilities.guideFolder.asPath
  return [Files.binding scope, BestCases.binding cases,
    Guides.binding guides, Metadata.binding]

/-- What executions depend on. -/
structure Engine where
  configuration : Configuration
  host : Host
  table : BindingTable

namespace Engine

/-- An engine with a configuration, and with other capabilities than it states if some are
given. -/
def make (c : Configuration) (bindings : Option (List Binding)) : Except Failure Engine := do
  let host ← Host.make c.sandbox.program Runner.fileName Runner.program
    (.list c.sandbox.passedVariables) c.sandbox.maxLogLines c.sandbox.maxOutputChars
  let bindings ←
    match bindings with
    | some bs => pure bs
    | none => standardBindings c
  let table ← BindingTable.ofBindings bindings
  return ⟨c, host, table⟩

/-- The time limit of an execution: the whole number asked for if it is positive, or else that of
the configuration. -/
def timeLimitOf (e : Engine) (asked : Value) : Int :=
  let standard := e.configuration.sandbox.timeLimit
  let positive (n : Int) : Int := if 0 < n then n else standard
  match asked with
  | .int n => positive n
  | .float x =>
    match x.truncate? with
    | some n => if x.compareInt? n == some .eq then positive n else standard
    | none => standard
  | _ => standard

/-- A time limit as a text. One with too many digits is not written. -/
def writeLimit (limit : Int) : Except Failure String :=
  if limit.natAbs < Nat.pow 10 Text.Numeral.maxDigits then .ok (toString limit)
  else
    .error (.mismatch .wrongValue
      ("Exceeds the limit (4300 digits) for integer string conversion; " ++
        "use sys.set_int_max_str_digits() to increase the limit"))

/-- The start of a snippet for diagnostics. -/
def preview (e : Engine) (code : String) : Action String := do
  let settings := e.configuration.diagnostics
  let masked := settings.masked.isTruthy || Masking.isRequested (← get).environment
  let shown ← Action.ofExcept (Masking.previewWithin settings.maxPreview masked code.toList)
  return String.ofList shown

/-- The runnable form of a snippet. The projects root is written into it where it is needed, which
fails if it has no JSON text. -/
def runnable (e : Engine) (code : String) : Except Failure String :=
  let codeOnly := e.configuration.sandbox.codeOnly.isTruthy
  let literal := Json.write .line e.configuration.sandbox.projectsRoot
  let text := (Rewrite.toRunnable ⟨literal.toOption.getD "", codeOnly⟩ code.toList).text
  let mark := Rewrite.wrapperMark.toList
  match literal with
  | .ok _ => .ok (String.ofList text)
  | .error fault =>
    if Text.occursIn mark text && !Text.occursIn mark code.toList then
      .error (.mismatch .wrongKind fault.message)
    else .ok (String.ofList text)

/-- The context of a snippet as plain JSON data. -/
def jsonContext (context : Value) : Except Failure Value :=
  match Json.encode context with
  | .error e => .error (.mismatch .wrongKind e.message)
  | .ok text => (Json.read text.toList).mapError (Failure.ofReadError text.toList)

/-- The globals of a snippet: its context, if there is one. -/
def globalsOf : Value → Except Failure Value
  | .null => .ok (Value.record [])
  | context => (jsonContext context).map fun v => Value.record [("context", v)]

/-- Rewrites and runs a snippet. -/
def runSnippet (e : Engine) (code : String) (timeLimit : Int) (context : Value) :
    Action ExecutionResult := do
  let text ← Action.ofExcept (e.runnable code)
  let globals ← Action.ofExcept (globalsOf context)
  e.host.run text (.int timeLimit) e.table globals

/-- A result in which an error of the snippet says what to do. -/
def explained (e : Engine) (code : String) (r : ExecutionResult) : ExecutionResult :=
  match r.ending with
  | .error kind message name =>
    if kind == .parse || kind == .runtime then
      { r with
        ending :=
          .error kind
            (.text (Remedy.explain e.table.manifest message.display code.toList)) name }
    else r
  | .output _ => r

/-- Notes how an execution has ended. -/
def noteEnding (r : ExecutionResult) : Action Unit := do
  match r.ending with
  | .output _ =>
    Action.note .info
      ("Execution succeeded with " ++ toString r.logs.length ++ " log line(s)")
  | .error kind message _ => do
    let masked := Masking.isRequested (← get).environment
    let shown := Masking.preview 200 masked message.display.toList
    Action.note .info ("Execution failed (" ++ kind.name ++ "): " ++ String.ofList shown)

/-- Executes a snippet. Whatever goes wrong in the run is told in the result. -/
def execute (e : Engine) (code timeLimit context : Value) : Action ExecutionResult := do
  let timeLimit := e.timeLimitOf timeLimit
  match code with
  | .text code =>
    if (Text.trim code.toList).isEmpty then return .failed .host "Code is required" []
    else
      let limit ← Action.ofExcept (writeLimit timeLimit)
      let shown ← e.preview code
      Action.note .info ("Executing snippet (timeout " ++ limit ++ "ms): " ++ shown)
      let r ←
        match ← Action.attempt (e.runSnippet code timeLimit context) with
        | .ok r => pure r
        | .error failure => do
          Action.note .error ("Execution failed: " ++ failure.message)
          pure (.failed .host ("Execution error: " ++ failure.message) [])
      let r := e.explained code r
      noteEnding r
      return r
  | _ => return .failed .host "Code is required" []

/-- The result of an execution that would have to wait for its own caller. -/
def refuseBlocking : Action ExecutionResult := do
  Action.note .warning "execute() called from a running event loop"
  return .failed .host
    "execute() cannot block inside a running event loop; await execute_async() instead" []

end Engine

end GuestCode
