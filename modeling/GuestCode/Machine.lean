import GuestCode.Disk.Access

/-!
# The machine

Everything outside the sandbox that an operation can see or change, as one value: the disk, the
environment, the clock, the programs that can be started, and what has come of starting them. An
operation is a function on this value that may fail; what it has changed by then stays changed.

* `ChildScript`, `Launch`: what a started program does, and what is kept of it
* `Probe`: what a program says about its version
* `Shown`: what is shown to the user of the command line
* `Machine`, `Machine.bare`: the machine, and one with little in it
* `Action`: operations on the machine
-/

namespace GuestCode

/-- What a started program does next as seen from its output: it writes a line, or nothing comes
until the deadline has passed. -/
inductive ChildEvent where
  | line (octets : List UInt8)
  | hang
deriving Repr, DecidableEq, Inhabited

/-- What becomes of messages to a started program: they arrive, they are not sent because its input
is known to be closed, or sending them fails. -/
inductive ChildInput where
  | open
  | closed
  | broken
deriving Repr, DecidableEq, Inhabited

/-- What a program does when it is started. -/
structure ChildScript where
  /-- Why the program cannot be started, if it cannot. -/
  refusal : Option String
  events : List ChildEvent
  errorChunks : List (List UInt8)
  exitCode : Int
  input : ChildInput
deriving Repr, DecidableEq, Inhabited

/-- A program that reports success at once. -/
def ChildScript.success : ChildScript :=
  { refusal := none
    events := [.line (Utf8.encode "\x7b\"type\":\"result\",\"ok\":true\x7d\n".toList)]
    errorChunks := []
    exitCode := 0
    input := .open }

/-- A program that has been started: which one, with what runner, in what environment, and the
messages that it has been sent. -/
structure Launch where
  program : String
  runnerName : String
  runner : String
  environment : List (String × String)
  sent : List String
deriving Repr, DecidableEq, Inhabited

/-- What a program does when it is asked for its version. -/
inductive Probe where
  | exited (code : Int) (output errors : String)
  | timedOut
  | refused (reason : String)
deriving Repr, DecidableEq, Inhabited

/-- Levels of diagnostics. -/
inductive Severity where
  | info
  | warning
  | error
deriving Repr, DecidableEq, Inhabited

/-- The name of a level. -/
def Severity.name : Severity → String
  | info => "INFO"
  | warning => "WARNING"
  | error => "ERROR"

/-- What is shown to the user of the command line. Texts may hold marks for colours in square
brackets. -/
inductive Shown where
  | text (marked : String)
  | panel (title style body : String)
  | table (title : String) (columns : List String) (rows : List (List String))
deriving Repr, DecidableEq, Inhabited

/-- Everything outside the sandbox that an operation can see or change. -/
structure Machine where
  disk : Disk
  workdir : Place
  environment : List (String × String)
  /-- Where the programs that can be found by name are. -/
  programs : List (String × String)
  /-- Milliseconds since the start of 1970. -/
  clock : Int
  /-- What the next programs do that are started. -/
  scripts : List ChildScript
  /-- What programs do when they are asked for their version. -/
  probe : Probe
  launches : List Launch
  diagnostics : List (Severity × String)
  /-- What is to be read from the standard input. -/
  input : List UInt8
  /-- What has been written to the standard output, as it is. -/
  output : List String
  /-- What has been shown to the user. -/
  shown : List Shown
  /-- What has been shown to the user about faults. -/
  shownFaults : List Shown
deriving Repr, Inhabited

/-- A machine with an environment and an input, but without files and without programs that could
be started. -/
def Machine.bare (environment : List (String × String)) (input : List UInt8) : Machine :=
  { disk := .empty
    workdir := []
    environment := environment
    programs := []
    clock := 0
    scripts := []
    probe := .refused "no programs"
    launches := []
    diagnostics := []
    input := input
    output := []
    shown := []
    shownFaults := [] }

/-- Operations on the machine that may fail. -/
abbrev Action := ExceptT Failure (StateM Machine)

namespace Action

/-- An operation that fails. -/
def fail {α : Type} (failure : Failure) : Action α := throw failure

/-- An operation that only computes. -/
def ofExcept {α : Type} : Except Failure α → Action α
  | .ok a => pure a
  | .error failure => throw failure

/-- An operation that looks at the disk from the working folder. -/
def onDisk {α : Type} (look : Disk → Place → Except Failure α) : Action α := do
  let machine ← get
  ofExcept (look machine.disk machine.workdir)

/-- An operation that changes the disk. -/
def changeDisk (change : Disk → Place → Except Failure Disk) : Action Unit := do
  let machine ← get
  let disk ← ofExcept (change machine.disk machine.workdir)
  set { machine with disk := disk }

/-- Makes the folder at a path and those that it is in. -/
def makeFolders (path : Path) : Action Unit := do
  let machine ← get
  let (disk, failure?) := machine.disk.makeFolders machine.workdir path
  set { machine with disk := disk }
  match failure? with
  | none => return
  | some failure => throw failure

/-- Writes a text to the file at a path. -/
def writeText (path : Path) (text : String) : Action Unit :=
  changeDisk fun disk workdir => disk.write workdir path (Utf8.encode text.toList)

/-- The value of an environment variable. -/
def variableNamed (name : String) : Action (Option String) := do
  return (← get).environment.lookup name

/-- Runs an operation on a machine. -/
def run {α : Type} (action : Action α) (machine : Machine) : Except Failure α × Machine :=
  Id.run (StateT.run (ExceptT.run action) machine)

/-- The outcome of an operation, failures included. -/
def attempt {α : Type} (action : Action α) : Action (Except Failure α) := do
  let (outcome, machine) := action.run (← get)
  set machine
  return outcome

/-- Starts a program with what it is given, and tells what it does; no program is started if that
is refused. -/
def launch (l : Launch) : Action (Except String ChildScript) := do
  let machine ← get
  let script := machine.scripts.head?.getD .success
  let machine := { machine with scripts := machine.scripts.tail }
  match script.refusal with
  | some reason => do
    set machine
    return .error reason
  | none => do
    set { machine with launches := machine.launches ++ [l] }
    return .ok script

/-- Sends a message to the program that has been started last. -/
def send (message : String) : Action Unit :=
  modify fun machine =>
    match machine.launches.getLast? with
    | none => machine
    | some l =>
      { machine with
        launches := machine.launches.dropLast ++ [{ l with sent := l.sent ++ [message] }] }

/-- Writes a text to the standard output. -/
def write (text : String) : Action Unit :=
  modify fun machine => { machine with output := machine.output ++ [text] }

/-- Shows something to the user. -/
def display (item : Shown) : Action Unit :=
  modify fun machine => { machine with shown := machine.shown ++ [item] }

/-- Shows a fault to the user. -/
def displayFault (item : Shown) : Action Unit :=
  modify fun machine => { machine with shownFaults := machine.shownFaults ++ [item] }

/-- Keeps a diagnostic message. -/
def note (severity : Severity) (message : String) : Action Unit :=
  modify fun machine =>
    { machine with diagnostics := machine.diagnostics ++ [(severity, message)] }

end Action

end GuestCode
