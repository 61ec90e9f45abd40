import GuestCode.CommandLine.Arguments

/-!
# Invocations

What the program can be told on its command line: to run a snippet, to serve clients, or to report
on its own state, with options for all three of these. It can also be asked for its version and for
help.

* `Command`, `Invocation`: what the program is told
* `Invocation.read`: the invocation that a command line states
-/

namespace GuestCode.CommandLine

/-- The name of the program. -/
def programName : String := "codemode"

/-- The version of the program. -/
def programVersion : String := "0.1.0"

/-- What is to be run, and how. -/
structure RunRequest where
  /-- The file with the snippet; a dash stands for the standard input. -/
  file : String
  timeLimit : Option Int
  /-- The context as JSON text. -/
  context : Option String
  /-- Whether the result is to be written as JSON. -/
  asJson : Bool
deriving Repr, DecidableEq, Inhabited

/-- What is to be done. -/
inductive Command where
  | run (request : RunRequest)
  | serve
  | doctor
deriving Repr, DecidableEq, Inhabited

/-- What the program is told. -/
structure Invocation where
  configurationFile : Option String
  level : Option String
  command : Command
deriving Repr, DecidableEq, Inhabited

/-- Whether the standard input is to be read. -/
def Invocation.readsInput (i : Invocation) : Bool :=
  match i.command with
  | .run request => request.file == "-"
  | .serve => true
  | .doctor => false

/-- Why a command line states no invocation: it makes no sense, or it asks only for a text. -/
inductive NoInvocation where
  | misuse
  | information (text : String)
deriving Repr, DecidableEq, Inhabited

/-! ## Grammars -/

/-- The option that asks for help. -/
def helpOption : OptionRule := ⟨["--help", "-h"], .help⟩

/-- What stands before a command. -/
def mainGrammar : Grammar :=
  { options :=
      [helpOption, ⟨["--version"], .version⟩, ⟨["--config", "-c"], .text⟩,
        ⟨["--log-level"], .text⟩]
    operands := .command }

/-- What stands behind the command that runs a snippet. -/
def runGrammar : Grammar :=
  { options :=
      [helpOption, ⟨["--timeout-ms"], .whole⟩, ⟨["--context"], .text⟩, ⟨["--json"], .flag⟩]
    operands := .one }

/-- What stands behind the other commands. -/
def bareGrammar : Grammar := ⟨[helpOption], .nothing⟩

/-! ## Texts -/

/-- The text about the version. -/
def versionText : String := programName ++ " " ++ programVersion ++ "\n"

/-- Lines as a text. -/
def textOfLines (lines : List String) : String := String.join (lines.map (· ++ "\n"))

/-- The help on the program. -/
def mainHelp : String :=
  textOfLines
    ["usage: codemode [-h] [--version] [--config CONFIG] [--log-level LOG_LEVEL]",
      "                \x7brun,serve,doctor\x7d ...",
      "",
      "Run JavaScript/TypeScript snippets in a capability sandbox",
      "",
      "positional arguments:",
      "  \x7brun,serve,doctor\x7d",
      "    run                 Execute a snippet file, or - for stdin",
      "    serve               Start the MCP stdio server",
      "    doctor              Check the guest runtime and capability stores",
      "",
      "options:",
      "  -h, --help            show this help message and exit",
      "  --version             show program's version number and exit",
      "  --config CONFIG, -c CONFIG",
      "                        Path to codemode.yaml or codemode.json",
      "  --log-level LOG_LEVEL",
      "                        Logging level (default: from config)"]

/-- The help on the command that runs a snippet. -/
def runHelp : String :=
  textOfLines
    ["usage: codemode run [-h] [--timeout-ms TIMEOUT_MS] [--context CONTEXT]",
      "                    [--json]",
      "                    file",
      "",
      "positional arguments:",
      "  file                  Snippet path or - for stdin",
      "",
      "options:",
      "  -h, --help            show this help message and exit",
      "  --timeout-ms TIMEOUT_MS",
      "                        Timeout in milliseconds",
      "  --context CONTEXT     JSON value exposed to the snippet as \x60context\x60",
      "  --json                Print the raw result as JSON"]

/-- The help on a command without options of its own. -/
def bareHelp (command : String) : String :=
  textOfLines
    ["usage: codemode " ++ command ++ " [-h]",
      "",
      "options:",
      "  -h, --help  show this help message and exit"]

/-! ## Reading -/

/-- Why a command line with a help text of its own states no invocation. -/
def NoInvocation.ofStop (help : String) : Stop → NoInvocation
  | .misuse => .misuse
  | .version => .information versionText
  | .help => .information help

namespace Command

/-- What is read behind a command; nothing may be extra. -/
def readRest (g : Grammar) (help : String) (words : List String) :
    Except NoInvocation Reading := do
  let r ← (g.read words).mapError (NoInvocation.ofStop help)
  if r.hasExtras then throw .misuse
  return r

/-- The command with a name and the words behind it. -/
def read (name : String) (words : List String) : Except NoInvocation Command :=
  match name with
  | "run" => do
    let r ← readRest runGrammar runHelp words
    return .run
      ⟨r.operand.getD "", r.whole? "--timeout-ms", r.text? "--context", r.isOn "--json"⟩
  | "serve" => do
    let _ ← readRest bareGrammar (bareHelp name) words
    return .serve
  | "doctor" => do
    let _ ← readRest bareGrammar (bareHelp name) words
    return .doctor
  | _ => throw .misuse

end Command

/-- The invocation that a command line states. -/
def Invocation.read (words : List String) : Except NoInvocation Invocation := do
  let r ← (mainGrammar.read words).mapError (NoInvocation.ofStop mainHelp)
  let command ← Command.read (r.operand.getD "") r.commandLine
  if r.hasExtras then throw .misuse
  return ⟨r.text? "--config", r.text? "--log-level", command⟩

end GuestCode.CommandLine
