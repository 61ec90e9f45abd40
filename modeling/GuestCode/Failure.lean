import GuestCode.Data.Display
import GuestCode.Disk.Basic
import GuestCode.Json.Reader

/-!
# Failures

Why an operation fails, and what is said about it: to the snippet whose call failed, to the caller
of an execution, and to the user of the command line.

* `Failure`: the causes
* `Failure.name`, `Failure.message`: the name under which a cause is reported, and its text
* `Failure.rejection`: what a snippet is told about a failed call
* `Failure.advice`: what a user is told
-/

namespace GuestCode

/-- Kinds of values and operations that do not fit together. -/
inductive Mismatch where
  /-- A value of the wrong kind. -/
  | wrongKind
  /-- A value of the right kind that makes no sense. -/
  | wrongValue
  /-- A value without the member asked for. -/
  | noMember
  /-- A mapping without the key asked for. -/
  | noKey
  /-- A place beyond the end of what is there. -/
  | noItem
  /-- A number out of range. -/
  | overflow
  /-- A state that does not allow the operation. -/
  | wrongState
  /-- Something that is asked for but not offered. -/
  | notOffered
  /-- Octets that are no text. -/
  | undecodable
  /-- A text that is no JSON. -/
  | malformed
deriving Repr, DecidableEq, Inhabited

namespace Mismatch

/-- The name under which a mismatch is reported. -/
def name : Mismatch → String
  | wrongKind => "TypeError"
  | wrongValue => "ValueError"
  | noMember => "AttributeError"
  | noKey => "KeyError"
  | noItem => "IndexError"
  | overflow => "OverflowError"
  | wrongState => "RuntimeError"
  | notOffered => "NotImplementedError"
  | undecodable => "UnicodeDecodeError"
  | malformed => "JSONDecodeError"

/-- Whether a mismatch is one of a value that makes no sense. -/
def concernsValue : Mismatch → Bool
  | wrongValue | undecodable | malformed => true
  | _ => false

end Mismatch

/-- Why an operation fails. -/
inductive Failure where
  /-- Any failure of the sandbox. -/
  | general (message : String)
  /-- A configuration that makes no sense. -/
  | configuration (message : String)
  /-- A call of a capability that cannot be served. -/
  | capability (message : String)
  /-- What a call asks for is not there. -/
  | notFound (target : String)
  /-- A capability, or a method of one, that is not bound. -/
  | notBound (capability : String) (method : Option String) (available : List String)
  /-- A failed execution. -/
  | execution (message : String)
  /-- A snippet that cannot be parsed. -/
  | guestSyntax (message : String)
  /-- A snippet that throws. -/
  | guestRuntime (message : String)
  /-- A snippet that takes too long: the time limit, and twice as much, as they are shown. -/
  | timeout (limit twice : String)
  /-- No program to run snippets with. -/
  | noRuntime (program : String)
  /-- An access to the disk that fails, at a path. -/
  | disk (fault : Disk.Fault) (path : String)
  /-- An operating-system failure with a text of its own. -/
  | system (message : String)
  /-- A value and an operation that do not fit together. -/
  | mismatch (kind : Mismatch) (message : String)
  /-- A failure from outside, under its own name. -/
  | foreign (name message : String)
deriving Repr, DecidableEq, Inhabited

namespace Failure

/-- The failure of asking a text for a character that it does not have. -/
def noCharacter : Failure := .mismatch .noItem "string index out of range"

/-- The name of what is not bound. -/
def unboundName (capability : String) (method : Option String) : String :=
  match method with
  | some m => if m.isEmpty then capability else capability ++ "." ++ m
  | none => capability

/-- Names in a row, or the word for none. -/
def listing (names : List String) : String :=
  let row := ", ".intercalate names
  if row.isEmpty then "(none)" else row

/-- The name under which a disk fault is reported. -/
def diskName : Disk.Fault → String
  | .missing => "FileNotFoundError"
  | .present => "FileExistsError"
  | .notFolder => "NotADirectoryError"
  | .isFolder => "IsADirectoryError"
  | _ => "OSError"

/-- The name under which a failure is reported. -/
def name : Failure → String
  | general _ => "CodeModeError"
  | configuration _ => "ConfigurationError"
  | capability _ => "CapabilityError"
  | notFound _ => "CapabilityNotFoundError"
  | notBound .. => "UnknownCapabilityError"
  | execution _ => "ExecutionError"
  | guestSyntax _ => "GuestSyntaxError"
  | guestRuntime _ => "GuestRuntimeError"
  | timeout .. => "ExecutionTimeoutError"
  | noRuntime _ => "RuntimeNotFoundError"
  | disk fault _ => diskName fault
  | system _ => "OSError"
  | mismatch kind _ => kind.name
  | foreign name _ => name

/-- The text of a failure. -/
def message : Failure → String
  | general m | configuration m | capability m | execution m | guestSyntax m | guestRuntime m
  | system m => m
  | notFound target => "NotFound: " ++ target
  | notBound owner method available =>
    unboundName owner method ++ " is not a function. Available methods: " ++ listing available
  | timeout limit _ => "Execution timed out after " ++ limit ++ "ms"
  | noRuntime program => "Guest runtime executable not found: " ++ program
  | disk fault path =>
    "[Errno " ++ toString fault.number ++ "] " ++ fault.text ++ ": " ++ quotedString path
  | mismatch .noKey m => quotedString m
  | mismatch _ m | foreign _ m => m

/-- The families that a failure belongs to, its own first. -/
def families (f : Failure) : List String :=
  match f with
  | general _ => [f.name]
  | configuration _ => [f.name, "CodeModeError"]
  | capability _ => [f.name, "CodeModeError"]
  | notFound _ | notBound .. => [f.name, "CapabilityError", "CodeModeError"]
  | execution _ => [f.name, "CodeModeError"]
  | guestSyntax _ | guestRuntime _ | timeout .. | noRuntime _ =>
    [f.name, "ExecutionError", "CodeModeError"]
  | disk .. | system _ | mismatch .. | foreign .. => []

/-- Whether a failure is one of a capability call. -/
def concernsCapability : Failure → Bool
  | capability _ | notFound _ | notBound .. => true
  | _ => false

/-- Whether a failure comes from the operating system. -/
def concernsSystem : Failure → Bool
  | disk .. | system _ => true
  | _ => false

/-- Whether a failure is that of a value that makes no sense. -/
def concernsValue : Failure → Bool
  | mismatch kind _ => kind.concernsValue
  | _ => false

/-- The failure of reading a JSON text. -/
def ofReadError (text : List Char) (e : Json.ReadError) : Failure :=
  match e with
  | .fault .. => .mismatch .malformed (e.message text)
  | .tooManyDigits _ => .mismatch .wrongValue (e.message text)

/-- What a snippet is told about a failed call: the text of a capability failure, and of any other
failure its name and its text. -/
def rejection (f : Failure) : String :=
  if f.concernsCapability then f.message else f.name ++ ": " ++ f.message

/-- What a user is told: what has happened, and what to do about it. -/
structure Advice where
  report : String
  hint : String
deriving Repr, DecidableEq, Inhabited

/-- The advice about a failure, if there is some. -/
def advice : Failure → Option Advice
  | notFound target =>
    some ⟨"'" ++ target ++ "' does not exist.",
      "Use filesystem.searchFiles(\x7b path, pattern \x7d) to locate it first."⟩
  | notBound owner method available =>
    some ⟨"'" ++ unboundName owner method ++ "' is not provided by the sandbox.",
      "Use one of: " ++ listing available⟩
  | guestSyntax _ =>
    some ⟨"The snippet could not be parsed.",
      "Remove import/export, type annotations and raw markup, then retry."⟩
  | guestRuntime _ =>
    some ⟨"The snippet raised an error while running.",
      "Check the logs returned with the result for the last successful step."⟩
  | timeout limit twice =>
    some ⟨"Code execution took longer than " ++ limit ++ "ms and was terminated.",
      "Avoid unbounded loops or retry with timeoutMs=" ++ twice⟩
  | noRuntime _ =>
    some ⟨"Node.js is required to run snippets but was not found.",
      "Install Node.js or set sandbox.node_executable / CODEMODE_NODE."⟩
  | _ => none

/-- A failure as it is shown to a user: the advice, or the text if there is none. -/
def shown (f : Failure) : String :=
  match f.advice with
  | some a => a.report ++ "\n\nHint: " ++ a.hint
  | none => f.message

end Failure

end GuestCode
