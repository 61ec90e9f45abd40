import GuestCode.Data.Arithmetic
import GuestCode.Data.Coercion
import GuestCode.Data.Signature

/-!
# Making failures

Failures from their names and arguments, which may be values of any kind. Each name takes a number
of arguments of its own. Names that are not known stand for failures from outside, which take any
arguments.

* `Failure.ofName`: the failure with a name and arguments
-/

namespace GuestCode

namespace Value

/-- The text of the arguments of a failure: one argument is shown as it is, more as a group. -/
def argumentText : List Value → String
  | [] => ""
  | [v] => v.display
  | many => (tuple many).literal

/-- The texts that the members of a value are; each must be one. -/
def requireTexts (index : Nat) : List Value → Except Failure (List String)
  | [] => .ok []
  | text s :: rest => (requireTexts (index + 1) rest).map (s :: ·)
  | v :: _ =>
    .error (.mismatch .wrongKind
      ("sequence item " ++ toString index ++ ": expected str instance, " ++ v.kindName ++
        " found"))

/-- The texts that a value holds, none if it counts as false. -/
def textsOrNone (v : Value) : Except Failure (List String) :=
  if !v.isTruthy then .ok []
  else
    match v.members with
    | .ok members => requireTexts 0 members
    | .error _ => .error (.mismatch .wrongKind "can only join an iterable")

end Value

namespace Failure

/-- What is called to make the failure with a name. -/
def maker (name : String) (required : List String) (optional : Nat) : Signature :=
  ⟨name ++ ".__init__", required, optional⟩

/-- The failure of something that is not bound, from values of any kind. -/
def ofUnbound (capability method available : Value) : Except Failure Failure :=
  available.textsOrNone.map
    (.notBound capability.display (if method.isTruthy then some method.display else none))

/-- The kinds of mismatches that are known by their names. -/
def namedMismatches : List Mismatch :=
  [.wrongKind, .wrongValue, .noMember, .noItem, .overflow, .wrongState, .notOffered]

/-- The numbers of system failures that have names of their own, and these names. -/
def systemNames : List (Int × String) :=
  [(1, "PermissionError"), (2, "FileNotFoundError"), (3, "ProcessLookupError"),
    (4, "InterruptedError"), (10, "ChildProcessError"), (11, "BlockingIOError"),
    (13, "PermissionError"), (17, "FileExistsError"), (20, "NotADirectoryError"),
    (21, "IsADirectoryError"), (32, "BrokenPipeError"), (103, "ConnectionAbortedError"),
    (104, "ConnectionResetError"), (108, "BrokenPipeError"), (110, "TimeoutError"),
    (111, "ConnectionRefusedError"), (114, "BlockingIOError"), (115, "BlockingIOError")]

/-- The name of the system failures with a number; any other value numbers none. -/
def systemName (number : Value) : String :=
  let known (n : Int) := (systemNames.lookup n).getD "OSError"
  match number with
  | .int n => known n
  | .bool b => known (if b then 1 else 0)
  | _ => "OSError"

/-- Where a system failure happened, as its text ends: at a path, or from one path to another. -/
def systemPlace : List Value → String
  | [] | .null :: _ => ""
  | [path, _, .null] => ": " ++ path.literal
  | [path, _, target] => ": " ++ path.literal ++ " -> " ++ target.literal
  | path :: _ => ": " ++ path.literal

/-- The failure of the system with arguments: from two to five are a number, a reason and paths, any
others only a text. -/
def ofSystem (arguments : List Value) : Failure :=
  match arguments with
  | number :: reason :: places =>
    if places.length ≤ 3 then
      .foreign (systemName number)
        ("[Errno " ++ number.display ++ "] " ++ reason.display ++ systemPlace places)
    else .system (Value.argumentText arguments)
  | _ => .system (Value.argumentText arguments)

/-- The failure with a name that takes any arguments. -/
def ofText (name : String) (arguments : List Value) : Failure :=
  let text := Value.argumentText arguments
  match name with
  | "CodeModeError" => .general text
  | "ConfigurationError" => .configuration text
  | "CapabilityError" => .capability text
  | "ExecutionError" => .execution text
  | "OSError" => ofSystem arguments
  | "KeyError" =>
    match arguments with
    | [v] => .foreign name v.literal
    | _ => .foreign name text
  | _ =>
    match namedMismatches.find? fun kind => kind.name == name with
    | some kind => .mismatch kind text
    | none => .foreign name text

/-- The failure with a name and arguments. -/
def ofName (name : String) (arguments : List Value) : Except Failure Failure := do
  let first := arguments.headD .null
  match name with
  | "CapabilityNotFoundError" => do
    (maker name ["target"] 0).check arguments
    return .notFound first.display
  | "UnknownCapabilityError" => do
    (maker name ["capability"] 2).check arguments
    ofUnbound first (arguments.getD 1 .null) (arguments.getD 2 .null)
  | "GuestSyntaxError" => do
    (maker name ["message"] 0).check arguments
    return .guestSyntax first.display
  | "GuestRuntimeError" => do
    (maker name ["message"] 1).check arguments
    return .guestRuntime first.display
  | "ExecutionTimeoutError" => do
    (maker name ["timeout_ms"] 0).check arguments
    ofTimeLimit first
  | "RuntimeNotFoundError" => do
    (maker name ["executable"] 0).check arguments
    return .noRuntime first.display
  | _ => return ofText name arguments

end Failure

end GuestCode
