import GuestCode.Data.Coercion

/-!
# Results of executions

What has come of an execution: an output, or an error of one of four kinds, and in either case the
lines that were logged. Results that are made elsewhere may hold values of any kind in the stead of
texts.

* `FailureKind`, `ExecutionResult`: the types
* `ExecutionResult.toValue`: a result as it is handed out
* `ExecutionResult.failure?`: a failed result as a failure
-/

namespace GuestCode

/-- Why an execution fails: the snippet cannot be parsed, it throws, it takes too long, or the host
cannot run it. -/
inductive FailureKind where
  | parse
  | runtime
  | timeout
  | host
deriving Repr, DecidableEq, Inhabited

/-- The name of a kind of failure. -/
def FailureKind.name : FailureKind → String
  | parse => "syntax"
  | runtime => "runtime"
  | timeout => "timeout"
  | host => "host"

/-- The kind of failure that a value names. -/
def FailureKind.ofValue (v : Value) : Except Failure FailureKind :=
  match [parse, runtime, timeout, host].find? fun kind => v.same (.text kind.name) with
  | some kind => .ok kind
  | none => .error (.mismatch .wrongValue (v.literal ++ " is not a valid FailureKind"))

/-- What an execution ends in: an output, or an error with the name that the snippet gave it. -/
inductive Ending where
  | output (value : Value)
  | error (kind : FailureKind) (message name : Value)
deriving Repr, Inhabited

/-- The result of an execution. -/
structure ExecutionResult where
  ending : Ending
  logs : List Value
deriving Repr, Inhabited

namespace ExecutionResult

/-- A successful result. -/
def success (output : Value) (logs : List String) : ExecutionResult :=
  ⟨.output output, logs.map .text⟩

/-- A failed result. -/
def failed (kind : FailureKind) (message : String) (logs : List String) : ExecutionResult :=
  ⟨.error kind (.text message) .null, logs.map .text⟩

/-- A result with an ending and the logs that a value holds, none if it counts as false. -/
def withLogs (ending : Ending) (logs : Value) : Except Failure ExecutionResult :=
  logs.membersOrNone.map fun logs => ⟨ending, logs⟩

/-- Whether a result is successful. -/
def isOk (r : ExecutionResult) : Bool :=
  match r.ending with
  | .output _ => true
  | .error .. => false

/-- A result as it is handed out. -/
def toValue (r : ExecutionResult) : Value :=
  match r.ending with
  | .output value =>
    Value.record [("ok", .bool true), ("output", value), ("logs", .list r.logs)]
  | .error _ message _ =>
    Value.record [("ok", .bool false), ("logs", .list r.logs), ("error", message)]

/-- A failed result as a failure. -/
def failure? (r : ExecutionResult) : Option Failure :=
  match r.ending with
  | .output _ => none
  | .error kind message _ =>
    let message := if message.isTruthy then message.display else "Unknown error"
    match kind with
    | .parse => some (.guestSyntax message)
    | .runtime => some (.guestRuntime message)
    | _ => some (.execution message)

end ExecutionResult

end GuestCode
