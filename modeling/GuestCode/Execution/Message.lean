import GuestCode.Capability.Binding
import GuestCode.Json.Reader

/-!
# Messages between the host and a runner

The host and the runner write JSON objects to each other, one a line. The host sends the snippet
and answers calls; the runner sends what the snippet logs, its calls, and its result. What is no
message is passed over.

* `HostMessage`, `HostMessage.toValue`: what the host sends
* `RunnerMessage`, `RunnerMessage.ofOctets?`: what the runner sends
-/

namespace GuestCode

/-- The snippet as the body of an asynchronous function that is called at once. -/
def entryPoint (code : String) : String := "(async () => \x7b\n" ++ code ++ "\n\x7d)()"

/-- What the host sends. -/
inductive HostMessage where
  | start (code : String) (manifest : List (String × List String)) (globals : Value)
      (timeLimit : Value)
  | reply (id : Value) (answer : BindingTable.Answer)

/-- A message of the host as plain data. -/
def HostMessage.toValue : HostMessage → Value
  | start code manifest globals timeLimit =>
    Value.record
      [("type", .text "start"), ("code", .text (entryPoint code)),
        ("bindings",
          Value.record (manifest.map fun (name, methods) => (name, Value.texts methods))),
        ("globals", globals), ("timeoutMs", timeLimit)]
  | reply id (.result text) =>
    Value.record [("type", .text "reply"), ("id", id), ("result", .text text)]
  | reply id (.rejection text) =>
    Value.record [("type", .text "reply"), ("id", id), ("error", .text text)]

/-- A call of a capability. -/
structure CallRequest where
  id : Value
  capability : String
  method : String
  arguments : List Value
deriving Repr, Inhabited

/-- What a runner sends. -/
inductive RunnerMessage where
  | log (text : String)
  | call (c : CallRequest)
  | result (entries : List (Value × Value))
deriving Repr, Inhabited

namespace RunnerMessage

/-- The field of a message as text, empty if it is missing. -/
def textField (entries : List (Value × Value)) (name : String) : String :=
  ((Value.field? entries name).getD (.text "")).display

/-- The arguments of a call: a list, one value for itself, or none. -/
def argumentsOf (entries : List (Value × Value)) : List Value :=
  match Value.field entries "args" with
  | .list items => items
  | .null => []
  | v => [v]

/-- The message that the entries of an object make, if it is one. -/
def ofEntries? (entries : List (Value × Value)) : Option RunnerMessage :=
  match Value.field entries "type" with
  | .text "log" => some (.log (textField entries "text"))
  | .text "call" =>
    some (.call ⟨Value.field entries "id", textField entries "capability",
      textField entries "method", argumentsOf entries⟩)
  | .text "result" => some (.result entries)
  | _ => none

/-- The message on a line, if there is one. -/
def ofOctets? (octets : List UInt8) : Option RunnerMessage :=
  match Json.readOctets? octets with
  | some (.mapping entries) => ofEntries? entries
  | _ => none

end RunnerMessage

end GuestCode
