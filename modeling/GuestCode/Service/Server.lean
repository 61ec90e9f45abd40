import GuestCode.Execution.Engine
import GuestCode.Service.Tool

/-!
# The service

Serves clients that write requests, one JSON object a line, and read answers. A request has a
method and may have an id; only requests with an id are answered. Lines that are no requests are
passed over.

* `Server`: a server with its engine
* `Server.answer?`: the answer to a request
* `Server.run`: serving all lines of the input
-/

namespace GuestCode

/-- A server: what it calls itself, how it is reached, and what executes the snippets. -/
structure Server where
  name : Value
  version : Value
  transport : Value
  engine : Engine

namespace Server

/-- The version of the protocol. -/
def protocolVersion : String := "2024-11-05"

/-- The number of the fault that a method is not known. -/
def unknownMethod : Int := -32601

/-- The number of the fault that a method has failed. -/
def failedMethod : Int := -32603

/-! ## Methods -/

/-- What a client is told first. -/
def greeting (s : Server) : Value :=
  Value.record
    [("protocolVersion", .text protocolVersion),
      ("capabilities", Value.record [("tools", Value.record [])]),
      ("serverInfo", Value.record [("name", s.name), ("version", s.version)])]

/-- The tools that a client can call. -/
def toolList (s : Server) : Value :=
  Value.record
    [("tools", Tool.descriptions (.int s.engine.configuration.sandbox.timeLimit))]

/-- A value, or an empty mapping in the stead of one that counts as false. -/
def orEmpty (v : Value) : Value := if v.isTruthy then v else .mapping []

/-- Calls a tool. -/
def callTool (s : Server) (parameters : Value) : Action Value := do
  let entries ← Action.ofExcept parameters.entries
  let tool := (Value.field? entries "name").getD (.text "")
  let arguments := orEmpty (Value.field entries "arguments")
  if !tool.same (.text Tool.executeName) then
    let reason := "Tool not found: " ++ tool.display ++ ". Only '" ++ Tool.executeName ++
      "' tool is available."
    Action.ofExcept (ToolOutcome.toValue ⟨false, .null, .text reason⟩)
  else
    let fields ← Action.ofExcept arguments.entries
    let code := (Value.field? fields "code").getD (.text "")
    let result ← s.engine.execute code (Value.field fields "timeoutMs")
      (Value.field fields "context")
    Action.ofExcept (ToolOutcome.toValue ⟨result.isOk, result.toValue, .null⟩)

/-- The methods of the service. -/
inductive ServiceMethod where
  | greet
  | listTools
  | callTool
deriving Repr, DecidableEq, Inhabited

/-- The method with a name. -/
def methodOf? : Value → Option ServiceMethod
  | .text "initialize" => some .greet
  | .text "tools/list" => some .listTools
  | .text "tools/call" => some .callTool
  | _ => none

/-- Performs a method. -/
def perform (s : Server) (parameters : Value) : ServiceMethod → Action Value
  | .greet => return s.greeting
  | .listTools => return s.toolList
  | .callTool => s.callTool parameters

/-! ## Requests -/

/-- An answer to the request with an id. -/
def envelope (id : Value) (name : String) (content : Value) : Value :=
  Value.record [("jsonrpc", .text "2.0"), ("id", id), (name, content)]

/-- An answer that tells a fault. -/
def faultAnswer (id : Value) (code : Int) (message : String) : Value :=
  envelope id "error" (Value.record [("code", .int code), ("message", .text message)])

/-- The answer to a request, none if it has no id. The name of a method must be a value that can be
looked up. -/
def answer? (s : Server) (request : List (Value × Value)) : Action (Option Value) := do
  let name := (Value.field? request "method").getD (.text "")
  let parameters := orEmpty (Value.field request "params")
  let id := Value.field request "id"
  let addressed (answer : Value) : Option Value :=
    match id with
    | .null => none
    | _ => some answer
  Action.ofExcept name.requireHashable
  match methodOf? name with
  | none => return addressed (faultAnswer id unknownMethod ("Method not found: " ++ name.display))
  | some method =>
    match ← Action.attempt (s.perform parameters method) with
    | .ok result => return addressed (envelope id "result" result)
    | .error failure => return addressed (faultAnswer id failedMethod failure.message)

/-- The request on a line, none if there is none. -/
def requestOf (line : List UInt8) : Except Failure (Option (List (Value × Value))) :=
  match Utf8.decode line with
  | .error _ => .ok none
  | .ok text =>
    match Json.read text with
    | .ok (.mapping entries) => .ok (some entries)
    | .ok _ => .ok none
    | .error e =>
      match Failure.ofReadError text e with
      | .mismatch .malformed _ => .ok none
      | failure => .error failure

/-- Serves a line. -/
def serveLine (s : Server) (line : List UInt8) : Action Unit := do
  match ← Action.ofExcept (requestOf line) with
  | none => return
  | some request =>
    match ← s.answer? request with
    | none => return
    | some answer =>
      match Json.write .line answer with
      | .ok text => Action.write (text ++ "\n")
      | .error e => Action.fail (.mismatch .wrongKind e.message)

/-- The lines of an input; the last one may have no line end. -/
def inputLines (input : List UInt8) : List (List UInt8) :=
  match input with
  | [] => []
  | b :: rest =>
    if b = 10 then [b] :: inputLines rest
    else
      match inputLines rest with
      | [] => [[b]]
      | line :: others => (b :: line) :: others

/-- Serves lines. -/
def serveLines (s : Server) : List (List UInt8) → Action Unit
  | [] => return
  | line :: rest => do
    s.serveLine line
    serveLines s rest

/-- Serves all lines of the input. Only one way of reaching the server is offered. -/
def run (s : Server) : Action Unit := do
  if s.transport.same (.text "stdio") then s.serveLines (inputLines (← get).input)
  else
    Action.fail (.mismatch .notOffered ("Transport not implemented: " ++ s.transport.display))

end Server

end GuestCode
