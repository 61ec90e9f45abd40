import GuestCode.Data.Signature
import GuestCode.Json.Writer

/-!
# Tools

What a client of the service can call: one tool, which executes a snippet. Tools are described by
their parameters, and the outcome of a call is told as text.

* `Tool`, `Tool.toValue`: tools and their descriptions
* `Tool.execute`: the tool that executes a snippet
* `ToolOutcome`, `ToolOutcome.toValue`: the outcome of a call
-/

namespace GuestCode

/-- A parameter of a tool. -/
structure ToolParameter where
  name : String
  description : String
  kind : String
  isRequired : Bool
  /-- The value where none is given, null if there is no such value. -/
  fallback : Value
deriving Repr, Inhabited

/-- A tool. -/
structure Tool where
  name : String
  description : String
  parameters : List ToolParameter
deriving Repr, Inhabited

namespace ToolParameter

/-- The description of a parameter. -/
def toValue (p : ToolParameter) : Value :=
  let fields := [("type", .text p.kind), ("description", .text p.description)]
  match p.fallback with
  | .null => Value.record fields
  | v => Value.record (fields ++ [("default", v)])

end ToolParameter

namespace Tool

/-- The description of a tool. Of parameters with one name the last one counts. -/
def toValue (t : Tool) : Value :=
  let properties := t.parameters.foldl
    (fun entries p => Value.insert (.text p.name) p.toValue entries) []
  let required := (t.parameters.filter ToolParameter.isRequired).map ToolParameter.name
  Value.record
    [("name", .text t.name), ("description", .text t.description),
      ("inputSchema", Value.record
        [("type", .text "object"), ("properties", .mapping properties),
          ("required", Value.texts required)])]

/-- The name of the tool that executes a snippet. -/
def executeName : String := "execute"

/-- What the tool that executes a snippet says about itself. -/
def executeDescription : String :=
  "Execute a JavaScript/TypeScript snippet in a sandbox. The snippet runs " ++
    "as the body of an async function: use \x60return\x60 for the result and " ++
    "\x60await\x60 capability calls such as \x60filesystem.readFile(\x7b path \x7d)\x60, " ++
    "\x60bestcase.searchBestCases(\x7b keywords \x7d)\x60, " ++
    "\x60guides.searchGuides(\x7b keywords \x7d)\x60 " ++
    "and \x60metadata.analyzeFile(\x7b filePath, content \x7d)\x60. " ++
    "import/export statements are removed; \x60context\x60 holds the optional " ++
    "context argument."

/-- The tool that executes a snippet, with a time limit where none is given. -/
def execute (timeLimit : Value) : Tool :=
  { name := executeName
    description := executeDescription
    parameters :=
      [⟨"code", "Snippet to execute", "string", true, .null⟩,
        ⟨"timeoutMs", "Timeout in milliseconds", "integer", false, timeLimit⟩,
        ⟨"context", "JSON value exposed to the snippet as the read-only global \x60context\x60",
          "object", false, .null⟩] }

/-- The descriptions of all tools. -/
def descriptions (timeLimit : Value) : Value := .list [(execute timeLimit).toValue]

/-- The descriptions of all tools, asked for with the time limit if one is given. -/
def described (arguments : List Value) : Except Failure Value := do
  Signature.check ⟨"CodeModeTools.to_mcp_tools", [], 1⟩ arguments
  return descriptions (arguments.headD (.int 30000))

end Tool

/-- The outcome of a call of a tool: what it yields, null if nothing, and else why. -/
structure ToolOutcome where
  isSuccess : Bool
  content : Value
  reason : Value
deriving Repr, Inhabited

namespace ToolOutcome

/-- The text of an outcome. A reason stands for itself, whatever it is. -/
def text (o : ToolOutcome) : Except Failure Value :=
  let layOut (v : Value) : Except Failure Value :=
    match Json.write .indented v with
    | .ok text => .ok (.text text)
    | .error e => .error (.mismatch .wrongKind e.message)
  match o.content with
  | .null => .ok (if o.reason.isTruthy then o.reason else .text "Unknown error")
  | .list items => layOut (.list items)
  | .mapping entries => layOut (.mapping entries)
  | v => .ok (.text v.display)

/-- An outcome as a client sees it. -/
def toValue (o : ToolOutcome) : Except Failure Value := do
  let text ← o.text
  let content := Value.list [Value.record [("type", .text "text"), ("text", text)]]
  return Value.record
    (("content", content) :: if o.isSuccess then [] else [("isError", .bool true)])

end ToolOutcome

end GuestCode
