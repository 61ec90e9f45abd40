import GuestCode.Data.Coercion
import GuestCode.Machine
import GuestCode.Text.Case

/-!
# Configurations

What can be set about the sandbox, its capabilities and its diagnostics. Settings come as plain
data, and most are kept as they come until they are used; only the time limit and the list of
environment variables are checked at once. The environment has the last word.

* `Configuration`: the type
* `Configuration.ofData`: the configuration that plain data state
* `Configuration.withEnvironment`: what the environment changes
* `Configuration.toValue`: a configuration as plain data
-/

namespace GuestCode

/-- Settings of executions. -/
structure SandboxSettings where
  program : Value
  timeLimit : Int
  projectsRoot : Value
  /-- The environment variables that snippets may see. -/
  passedVariables : List Value
  maxLogLines : Value
  maxOutputChars : Value
  codeOnly : Value
deriving Repr, Inhabited

/-- Where the capabilities find their files. -/
structure CapabilitySettings where
  caseFolder : Value
  guideFolder : Value
  hostPath : Value
deriving Repr, Inhabited

/-- Settings of diagnostics. -/
structure DiagnosticSettings where
  level : Value
  masked : Value
  maxPreview : Value
deriving Repr, Inhabited

/-- A configuration. -/
structure Configuration where
  name : String
  sandbox : SandboxSettings
  capabilities : CapabilitySettings
  diagnostics : DiagnosticSettings
deriving Repr, Inhabited

namespace Configuration

/-- The settings where nothing is said. -/
def standard : Configuration :=
  { name := "codemode"
    sandbox :=
      { program := .text "node"
        timeLimit := 30000
        projectsRoot := .text "/projects"
        passedVariables := []
        maxLogLines := .int 1000
        maxOutputChars := .int 100000
        codeOnly := .bool false }
    capabilities :=
      { caseFolder := .text ".codemode/bestcases"
        guideFolder := .text ".codemode/guides"
        hostPath := .null }
    diagnostics :=
      { level := .text "INFO"
        masked := .bool false
        maxPreview := .int 200 } }

/-! ## Plain data -/

/-- The entries of a section, which may be missing. -/
def sectionEntries (name : String) (v : Value) : Except Failure (List (Value × Value)) :=
  match v.unfolded with
  | .null => .ok []
  | .mapping entries => .ok entries
  | v =>
    .error (.configuration
      ("Section for " ++ name ++ " must be a mapping, got " ++ v.shortKindName))

/-- The value of a setting, or the standard one. -/
def settingOr (entries : List (Value × Value)) (name : String) (standard : Value) : Value :=
  (Value.field? entries name).getD standard

/-- The whole number that a value states, 0 if it is no number. -/
def statedNumber (v : Value) : Except Failure Int :=
  match v.wholeNumber with
  | .ok n => .ok n
  | .error (.mismatch .wrongKind _) => .ok 0
  | .error failure => if failure.concernsValue then .ok 0 else .error failure

/-- The time limit that a value states, which must be a positive number. -/
def timeLimitOf (v : Value) : Except Failure Int := do
  let limit ← statedNumber v
  if 0 < limit then return limit
  else
    .error (.configuration "sandbox.default_timeout_ms must be a positive integer")

/-- The list of variables that a value states; what is no list is the name of one. -/
def variablesOf (v : Value) : Except Failure (List Value) :=
  match v.unfolded with
  | .list items => .ok items
  | _ => v.shown.map fun name => [.text name]

/-- The name that a value states, the standard one if it counts as false. -/
def nameOf (v : Value) : Except Failure String :=
  if v.isTruthy then v.shown else .ok standard.name

/-- The configuration that sections state, with a name, a time limit and variables. -/
def ofSections (name : String) (timeLimit : Int) (passedVariables : List Value)
    (sandbox capabilities diagnostics : List (Value × Value)) : Configuration :=
  { name := name
    sandbox :=
      { program := settingOr sandbox "node_executable" standard.sandbox.program
        timeLimit := timeLimit
        projectsRoot := settingOr sandbox "projects_root" standard.sandbox.projectsRoot
        passedVariables := passedVariables
        maxLogLines := settingOr sandbox "max_log_lines" standard.sandbox.maxLogLines
        maxOutputChars := settingOr sandbox "max_output_chars" standard.sandbox.maxOutputChars
        codeOnly := settingOr sandbox "region_aware_rewrites" standard.sandbox.codeOnly }
    capabilities :=
      { caseFolder := settingOr capabilities "bestcase_dir" standard.capabilities.caseFolder
        guideFolder := settingOr capabilities "guides_dir" standard.capabilities.guideFolder
        hostPath := settingOr capabilities "host_projects_path" standard.capabilities.hostPath }
    diagnostics :=
      { level := settingOr diagnostics "level" standard.diagnostics.level
        masked := settingOr diagnostics "mask_sensitive_data" standard.diagnostics.masked
        maxPreview := settingOr diagnostics "max_preview_length"
          standard.diagnostics.maxPreview } }

/-- The configuration that plain data state, before the environment has its say. -/
def ofEntries (entries : List (Value × Value)) : Except Failure Configuration := do
  let sandbox ← sectionEntries "SandboxConfig" (Value.field entries "sandbox")
  let capabilities ← sectionEntries "CapabilityConfig" (Value.field entries "capabilities")
  let diagnostics ← sectionEntries "LoggingConfig" (Value.field entries "logging")
  let passedVariables ← variablesOf (settingOr sandbox "env_allowlist" (.list []))
  let timeLimit ←
    timeLimitOf (settingOr sandbox "default_timeout_ms" (.int standard.sandbox.timeLimit))
  let name ← nameOf (Value.field entries "name")
  return ofSections name timeLimit passedVariables sandbox capabilities diagnostics

/-! ## The environment -/

/-- The text value of an environment variable, unless it is empty. -/
def override (environment : List (String × String)) (name : String) (setting : Value) : Value :=
  match environment.lookup name with
  | some text => if text.isEmpty then setting else .text text
  | none => setting

/-- The length of previews that the environment states. -/
def previewOverride (environment : List (String × String)) (setting : Value) :
    Except Failure Value :=
  match environment.lookup "MAX_LOG_PREVIEW_LENGTH" with
  | none => .ok setting
  | some text =>
    if text.isEmpty then .ok setting
    else
      match Text.Numeral.read 10 text.toList with
      | .ok n => .ok (.int n)
      | .error _ =>
        .error (.configuration
          ("MAX_LOG_PREVIEW_LENGTH must be an integer, got " ++ quotedString text))

/-- Whether the environment asks for masking. -/
def wantsMask (environment : List (String × String)) : Bool :=
  lowerString ((environment.lookup "MASK_SENSITIVE_LOGS").getD "") == "true"

/-- A configuration with what the environment changes, given the length of previews. -/
def overridden (environment : List (String × String)) (maxPreview : Value) (c : Configuration) :
    Configuration :=
  { c with
    sandbox := { c.sandbox with
      projectsRoot := override environment "PROJECTS_PATH" c.sandbox.projectsRoot
      program := override environment "CODEMODE_NODE" c.sandbox.program }
    capabilities := { c.capabilities with
      hostPath := override environment "HOST_PROJECTS_PATH" c.capabilities.hostPath }
    diagnostics := { c.diagnostics with
      masked := if wantsMask environment then .bool true else c.diagnostics.masked
      maxPreview := maxPreview } }

/-- A configuration with what the environment changes. -/
def withEnvironment (environment : List (String × String)) (c : Configuration) :
    Except Failure Configuration := do
  let maxPreview ← previewOverride environment c.diagnostics.maxPreview
  return c.overridden environment maxPreview

/-- The configuration that plain data state in an environment. -/
def ofData (environment : List (String × String)) (data : Value) :
    Except Failure Configuration := do
  let entries ← data.entries
  (← ofEntries entries).withEnvironment environment

/-- The standard configuration in an environment. -/
def inEnvironment (environment : List (String × String)) : Except Failure Configuration :=
  standard.withEnvironment environment

/-! ## As plain data -/

/-- A configuration as plain data. -/
def toValue (c : Configuration) : Value :=
  Value.record
    [("name", .text c.name),
      ("sandbox", Value.record
        [("node_executable", c.sandbox.program),
          ("default_timeout_ms", .int c.sandbox.timeLimit),
          ("projects_root", c.sandbox.projectsRoot),
          ("env_allowlist", .list c.sandbox.passedVariables),
          ("max_log_lines", c.sandbox.maxLogLines),
          ("max_output_chars", c.sandbox.maxOutputChars),
          ("region_aware_rewrites", c.sandbox.codeOnly)]),
      ("capabilities", Value.record
        [("bestcase_dir", c.capabilities.caseFolder),
          ("guides_dir", c.capabilities.guideFolder),
          ("host_projects_path", c.capabilities.hostPath)]),
      ("logging", Value.record
        [("level", c.diagnostics.level),
          ("mask_sensitive_data", c.diagnostics.masked),
          ("max_preview_length", c.diagnostics.maxPreview)])]

end Configuration

end GuestCode
