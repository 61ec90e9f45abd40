import GuestCode.Capability.Binding
import GuestCode.Diagnostics.Masking
import GuestCode.Snippet.Grammar

/-!
# The metadata capability

Classifies a source file by its path and by marks in its text: the frameworks it uses, the kind of
service it calls, how it handles errors.

* `Metadata.inferCategory`: the category that a path tells
* `Metadata.analyzeFile`, `Metadata.quickClassify`: the methods
* `Metadata.binding`: the capability
-/

namespace GuestCode.Metadata

open Text Text.Pattern Grammar

/-! ## Marks -/

/-- A module name in plain quotes after `from`; no quote need close it if `isOpen`. -/
def fromModule (name : String) (isOpen : Bool) : Pattern :=
  let start := all [lit "from", someBlanks, oneOf "'\"", lit name]
  if isOpen then start else .seq start (oneOf "'\"")

/-- The frameworks and their marks. -/
def frameworkMarks : List (String × Pattern) :=
  [("vue", .either (fromModule "vue" false)
      (words ["<template>", "defineComponent", "defineProps"])),
    ("nuxt3", words ["#app", "#imports", "useNuxtApp", "useFetch", "useAsyncData",
      "definePageMeta"]),
    ("pinia", .either (fromModule "pinia" false) (lit "defineStore")),
    ("react", .either (fromModule "react" false) (words ["useState(", "useEffect("])),
    ("vueuse", lit "@vueuse/"),
    ("lodash", fromModule "lodash" true)]

/-- The kinds of services and their marks; the first that has one counts. -/
def serviceMarks : List (String × Pattern) :=
  [("grpc", anyOf [words ["grpc", "connect-web"], .seq (lit "_pb") (oneOf "'\""),
      words ["createPromiseClient", "createClient("]]),
    ("openapi", .either (Masking.anyCase "openapi") (Masking.anyCase "swagger")),
    ("rest", anyOf [.seq wordEdge (lit "fetch("), words ["$fetch(", "axios", "useFetch("]])]

/-- Calls of composables; label 1 is the name. -/
def composableCall : Pattern :=
  all [wordEdge, .capture 1 (all [lit "use", .char Char.isUpper, nameChars]), blanks, lit "("]

/-- Tags of components; label 1 is the name. -/
def componentTag : Pattern :=
  all [lit "<",
    .capture 1 (.either (.seq (.char Char.isUpper) (star (.char isWordChar)))
      (all [plus (.char Char.isLower), lit "-", plus (wordCharOr "-")])),
    .char fun c => isBlank c || c == '/' || c == '>']

/-- Blocks whose errors are caught. -/
def tryBlock : Pattern := all [wordEdge, lit "try", blanks, lit "\x7b"]

/-- Places that catch errors. -/
def catchClause : Pattern :=
  .either (lit ".catch(") (all [wordEdge, lit "catch", blanks, lit "("])

/-- Places that tell a type. -/
def typeHint : Pattern :=
  let name := plus (.char isWordChar)
  anyOf [all [wordEdge, lit "interface", someBlanks, name],
    all [wordEdge, lit "type", someBlanks, name, blanks, lit "="],
    all [lit ":", blanks, words ["string", "number", "boolean"], wordEdge]]

/-! ## Classification -/

/-- Whether a text ends with another. -/
def endsWith (text ending : List Char) : Bool := ending.isSuffixOf text

/-- Whether a file name is that of a composable: `use` and a letter. -/
def isComposableName : List Char → Bool
  | 'u' :: 's' :: 'e' :: c :: _ => c.isLower
  | _ => false

/-- The category that a path tells. -/
def inferCategory (filePath : String) : String :=
  let path := lower (filePath.toList.map fun c => if c == '\\' then '/' else c)
  let name := (path.reverse.takeWhile (· != '/')).reverse
  let holds (part : String) := Text.occursIn part.toList path
  if holds "/pages/" || "pages/".toList.isPrefixOf path then "page"
  else if endsWith path ".vue".toList || endsWith path ".tsx".toList || holds "/components/" then
    "component"
  else if holds "/composables/" || isComposableName name then "composable"
  else if holds "/api/" || holds "/services/" || Text.occursIn "client".toList name then "api"
  else if holds "/utils/" || holds "/helpers/" then "utility"
  else "other"

/-- The kind of service that a text calls. -/
def serviceKind (text : List Char) : String :=
  ((serviceMarks.find? fun mark => mark.2.occursIn text).map Prod.fst).getD "none"

/-- The number of lines of a text. -/
def lineCount (text : List Char) : Nat :=
  if text.isEmpty then 0 else text.count '\n' + 1

/-- The complexity that a number of lines tells. -/
def complexity (lines : Nat) : String :=
  if lines < 100 then "low" else if lines < 300 then "medium" else "high"

/-- A grade for a count: none, below a bound, or at it and above. -/
def grade (none some many : String) (bound count : Nat) : String :=
  if count = 0 then none else if count < bound then some else many

/-- The captured names of all matches, in order and each once. -/
def distinctNames (pattern : Pattern) (text : List Char) : Value :=
  let names := (pattern.findAll text).map fun m => String.ofList (m.captured 1)
  Value.texts ((distinct names).mergeSort fun a b => decide (a ≤ b))

/-! ## Methods -/

/-- The path and the text that the parameters of a method give: in one object, or each by
itself. -/
def parameters (first second : Value) (method : String) : Except Failure (String × List Char) :=
  match first with
  | .text path => .ok (path, (if second.isTruthy then second.display else "").toList)
  | .mapping entries =>
    let named := Value.field entries "filePath"
    let path := if named.isTruthy then named else Value.field entries "path"
    match Value.field entries "content" with
    | .text content =>
      .ok (if path.isTruthy then path.display else "", content.toList)
    | _ =>
      .error (.capability ("metadata." ++ method ++ " requires 'content' to be a string"))
  | _ =>
    .error (.capability
      ("metadata." ++ method ++ " expects \x7b filePath, content \x7d"))

/-- A quick classification of a file. -/
def quickClassify (first second : Value) : Action Value := do
  let (path, text) ← Action.ofExcept (parameters first second "quickClassify")
  let lines := lineCount text
  let callsService := serviceKind text != "none"
  let hasComponents := componentTag.occursIn text
  return Value.record
    [("category", .text (inferCategory path)),
      ("hasAPI", .bool callsService),
      ("hasComponents", .bool hasComponents),
      ("worthDeepAnalysis", .bool (callsService || hasComponents || 50 < lines)),
      ("estimatedComplexity", .text (complexity lines))]

/-- A full classification of a file. -/
def analyzeFile (first second : Value) : Action Value := do
  let (path, text) ← Action.ofExcept (parameters first second "analyzeFile")
  let lines := lineCount text
  let category := inferCategory path
  let frameworks := (frameworkMarks.filter fun mark => mark.2.occursIn text).map Prod.fst
  let handled := (tryBlock.findAll text).length + (catchClause.findAll text).length
  let hints := (typeHint.findAll text).length
  let fields :=
    [("filePath", Value.text path),
      ("category", .text category),
      ("frameworks", Value.texts frameworks),
      ("apiType", .text (serviceKind text)),
      ("composablesUsed", distinctNames composableCall text),
      ("complexity", .text (complexity lines)),
      ("errorHandling", .text (grade "none" "basic" "good" 3 handled)),
      ("typeDefinitions", .text (grade "poor" "basic" "good" 5 hints)),
      ("hasDocumentation", .bool (Text.occursIn "/**".toList text)),
      ("linesOfCode", .int lines)]
  let components :=
    if category == "component" then [("componentsUsed", distinctNames componentTag text)] else []
  return Value.record (fields ++ components)

/-- Tells that the capability is there. -/
def healthCheck : Action Value :=
  return Value.record [("ok", .bool true), ("analyzer", .text "heuristic")]

/-! ## The capability -/

/-- The owner of the methods in reports. -/
def owner : String := "HeuristicMetadataAnalyzer."

/-- The metadata capability. -/
def binding : Binding :=
  { name := "metadata"
    methods :=
      [("analyzeFile", Signature.method ⟨owner ++ "analyze_file", ["params"], 1⟩ analyzeFile),
        ("quickClassify",
          Signature.method ⟨owner ++ "quick_classify", ["params"], 1⟩ quickClassify),
        ("healthCheck", Signature.method ⟨owner ++ "health_check", [], 0⟩ fun _ _ => healthCheck)] }

end GuestCode.Metadata
