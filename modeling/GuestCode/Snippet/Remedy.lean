import GuestCode.Snippet.Dialect
import GuestCode.Snippet.Names

/-!
# Remedies for failed snippets

Looks at a snippet that has failed, together with the error it failed with, and finds what its
author should write in its place. Several rules may apply; the last one that does decides. Every
remedy quotes the error.

* `Manifest`: the methods of the capabilities that a snippet can call
* `Remedy.rules`: the rules, in their order
* `Remedy.explain`: the message for a failed snippet
-/

namespace GuestCode

open Text Text.Pattern Grammar

/-- The names of the bound capabilities with the names of their methods. -/
abbrev Manifest := List (String × List String)

namespace Remedy

/-! ## Shapes of calls -/

/-- The argument of each method of the capabilities. -/
def callShapes : List (String × List (String × String)) :=
  [ ("filesystem", [("readFile", "\x7b path \x7d"),
      ("writeFile", "\x7b path, content \x7d"),
      ("searchFiles", "\x7b path, pattern, recursive \x7d")]),
    ("bestcase", [("saveBestCase", "\x7b projectName, category, description, files, tags \x7d"),
      ("loadBestCase", "\x7b id \x7d"),
      ("listBestCases", ""),
      ("searchBestCases", "\x7b keywords, category, minTotalScore \x7d")]),
    ("guides", [("searchGuides", "\x7b keywords \x7d"),
      ("loadGuide", "\x7b id \x7d"),
      ("combineGuides", "\x7b ids \x7d")]),
    ("metadata", [("analyzeFile", "\x7b filePath, content \x7d"),
      ("quickClassify", "\x7b filePath, content \x7d"),
      ("healthCheck", "")]) ]

/-- The methods that snippets can call where nothing else is said. -/
def defaultManifest : Manifest :=
  callShapes.map fun (name, methods) => (name, methods.map Prod.fst)

/-- How a method is called. -/
def callShape (capability method : String) : String :=
  let shape := ((callShapes.lookup capability).bind fun methods => methods.lookup method).getD
    "\x7b ... \x7d"
  "await " ++ capability ++ "." ++ method ++ "(" ++ shape ++ ")"

/-! ## Rules -/

/-- A remedy with code before and after it. -/
def remedy (cause error before after : String) : String :=
  cause ++ "\nError: " ++ error ++ "\n\nBefore:\n  " ++ before ++ "\nAfter:\n  " ++ after

/-- What a failed snippet is judged by: the methods it can call, the error, and its text. -/
structure Case where
  manifest : Manifest
  error : String
  source : List Char
deriving Repr, DecidableEq, Inhabited

namespace Case

/-- The calls of the snippet on bound capabilities. -/
def calls (c : Case) : List CapabilityCall :=
  capabilityCalls c.source (c.manifest.map fun entry => entry.1.toList)

/-- The methods of the capability that a call is made on. -/
def methodsOf (c : Case) (call : CapabilityCall) : List String :=
  (c.manifest.lookup (String.ofList call.capability)).getD []

/-- Whether a call is made on a method that its capability has. -/
def knows (c : Case) (call : CapabilityCall) : Bool :=
  (c.methodsOf call).contains (String.ofList call.method)

end Case

/-- Errors of module syntax. -/
def unexpectedToken : Pattern :=
  words ["Unexpected token", "Cannot use import statement", "Unexpected reserved word"]

/-- Errors of markup. -/
def markupError : Pattern :=
  words ["Unexpected token '<'", "Unexpected token <", "Unexpected identifier",
    "Invalid or unexpected token"]

/-- Errors of a name that is not defined; the name is label 1. -/
def notDefined : Pattern := .seq (.capture 1 identifier) (lit " is not defined")

/-- Whether module syntax is to blame: the snippet has some and could not be parsed, or an imported
name is missing. -/
def blamesModules (c : Case) : Bool :=
  (unexpectedToken.occursIn c.error.toList && Dialect.hasModuleSyntax c.source) ||
    match notDefined.matchAt? (.ofText c.error.toList) with
    | none => false
    | some m => (importedNames c.source).contains (m.captured 1)

/-- The remedy for module syntax. -/
def moduleSyntax? (c : Case) : Option String :=
  if blamesModules c then
    some (remedy
      ("Module syntax (import/export) is not supported in the sandbox: " ++
        "capabilities are already in scope and the last value must be returned.")
      c.error
      "import \x7b x \x7d from 'module'; export default x;"
      ("const \x7b content \x7d = await filesystem.readFile(\x7b path: 'src/x.js' \x7d); " ++
        "return content;"))
  else none

/-- The remedy for markup. -/
def markup? (c : Case) : Option String :=
  if markupError.occursIn c.error.toList && Dialect.hasMarkup c.source then
    some (remedy
      "Markup (JSX/HTML/Vue template) cannot appear as code; wrap it in a string."
      c.error
      "const page = <template><div>Hello</div></template>;"
      "const page = `<template><div>Hello</div></template>`;")
  else none

/-- The remedy for type syntax. -/
def typeSyntax? (c : Case) : Option String :=
  if Dialect.hasTypeSyntax c.source then
    some (remedy
      ("TypeScript type syntax is not supported; the sandbox runs plain JavaScript " ++
        "(type text inside strings is fine).")
      c.error
      ("interface Props \x7b id: number \x7d" ++
        "\n  const load = async (id: number): Promise<Props> => \x7b ... \x7d")
      "const load = async (id) => \x7b ... \x7d")
  else none

/-- The remedy for a method that its capability does not have: the first one counts. -/
def unknownMethod? (c : Case) : Option String :=
  (c.calls.find? fun call => !c.knows call).map fun call =>
    let capability := String.ofList call.capability
    let methods := c.methodsOf call
    let shapes := methods.map (callShape capability)
    capability ++ "." ++ String.ofList call.method ++
      " is not a sandbox capability method. Available " ++ capability ++ " methods: " ++
      ", ".intercalate methods ++ "\nError: " ++ c.error ++ "\n\nCall shapes:\n  " ++
      "\n  ".intercalate shapes

/-- The remedy for positional arguments: the first call that has some counts. -/
def positionalCall? (c : Case) : Option String :=
  (c.calls.find? fun call => c.knows call && call.firstIsObject == some false).map fun call =>
    let capability := String.ofList call.capability
    let method := String.ofList call.method
    remedy
      (capability ++ "." ++ method ++
        " takes a single object parameter, not positional arguments.")
      c.error
      ("await " ++ capability ++ "." ++ method ++ "('value')")
      (callShape capability method)

/-- The rules, in their order. -/
def rules : List (Case → Option String) :=
  [moduleSyntax?, markup?, typeSyntax?, unknownMethod?, positionalCall?]

/-- The message for a failed snippet: that of the last rule that applies, or the error itself. -/
def explain (manifest : Manifest) (error : String) (source : List Char) : String :=
  rules.foldl (fun message rule => (rule ⟨manifest, error, source⟩).getD message) error

end Remedy

end GuestCode
