import GuestCode.Json.Writer
import GuestCode.Rewrite.Edit
import GuestCode.Text.Split

/-!
# Rewriting file access

Calls of the synchronous `fs` primitives become errors that say what to call in their place, and
calls of the `filesystem` capability with positional arguments become calls with one object. A
snippet with such calls gets a first line that resolves relative paths as the host does.

* `Rewrite.replaceSyncCalls`: the errors for `fs` primitives
* `Rewrite.pathWrapper`, `Rewrite.rewritePositionalCalls`: the object form of `filesystem` calls
-/

namespace GuestCode.Rewrite

open Text Text.Pattern Grammar

/-! ## Synchronous primitives -/

/-- The call that reads a file. -/
def readHint : String := "await filesystem.readFile(\x7b path \x7d)"

/-- The call that writes a file. -/
def writeHint : String := "await filesystem.writeFile(\x7b path, content \x7d)"

/-- The call that looks for files. -/
def searchHint : String := "await filesystem.searchFiles(\x7b path, pattern \x7d)"

/-- The synchronous primitives, and what to call in their place. -/
def syncGuidance : List (String × String) :=
  [("readFileSync", readHint), ("writeFileSync", writeHint), ("appendFileSync", writeHint),
    ("existsSync", searchHint), ("statSync", searchHint), ("readdirSync", searchHint),
    ("mkdirSync", writeHint ++ " (parent directories are created automatically)"),
    ("unlinkSync", writeHint ++ " (deleting files is not supported)"),
    ("rmSync", writeHint ++ " (deleting files is not supported)")]

/-- The start of a call of a synchronous primitive, whose name is label 2. -/
def syncCall : Pattern :=
  all [freeNameEdge,
    anyOf [lit "fs", lit "fsSync",
      all [lit "require", blanks, lit "(", blanks, quote 1, opt (lit "node:"), lit "fs", .again 1,
        blanks, lit ")"]],
    blanks, lit ".", blanks, .capture 2 (words (syncGuidance.map Prod.fst)), blanks, lit "("]

/-- What the call of a primitive fails with. -/
def syncMessage (primitive : String) : String :=
  "fs." ++ primitive ++ " is not available in the sandbox. Use " ++
    ((syncGuidance.lookup primitive).getD "") ++ " instead."

/-- The start of a call that fails with the message for a primitive. -/
def syncFailure (primitive : String) : List Char :=
  ("(() => \x7b throw new Error(" ++ Json.quote true (syncMessage primitive) ++
    "); \x7d)(").toList

/-- Replaces calls of synchronous primitives by errors. -/
def replaceSyncCalls (codeOnly : Bool) (source : List Char) : List Char :=
  Rule.apply codeOnly ⟨syncCall, fun m => syncFailure (String.ofList (m.captured 2))⟩ source

/-! ## Positional calls -/

/-- The comment that marks the first line of a snippet whose calls have been rewritten. -/
def wrapperMark : String := "/* codemode:path-wrapper */"

/-- How that line starts. -/
def wrapperStart : String := "const filesystem = " ++ wrapperMark

/-- That line up to the projects root. It wraps the capability so that relative paths start from the
root. -/
def wrapperLead : String :=
  wrapperStart ++
    " ((fs, root) => \x7b " ++
    "const resolve = (p) => \x7b " ++
    "if (typeof p !== \"string\" || p.startsWith(\"/\") || /^[A-Za-z]:/.test(p)) " ++
    "\x7b return p; \x7d " ++
    "return root.replace(/\\/+$/, \"\") + \"/\" + p.replace(/^\\.\\//, \"\"); \x7d; " ++
    "const wrap = (name) => (args) => \x7b " ++
    "if (args && typeof args === \"object\") " ++
    "\x7b args = Object.assign(\x7b\x7d, args, \x7b path: resolve(args.path) \x7d); \x7d " ++
    "return fs[name](args); \x7d; " ++
    "return \x7b readFile: wrap(\"readFile\"), writeFile: wrap(\"writeFile\"), " ++
    "searchFiles: wrap(\"searchFiles\") \x7d; " ++
    "\x7d)(globalThis.filesystem, "

/-- The first line of a snippet whose calls have been rewritten, given the projects root as a
literal. -/
def pathWrapper (root : String) : String := wrapperLead ++ root ++ ");"

/-- The start of a call of a file method, which is label 1. -/
def fileCall : Pattern :=
  all [freeNameEdge, lit "filesystem", blanks, lit ".", blanks,
    .capture 1 (words ["readFile", "writeFile", "searchFiles"]), blanks, lit "("]

/-- The fields that the positional arguments of a file method stand for. -/
def positionalKeys (method : List Char) : List String :=
  if method == "readFile".toList then ["path"]
  else if method == "writeFile".toList then ["path", "content"]
  else ["path", "pattern", "recursive"]

/-- The object that positional arguments become, with the parenthesis that closes the call; empty
arguments have no field. -/
def objectArgument (keys : List String) (arguments : List (List Char)) : List Char :=
  let fields := (keys.zip arguments).filterMap fun (key, value) =>
    if value.isEmpty then none else some (key.toList ++ ": ".toList ++ value)
  "\x7b ".toList ++ joinWith ", ".toList fields ++ " \x7d)".toList

/-- Whether the arguments of a call are positional: there is a first one that is no object, and
none is spread. -/
def arePositional (arguments : List (List Char)) : Bool :=
  match arguments with
  | [] => false
  | first :: _ =>
    !first.isEmpty && first.head? != some '\x7b' &&
      !arguments.any fun argument => "...".toList.isPrefixOf argument

/-- The edit that gives a call its object form, if it is code and its arguments are positional. -/
def positionalEdit? (source : List Char) (regions : List Region) (code : List Placed)
    (call : Found) : Option Edit :=
  let parenthesis := call.stop - 1
  if isCodeAt regions parenthesis then
    match argumentSpans? source code parenthesis with
    | none => none
    | some arguments =>
      let texts := arguments.texts source
      if arePositional texts then
        some ⟨parenthesis + 1, arguments.close + 1,
          objectArgument (positionalKeys (call.captured 1)) texts⟩
      else none
  else none

/-- The edits for calls that start at place `start` or later; calls inside the arguments of a
rewritten call wait for the next pass. -/
def positionalEdits (source : List Char) (regions : List Region) (code : List Placed)
    (start : Nat) : List Found → List Edit
  | [] => []
  | call :: rest =>
    if call.start < start then positionalEdits source regions code start rest
    else
      match positionalEdit? source regions code call with
      | none => positionalEdits source regions code start rest
      | some edit => edit :: positionalEdits source regions code edit.stop rest

/-- Gives positional file calls their object form and puts the line first that wraps the capability,
unless it is there already. -/
def rewritePositionalCalls (root : String) (source : List Char) : List Char :=
  let calls := fileCall.findAll source
  if calls.isEmpty then source
  else
    match positionalEdits source (Region.ofSource source) (codeChars source) 0 calls with
    | [] => source
    | edits =>
      let rewritten := Edit.applyAll edits source
      if Text.occursIn wrapperMark.toList rewritten then rewritten
      else (pathWrapper root).toList ++ '\n' :: rewritten

end GuestCode.Rewrite
