import GuestCode.Capability.Binding
import GuestCode.Data.Coercion
import GuestCode.Data.Order
import GuestCode.Text.Case

/-!
# The store of best cases

Best cases are examples worth keeping: one JSON document each, in a file of the store's folder that
is named after the document's id. Files that are no JSON are passed over.

* `BestCases.save`, `BestCases.load`, `BestCases.listAll`, `BestCases.search`: the methods
* `BestCases.makeId`, `BestCases.pathFor`: ids, and the files they name
* `BestCases.binding`: the capability
-/

namespace GuestCode.BestCases

/-! ## Ids and files -/

/-- Characters of ids. -/
def isIdChar (c : Char) : Bool := Text.isWordChar c || c == '.' || c == '-'

/-- A text with one hyphen for each run of characters that no id has. -/
def hyphenate (inRun : Bool) : List Char → List Char
  | [] => []
  | c :: rest =>
    if isIdChar c then c :: hyphenate false rest
    else if inRun then hyphenate true rest
    else '-' :: hyphenate true rest

/-- The id of a case saved at a time, in milliseconds. -/
def makeId (project category : String) (clock : Int) : String :=
  String.ofList (hyphenate false project.toList) ++ "-" ++
    String.ofList (hyphenate false category.toList) ++ "-" ++ toString clock

/-- Whether a text is an id: characters of ids only, and no name of a folder. A line end after the
last of them does no harm. -/
def isId (s : String) : Bool :=
  let body :=
    match s.toList.reverse with
    | '\n' :: rest => rest.reverse
    | _ => s.toList
  !body.isEmpty && body.all isIdChar && s != "." && s != ".."

/-- The file that an id names in a folder. -/
def pathFor (folder : Path) (id : String) : Except Failure Path :=
  if isId id then .ok (folder.join (Path.ofString (id ++ ".json")))
  else .error (.capability ("Invalid best case id: " ++ quotedString id))

/-- Whether the name of a file is that of a document. -/
def isDocumentName (name : String) : Bool := ".json".toList.isSuffixOf name.toList

/-- The document in a file. -/
def readDocument (disk : Disk) (workdir : Place) (path : Path) : Except Failure Value := do
  let text ← disk.readText workdir path
  (Json.read text).mapError (Failure.ofReadError text)

/-- All documents of a folder in the order of their names; what cannot be read is passed over. -/
def documents (folder : Path) : Action (List Value) :=
  Action.onDisk fun disk workdir => do
    if ← disk.isFolder workdir folder then
      return ((disk.names workdir folder).filter isDocumentName).filterMap fun name =>
        (readDocument disk workdir (folder.child name)).toOption
    else return []

/-! ## Summaries -/

/-- The fields that a case has only if they were given. -/
def scoreFields : List String := ["scores", "totalScore", "excellentIn"]

/-- Those of the given fields that are not null. -/
def scoresOf (entries : List (Value × Value)) : List (String × Value) :=
  scoreFields.filterMap fun name =>
    match Value.field entries name with
    | .null => none
    | v => some (name, v)

/-- A value, or another one if it counts as false. -/
def orElse (v alternative : Value) : Value := if v.isTruthy then v else alternative

/-- What is listed of a case. -/
structure Summary where
  fields : List (String × Value)
  tags : List Value
deriving Repr, Inhabited

/-- A field of a summary, null if it has none. -/
def Summary.field (s : Summary) (name : String) : Value := (s.fields.lookup name).getD .null

/-- A summary as a value. -/
def Summary.toValue (s : Summary) : Value := Value.record s.fields

/-- The summary of a case. -/
def summary (document : Value) : Except Failure Summary := do
  let entries ← document.entries
  let notes ← (orElse (Value.field entries "metadata") (.mapping [])).entries
  let tags ← (Value.field notes "tags").membersOrNone
  let fields :=
    [("id", Value.field entries "id"),
      ("projectName", Value.field entries "projectName"),
      ("category", Value.field entries "category"),
      ("description", (Value.field? entries "description").getD (.text "")),
      ("createdAt", Value.field notes "createdAt"),
      ("updatedAt", Value.field notes "updatedAt"),
      ("tags", .list tags)] ++ scoresOf entries
  return ⟨fields, tags⟩

/-- The total score that cases are sorted by: zero if there is none. -/
def scoreKey (s : Summary) : Value := orElse (s.field "totalScore") (.int 0)

/-- The time that cases are sorted by: empty if there is none. -/
def timeKey (s : Summary) : Value := orElse (s.field "updatedAt") (.text "")

/-! ## Methods -/

/-- The document of a new case. -/
def newDocument (entries : List (Value × Value)) (id : String) (time : Value) :
    Except Failure Value := do
  let files ← (Value.field entries "files").membersOrNone
  let patterns := Value.field entries "patterns"
  let patterns ← if patterns.isTruthy then patterns.asMapping else pure []
  let tags ← (Value.field entries "tags").membersOrNone
  return Value.record
    ([("id", .text id),
      ("projectName", Value.field entries "projectName"),
      ("category", Value.field entries "category"),
      ("description", (Value.field? entries "description").getD (.text "")),
      ("files", .list files),
      ("patterns", .mapping patterns),
      ("metadata", Value.record
        [("createdAt", time), ("updatedAt", time), ("tags", .list tags)])] ++ scoresOf entries)

/-- The text of the current time. -/
def timeText (clock : Int) : Except Failure String :=
  match Moment.ofMillis? clock with
  | some m => .ok m.iso
  | none => .error (.mismatch .wrongValue "year is out of range")

/-- Saves a case under a new id. -/
def save (folder : Path) (parameter : Value) : Action Value := do
  match parameter with
  | .mapping entries =>
    let project := Value.field entries "projectName"
    let category := Value.field entries "category"
    unless project.isTruthy && category.isTruthy do
      Action.fail (.capability "bestcase.saveBestCase requires 'projectName' and 'category'")
    let clock := (← get).clock
    let id := makeId project.display category.display clock
    let time ← Action.ofExcept (timeText clock)
    let document ← Action.ofExcept (newDocument entries id (.text time))
    let path ← Action.ofExcept (pathFor folder id)
    Action.makeFolders folder
    match Json.write .document document with
    | .error e => Action.fail (.mismatch .wrongKind e.message)
    | .ok text => Action.writeText path text
    return Value.record [("id", .text id), ("success", .bool true)]
  | _ => Action.fail (.capability "bestcase.saveBestCase expects an object parameter")

/-- Whether a case has the value that a filter asks for; a filter that counts as false asks for
nothing. -/
def passes (filter : Value) (document : Value) (name : String) : Except Failure Bool :=
  if filter.isTruthy then do
    return (Value.field (← document.entries) name).same filter
  else .ok true

/-- The first of some cases that passes two filters, null if there is none. -/
def firstPassing (project category : Value) : List Value → Except Failure Value
  | [] => .ok .null
  | document :: rest => do
    if ← passes project document "projectName" then
      if ← passes category document "category" then return document
      else firstPassing project category rest
    else firstPassing project category rest

/-- Loads the case with an id, or the first one of a project and category. -/
def load (folder : Path) (parameter : Value) : Action Value := do
  let entries ← Action.ofExcept parameter.optionalEntries
  let id := Value.field entries "id"
  let found ←
    if id.isTruthy then do
      let path ← Action.ofExcept (pathFor folder id.display)
      if ← Action.onDisk fun disk workdir => disk.isFile workdir path then
        Action.onDisk fun disk workdir => readDocument disk workdir path
      else pure .null
    else do
      let cases ← documents folder
      Action.ofExcept
        (firstPassing (Value.field entries "projectName") (Value.field entries "category") cases)
  return Value.record [("bestCase", found)]

/-- Lists all cases, those with the highest score first, of these the latest. -/
def listAll (folder : Path) : Action Value := do
  let cases ← documents folder
  let summaries ← Action.ofExcept (cases.mapM summary)
  let byTime ← Action.ofExcept (Value.sortDescending timeKey summaries)
  let sorted ← Action.ofExcept (Value.sortDescending scoreKey byTime)
  return Value.record
    [("bestcases", .list (sorted.map Summary.toValue)), ("total", .int sorted.length)]

/-! ## Search -/

/-- What a search asks for. -/
structure Query where
  keywords : List String
  tags : List Value
  category : Value
  project : Value
  minScore : Value
deriving Repr, Inhabited

/-- The query that a parameter states. -/
def Query.ofEntries (entries : List (Value × Value)) : Except Failure Query := do
  let keywords ← (Value.field entries "keywords").membersOrNone
  let tags ← (Value.field entries "tags").membersOrNone
  tags.forM Value.requireHashable
  return ⟨keywords.map fun k => lowerString k.display, tags, Value.field entries "category",
    Value.field entries "projectName", Value.field entries "minTotalScore"⟩

/-- Whether a case has one of the tags asked for. -/
def hasTag (asked tags : List Value) : Except Failure Bool :=
  if asked.isEmpty then .ok true
  else do
    tags.forM Value.requireHashable
    return tags.any fun tag => asked.any fun other => other.same tag

/-- Whether a case has the score asked for. -/
def hasScore (minScore : Value) (s : Summary) : Except Failure Bool :=
  match minScore with
  | .null => .ok true
  | least => (Value.less (scoreKey s) least).map fun below => !below

/-- The text of a case that keywords are looked for in. -/
def searchText (s : Summary) (description : Value) : String :=
  let parts := [s.field "projectName", s.field "category", description] ++ s.tags
  lowerString (" ".intercalate (parts.map Value.display))

/-- Whether a case has one of the keywords asked for. -/
def hasKeyword (keywords : List String) (text : String) : Bool :=
  keywords.isEmpty || keywords.any fun k => Text.occursIn k.toList text.toList

/-- The summary of a case if it is what a query asks for. -/
def match? (q : Query) (document : Value) : Except Failure (Option Summary) := do
  let s ← summary document
  unless ← passes q.category document "category" do return none
  unless ← passes q.project document "projectName" do return none
  unless ← hasTag q.tags s.tags do return none
  unless ← hasScore q.minScore s do return none
  let entries ← document.entries
  if hasKeyword q.keywords (searchText s (Value.field entries "description")) then return some s
  else return none

/-- Searches the cases, those with the highest score first. -/
def search (folder : Path) (parameter : Value) : Action Value := do
  let entries ← Action.ofExcept parameter.optionalEntries
  let query ← Action.ofExcept (Query.ofEntries entries)
  let cases ← documents folder
  let found ← Action.ofExcept (cases.mapM (match? query))
  let sorted ← Action.ofExcept (Value.sortDescending scoreKey (found.filterMap id))
  return Value.record
    [("ids", .list (sorted.map fun s => s.field "id")),
      ("summary", .list (sorted.map Summary.toValue)),
      ("total", .int sorted.length)]

/-! ## The capability -/

/-- The owner of the methods in reports. -/
def owner : String := "BestCaseStore."

/-- The store of best cases in a folder. -/
def binding (folder : Path) : Binding :=
  { name := "bestcase"
    methods :=
      [("saveBestCase",
          Signature.method ⟨owner ++ "save_best_case", ["params"], 0⟩ fun p _ => save folder p),
        ("loadBestCase",
          Signature.method ⟨owner ++ "load_best_case", [], 1⟩ fun p _ => load folder p),
        ("listBestCases",
          Signature.method ⟨owner ++ "list_best_cases", [], 0⟩ fun _ _ => listAll folder),
        ("searchBestCases",
          Signature.method ⟨owner ++ "search_best_cases", [], 1⟩ fun p _ => search folder p)] }

end GuestCode.BestCases
