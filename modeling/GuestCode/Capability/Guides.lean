import GuestCode.Capability.Binding
import GuestCode.Data.Coercion
import GuestCode.Data.Order
import GuestCode.Text.Case
import GuestCode.Yaml.Reader

/-!
# Guides

Guides are texts that tell how things are done, kept as files with data in front of them: an id, a
summary, tags, how important the guide is and where it holds, and which other guides it needs or
does not go with.

* `Guide`, `Guide.parse`: guides and their files
* `Guides.index`: the guides of a folder
* `Guides.search`, `Guides.load`, `Guides.combine`: the methods
* `Guides.binding`: the capability
-/

namespace GuestCode

open Text (Pattern)

/-- A guide. -/
structure Guide where
  id : String
  summary : String
  content : List Char
  file : String
  tags : List String
  priority : Int
  scope : String
  version : String
  isMandatory : Bool
  /-- The ids of the guides that must be there too. -/
  requires : List String
  /-- The ids of the guides that must not be there. -/
  excludes : List String
deriving Repr, DecidableEq, Inhabited

namespace Guide

/-! ## Files of guides -/

/-- The data in front of a guide, between two lines of hyphens. -/
def frontMatter : Pattern :=
  .all [.lit "---\n", .capture 1 (.lazyStar .anyChar), .lit "\n---", .spaces,
    .either (.exactly '\n') (.condition fun _ rest => rest.isEmpty)]

/-- A heading. -/
def heading : Pattern :=
  .all [.lineStart, .plus (.exactly '#'), .someBlanks, .capture 1 (.plus (.noneOf "\n")), .lineEnd]

/-- A text with one kind of line ends. -/
def joinLineEnds : List Char → List Char
  | '\r' :: '\n' :: rest => '\n' :: joinLineEnds rest
  | c :: rest => c :: joinLineEnds rest
  | [] => []

/-- Names from a value: those that commas divide in a text, or the members of a list. -/
def nameList (v : Value) : Except Failure (List String) :=
  match v with
  | .null => .ok []
  | .text s =>
    .ok (((Text.splitOn ',' s.toList).map Text.trim).filter (!·.isEmpty) |>.map String.ofList)
  | _ => v.members >>= fun members => members.mapM Value.shown

/-- The first of some values that counts as true, or the last one. -/
def firstOf (values : List Value) : Value :=
  (values.find? Value.isTruthy).getD (values.getLast?.getD .null)

/-- The priority that the data state; what is no number is the middle one. -/
def priorityOf (entries : List (Value × Value)) : Except Failure Int :=
  match ((Value.field? entries "priority").getD (.int 50)).wholeNumber with
  | .ok n => .ok n
  | .error (.mismatch .wrongKind _) => .ok 50
  | .error failure => if failure.concernsValue then .ok 50 else .error failure

/-- The entries of the data in front of a guide; data that are no mapping say nothing. -/
def dataOf (data : List Char) (file : String) : Except Failure (List (Value × Value)) :=
  match (Yaml.read data).map Value.unfolded with
  | .ok (.mapping entries) => .ok entries
  | .ok _ => .ok []
  | .error .malformed => .error (.capability ("Invalid front matter in " ++ file ++ ": "))
  | .error (.noValue failure) => .error failure

/-- The data in front of a text, and the text after them. -/
def divide (text : List Char) (file : String) :
    Except Failure (List (Value × Value) × List Char) :=
  match frontMatter.matchAt? (.ofText text) with
  | some m => (dataOf (m.captured 1) file).map fun entries => (entries, m.after)
  | none => .ok ([], text)

/-- The guide that data and the text after them make. The data decide; without them the id is the
name of the file and the summary the first heading. -/
def make (entries : List (Value × Value)) (body : List Char) (file : String) :
    Except Failure Guide := do
  let stem := (Path.ofString file).stem
  let title := ((heading.search? body).map fun m => String.ofList (m.captured 1)).getD stem
  let field (name : String) : Value := Value.field entries name
  let priority ← priorityOf entries
  let id ← (firstOf [field "id", .text stem]).shown
  let summary ← (firstOf [field "summary", field "title", .text title]).shown
  let tags ← nameList (firstOf [field "tags", field "keywords"])
  let scope ← (firstOf [field "scope", .text "global"]).shown
  let version ← (firstOf [field "version", .text "1.0"]).shown
  let requires ← nameList (field "requires")
  let excludes ← nameList (field "excludes")
  return {
    id := id
    summary := summary
    content := body
    file := file
    tags := tags
    priority := priority
    scope := scope
    version := version
    isMandatory := (field "mandatory").isTruthy
    requires := requires
    excludes := excludes }

/-- Reads a guide from the text of its file. -/
def parse (text : List Char) (file : String) : Except Failure Guide := do
  let (entries, body) ← divide (joinLineEnds text) file
  make entries (Text.trim body) file

/-- A guide as a snippet sees it. -/
def toValue (g : Guide) : Value :=
  Value.record
    [("id", .text g.id), ("summary", .text g.summary), ("content", .text (String.ofList g.content)),
      ("tags", Value.texts g.tags), ("priority", .int g.priority), ("scope", .text g.scope),
      ("version", .text g.version), ("mandatory", .bool g.isMandatory),
      ("requires", Value.texts g.requires), ("excludes", Value.texts g.excludes),
      ("filePath", .text g.file)]

/-- The rank of a scope: the narrower, the higher. -/
def scopeRank (scope : String) : Nat :=
  ([("project", 4), ("repo", 3), ("org", 2), ("global", 1)].lookup scope).getD 0

end Guide

namespace Guides

/-! ## The guides of a folder -/

/-- Whether the name of a file is that of a guide. -/
def isGuideName (name : String) : Bool := ".md".toList.isSuffixOf name.toList

/-- The files of guides in a folder and the folders in it; folders that are links are not
entered. -/
def filesUpTo (disk : Disk) (workdir : Place) : Nat → Path → Except Failure (List Path)
  | 0, _ => .ok []
  | depth + 1, folder => do
    let names := disk.names workdir folder
    let own := (names.filter isGuideName).map folder.child
    let inner ← names.mapM fun name => do
      let path := folder.child name
      if (← disk.isFolder workdir path) && !disk.isLink workdir path then
        filesUpTo disk workdir depth path
      else return []
    return own ++ inner.flatten

/-- The files of guides in a folder, in the order of their paths. -/
def files (disk : Disk) (workdir : Place) (folder : Path) : Except Failure (List Path) := do
  if ← disk.isFolder workdir folder then
    let found ← filesUpTo disk workdir (disk.entries.length + 1) folder
    return found.mergeSort fun p q => !q.precedes p
  else return []

/-- The name of a file as seen from the folder. -/
def nameInside (folder file : Path) : String :=
  (⟨"", file.names.drop folder.names.length⟩ : Path).display

/-- The guide in a file. -/
def read (disk : Disk) (workdir : Place) (folder file : Path) : Except Failure Guide := do
  Guide.parse (← disk.readText workdir file) (nameInside folder file)

/-- The guide in a file, if there is one: files that cannot be read and guides whose data cannot be
read are passed over. -/
def read? (disk : Disk) (workdir : Place) (folder file : Path) : Except Failure (Option Guide) :=
  match read disk workdir folder file with
  | .ok guide => .ok (some guide)
  | .error failure =>
    if failure.concernsSystem || failure.concernsCapability then .ok none else .error failure

/-- The guides of a folder, in the order of their paths. -/
def index (disk : Disk) (workdir : Place) (folder : Path) : Except Failure (List Guide) := do
  let found ← (← files disk workdir folder).mapM (read? disk workdir folder)
  return found.filterMap id

/-! ## Search -/

/-- How well a guide matches keywords: a tag that holds one counts most, then the summary, then the
content. -/
def matchOf (keywords : List (List Char)) (g : Guide) : Nat :=
  let tags := g.tags.map fun tag => Text.lower tag.toList
  let summary := Text.lower g.summary.toList
  let content := Text.lower g.content
  let points (k : List Char) : Nat :=
    (if tags.any (Text.occursIn k) then 15 else 0) + (if Text.occursIn k summary then 10 else 0) +
      (if Text.occursIn k content then 5 else 0)
  keywords.foldl (fun sum k => sum + points k) 0

/-- The score of a guide: how well it matches, and a tenth of its priority. -/
def score (points : Nat) (g : Guide) : Except Failure Binary64 :=
  match Binary64.ofRatio (decide (g.priority < 0)) g.priority.natAbs 10 with
  | .infinite _ =>
    .error (.mismatch .overflow "integer division result too large for a float")
  | tenth => .ok ((Binary64.ofInt points).add tenth)

/-- The guides that match keywords, with their scores. Without keywords all guides match. -/
def scored (keywords : List (List Char)) : List Guide → Except Failure (List (Binary64 × Guide))
  | [] => .ok []
  | g :: rest => do
    let points := matchOf keywords g
    if !keywords.isEmpty && points == 0 then scored keywords rest
    else
      let s ← score points g
      return (s, g) :: (← scored keywords rest)

/-- The first `limit` elements of a list; a negative limit leaves out as many at the end. -/
def takeUpTo {α : Type} (limit : Int) (xs : List α) : List α :=
  xs.take (if limit < 0 then xs.length - limit.natAbs else limit.toNat)

/-- Searches the guides, those with the highest score first. -/
def search (folder : Path) (parameter : Value) : Action Value := do
  let entries ← Action.ofExcept parameter.optionalEntries
  let keywords ← Action.ofExcept (Guide.nameList (Value.field entries "keywords"))
  let limit ← Action.ofExcept (Guide.firstOf [Value.field entries "limit", .int 10]).wholeNumber
  let guides ← Action.onDisk fun disk workdir => index disk workdir folder
  let found ← Action.ofExcept (scored (keywords.map fun k => Text.lower k.toList) guides)
  let sorted ← Action.ofExcept (Value.sortDescending (fun found => Value.float found.1) found)
  let report (found : Binary64 × Guide) : Value :=
    let (s, g) := found
    Value.record
      [("id", .text g.id), ("score", .float s), ("summary", .text g.summary),
        ("filePath", .text g.file), ("tags", Value.texts g.tags), ("priority", .int g.priority)]
  return Value.record [("guides", .list ((takeUpTo limit sorted).map report))]

/-! ## Loading and combining -/

/-- Loads the first guide with an id. -/
def load (folder : Path) (parameter : Value) : Action Value := do
  let id :=
    match parameter with
    | .mapping entries => Value.field entries "id"
    | _ => .null
  unless id.isTruthy do Action.fail (.capability "guides.loadGuide requires an 'id'")
  let guides ← Action.onDisk fun disk workdir => index disk workdir folder
  match guides.find? fun g => (Value.text g.id).same id with
  | some g => return Value.record [("guide", g.toValue)]
  | none => Action.fail (.notFound ("guide " ++ id.display))

/-- The guides that are asked for by their ids or are mandatory, each id once. Of guides with one
id the last one counts. -/
def requested (guides : List Guide) (ids : List String) : List Guide :=
  let all := (guides.filter Guide.isMandatory).map Guide.id ++ ids
  (Text.distinct all).filterMap fun id => guides.reverse.find? fun g => g.id == id

/-- Whether a guide comes before another one: by scope, priority and version, each time the greater
first. -/
def outranks (g h : Guide) : Bool :=
  let rank (g : Guide) : Nat := Guide.scopeRank g.scope
  rank h < rank g || (rank g == rank h &&
    (h.priority < g.priority || (g.priority == h.priority && decide (h.version < g.version))))

/-- The guides in the order of their rank. -/
def ranked (guides : List Guide) : List Guide := guides.mergeSort fun g h => !outranks h g

/-- Selects guides: one is left out if a guide selected before it is among those that it excludes,
or if one that it requires has not been asked for. -/
def select (ids : List String) (selected : List Guide) : List Guide → List Guide
  | [] => selected
  | g :: rest =>
    let isExcluded := selected.any fun other => g.excludes.contains other.id
    let isComplete := g.requires.all fun id => ids.contains id
    select ids (if !isExcluded && isComplete then selected ++ [g] else selected) rest

/-- Combines guides into one text. -/
def combine (folder : Path) (parameter : Value) : Action Value := do
  let guides ← Action.onDisk fun disk workdir => index disk workdir folder
  let entries ← Action.ofExcept parameter.optionalEntries
  let ids ← Action.ofExcept (Guide.nameList (Value.field entries "ids"))
  let ranking := ranked (requested guides ids)
  let selected := select (ranking.map Guide.id) [] ranking
  let sections := selected.map fun g => "# " ++ g.summary ++ "\n\n" ++ String.ofList g.content
  let used := selected.map fun g =>
    Value.record
      [("id", .text g.id), ("priority", .int g.priority), ("version", .text g.version),
        ("scope", .text g.scope)]
  let reminders := (selected.filter Guide.isMandatory).map fun g => g.id ++ ": " ++ g.summary
  return Value.record
    ([("combined", .text ("\n\n---\n\n".intercalate sections)), ("usedGuides", .list used)] ++
      if reminders.isEmpty then [] else [("mandatoryReminders", Value.texts reminders)])

/-! ## The capability -/

/-- The owner of the methods in reports. -/
def owner : String := "GuideStore."

/-- The guides of a folder as a capability. -/
def binding (folder : Path) : Binding :=
  { name := "guides"
    methods :=
      [("searchGuides",
          Signature.method ⟨owner ++ "search_guides", [], 1⟩ fun p _ => search folder p),
        ("loadGuide",
          Signature.method ⟨owner ++ "load_guide", ["params"], 0⟩ fun p _ => load folder p),
        ("combineGuides",
          Signature.method ⟨owner ++ "combine_guides", [], 1⟩ fun p _ => combine folder p)] }

end Guides

end GuestCode
