import GuestCode.Yaml.Scalar
import GuestCode.Yaml.Token

/-!
# The graph of a YAML text

The tokens of a document form a graph of nodes. Each node has a number; an alias is the number of
the node that its anchor names, which may be a node that the alias is inside of. Handles of tags are
replaced by what they stand for, and nodes without a tag get the one that their form implies.

* `Yaml.Graph`, `Yaml.Node`: the nodes
* `Yaml.Reading`: reading nodes off tokens
* `Yaml.readDocument`: the graph of a text with one document
-/

namespace GuestCode.Yaml

/-- What a node holds: a text, or the numbers of other nodes. -/
inductive Content where
  | scalar (text : String)
  | sequence (items : List Nat)
  | mapping (pairs : List (Nat × Nat))
deriving Repr, DecidableEq, Inhabited

/-- A node: its tag as it is written out, and what it holds. -/
structure Node where
  tag : String
  content : Content
deriving Repr, DecidableEq, Inhabited

/-- The nodes of a document by their numbers. -/
abbrev Graph := Array Node

/-- The tag of sequences. -/
def sequenceTag : String := Kind.commonTag "seq"

/-- The tag of mappings. -/
def mappingTag : String := Kind.commonTag "map"

/-- What is left to read, the nodes read so far, the numbers of those that anchors name, and what
the handles of tags stand for. -/
structure Reading where
  tokens : List Token
  graph : Graph
  anchors : List (String × Nat)
  handles : List (String × String)
deriving Repr, Inhabited

namespace Reading

/-- Reading that may fail. -/
abbrev Reader := StateT Reading (Except ReadError)

/-- The failure of a text that makes no sense. -/
def malformed {α : Type} : Reader α := throw .malformed

/-- Why the number of a character stands for none: it is too large, or larger than any machine
integer. -/
def noCharacterFault (code : Nat) : ReadError :=
  if code < 0x80000000 then .noValue (.mismatch .wrongValue "chr() arg not in range(0x110000)")
  else .noValue (.mismatch .overflow "Python int too large to convert to C int")

/-- The next token. -/
def peek : Reader Token := do
  match (← get).tokens with
  | [] => return .streamEnd
  | .noCharacter code :: _ => throw (noCharacterFault code)
  | token :: _ => return token

/-- Passes over the next token. -/
def advance : Reader Unit := modify fun r => { r with tokens := r.tokens.tail }

/-- Passes over the next token if it is the given one, and tells whether it is. -/
def accept (token : Token) : Reader Bool := do
  if (← peek) == token then
    advance
    return true
  else return false

/-- Passes over the next token, which must be the given one. -/
def expect (token : Token) : Reader Unit := do
  if !(← accept token) then malformed

/-- Whether the next token is one of some. -/
def isNext (tokens : List Token) : Reader Bool := do
  return tokens.contains (← peek)

/-- The tag that a handle and a name make. -/
def fullTag (mark : Option String) (suffix : String) : Reader String := do
  match mark with
  | none => return suffix
  | some m =>
    match (← get).handles.lookup m with
    | some target => return target ++ suffix
    | none => malformed

/-- What stands before the content of a node: an anchor and a tag. -/
structure Properties where
  anchor : Option String
  tag : Option String
deriving Repr, DecidableEq, Inhabited

/-- No properties. -/
def Properties.none : Properties := ⟨.none, .none⟩

/-- Whether there are no properties. -/
def Properties.isEmpty (p : Properties) : Bool := p.anchor.isNone && p.tag.isNone

/-- The tag, unless it says nothing but that there is one. -/
def Properties.ownTag (p : Properties) : Option String := p.tag.filter (· != "!")

/-- The anchor and the tag before a node, in either order. -/
def readProperties : Reader Properties := do
  match ← peek with
  | .anchor name => do
    advance
    match ← peek with
    | .tag mark suffix => do
      advance
      return ⟨some name, some (← fullTag mark suffix)⟩
    | _ => return ⟨some name, none⟩
  | .tag mark suffix => do
    advance
    let tag ← fullTag mark suffix
    match ← peek with
    | .anchor name => do
      advance
      return ⟨some name, some tag⟩
    | _ => return ⟨none, some tag⟩
  | _ => return .none

/-- Adds a node under the name of its anchor, which may be given once, and returns its number. -/
def addNode (anchor : Option String) (node : Node) : Reader Nat := do
  let r ← get
  let number := r.graph.size
  match anchor with
  | none => set { r with graph := r.graph.push node }
  | some name => do
    if (r.anchors.lookup name).isSome then malformed
    set { r with graph := r.graph.push node, anchors := (name, number) :: r.anchors }
  return number

/-- Adds a scalar. If it is plain, or has the tag that says nothing, its text implies its tag. -/
def addScalar (p : Properties) (plain : Bool) (text : String) : Reader Nat :=
  let implied := if plain || p.tag.isSome then (Kind.ofPlain text).tag else Kind.text.tag
  addNode p.anchor ⟨p.ownTag.getD implied, .scalar text⟩

/-- Adds the node of what is left out. -/
def addAbsent : Reader Nat := addScalar .none true ""

/-- Adds a collection, which can be named inside itself. -/
def addCollection (p : Properties) (impliedTag : String) (empty : Content)
    (content : Reader Content) : Reader Nat := do
  let number ← addNode p.anchor ⟨p.ownTag.getD impliedTag, empty⟩
  let content ← content
  modify fun r => { r with graph := r.graph.modify number fun node => { node with content } }
  return number

/-- Adds a sequence with the items that are read. -/
def addSequence (p : Properties) (items : Reader (List Nat)) : Reader Nat :=
  addCollection p sequenceTag (.sequence []) (Content.sequence <$> items)

/-- Adds a mapping with the pairs that are read. -/
def addMapping (p : Properties) (pairs : Reader (List (Nat × Nat))) : Reader Nat :=
  addCollection p mappingTag (.mapping []) (Content.mapping <$> pairs)

mutual

/-- A node. `block` tells whether it may be a block collection, and `indentless` whether it may be
a sequence that is indented no deeper than the key before it. -/
def readNode : Nat → Bool → Bool → Reader Nat
  | 0, _, _ => malformed
  | fuel + 1, block, indentless => do
    match ← peek with
    | .alias name => do
      advance
      match (← get).anchors.lookup name with
      | some number => return number
      | none => malformed
    | _ => do
      let p ← readProperties
      readContent fuel block indentless p

/-- A node after its properties, which may stand alone. -/
def readContent : Nat → Bool → Bool → Properties → Reader Nat
  | 0, _, _, _ => malformed
  | fuel + 1, block, indentless, p => do
    match ← peek with
    | .blockEntry =>
      if indentless then addSequence p (readIndentlessItems fuel)
      else if p.isEmpty then malformed
      else addScalar p true ""
    | .scalar text plain => do
      advance
      addScalar p plain text
    | .flowSequenceStart => do
      advance
      addSequence p (readFlowItems fuel true)
    | .flowMappingStart => do
      advance
      addMapping p (readFlowPairs fuel true)
    | .blockSequenceStart =>
      if block then do
        advance
        addSequence p (readBlockItems fuel)
      else if p.isEmpty then malformed
      else addScalar p true ""
    | .blockMappingStart =>
      if block then do
        advance
        addMapping p (readBlockPairs fuel)
      else if p.isEmpty then malformed
      else addScalar p true ""
    | _ =>
      if p.isEmpty then malformed
      else addScalar p true ""

/-- A node, unless one of some tokens tells that it is left out. -/
def readNodeUnless : Nat → Bool → Bool → List Token → Reader Nat
  | 0, _, _, _ => malformed
  | fuel + 1, block, indentless, ends => do
    if ← isNext ends then addAbsent else readNode fuel block indentless

/-- The items of a block sequence, up to its end. -/
def readBlockItems : Nat → Reader (List Nat)
  | 0 => malformed
  | fuel + 1 => do
    if ← accept .blockEntry then
      let item ← readNodeUnless fuel true false [.blockEntry, .blockEnd]
      return item :: (← readBlockItems fuel)
    else
      expect .blockEnd
      return []

/-- The items of a sequence that is indented no deeper than the key before it. -/
def readIndentlessItems : Nat → Reader (List Nat)
  | 0 => malformed
  | fuel + 1 => do
    if ← accept .blockEntry then
      let item ← readNodeUnless fuel true false [.blockEntry, .key, .value, .blockEnd]
      return item :: (← readIndentlessItems fuel)
    else return []

/-- The pairs of a block mapping, up to its end. -/
def readBlockPairs : Nat → Reader (List (Nat × Nat))
  | 0 => malformed
  | fuel + 1 => do
    if ← accept .key then
      let key ← readNodeUnless fuel true true [.key, .value, .blockEnd]
      let value ←
        if ← accept .value then readNodeUnless fuel true true [.key, .value, .blockEnd]
        else addAbsent
      return (key, value) :: (← readBlockPairs fuel)
    else
      expect .blockEnd
      return []

/-- The value after a key between flow brackets, if there is one. -/
def readFlowValue : Nat → List Token → Reader Nat
  | 0, _ => malformed
  | fuel + 1, ends => do
    if ← accept .value then readNodeUnless fuel false false ends else addAbsent

/-- The items of a flow sequence, up to its end; a pair among them is a mapping of its own. -/
def readFlowItems : Nat → Bool → Reader (List Nat)
  | 0, _ => malformed
  | fuel + 1, first => do
    if ← accept .flowSequenceEnd then return []
    else
      if !first then expect .flowEntry
      if ← accept .key then
        let key ← readNodeUnless fuel false false [.value, .flowEntry, .flowSequenceEnd]
        let value ← readFlowValue fuel [.flowEntry, .flowSequenceEnd]
        let pair ← addMapping .none (pure [(key, value)])
        return pair :: (← readFlowItems fuel false)
      else if ← accept .flowSequenceEnd then return []
      else
        let item ← readNode fuel false false
        return item :: (← readFlowItems fuel false)

/-- The pairs of a flow mapping, up to its end. -/
def readFlowPairs : Nat → Bool → Reader (List (Nat × Nat))
  | 0, _ => malformed
  | fuel + 1, first => do
    if ← accept .flowMappingEnd then return []
    else
      if !first then expect .flowEntry
      if ← accept .key then
        let key ← readNodeUnless fuel false false [.value, .flowEntry, .flowMappingEnd]
        let value ← readFlowValue fuel [.flowEntry, .flowMappingEnd]
        return (key, value) :: (← readFlowPairs fuel false)
      else if ← accept .flowMappingEnd then return []
      else
        let key ← readNode fuel false false
        let value ← addAbsent
        return (key, value) :: (← readFlowPairs fuel false)

end

/-! ## Documents -/

/-- What the handles of tags stand for where nothing else is said. -/
def standardHandles : List (String × String) := [("!", "!"), ("!!", "tag:yaml.org,2002:")]

/-- The directives before a document: the version at most once, and each handle at most once. -/
def readDirectives : Nat → Bool → List (String × String) → Reader Unit
  | 0, _, _ => malformed
  | fuel + 1, versionSeen, handles => do
    match ← peek with
    | .versionDirective major =>
      if versionSeen || major != 1 then malformed
      else do
        advance
        readDirectives fuel true handles
    | .tagDirective mark target =>
      if (handles.lookup mark).isSome then malformed
      else do
        advance
        readDirectives fuel versionSeen ((mark, target) :: handles)
    | .otherDirective => do
      advance
      readDirectives fuel versionSeen handles
    | _ => modify fun r => { r with handles := handles ++ standardHandles }

/-- Passes over the marks that end documents. -/
def skipDocumentEnds : Nat → Reader Unit
  | 0 => return
  | fuel + 1 => do
    if ← accept .documentEnd then skipDocumentEnds fuel

/-- Whether the next token is a directive. -/
def isDirectiveNext : Reader Bool := do
  match ← peek with
  | .versionDirective _ | .tagDirective .. | .otherDirective => return true
  | _ => return false

/-- The only document, `none` if there is none. -/
def readOnlyDocument (fuel : Nat) : Reader (Option Nat) := do
  if ← isNext [.streamEnd] then return none
  let node ←
    if (← isDirectiveNext) || (← isNext [.documentStart]) then do
      readDirectives fuel false []
      expect .documentStart
      if (← isDirectiveNext) || (← isNext [.documentStart, .documentEnd, .streamEnd]) then
        addAbsent
      else readNode fuel true false
    else readNode fuel true false
  skipDocumentEnds fuel
  if ← isNext [.streamEnd] then return some node else malformed

end Reading

/-- The graph of a text with at most one document, and the number of the node that is the
document. Reading a node takes less than eight steps for each token. -/
def readDocument (text : List Char) : Except ReadError (Graph × Option Nat) :=
  match tokens? text with
  | none => .error .malformed
  | some tokens => do
    let (root, r) ← (Reading.readOnlyDocument (8 * tokens.length + 16)).run
      ⟨tokens, #[], [], Reading.standardHandles⟩
    return (r.graph, root)

end GuestCode.Yaml
