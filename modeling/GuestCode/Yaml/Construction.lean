import GuestCode.Yaml.Graph

/-!
# Cells of a YAML text

Each node of a graph becomes a cell: a value without members, or a collection that holds the numbers
of other nodes. Nodes are taken in the order in which they are met, and the members of collections
after all nodes met before them, so the first fault in this order is the one that counts. A mapping
may take over the entries of others by a merge key; of two equal keys the last one decides.

* `Yaml.Cell`: the cells
* `Yaml.Construction.start`, `Construction.fill`: a node, and the members of a collection
* `Yaml.Construction.flatten`: taking over the entries of other mappings
* `Yaml.cellsOf`: the cells of a graph that a node leads to
-/

namespace GuestCode.Yaml

/-- What a node stands for, with the numbers of other nodes for what is in it. -/
inductive Cell where
  | whole (value : Value)
  | list (items : List Nat)
  /-- A list of groups of two. -/
  | couples (items : List (Nat × Nat))
  | mapping (entries : List (Value × Nat))
  | set (members : List Value)
deriving Repr, Inhabited

/-- The kinds of collections. -/
inductive Shape where
  | list
  | couples
  | mapping
  | set
deriving Repr, DecidableEq, Inhabited

/-- The kind of collection that a tag asks for. -/
def Shape.ofTag? (tag : String) : Option Shape :=
  if tag == sequenceTag then some .list
  else if tag == Kind.commonTag "omap" || tag == Kind.commonTag "pairs" then some .couples
  else if tag == mappingTag then some .mapping
  else if tag == Kind.commonTag "set" then some .set
  else none

/-- A collection with nothing in it. -/
def Shape.emptyCell : Shape → Cell
  | list => .list []
  | couples => .couples []
  | mapping => .mapping []
  | set => .set []

/-- A graph, the cells made of its nodes so far, and the nodes whose collections are still empty. -/
structure Construction where
  graph : Graph
  cells : Array (Option Cell)
  waiting : List Nat
deriving Repr, Inhabited

namespace Construction

/-- Construction that may fail. -/
abbrev Builder := StateT Construction (Except ReadError)

/-- The failure of a text that makes no sense. -/
def refuse {α : Type} : Builder α := throw .malformed

/-- The node with a number. -/
def node (number : Nat) : Builder Node := do
  return (← get).graph.getD number default

/-- Keeps the cell of a node. -/
def put (number : Nat) (cell : Cell) : Builder Unit :=
  modify fun c => { c with cells := c.cells.setIfInBounds number (some cell) }

/-! ## Scalars -/

/-- The text of a node that is taken for a scalar: that of a scalar, or that of the fallback value
of a mapping, which may be a mapping with a fallback value again. -/
def textOf? (graph : Graph) : Nat → Nat → Option String
  | 0, _ => none
  | fuel + 1, number =>
    match (graph.getD number default).content with
    | .scalar text => some text
    | .sequence _ => none
    | .mapping pairs => do
      let (_, value) ← pairs.find? fun (key, _) =>
        (graph.getD key default).tag == Kind.fallback.tag
      textOf? graph fuel value

/-- The value of a node that is taken for a scalar. Only the text of a scalar itself can be a
moment. -/
def scalarOf (graph : Graph) (n : Node) (number : Nat) : Except ReadError Value :=
  match textOf? graph (graph.size + 1) number with
  | none => .error .malformed
  | some text =>
    match n.content with
    | .mapping _ =>
      if n.tag == Kind.moment.tag then
        .error (.noValue
          (.mismatch .wrongKind "expected string or bytes-like object, got 'list'"))
      else scalarValue n.tag text
    | _ => scalarValue n.tag text

/-- Makes the cell of a node, unless it has been made. A collection is empty at first. -/
def start (number : Nat) : Builder Unit := do
  let c ← get
  unless ((c.cells.getD number none).isSome) do
    let n ← node number
    match Shape.ofTag? n.tag with
    | some shape => do
      put number shape.emptyCell
      modify fun c => { c with waiting := c.waiting ++ [number] }
    | none => put number (.whole (← scalarOf c.graph n number))

/-! ## Merge keys -/

/-- The pairs of a node. -/
def pairsOf (number : Nat) : Builder (List (Nat × Nat)) := do
  match (← node number).content with
  | .mapping pairs => return pairs
  | _ => refuse

/-- Changes a node. -/
def change (number : Nat) (f : Node → Node) : Builder Unit :=
  modify fun c => { c with graph := c.graph.modify number f }

/-- Gives other pairs to a node. -/
def setPairs (number : Nat) (pairs : List (Nat × Nat)) : Builder Unit :=
  change number fun n => { n with content := .mapping pairs }

/-- The first pair with a merge key, as its place and the node after the key. -/
def firstMerge? (graph : Graph) (pairs : List (Nat × Nat)) : Option (Nat × Nat) := do
  let place ← pairs.findIdx? fun (key, _) => (graph.getD key default).tag == Kind.merge.tag
  let (_, source) ← pairs[place]?
  return (place, source)

/-- The mappings that a merge key asks for: the one after it, or those of a list. -/
def sourcesOf (number : Nat) : Builder (List Nat) := do
  match (← node number).content with
  | .mapping _ => return [number]
  | .sequence items => return items
  | .scalar _ => refuse

/-- The sign of a fallback value is text where it is the key of an entry. -/
def settleFallback (pairs : List (Nat × Nat)) : Builder Unit :=
  pairs.forM fun (key, _) => do
    if (← node key).tag == Kind.fallback.tag then
      change key fun n => { n with tag := Kind.text.tag }

/-- Gives a mapping the pairs that its merge keys ask for. They come first, and among the mappings
of a list those of the last one do. A mapping that is asked for inside itself counts without the
merge keys seen so far. -/
def flatten : Nat → Nat → Builder Unit
  | 0, _ => refuse
  | fuel + 1, number => do
    let pairs ← pairsOf number
    match firstMerge? (← get).graph pairs with
    | none => settleFallback pairs
    | some (place, source) => do
      setPairs number (pairs.eraseIdx place)
      let parts ← (← sourcesOf source).mapM fun other => do
        flatten fuel other
        pairsOf other
      flatten fuel number
      setPairs number (parts.reverse.flatten ++ (← pairsOf number))

/-- The number of pairs in a graph, which no chain of merge keys is longer than. -/
def pairCount (graph : Graph) : Nat :=
  graph.foldl (fun count n => count + match n.content with | .mapping ps => ps.length | _ => 0) 0

/-! ## Members of collections -/

/-- The couples that some mappings of one pair each make. -/
def couplesOf : List Nat → Builder (List (Nat × Nat))
  | [] => return []
  | number :: rest => do
    match ← pairsOf number with
    | [(key, value)] => do
      start key
      start value
      return (key, value) :: (← couplesOf rest)
    | _ => refuse

/-- The value of a key, which has to be one that a mapping can have. -/
def keyOf (number : Nat) : Builder Value := do
  match (← get).cells.getD number none with
  | some (.whole key) => return key
  | _ => refuse

/-- Puts the entries of some pairs after others. -/
def entriesAfter (entries : List (Value × Nat)) : List (Nat × Nat) → Builder (List (Value × Nat))
  | [] => return entries
  | (key, value) :: rest => do
    start key
    let k ← keyOf key
    start value
    entriesAfter (Value.insert k value entries) rest

/-- Puts the members into a collection. -/
def fill (number : Nat) : Builder Unit := do
  let n ← node number
  let entries : Builder (List (Value × Nat)) := do
    flatten (pairCount (← get).graph + 1) number
    entriesAfter [] (← pairsOf number)
  match Shape.ofTag? n.tag, n.content with
  | some .list, .sequence items => do
    items.forM start
    put number (.list items)
  | some .couples, .sequence items => put number (.couples (← couplesOf items))
  | some .mapping, .mapping _ => put number (.mapping (← entries))
  | some .set, .mapping _ => put number (.set ((← entries).map Prod.fst))
  | _, _ => refuse

/-- Fills the collections that are waiting, and those that are met on the way. -/
def fillAll : Nat → Builder Unit
  | 0 => return
  | fuel + 1 => do
    match (← get).waiting with
    | [] => return
    | number :: rest => do
      modify fun c => { c with waiting := rest }
      fill number
      fillAll fuel

end Construction

/-- The cells of a graph that a node leads to. Each collection is filled once. -/
def cellsOf (graph : Graph) (root : Nat) : Except ReadError (Array (Option Cell)) := do
  let build : Construction.Builder Unit := do
    Construction.start root
    Construction.fillAll graph.size
  let (_, c) ← build.run ⟨graph, Array.replicate graph.size none, []⟩
  return c.cells

end GuestCode.Yaml
