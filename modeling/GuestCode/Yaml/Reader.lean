import GuestCode.Yaml.Construction

/-!
# Values of YAML texts

The value of a text with one document. Its cells are put together to a value; a collection that
holds itself becomes a knot, labelled with the number of its node.

* `Yaml.valueOf`: the value of a node
* `Yaml.read`: the value of a text
-/

namespace GuestCode.Yaml

/-- The values of the nodes that hold no collection around them, as far as they are known. -/
abbrev Known := Array (Option Value)

/-- A value, and the labels in it that no knot in it has. -/
structure Loose where
  value : Value
  labels : List Nat
deriving Repr, Inhabited

/-- Whether a cell is that of a mapping. -/
def Cell.isMapping : Cell → Bool
  | .mapping _ => true
  | _ => false

/-- A collection with all its members. It is a knot if a member leads back to it or to a collection
around it; if not, its value is the same wherever it stands. -/
def tie (number : Nat) (value : Value) (members : List Loose) : StateM Known Loose := do
  let labels := Text.distinct (members.flatMap Loose.labels)
  if labels.isEmpty then
    modify fun known => known.setIfInBounds number (some value)
    return ⟨value, []⟩
  else return ⟨.knot number value, labels.filter (· != number)⟩

/-- The value of a node inside the collections `around`. A node is inside of each other node once
at most. -/
def valueOf (cells : Array (Option Cell)) : Nat → List Nat → Nat → StateM Known Loose
  | 0, _, _ => return ⟨.null, []⟩
  | fuel + 1, around, number => do
    let cell := (cells.getD number none).getD (.whole .null)
    if around.contains number then return ⟨.again number cell.isMapping, [number]⟩
    match (← get).getD number none with
    | some value => return ⟨value, []⟩
    | none =>
      let member := valueOf cells fuel (number :: around)
      match cell with
      | .whole value => return ⟨value, []⟩
      | .set members => return ⟨.set members, []⟩
      | .list items => do
        let members ← items.mapM member
        tie number (.list (members.map Loose.value)) members
      | .couples items => do
        let keys ← items.mapM fun (key, _) => member key
        let values ← items.mapM fun (_, value) => member value
        let couples := (keys.zip values).map fun (k, v) => Value.tuple [k.value, v.value]
        tie number (.list couples) (keys ++ values)
      | .mapping entries => do
        let members ← entries.mapM fun (_, value) => member value
        let values := members.map Loose.value
        tie number (.mapping ((entries.map Prod.fst).zip values)) members

/-- The value of a text with one document at most; no document stands for null. -/
def read (text : List Char) : Except ReadError Value := do
  match ← readDocument text with
  | (_, none) => return .null
  | (graph, some root) => do
    let cells ← cellsOf graph root
    let (loose, _) := (valueOf cells (cells.size + 1) [] root).run
      (Array.replicate cells.size none)
    return loose.value

end GuestCode.Yaml
