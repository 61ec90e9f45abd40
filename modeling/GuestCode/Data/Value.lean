import GuestCode.Data.Calendar
import GuestCode.Number.Shortest

/-!
# Plain data

The values that are exchanged with snippets, read from data files and kept in configurations:
scalars, lists, and mappings that keep the order of their entries. A mapping has no two equal keys;
numbers are equal across their kinds, so `1`, `1.0` and `true` are one key.

A collection can be among its own members, since data files can name a collection inside itself.
Such a collection is a knot: its label stands for the whole of it inside.

* `Value`: the type
* `Value.same`: equality of values
* `Value.isTruthy`, `Value.kindName`: what conditions and reports see of a value
* `Value.unfolded`: a knot as a collection that holds the knot
* `Value.get?`, `Value.insert`: entries of a mapping
-/

namespace GuestCode

/-- A value of plain data. -/
inductive Value where
  | null
  | bool (b : Bool)
  | int (n : Int)
  | float (x : Binary64)
  | text (s : String)
  | date (d : Date)
  | moment (m : Moment)
  | bytes (octets : List UInt8)
  | list (items : List Value)
  /-- A group of values that belong together, as a key and its value do. -/
  | tuple (items : List Value)
  | set (members : List Value)
  | mapping (entries : List (Value × Value))
  /-- The list or mapping `body`, in which `again label` stands for all of it. -/
  | knot (label : Nat) (body : Value)
  /-- The knot around this place that has a label. -/
  | again (label : Nat) (isMapping : Bool)
deriving Repr, Inhabited

namespace Value

/-- The name of the kind of a value in reports. -/
def kindName : Value → String
  | null => "NoneType"
  | bool _ => "bool"
  | int _ => "int"
  | float _ => "float"
  | text _ => "str"
  | date _ => "datetime.date"
  | moment _ => "datetime.datetime"
  | bytes _ => "bytes"
  | list _ => "list"
  | tuple _ => "tuple"
  | set _ => "set"
  | mapping _ => "dict"
  | knot _ body => body.kindName
  | again _ isMapping => if isMapping then "dict" else "list"

/-- The name of the kind of a value, without the family it belongs to. -/
def shortKindName : Value → String
  | date _ => "date"
  | moment _ => "datetime"
  | v => v.kindName

/-- Whether a value counts as true in a condition: empty and zero values do not, and what holds
itself is not empty. -/
def isTruthy : Value → Bool
  | null => false
  | bool b => b
  | int n => n != 0
  | float x => !x.isZero
  | text s => !s.isEmpty
  | date _ => true
  | moment _ => true
  | bytes octets => !octets.isEmpty
  | list items => !items.isEmpty
  | tuple items => !items.isEmpty
  | set members => !members.isEmpty
  | mapping entries => !entries.isEmpty
  | knot _ body => body.isTruthy
  | again .. => true

/-- The numerical value of a truth value. -/
def ofBool (b : Bool) : Int := if b then 1 else 0

/-- A value that is a number: an integer, or a floating-point number. -/
def number? : Value → Option (Int ⊕ Binary64)
  | bool b => some (.inl (ofBool b))
  | int n => some (.inl n)
  | float x => some (.inr x)
  | _ => none

/-- Compares two numbers. -/
def compareNumbers? : Int ⊕ Binary64 → Int ⊕ Binary64 → Option Ordering
  | .inl a, .inl b => some (compare a b)
  | .inr x, .inl b => x.compareInt? b
  | .inl a, .inr y => (y.compareInt? a).map Ordering.swap
  | .inr x, .inr y => x.compare? y

mutual

/-- Equality of values. Numbers are equal if their values are; what is no number is equal to
nothing, itself included. Mappings and sets are equal whatever the order of their entries. Knots are
equal if they are tied alike. -/
def same : Value → Value → Bool
  | null, null => true
  | text s, text t => s == t
  | date d, date e => d == e
  | moment m, moment n => m == n
  | bytes a, bytes b => a == b
  | list xs, list ys => sameList xs ys
  | tuple xs, tuple ys => sameList xs ys
  | set xs, set ys => xs.length == ys.length && sameMembers xs ys
  | mapping es, mapping fs => es.length == fs.length && sameEntries es fs
  | knot l v, knot m w => l == m && same v w
  | again l _, again m _ => l == m
  | v, w =>
    match v.number?, w.number? with
    | some a, some b => compareNumbers? a b == some .eq
    | _, _ => false

/-- Whether two lists have equal members in the same order. -/
def sameList : List Value → List Value → Bool
  | [], [] => true
  | x :: xs, y :: ys => same x y && sameList xs ys
  | _, _ => false

/-- Whether every member of the first list equals one of the second. -/
def sameMembers : List Value → List Value → Bool
  | [], _ => true
  | x :: xs, ys => ys.any (fun y => same x y) && sameMembers xs ys

/-- Whether every entry of the first list equals one of the second. -/
def sameEntries : List (Value × Value) → List (Value × Value) → Bool
  | [], _ => true
  | (k, v) :: es, fs => fs.any (fun f => same k f.1 && same v f.2) && sameEntries es fs

end

/-! ## Knots -/

mutual

/-- A value in which a label stands for `whole`. Keys of mappings hold no labels. -/
def untied (label : Nat) (whole : Value) : Value → Value
  | again l isMapping => if l == label then whole else again l isMapping
  | knot l body => if l == label then knot l body else knot l (untied label whole body)
  | list items => list (untiedItems label whole items)
  | tuple items => tuple (untiedItems label whole items)
  | mapping entries => mapping (untiedEntries label whole entries)
  | v => v

/-- Values in which a label stands for `whole`. -/
def untiedItems (label : Nat) (whole : Value) : List Value → List Value
  | [] => []
  | v :: rest => untied label whole v :: untiedItems label whole rest

/-- Entries in whose values a label stands for `whole`. -/
def untiedEntries (label : Nat) (whole : Value) : List (Value × Value) → List (Value × Value)
  | [] => []
  | (k, v) :: rest => (k, untied label whole v) :: untiedEntries label whole rest

end

/-- A value whose outermost collection is no knot: a knot becomes the collection that it is, with
the knot where the label stands. -/
def unfolded : Value → Value
  | knot label body => untied label (knot label body) body
  | v => v

/-! ## Entries of mappings -/

/-- The entry of a mapping under a key. -/
def lookup? {α : Type} (key : Value) : List (Value × α) → Option α
  | [] => none
  | (k, v) :: rest => if same k key then some v else lookup? key rest

/-- The entry of a mapping under a text key. -/
def field? (entries : List (Value × Value)) (name : String) : Option Value :=
  lookup? (.text name) entries

/-- The entry of a mapping under a text key, or null. -/
def field (entries : List (Value × Value)) (name : String) : Value :=
  (field? entries name).getD .null

/-- Sets the value under a key: an equal key keeps its place, a new one comes last. -/
def insert {α : Type} (key : Value) (value : α) : List (Value × α) → List (Value × α)
  | [] => [(key, value)]
  | (k, v) :: rest =>
    if same k key then (k, value) :: rest else (k, v) :: insert key value rest

/-- A mapping with text keys. -/
def record (fields : List (String × Value)) : Value :=
  .mapping (fields.map fun (name, value) => (.text name, value))

/-- A list of texts. -/
def texts (items : List String) : Value := .list (items.map Value.text)

end Value

end GuestCode
