import GuestCode.Failure

/-!
# Order of values

Numbers are ordered with numbers, texts with texts, dates with dates and lists with lists; values
of other or different kinds have no order, and comparing them fails.

* `Value.less`: the order
* `sortBy`: stable sorting by an order that may fail
* `Value.sortDescending`: sorting by a key, the greatest first
-/

namespace GuestCode

namespace Value

/-- The failure of comparing two values. -/
def noOrder (v w : Value) : Failure :=
  .mismatch .wrongKind
    ("'<' not supported between instances of '" ++ v.kindName ++ "' and '" ++ w.kindName ++ "'")

/-- The order of dates. -/
def dateBefore (d e : Date) : Bool :=
  d.year < e.year || (d.year == e.year &&
    (d.month < e.month || (d.month == e.month && d.day < e.day)))

mutual

/-- Whether a value comes before another one. Lists are compared at the first place where they
differ. -/
def less : Value → Value → Except Failure Bool
  | text s, text t => .ok (s < t)
  | date d, date e => .ok (dateBefore d e)
  | list xs, list ys => lessList xs ys
  | tuple xs, tuple ys => lessList xs ys
  | v, w =>
    match v.number?, w.number? with
    | some a, some b => .ok (compareNumbers? a b == some .lt)
    | _, _ => .error (noOrder v w)

/-- Whether a list comes before another one. -/
def lessList : List Value → List Value → Except Failure Bool
  | [], ys => .ok (!ys.isEmpty)
  | _ :: _, [] => .ok false
  | x :: xs, y :: ys => if same x y then lessList xs ys else less x y

end

end Value

/-! ## Sorting -/

section Sorting

variable {α : Type} (less : α → α → Except Failure Bool)

/-- The place at which an element is inserted into a sorted array, between two bounds: behind the
elements that it does not come before. -/
def insertionPlace (sorted : Array α) (pivot : α) (low high : Nat) : Except Failure Nat :=
  if low < high then
    let middle := low + (high - low) / 2
    match sorted[middle]? with
    | none => .ok low
    | some x => do
      if ← less pivot x then insertionPlace sorted pivot low middle
      else insertionPlace sorted pivot (middle + 1) high
  else .ok low
termination_by high - low

/-- Inserts the elements of a list into a sorted array, one after the other. -/
def insertAll (sorted : Array α) : List α → Except Failure (Array α)
  | [] => .ok sorted
  | x :: rest => do
    let place ← insertionPlace less sorted x 0 sorted.size
    insertAll (sorted.toList.take place ++ x :: sorted.toList.drop place).toArray rest

/-- Divides a list after its longest start in which each element comes before the last one, or in
which none does; `last` is the element before. -/
def runAfter (descending : Bool) (last : α) : List α → Except Failure (List α × List α)
  | [] => .ok ([], [])
  | x :: rest => do
    if (← less x last) == descending then
      let (run, others) ← runAfter descending x rest
      return (x :: run, others)
    else return ([], x :: rest)

/-- Sorts a list by an order that may fail; elements of which neither comes before the other keep
their order. A run at the start is taken as it is, or turned round if it descends. -/
def sortBy : List α → Except Failure (List α)
  | [] => .ok []
  | [x] => .ok [x]
  | x :: y :: rest => do
    let descending ← less y x
    let (run, others) ← runAfter less descending y rest
    let run := x :: y :: run
    let sorted ← insertAll less (if descending then run.reverse else run).toArray others
    return sorted.toList

end Sorting

/-- Sorts elements by a key, the greatest first; elements with equal keys keep their order. -/
def Value.sortDescending {α : Type} (key : α → Value) (xs : List α) : Except Failure (List α) := do
  let sorted ← sortBy (fun a b => Value.less (key a) (key b)) xs.reverse
  return sorted.reverse

end GuestCode
