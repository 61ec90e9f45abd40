import GuestCode.Failure
import GuestCode.Text.Numeral

/-!
# Coercions

Values taken for lists, mappings and whole numbers. What cannot be taken so is a failure.

* `Value.members`: the members of a value
* `Value.asMapping`: the entries of a value
* `Value.asPath`: the path that a value denotes
* `Value.wholeNumber`: the whole number that a value is or denotes
* `Value.shown`: a value as it is shown, if it can be
* `Value.requireHashable`: whether a value can be a member of a set
* `Value.isEndless`: whether a value goes on without end
-/

namespace GuestCode.Value

/-- The members of a value: the characters of a text, the keys of a mapping, the members of a list
or set. -/
def members (v : Value) : Except Failure (List Value) :=
  match v.unfolded with
  | text s => .ok (s.toList.map fun c => text (String.singleton c))
  | list items | tuple items | set items => .ok items
  | mapping entries => .ok (entries.map Prod.fst)
  | bytes octets => .ok (octets.map fun b => int b.toNat)
  | v => .error (.mismatch .wrongKind ("'" ++ v.kindName ++ "' object is not iterable"))

/-- The members of a value, none if it counts as false. -/
def membersOrNone (v : Value) : Except Failure (List Value) :=
  if v.isTruthy then v.members else .ok []

mutual

/-- Refuses a value that can be no key of a mapping and no member of a set: a collection that can
change, or a group that holds one. -/
def requireHashable : Value → Except Failure Unit
  | list _ => .error (.mismatch .wrongKind "unhashable type: 'list'")
  | mapping _ => .error (.mismatch .wrongKind "unhashable type: 'dict'")
  | set _ => .error (.mismatch .wrongKind "unhashable type: 'set'")
  | tuple items => requireHashableItems items
  | knot _ body => requireHashable body
  | _ => .ok ()

/-- Refuses values of which one can be no member of a set. -/
def requireHashableItems : List Value → Except Failure Unit
  | [] => .ok ()
  | v :: rest => do
    requireHashable v
    requireHashableItems rest

end

/-- Puts pairs, of which the first is number `index`, after the entries of a mapping. -/
def insertPairs (index : Nat) (entries : List (Value × Value)) :
    List Value → Except Failure (List (Value × Value))
  | [] => .ok entries
  | v :: rest => do
    let parts ←
      match v.members with
      | .ok parts => pure parts
      | .error _ =>
        .error (.mismatch .wrongKind
          ("cannot convert dictionary update sequence element #" ++ toString index ++
            " to a sequence"))
    match parts with
    | [key, value] => do
      key.requireHashable
      insertPairs (index + 1) (insert key value entries) rest
    | _ =>
      .error (.mismatch .wrongValue
        ("dictionary update sequence element #" ++ toString index ++ " has length " ++
          toString parts.length ++ "; 2 is required"))

/-- The entries of a value: those of a mapping, or the pairs that a list holds. -/
def asMapping (v : Value) : Except Failure (List (Value × Value)) :=
  match v.unfolded with
  | mapping entries => .ok entries
  | v => do insertPairs 0 [] (← v.members)

/-- The failure of asking a value that is no mapping for an entry. -/
def noMember (v : Value) (member : String) : Failure :=
  .mismatch .noMember ("'" ++ v.kindName ++ "' object has no attribute '" ++ member ++ "'")

/-- The entries of a value that must be a mapping. -/
def entries (v : Value) : Except Failure (List (Value × Value)) :=
  match v.unfolded with
  | mapping es => .ok es
  | v => .error (noMember v "get")

/-- The entries of a value that may be left out; one that counts as false is. -/
def optionalEntries (v : Value) : Except Failure (List (Value × Value)) :=
  if v.isTruthy then v.entries else .ok []

/-- The path that a value denotes, which only a text does. -/
def asPath : Value → Except Failure Path
  | text s => .ok (Path.ofString s)
  | bytes _ =>
    .error (.mismatch .wrongKind
      ("argument should be a str object or an os.PathLike object returning str, not " ++
        "<class 'bytes'>"))
  | v =>
    .error (.mismatch .wrongKind
      ("expected str, bytes or os.PathLike object, not " ++ v.shortKindName))

/-! ## Whole numbers -/

/-- The most characters of a literal that are shown where it is no numeral. -/
def shownLiteral : Nat := 200

/-- The failure of a literal that denotes no integer to a base. -/
def numeralFailure (base : Nat) (literal : String) : Text.Numeral.Fault → Failure
  | .malformed =>
    .mismatch .wrongValue
      ("invalid literal for int() with base " ++ toString base ++ ": " ++
        String.ofList (literal.toList.take shownLiteral))
  | .tooLong digits =>
    .mismatch .wrongValue
      ("Exceeds the limit (" ++ toString Text.Numeral.maxDigits ++
        " digits) for integer string conversion: value has " ++ toString digits ++
        " digits; use sys.set_int_max_str_digits() to increase the limit")

/-- The integer that a text denotes to a base. -/
def integerOfText (base : Nat) (s : String) : Except Failure Int :=
  (Text.Numeral.read base s.toList).mapError (numeralFailure base (quotedString s))

/-- The integer that octets denote. Only ASCII characters can be part of a numeral. -/
def integerOfOctets (octets : List UInt8) : Except Failure Int :=
  let chars := octets.map fun b => if b < 128 then Char.ofNat b.toNat else '?'
  (Text.Numeral.read 10 chars).mapError
    (numeralFailure 10 (bytesLiteral (octets.take shownLiteral)))

/-- The whole number that a value is or denotes; a fraction is cut off. -/
def wholeNumber : Value → Except Failure Int
  | int n => .ok n
  | bool b => .ok (ofBool b)
  | float x =>
    match x, x.truncate? with
    | _, some n => .ok n
    | .nan, none => .error (.mismatch .wrongValue "cannot convert float NaN to integer")
    | _, none => .error (.mismatch .overflow "cannot convert float infinity to integer")
  | text s => integerOfText 10 s
  | bytes octets => integerOfOctets octets
  | v =>
    .error (.mismatch .wrongKind
      ("int() argument must be a string, a bytes-like object or a real number, not '" ++
        v.kindName ++ "'"))

/-! ## Texts -/

/-- Whether an integer has too many digits to be written. -/
def isLongInteger (n : Int) : Bool := decide (Nat.pow 10 Text.Numeral.maxDigits ≤ n.natAbs)

mutual

/-- Whether an integer with too many digits to be written is in a value. -/
def holdsLongInteger : Value → Bool
  | int n => isLongInteger n
  | list items | tuple items | set items => itemsHoldLongInteger items
  | mapping entries => entriesHoldLongInteger entries
  | knot _ body => holdsLongInteger body
  | _ => false

/-- Whether an integer with too many digits to be written is in one of some values. -/
def itemsHoldLongInteger : List Value → Bool
  | [] => false
  | v :: rest => holdsLongInteger v || itemsHoldLongInteger rest

/-- Whether an integer with too many digits to be written is in one of some entries. -/
def entriesHoldLongInteger : List (Value × Value) → Bool
  | [] => false
  | (k, v) :: rest => holdsLongInteger k || holdsLongInteger v || entriesHoldLongInteger rest

end

/-- The failure of writing an integer with too many digits. -/
def tooManyDigits : Failure :=
  .mismatch .wrongValue
    ("Exceeds the limit (" ++ toString Text.Numeral.maxDigits ++
      " digits) for integer string conversion; " ++
      "use sys.set_int_max_str_digits() to increase the limit")

/-- A value as it is shown, which one with a long integer in it cannot be. -/
def shown (v : Value) : Except Failure String :=
  if v.holdsLongInteger then .error tooManyDigits else .ok v.display

/-! ## Values without end -/

mutual

/-- Whether a value goes on without end, since a collection in it is part of itself. -/
def isEndless : Value → Bool
  | list items | tuple items | set items => itemsAreEndless items
  | mapping entries => entriesAreEndless entries
  | knot _ body => isEndless body
  | again .. => true
  | _ => false

/-- Whether one of some values goes on without end. -/
def itemsAreEndless : List Value → Bool
  | [] => false
  | v :: rest => isEndless v || itemsAreEndless rest

/-- Whether one of some entries goes on without end. -/
def entriesAreEndless : List (Value × Value) → Bool
  | [] => false
  | (k, v) :: rest => isEndless k || isEndless v || entriesAreEndless rest

end

end GuestCode.Value
