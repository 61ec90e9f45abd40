import GuestCode.Snippet.Region

/-!
# Places counted from the end

A negative place counts from the end of a text: -1 is the place of its last character. Reading from
such a place on goes over the end of the text to its first character and through all of it.

* `readFrom?`: the characters from a place on
* `sliceBetween`: the characters between two places
* `signedArguments?`: the arguments of a call whose parenthesis is at such a place
-/

namespace GuestCode

/-- The characters of a text from a place on, `none` if there is no such place before the end. -/
def readFrom? (text : List Char) (start : Int) : Option (List Char) :=
  if 0 ≤ start then some (text.drop start.toNat)
  else if start.natAbs ≤ text.length then
    some (text.drop (text.length - start.natAbs) ++ text)
  else none

/-- A place as one that is counted from the start; one before the start is the start. -/
def placeFromStart (text : List Char) (place : Int) : Nat :=
  if 0 ≤ place then place.toNat else text.length - place.natAbs

/-- The characters between two places. -/
def sliceBetween (text : List Char) (start stop : Int) : List Char :=
  Region.slice text (placeFromStart text start) (placeFromStart text stop)

/-- The ranges of the arguments of a call by places of both kinds, and the closing parenthesis. -/
structure SignedArguments where
  spans : List (Int × Int)
  close : Nat
deriving Repr, DecidableEq, Inhabited

/-- Arguments by places counted from the start. -/
def SignedArguments.ofArguments (a : Arguments) : SignedArguments :=
  ⟨a.spans.map fun (start, stop) => ((start : Int), (stop : Int)), a.close⟩

/-- The text of each argument. -/
def SignedArguments.texts (source : List Char) (a : SignedArguments) : List (List Char) :=
  a.spans.map fun (start, stop) => sliceBetween source start stop

/-- The range from a place counted from the end to one counted from the start, without the blanks
at its ends; `none` if there is no such place. -/
def trimmedAcrossEnd? (source : List Char) (start : Int) (stop : Nat) : Option (Int × Int) :=
  (readFrom? source start).map fun text =>
    let inner := text.take (stop + start.natAbs)
    let first := start + (inner.takeWhile Text.isBlank).length
    let inner := inner.dropWhile Text.isBlank
    (first, first + inner.length - (inner.reverse.takeWhile Text.isBlank).length)

/-- The arguments of the call whose parenthesis is at a place, `none` inside if it is not closed.
The first argument is read from behind the parenthesis on, so that place must be there. -/
def signedArguments? (source : List Char) (code : List Placed) (start : Int) :
    Option (Option SignedArguments) :=
  if 0 ≤ start + 1 then
    some ((argumentSpans? source code start).map SignedArguments.ofArguments)
  else
    match commasIn? 0 code with
    | none => some none
    | some (commas, close) =>
      let first := (commas ++ [close]).headD close
      (trimmedAcrossEnd? source (start + 1) first).map fun span =>
        let others := (spansBetween source (first + 1) ((commas ++ [close]).tail)).map
          fun (start, stop) => ((start : Int), (stop : Int))
        if others.isEmpty && span.1 == span.2 then some ⟨[], close⟩
        else some ⟨span :: others, close⟩

end GuestCode
