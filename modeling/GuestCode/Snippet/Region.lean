import GuestCode.Snippet.Segment

/-!
# Regions of a snippet

The segments of a snippet together with their places in it, and what is looked up by place: the
region at an index, the bracket that closes another one, the arguments of a call. Brackets and
commas count only where they are code. Places count characters.

* `Region`, `Region.ofSource`: the regions of a snippet
* `redact`: a snippet with its comments and literals blanked out
* `regionAt?`, `isCodeAt`: look-up by place
* `closing?`, `argumentSpans?`: matching brackets and the arguments between them
-/

namespace GuestCode

open Text

/-- A half-open range of places in a snippet that is of one kind. -/
structure Region where
  kind : Segment.Kind
  start : Nat
  stop : Nat
deriving Repr, DecidableEq, Inhabited

namespace Region

/-- The characters between two places of a text. -/
def slice (source : List Char) (start stop : Nat) : List Char :=
  (source.drop start).take (stop - start)

/-- The text of a region. -/
def text (source : List Char) (region : Region) : List Char :=
  slice source region.start region.stop

/-- The regions of consecutive segments, of which the first starts at `start`. -/
def ofSegments (start : Nat) : List Segment → List Region
  | [] => []
  | s :: rest =>
    ⟨s.kind, start, start + s.text.length⟩ :: ofSegments (start + s.text.length) rest

/-- The regions of a snippet. -/
def ofSource (source : List Char) : List Region :=
  ofSegments 0 (Segment.split source)

end Region

/-! ## Redaction -/

namespace Segment

/-- What a segment leaves in the redacted view: code stays, a comment becomes one space and a
literal an empty string; the line ends of a redacted segment follow. -/
def redacted (segment : Segment) : List Char :=
  if segment.kind == .code then segment.text
  else
    (if segment.kind.isComment then [' '] else ['"', '"']) ++
      List.replicate (segment.text.count '\n') '\n'

end Segment

/-- A snippet without the text of its comments and literals, line for line. -/
def redact (source : List Char) : List Char :=
  (Segment.split source).flatMap Segment.redacted

/-- The number of line ends in a text. -/
def countLineEnds (text : List Char) : Nat := text.count '\n'

/-! ## Look-up by place -/

/-- The region at an index, by bisection of the regions numbered from `low` to `high`; each round
at least halves their number. -/
def regionBetween? (regions : Array Region) (index : Int) (low high : Nat) : Option Region :=
  if low < high then
    let middle := (low + high) / 2
    match regions[middle]? with
    | none => none
    | some region =>
      if index < region.start then regionBetween? regions index low middle
      else if (region.stop : Int) ≤ index then regionBetween? regions index (middle + 1) high
      else some region
  else none
termination_by high - low

/-- The region at an index, if the index lies in the snippet. -/
def regionAt? (regions : List Region) (index : Int) : Option Region :=
  let table := regions.toArray
  regionBetween? table index 0 table.size

/-- Whether an index is that of a character of code. -/
def isCodeAt (regions : List Region) (index : Int) : Bool :=
  match regionAt? regions index with
  | some region => region.kind == .code
  | none => false

/-- A character of a snippet and its place. -/
structure Placed where
  place : Nat
  char : Char
deriving Repr, DecidableEq, Inhabited

/-- The characters of a text with their places, the first of which is `start`. -/
def placedFrom (start : Nat) : List Char → List Placed
  | [] => []
  | c :: cs => ⟨start, c⟩ :: placedFrom (start + 1) cs

/-- The characters of code among consecutive segments, of which the first starts at `start`. -/
def codeOfSegments (start : Nat) : List Segment → List Placed
  | [] => []
  | s :: rest =>
    (if s.kind == .code then placedFrom start s.text else []) ++
      codeOfSegments (start + s.text.length) rest

/-- The characters of code of a snippet, from left to right. -/
def codeChars (source : List Char) : List Placed :=
  codeOfSegments 0 (Segment.split source)

/-! ## Brackets and arguments -/

/-- Whether a character opens a bracket. -/
def isOpening (c : Char) : Bool := c == '(' || c == '[' || c == '\x7b'

/-- Whether a character closes a bracket. -/
def isClosing (c : Char) : Bool := c == ')' || c == ']' || c == '\x7d'

/-- The place where the depth of brackets, `depth` so far, comes down to zero. -/
def closingIn? (depth : Int) : List Placed → Option Nat
  | [] => none
  | p :: rest =>
    if isOpening p.char then closingIn? (depth + 1) rest
    else if isClosing p.char then
      if depth - 1 = 0 then some p.place else closingIn? (depth - 1) rest
    else closingIn? depth rest

/-- The place of the bracket that closes the one at `start`. -/
def closing? (code : List Placed) (start : Int) : Option Nat :=
  closingIn? 0 (code.dropWhile fun p => decide ((p.place : Int) < start))

/-- The commas at depth one up to the bracket that brings the depth, `depth` so far, down to zero,
and that bracket. -/
def commasIn? (depth : Int) : List Placed → Option (List Nat × Nat)
  | [] => none
  | p :: rest =>
    if isOpening p.char then commasIn? (depth + 1) rest
    else if isClosing p.char then
      if depth - 1 = 0 then some ([], p.place) else commasIn? (depth - 1) rest
    else if p.char == ',' && depth == 1 then
      (commasIn? depth rest).map fun (commas, close) => (p.place :: commas, close)
    else commasIn? depth rest

/-- A range of places without the blanks at its ends. -/
def trimSpan (source : List Char) (start stop : Nat) : Nat × Nat :=
  let inner := Region.slice source start stop
  let start := start + (inner.takeWhile isBlank).length
  let inner := inner.dropWhile isBlank
  (start, start + inner.length - (inner.reverse.takeWhile isBlank).length)

/-- The ranges between consecutive boundaries, without the blanks at their ends. -/
def spansBetween (source : List Char) (start : Nat) : List Nat → List (Nat × Nat)
  | [] => []
  | boundary :: rest =>
    trimSpan source start boundary :: spansBetween source (boundary + 1) rest

/-- The ranges of the arguments of a call, none for a blank list, and the closing parenthesis. -/
structure Arguments where
  spans : List (Nat × Nat)
  close : Nat
deriving Repr, DecidableEq, Inhabited

/-- The arguments of the call whose parenthesis is at `start`, if it is closed. A negative `start`
stands just before the snippet. -/
def argumentSpans? (source : List Char) (code : List Placed) (start : Int) : Option Arguments :=
  let code := code.dropWhile fun p => decide ((p.place : Int) < start)
  (commasIn? 0 code).map fun (commas, close) =>
    match spansBetween source (start + 1).toNat (commas ++ [close]) with
    | [(first, last)] => if first == last then ⟨[], close⟩ else ⟨[(first, last)], close⟩
    | spans => ⟨spans, close⟩

/-- The text of each argument. -/
def Arguments.texts (source : List Char) (arguments : Arguments) : List (List Char) :=
  arguments.spans.map fun (start, stop) => Region.slice source start stop

end GuestCode
