import GuestCode.Yaml.Cursor
import GuestCode.Json.Reader

/-!
# Scalars as they are written

The three ways in which a scalar stands in a YAML text: plain, quoted, and as a block. Each reader
is given the place where the scalar starts and returns its text and the place after it.

* `Yaml.readPlain`, `Yaml.readQuoted?`, `Yaml.readBlock?`
-/

namespace GuestCode.Yaml

/-! ## Plain scalars -/

/-- The number of characters of a plain scalar up to the next gap. A colon ends the scalar if a gap
follows; between flow brackets, so do the marks of flow collections. -/
def plainLength (flow : Bool) : List Char → Nat
  | [] => 0
  | c :: rest =>
    let after := rest.head?.getD '\x00'
    if isGap c then 0
    else if c == ':' && (isGap after || (flow && ",[]\x7b\x7d".toList.contains after)) then 0
    else if flow && ",?[]\x7b\x7d".toList.contains c then 0
    else plainLength flow rest + 1

/-- The breaks between two lines of a plain scalar, and whether a document marker ends it. -/
def plainBreaks : Nat → Cursor → List Char × Cursor × Bool
  | 0, c => ([], c, false)
  | fuel + 1, c =>
    let c := c.skip (· == ' ')
    match c.lineBreak with
    | ([], _) => ([], c, false)
    | (br, after) =>
      if after.isDocumentMarker then ([], after, true)
      else
        let (breaks, c, ended) := plainBreaks fuel after
        (br ++ breaks, c, ended)

/-- The text that a gap of a plain scalar stands for, empty if the scalar cannot go on; the place
after it; and whether the gap holds a line break. -/
def plainGap (c : Cursor) : List Char × Cursor × Bool :=
  let (spaces, c) := c.span (· == ' ')
  match c.lineBreak with
  | ([], _) => (spaces, c, false)
  | (br, c) =>
    if c.isDocumentMarker then ([], c, true)
    else
      let (breaks, c, ended) := plainBreaks c.rest.length c
      if ended then ([], c, true)
      else if br != ['\n'] then (br ++ breaks, c, true)
      else if breaks.isEmpty then ([' '], c, true)
      else (breaks, c, true)

/-- A scalar that has been read: its text, the place after it, and whether a new line has been
started since. -/
structure PlainText where
  text : List Char
  cursor : Cursor
  newLine : Bool
deriving Repr, DecidableEq, Inhabited

/-- Reads on in a plain scalar whose lines are indented by `indent` at least; `gap` stands before
what comes next. -/
def readPlainFrom (flow : Bool) (indent : Int) :
    Nat → PlainText → List Char → PlainText
  | 0, sofar, _ => sofar
  | fuel + 1, sofar, gap =>
    let c := sofar.cursor
    let length := plainLength flow c.rest
    if c.peek 0 == '#' || length = 0 then sofar
    else
      let text := sofar.text ++ gap ++ c.rest.take length
      let (gap, c, newLine) := plainGap (c.forward length)
      let sofar : PlainText := ⟨text, c, newLine⟩
      if gap.isEmpty || c.peek 0 == '#' || (!flow && (c.column : Int) < indent) then sofar
      else readPlainFrom flow indent fuel sofar gap

/-- Reads a plain scalar. -/
def readPlain (flow : Bool) (indent : Int) (c : Cursor) : PlainText :=
  readPlainFrom flow indent (c.rest.length + 1) ⟨[], c, false⟩ []

/-! ## Quoted scalars -/

/-- The characters that one-letter escapes stand for. -/
def escapes : List (Char × Char) :=
  [('0', '\x00'), ('a', '\x07'), ('b', '\x08'), ('t', '\t'), ('\t', '\t'), ('n', '\n'),
    ('v', '\x0b'), ('f', '\x0c'), ('r', '\r'), ('e', '\x1b'), (' ', ' '), ('"', '"'),
    ('\\', '\\'), ('/', '/'), ('N', '\u0085'), ('_', '\u00a0'), ('L', '\u2028'), ('P', '\u2029')]

/-- The number of digits after the letters of numerical escapes. -/
def escapeDigits : List (Char × Nat) := [('x', 2), ('u', 4), ('U', 8)]

/-- The breaks between two lines of a quoted scalar; a document marker there is a fault. -/
def quotedBreaks : Nat → Cursor → Option (List Char × Cursor)
  | 0, c => some ([], c)
  | fuel + 1, c =>
    if c.isDocumentMarker then none
    else
      let c := c.skip fun ch => ch == ' ' || ch == '\t'
      match c.lineBreak with
      | ([], _) => some ([], c)
      | (br, c) => (quotedBreaks fuel c).map fun (breaks, c) => (br ++ breaks, c)

/-- The text that a gap of a quoted scalar stands for. -/
def quotedGap (c : Cursor) : Option (List Char × Cursor) :=
  let (spaces, c) := c.span fun ch => ch == ' ' || ch == '\t'
  match c.lineBreak with
  | ([], _) => if c.rest.isEmpty then none else some (spaces, c)
  | (br, c) =>
    (quotedBreaks (c.rest.length + 1) c).map fun (breaks, c) =>
      if br != ['\n'] then (br ++ breaks, c)
      else if breaks.isEmpty then ([' '], c)
      else (breaks, c)

/-- A piece of a quoted scalar: the characters that it stands for, or the number of a character
that there is none of. -/
inductive Piece where
  | chars (text : List Char)
  | noCharacter (code : Nat)
deriving Repr, DecidableEq, Inhabited

/-- What the number of a character stands for. -/
def Piece.ofCode (code : Nat) : Piece :=
  if 0x110000 ≤ code then .noCharacter code
  else if 0xD800 ≤ code && code < 0xE000 then .chars [Utf8.replacement]
  else .chars [Char.ofNat code]

/-- What an escape stands for, read after its backslash. -/
def readEscape? (c : Cursor) : Option (Piece × Cursor) :=
  let ch := c.peek 0
  match escapes.lookup ch with
  | some replacement => some (.chars [replacement], c.next)
  | none =>
    match escapeDigits.lookup ch with
    | some count =>
      let digits := (c.next.rest).take count
      if digits.length < count then none
      else
        (Json.hexValue? digits).map fun code => (Piece.ofCode code, c.forward (count + 1))
    | none =>
      match c.lineBreak with
      | ([], _) => none
      | (_, c) =>
        (quotedBreaks (c.rest.length + 1) c).map fun (breaks, c) => (.chars breaks, c)

/-- The next piece of a quoted scalar, `none` in the first place at its closing quote. -/
def readPiece? (double : Bool) (c : Cursor) : Option (Option Piece × Cursor) :=
  let single (read : Option (List Char × Cursor)) : Option (Option Piece × Cursor) :=
    read.map fun (text, c) => (some (.chars text), c)
  match c.rest with
  | [] => none
  | ch :: _ =>
    if ch == ' ' || ch == '\t' || isBreak ch then single (quotedGap c)
    else if !double && ch == '\'' then
      if c.peek 1 == '\'' then single (some (['\''], c.forward 2)) else some (none, c)
    else if double && ch == '"' then some (none, c)
    else if double && ch == '\\' then (readEscape? c.next).map fun (piece, c) => (some piece, c)
    else single (some ([ch], c.next))

/-- Reads a quoted scalar up to its closing quote and returns the place of it. The number of a
character that there is none of ends the reading. -/
def readQuotedFrom (double : Bool) : Nat → Cursor → Option (Piece × Cursor)
  | 0, _ => none
  | fuel + 1, c => do
    match ← readPiece? double c with
    | (none, c) => return (.chars [], c)
    | (some (.noCharacter code), c) => return (.noCharacter code, c)
    | (some (.chars text), c) =>
      match ← readQuotedFrom double fuel c with
      | (.chars others, c) => return (.chars (text ++ others), c)
      | fault => return fault

/-- Reads a quoted scalar from its opening quote on. -/
def readQuoted? (c : Cursor) : Option (Piece × Cursor) :=
  let double := c.peek 0 == '"'
  (readQuotedFrom double (c.rest.length + 1) c.next).map fun (piece, c) => (piece, c.next)

/-! ## Block scalars -/

/-- What becomes of the line breaks at the end of a block scalar. -/
inductive Chomping where
  | clip
  | strip
  | keep
deriving Repr, DecidableEq, Inhabited

/-- The meaning of a chomping mark. -/
def chomping? (c : Char) : Option Chomping :=
  if c == '+' then some .keep else if c == '-' then some .strip else none

/-- Reads the marks after `|` or `>`: chomping and indentation, in either order. -/
def readBlockHead? (c : Cursor) : Option (Chomping × Option Nat × Cursor) :=
  let digit? (ch : Char) : Option Nat := if ch.isDigit then some (ch.toNat - 48) else none
  let first := c.peek 0
  let (chomping, increment, c) :=
    match chomping? first with
    | some ch =>
      match digit? (c.peek 1) with
      | some d => (ch, some d, c.forward 2)
      | none => (ch, none, c.forward 1)
    | none =>
      match digit? first with
      | some d =>
        match chomping? (c.peek 1) with
        | some ch => (ch, some d, c.forward 2)
        | none => (.clip, some d, c.forward 1)
      | none => (.clip, none, c)
  if increment == some 0 || !(c.peek 0 == ' ' || isLineEnd (c.peek 0)) then none
  else some (chomping, increment, c)

/-- The place after the rest of a line that may hold a comment only. -/
def skipComment? (c : Cursor) : Option Cursor :=
  let c := c.skip (· == ' ')
  let c := if c.peek 0 == '#' then c.skip fun ch => !isBreak ch else c
  if isLineEnd (c.peek 0) then some c.lineBreak.2 else none

/-- The breaks before the first line of a block scalar, the place of that line, and the greatest
column on the way. -/
def blockIndentation : Nat → Nat → Cursor → List Char × Nat × Cursor
  | 0, deepest, c => ([], deepest, c)
  | fuel + 1, deepest, c =>
    if c.peek 0 == ' ' then
      blockIndentation fuel (max deepest c.next.column) c.next
    else
      match c.lineBreak with
      | ([], _) => ([], deepest, c)
      | (br, c) =>
        let (breaks, deepest, c) := blockIndentation fuel deepest c
        (br ++ breaks, deepest, c)

/-- The place after at most as many spaces as lead to a column. -/
def skipToColumn (column : Nat) : Nat → Cursor → Cursor
  | 0, c => c
  | fuel + 1, c =>
    if c.column < column && c.peek 0 == ' ' then skipToColumn column fuel c.next else c

/-- The breaks between two lines of a block scalar. -/
def blockBreaks (indent : Nat) : Nat → Cursor → List Char × Cursor
  | 0, c => ([], c)
  | fuel + 1, c =>
    let c := skipToColumn indent indent c
    match c.lineBreak with
    | ([], _) => ([], c)
    | (br, c) =>
      let (breaks, c) := blockBreaks indent fuel c
      (br ++ breaks, c)

/-- Reads the lines of a block scalar; `breaks` stand before the first of them. Where lines are
folded, a single break between two lines that start with no blank becomes a space. -/
def readBlockLines (folded : Bool) (chomping : Chomping) (indent : Nat) :
    Nat → List Char → Cursor → List Char × Cursor
  | 0, _, c => ([], c)
  | fuel + 1, breaks, c =>
    let isBlank (ch : Char) := ch == ' ' || ch == '\t'
    let startsPlain := !isBlank (c.peek 0)
    let (line, c) := c.span fun ch => !isBreak ch
    let (br, c) := c.lineBreak
    let (nextBreaks, c) := blockBreaks indent (c.rest.length + 1) c
    if c.column = indent && !c.rest.isEmpty then
      let joint :=
        if folded && br == ['\n'] && startsPlain && !isBlank (c.peek 0) then
          if nextBreaks.isEmpty then [' '] else []
        else br
      let (others, c) := readBlockLines folded chomping indent fuel nextBreaks c
      (breaks ++ line ++ joint ++ others, c)
    else
      let ending :=
        match chomping with
        | .strip => []
        | .clip => br
        | .keep => br ++ nextBreaks
      (breaks ++ line ++ ending, c)

/-- Reads a block scalar from its mark on, inside a block indented by `indent`. -/
def readBlock? (indent : Int) (c : Cursor) : Option (List Char × Cursor) := do
  let folded := c.peek 0 == '>'
  let (chomping, increment, c) ← readBlockHead? c.next
  let c ← skipComment? c
  let least := (max 1 (indent + 1)).toNat
  let (breaks, column, c) :=
    match increment with
    | none =>
      let (breaks, deepest, c) := blockIndentation (c.rest.length + 1) 0 c
      (breaks, max least deepest, c)
    | some n =>
      let column := least + n - 1
      let (breaks, c) := blockBreaks column (c.rest.length + 1) c
      (breaks, column, c)
  if c.column = column && !c.rest.isEmpty then
    return readBlockLines folded chomping column (c.rest.length + 1) breaks c
  else
    return (if chomping == .keep then breaks else [], c)

end GuestCode.Yaml
