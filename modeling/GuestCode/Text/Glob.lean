/-!
# File name patterns

Patterns of file names: `*` stands for any text, `?` for any character, and a list in brackets for
one character that it holds or, after `!`, does not hold. In a list a hyphen between two characters
stands for a range. A bracket that is not closed stands for itself.

* `Glob.parse`, `Glob.accepts`
-/

namespace GuestCode.Glob

/-- A part of a file name pattern. -/
inductive Part where
  | anyText
  | anyChar
  | exactly (c : Char)
  | oneOf (ranges : List (Char × Char))
  | noneOf (ranges : List (Char × Char))
deriving Repr, DecidableEq, Inhabited

/-- Divides a list at its hyphens; the hyphen that a division is made at has at least `least`
characters before it. A hyphen at the end belongs to what is before it. -/
def divide : Nat → Nat → List Char → List (List Char)
  | 0, _, text => [text]
  | fuel + 1, least, text =>
    let start := text.take least ++ (text.drop least).takeWhile (· != '-')
    match text.drop start.length with
    | [] => [text]
    | [_] => [text]
    | _ :: rest => start :: divide fuel 2 rest

/-- Joins neighbours whose range would be empty, without its two ends. -/
def joinEmpty : List (List Char) → List (List Char)
  | [] => []
  | chunk :: rest =>
    match joinEmpty rest with
    | [] => [chunk]
    | next :: others =>
      if (next.head?.getD '\x00') < (chunk.getLast?.getD '\x00') then
        (chunk.dropLast ++ next.tail) :: others
      else chunk :: next :: others

/-- The ranges of divided parts: the ends of neighbours make a range, all else stands alone. -/
def rangesOf : List (List Char) → List (Char × Char)
  | [] => []
  | [chunk] => chunk.map fun c => (c, c)
  | chunk :: next :: rest =>
    let range :=
      match chunk.getLast?, next.head? with
      | some low, some high => [(low, high)]
      | _, _ => []
    chunk.dropLast.map (fun c => (c, c)) ++ range ++ rangesOf (next.tail :: rest)
termination_by chunks => chunks.length

/-- The part that a list in brackets stands for. -/
def ofList (body : List Char) : Part :=
  let least := if body.head? == some '!' then 2 else 1
  match joinEmpty (divide body.length least body) with
  | [] => .oneOf []
  | ('!' :: first) :: rest =>
    if first.isEmpty && rest.isEmpty then .anyChar else .noneOf (rangesOf (first :: rest))
  | chunks => .oneOf (rangesOf chunks)

/-- The list after an opening bracket and the text after the closing one. A closing bracket that
comes first, or right after `!`, belongs to the list. -/
def readList? (text : List Char) : Option (List Char × List Char) :=
  let mark := text.takeWhile (· == '!') |>.take 1
  let rest := text.drop mark.length
  let bracket := rest.takeWhile (· == ']') |>.take 1
  let rest := rest.drop bracket.length
  match rest.dropWhile (· != ']') with
  | [] => none
  | _ :: after => some (mark ++ bracket ++ rest.takeWhile (· != ']'), after)

/-- The parts of a pattern; the fuel is the number of its characters. -/
def parseUpTo : Nat → List Char → List Part
  | 0, _ => []
  | _, [] => []
  | fuel + 1, c :: rest =>
    if c == '*' then .anyText :: parseUpTo fuel rest
    else if c == '?' then .anyChar :: parseUpTo fuel rest
    else if c == '[' then
      match readList? rest with
      | none => .exactly '[' :: parseUpTo fuel rest
      | some (body, after) => ofList body :: parseUpTo fuel after
    else .exactly c :: parseUpTo fuel rest

/-- The parts of a pattern. -/
def parse (pattern : List Char) : List Part := parseUpTo pattern.length pattern

/-- Whether a character lies in one of some ranges. -/
def inRanges (ranges : List (Char × Char)) (c : Char) : Bool :=
  ranges.any fun (low, high) => low ≤ c && c ≤ high

/-- Whether a part that stands for one character stands for this one. -/
def Part.acceptsChar : Part → Char → Bool
  | anyText, _ => false
  | anyChar, _ => true
  | exactly d, c => c == d
  | oneOf ranges, c => inRanges ranges c
  | noneOf ranges, c => !inRanges ranges c

/-- Whether a name is one that the parts stand for. -/
def accepts : List Part → List Char → Bool
  | [], name => name.isEmpty
  | .anyText :: parts, name =>
    accepts parts name ||
      match name with
      | [] => false
      | _ :: rest => accepts (.anyText :: parts) rest
  | _ :: _, [] => false
  | part :: parts, c :: rest => part.acceptsChar c && accepts parts rest
termination_by parts name => (parts.length, name.length)

end GuestCode.Glob
