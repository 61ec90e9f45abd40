/-!
# Written YAML text

A text that is being written, and what has to be known about its end: the column, whether a blank
stands there, and whether the line holds nothing but marks of block collections so far.

* `Yaml.Page`: the text and its end
* `Page.put`, `Page.newLine`, `Page.indentTo`, `Page.mark`: ways to go on
-/

namespace GuestCode.Yaml

/-- A text that is being written. -/
structure Page where
  text : String
  column : Nat
  /-- Whether what comes next is apart from what stands before. -/
  apart : Bool
  /-- Whether the line holds nothing but indentation and marks of block collections. -/
  fresh : Bool
deriving Repr, DecidableEq, Inhabited

namespace Page

/-- No text yet. -/
def empty : Page := ⟨"", 0, true, true⟩

/-- Writes characters. -/
def put (p : Page) (s : String) : Page :=
  { p with text := p.text ++ s, column := p.column + s.length }

/-- Starts a line. -/
def newLine (p : Page) : Page := ⟨p.text ++ "\n", 0, true, true⟩

/-- Starts lines. -/
def newLines : Nat → Page → Page
  | 0, p => p
  | n + 1, p => newLines n p.newLine

/-- Text of some spaces. -/
def blanks (n : Nat) : String := String.ofList (List.replicate n ' ')

/-- Goes to a column of a fresh line. The line is fresh already if it holds nothing but marks and
has not come too far. -/
def indentTo (column : Nat) (p : Page) : Page :=
  let p :=
    if !p.fresh || column < p.column || (p.column == column && !p.apart) then p.newLine else p
  if p.column < column then { p.put (blanks (column - p.column)) with apart := true } else p

/-- Writes a mark, with a space before it where `spaced` asks for one. `opens` tells that the mark
leaves what follows apart, and `block` that it is one of a block collection. -/
def mark (s : String) (spaced opens block : Bool) (p : Page) : Page :=
  let p := p.put (if p.apart || !spaced then s else " " ++ s)
  { p with apart := opens, fresh := p.fresh && block }

/-- Goes on in a scalar, so that the line is not fresh. -/
def within (p : Page) : Page := { p with apart := false, fresh := false }

end Page

end GuestCode.Yaml
