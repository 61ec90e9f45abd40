import GuestCode.Text.Classes

/-!
# Text patterns

A small language of text patterns with ordered choice. A pattern is a tree; `Pattern.ends` lists
all the ways in which it matches at a place of a text, the preferred one first, so that a match is
the head of that list. A greedy repetition prefers to go on and a lazy one prefers to stop.

* `Pattern`, `Pattern.ends`: the language and its meaning
* `Pattern.search?`, `Pattern.parts`, `Pattern.replace`: looking for a pattern in a whole text
* `Pattern.all`, `Pattern.anyOf`, `Pattern.word`, ...: the vocabulary that patterns are written in

## Main statements

* `Pattern.replace_eq_self_of_search?_eq_none`: a text that holds no match is left as it is.
-/

namespace GuestCode.Text

/-- The text that a labelled part of a pattern has matched. -/
structure Capture where
  label : Nat
  start : Nat
  text : List Char
deriving Repr, DecidableEq, Inhabited

/-- How far a match has come: the character before the place it has reached, the text from there
on, the number of characters before it, and what has been captured, the latest first. -/
structure Progress where
  before : Option Char
  rest : List Char
  offset : Nat
  captures : List Capture
deriving Repr, DecidableEq, Inhabited

namespace Progress

/-- The beginning of a text. -/
def ofText (text : List Char) : Progress := ⟨none, text, 0, []⟩

/-- One character further; the end of the text stays where it is. -/
def next (p : Progress) : Progress :=
  match p.rest with
  | [] => p
  | c :: cs => ⟨some c, cs, p.offset + 1, p.captures⟩

/-- `n` characters further. -/
def advance : Nat → Progress → Progress
  | 0, p => p
  | n + 1, p => advance n p.next

/-- The text captured last under a label. -/
def captured? (p : Progress) (label : Nat) : Option Capture :=
  p.captures.find? fun c => c.label == label

end Progress

/-- Patterns over texts. -/
inductive Pattern where
  /-- Matches the empty text. -/
  | empty
  /-- Matches one character of a class. -/
  | char (accepts : Char → Bool)
  /-- Matches one pattern and then another. -/
  | seq (first second : Pattern)
  /-- Matches the first pattern or, failing that, the second. -/
  | either (first second : Pattern)
  /-- Matches a pattern any number of times, as often as possible or as seldom as possible. -/
  | many (greedy : Bool) (body : Pattern)
  /-- Matches a pattern and keeps the matched text under a label. -/
  | capture (label : Nat) (body : Pattern)
  /-- Matches the text captured under a label once more. -/
  | again (label : Nat)
  /-- Matches the empty text where a condition on the surroundings holds. -/
  | condition (holds : Option Char → List Char → Bool)
  /-- Matches the empty text where a pattern matches, or where it does not. -/
  | lookahead (expected : Bool) (body : Pattern)

namespace Pattern

/-- Repeats a step that makes progress, at most `fuel` times. -/
def repeatEnds (greedy : Bool) (step : Progress → List Progress) : Nat → Progress → List Progress
  | 0, p => [p]
  | fuel + 1, p =>
    let further :=
      ((step p).filter fun q => p.offset < q.offset).flatMap (repeatEnds greedy step fuel)
    if greedy then further ++ [p] else p :: further

/-- All the ways in which a pattern matches from a place on, the preferred one first. A repetition
needs no more rounds than characters are left, since each round takes one at least. -/
def ends : Pattern → Progress → List Progress
  | .empty, p => [p]
  | .char accepts, p =>
    match p.rest with
    | [] => []
    | c :: _ => if accepts c then [p.next] else []
  | .seq first second, p => (first.ends p).flatMap second.ends
  | .either first second, p => first.ends p ++ second.ends p
  | .many greedy body, p => repeatEnds greedy body.ends p.rest.length p
  | .capture label body, p =>
    (body.ends p).map fun q =>
      { q with captures := ⟨label, p.offset, p.rest.take (q.offset - p.offset)⟩ :: q.captures }
  | .again label, p =>
    match p.captured? label with
    | none => []
    | some c => if c.text.isPrefixOf p.rest then [p.advance c.text.length] else []
  | .condition holds, p => if holds p.before p.rest then [p] else []
  | .lookahead expected body, p => if (body.ends p).isEmpty == expected then [] else [p]

/-! ## Matches in a text -/

/-- A match in a text: where it starts, the matched text, the text after it, and the captures. -/
structure Found where
  start : Nat
  text : List Char
  after : List Char
  captures : List Capture
deriving Repr, DecidableEq, Inhabited

namespace Found

/-- The match that leads from one place to another. -/
def ofEnds (p q : Progress) : Found :=
  ⟨p.offset, p.rest.take (q.offset - p.offset), q.rest, q.captures⟩

/-- The place just after the match. -/
def stop (m : Found) : Nat := m.start + m.text.length

/-- What was captured under a label. -/
def capture? (m : Found) (label : Nat) : Option Capture :=
  m.captures.find? fun c => c.label == label

/-- The text captured under a label, empty if there is none. -/
def captured (m : Found) (label : Nat) : List Char :=
  ((m.capture? label).map Capture.text).getD []

end Found

/-- The preferred match at a place. -/
def matchAt? (pattern : Pattern) (p : Progress) : Option Found :=
  (pattern.ends p).head?.map (Found.ofEnds p)

/-- The preferred match at a place that takes all of the remaining text. -/
def matchAll? (pattern : Pattern) (p : Progress) : Option Found :=
  ((pattern.ends p).find? fun q => q.rest.isEmpty).map (Found.ofEnds p)

/-- A part of a text: a character outside all matches, or a match. -/
inductive Part where
  | plain (c : Char)
  | found (m : Found)
deriving Repr, DecidableEq, Inhabited

/-- Divides a text into matches and the characters between them, from left to right; `skip` is the
number of characters that still belong to the last match. -/
def partsFrom (pattern : Pattern) (before : Option Char) (offset skip : Nat) : List Char → List Part
  | [] => []
  | c :: cs =>
    match skip with
    | k + 1 => partsFrom pattern (some c) (offset + 1) k cs
    | 0 =>
      match pattern.matchAt? ⟨before, c :: cs, offset, []⟩ with
      | some m => .found m :: partsFrom pattern (some c) (offset + 1) (m.text.length - 1) cs
      | none => .plain c :: partsFrom pattern (some c) (offset + 1) 0 cs

/-- The matches of a pattern that takes at least one character, and the text between them. -/
def parts (pattern : Pattern) (text : List Char) : List Part :=
  pattern.partsFrom none 0 0 text

/-- All matches from left to right, none overlapping another. -/
def findAll (pattern : Pattern) (text : List Char) : List Found :=
  (pattern.parts text).filterMap fun
    | .plain _ => none
    | .found m => some m

/-- The leftmost match at or after a place. -/
def searchFrom? (pattern : Pattern) (before : Option Char) (offset : Nat) : List Char → Option Found
  | [] => pattern.matchAt? ⟨before, [], offset, []⟩
  | c :: cs =>
    (pattern.matchAt? ⟨before, c :: cs, offset, []⟩).or
      (pattern.searchFrom? (some c) (offset + 1) cs)

/-- The leftmost match in a text. -/
def search? (pattern : Pattern) (text : List Char) : Option Found :=
  pattern.searchFrom? none 0 text

/-- Whether a text holds a match. -/
def occursIn (pattern : Pattern) (text : List Char) : Bool :=
  (pattern.search? text).isSome

/-- Replaces every match in a text. -/
def replace (pattern : Pattern) (replacement : Found → List Char) (text : List Char) : List Char :=
  (pattern.parts text).flatMap fun
    | .plain c => [c]
    | .found m => replacement m

/-! ## Vocabulary -/

/-- Matches the patterns of a list one after the other. -/
def all : List Pattern → Pattern
  | [] => .empty
  | [p] => p
  | p :: ps => .seq p (all ps)

/-- Matches the first pattern of a list that does. -/
def anyOf : List Pattern → Pattern
  | [] => .condition fun _ _ => false
  | [p] => p
  | p :: ps => .either p (anyOf ps)

/-- Matches one given character. -/
def exactly (c : Char) : Pattern := .char fun d => d == c

/-- Matches a given text. -/
def lit (s : String) : Pattern := all (s.toList.map exactly)

/-- Matches one of several texts. -/
def words (ws : List String) : Pattern := anyOf (ws.map lit)

/-- Matches one of the characters of a text. -/
def oneOf (s : String) : Pattern := .char fun c => s.toList.contains c

/-- Matches one character that a text does not hold. -/
def noneOf (s : String) : Pattern := .char fun c => !s.toList.contains c

/-- Matches any character. -/
def anyChar : Pattern := .char fun _ => true

/-- Matches a pattern as often as possible. -/
def star (p : Pattern) : Pattern := .many true p

/-- Matches a pattern once and then as often as possible. -/
def plus (p : Pattern) : Pattern := .seq p (.many true p)

/-- Matches a pattern as seldom as possible. -/
def lazyStar (p : Pattern) : Pattern := .many false p

/-- Matches a pattern once and then as seldom as possible. -/
def lazyPlus (p : Pattern) : Pattern := .seq p (.many false p)

/-- Matches a pattern if possible. -/
def opt (p : Pattern) : Pattern := .either p .empty

/-- Matches a pattern a fixed number of times. -/
def times (n : Nat) (p : Pattern) : Pattern := all (List.replicate n p)

/-- Matches a pattern a number of times at least, and then as often as possible. -/
def atLeast (n : Nat) (p : Pattern) : Pattern := .seq (times n p) (.many true p)

/-- Matches a blank of any kind. -/
def blank : Pattern := .char isBlank

/-- Matches any number of blanks. -/
def blanks : Pattern := star blank

/-- Matches at least one blank. -/
def someBlanks : Pattern := plus blank

/-- Matches any number of spaces and tabs. -/
def spaces : Pattern := star (oneOf " \t")

/-- Matches where a word begins or ends. -/
def wordEdge : Pattern :=
  .condition fun before rest => before.any isWordChar != rest.head?.any isWordChar

/-- Matches at the start of the text. -/
def textStart : Pattern := .condition fun before _ => before.isNone

/-- Matches at the start of a line. -/
def lineStart : Pattern := .condition fun before _ => before.all (· == '\n')

/-- Matches at the end of a line. -/
def lineEnd : Pattern := .condition fun _ rest => rest.head?.all (· == '\n')

/-- Matches at the end of the text, and before a line end that closes the text. -/
def textEnd : Pattern := .condition fun _ rest => rest.isEmpty || rest == ['\n']

/-- Matches where the character before is in a class. -/
def afterOne (accepts : Char → Bool) : Pattern := .condition fun before _ => before.any accepts

/-- Matches where the character before, if there is one, is not in a class. -/
def notAfter (accepts : Char → Bool) : Pattern := .condition fun before _ => !before.any accepts

/-- Matches where a pattern follows. -/
def followedBy (p : Pattern) : Pattern := .lookahead true p

/-- Matches where a pattern does not follow. -/
def notFollowedBy (p : Pattern) : Pattern := .lookahead false p

/-! ## Texts without a match -/

private theorem parts_plain_of_searchFrom? (pattern : Pattern) (text : List Char) :
    ∀ (before : Option Char) (offset : Nat), pattern.searchFrom? before offset text = none →
      pattern.partsFrom before offset 0 text = text.map Part.plain := by
  induction text with
  | nil => intros; rfl
  | cons c cs ih =>
    intro before offset h
    simp only [searchFrom?, Option.or_eq_none_iff] at h
    simp [partsFrom, h.1, ih _ _ h.2]

/-- A text that holds no match is left as it is. -/
theorem replace_eq_self_of_search?_eq_none (pattern : Pattern) (replacement : Found → List Char)
    {text : List Char} (h : pattern.search? text = none) :
    pattern.replace replacement text = text := by
  simp only [replace, parts, parts_plain_of_searchFrom? pattern text none 0 h]
  induction text with
  | nil => rfl
  | cons c cs ih => simp [List.flatMap_map]

end Pattern

end GuestCode.Text
