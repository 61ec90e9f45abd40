import GuestCode.Snippet.Grammar
import GuestCode.Snippet.Region

/-!
# Rules and edits

Two ways to say how a text is changed. A `Rule` is a pattern and what its matches become; it can be
told to leave matches alone that do not start in code. An `Edit` is a range of places and the text
that takes its place.

* `Rule`, `Rule.apply`, `Rule.applyAll`: replacing the matches of patterns
* `Edit`, `Edit.applyAll`: replacing ranges
-/

namespace GuestCode

open Text

/-- A pattern and what its matches become. -/
structure Rule where
  pattern : Pattern
  replacement : Pattern.Found → List Char

namespace Rule

/-- The rule that removes all matches of a pattern. -/
def remove (pattern : Pattern) : Rule := ⟨pattern, fun _ => []⟩

/-- The rule that keeps of each match only what was captured under some labels. -/
def keep (pattern : Pattern) (labels : List Nat) : Rule :=
  ⟨pattern, fun m => labels.flatMap m.captured⟩

/-- The first place of a match that is no blank, the end of the match if there is none. -/
def firstMark (m : Pattern.Found) : Nat :=
  m.start + (m.text.takeWhile isBlank).length

/-- Whether a match starts in code; a match that ends the text in blanks counts as code. -/
def startsInCode (source : List Char) (regions : List Region) (m : Pattern.Found) : Bool :=
  let place := firstMark m
  source.length ≤ place || isCodeAt regions place

/-- Replaces the matches of a rule; with `codeOnly`, those that do not start in code stay. -/
def apply (codeOnly : Bool) (rule : Rule) (source : List Char) : List Char :=
  if codeOnly then
    let regions := Region.ofSource source
    rule.pattern.replace
      (fun m => if startsInCode source regions m then rule.replacement m else m.text) source
  else rule.pattern.replace rule.replacement source

/-- Applies several rules one after the other. -/
def applyAll (codeOnly : Bool) (rules : List Rule) (source : List Char) : List Char :=
  rules.foldl (fun text rule => rule.apply codeOnly text) source

end Rule

/-- A range of places of a text, and the text that takes its place. -/
structure Edit where
  start : Nat
  stop : Nat
  text : List Char
deriving Repr, DecidableEq, Inhabited

namespace Edit

/-- Makes edits, given from left to right and none overlapping another, in the text from place
`start` on. -/
def applyFrom (source : List Char) (start : Nat) : List Edit → List Char
  | [] => source.drop start
  | e :: rest => Region.slice source start e.start ++ e.text ++ applyFrom source e.stop rest

/-- Makes edits, given from left to right and none overlapping another. -/
def applyAll (edits : List Edit) (source : List Char) : List Char :=
  applyFrom source 0 edits

end Edit

end GuestCode
