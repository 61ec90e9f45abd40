import GuestCode.Text.Pattern

/-!
# Pieces of script grammar

Patterns for the pieces of script text that several rules look for: identifiers, keywords,
generic arguments and quoted module names.
-/

namespace GuestCode.Grammar

open Text Text.Pattern

/-- Characters that start an identifier. -/
def isNameStart (c : Char) : Bool := c.isAlpha || c == '_' || c == '$'

/-- Characters of an identifier. -/
def isNameChar (c : Char) : Bool := isWordChar c || c == '$'

/-- Identifiers. -/
def identifier : Pattern := .seq (.char isNameStart) (star (.char isNameChar))

/-- Any number of identifier characters. -/
def nameChars : Pattern := star (.char isNameChar)

/-- At least one identifier character. -/
def someNameChars : Pattern := plus (.char isNameChar)

/-- One character that is a word character or one of those listed. -/
def wordCharOr (others : String) : Pattern :=
  .char fun c => isWordChar c || others.toList.contains c

/-- Where a name may start: the character before belongs to no identifier. -/
def nameEdge : Pattern := notAfter isNameChar

/-- Where a name may start that is no member of an object. -/
def freeNameEdge : Pattern := notAfter fun c => isNameChar c || c == '.'

/-- A word that ends where a word ends. -/
def keyword (w : String) : Pattern := .seq (lit w) wordEdge

/-- One of several words, ending where a word ends. -/
def keywords (ws : List String) : Pattern := .seq (words ws) wordEdge

/-- Either kind of plain quote, kept under a label. -/
def quote (label : Nat) : Pattern := .capture label (oneOf "'\"")

/-- Whether a text is one identifier. -/
def isIdentifier : List Char → Bool
  | [] => false
  | c :: cs => isNameStart c && cs.all isNameChar

end GuestCode.Grammar
