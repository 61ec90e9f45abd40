import GuestCode.Failure
import GuestCode.Text.Case
import GuestCode.Text.Pattern

/-!
# Masking of sensitive texts

Texts that go into diagnostics are cut to a length and, where masking is on, freed of what looks
like an e-mail address, a secret, a token, a card number or a national identity number.

* `Masking.mask`: a text with the sensitive parts replaced
* `Masking.preview`: the start of a text, masked or not
-/

namespace GuestCode.Masking

open Text Text.Pattern

/-! ## Letters in any case -/

/-- Whether a character is a given lower-case letter in either case. Beyond ASCII, the Kelvin sign
is a k, the long s an s, and the two i of Turkish are an i. -/
def isLetterNamed (letter c : Char) : Bool :=
  c == letter || c.toLower == letter || (letter == 'k' && c == '\u212A') ||
    (letter == 's' && c == '\u017F') || (letter == 'i' && (c == '\u0130' || c == '\u0131'))

/-- Matches a word of lower-case letters and marks in any case. -/
def anyCase (w : String) : Pattern := all (w.toList.map fun c => .char (isLetterNamed c))

/-- Whether a character is an ASCII letter, counting those that `isLetterNamed` counts. -/
def isAnyCaseLetter (c : Char) : Bool :=
  c.isAlpha || c == '\u0130' || c == '\u0131' || c == '\u017F' || c == '\u212A'

/-! ## What is masked -/

/-- ASCII letters and digits, and some marks. -/
def alphanumericOr (marks : String) : Pattern :=
  .char fun c => c.isAlphanum || marks.toList.contains c

/-- Characters of a secret, whatever the case. -/
def secretChar : Pattern := .char fun c => isAnyCaseLetter c || c.isDigit || "_-.".toList.contains c

/-- E-mail addresses. -/
def email : Pattern :=
  all [wordEdge, plus (alphanumericOr "._%+-"), lit "@", plus (alphanumericOr ".-"), lit ".",
    atLeast 2 (.char Char.isAlpha), wordEdge]

/-- Named secrets of twenty characters and more; the name is label 1. -/
def namedSecret : Pattern :=
  all [wordEdge,
    .capture 1 (anyOf [all [anyCase "api", opt (oneOf "_-"), anyCase "key"], anyCase "apikey",
      anyCase "token", anyCase "secret", anyCase "password", anyCase "auth"]),
    star (.char fun c => c == '\'' || c == '"' || c == ':' || isBlank c), oneOf "=:", blanks,
    opt (oneOf "'\""), atLeast 20 secretChar, opt (oneOf "'\"")]

/-- Bearer tokens. -/
def bearerToken : Pattern := all [anyCase "bearer", someBlanks, plus secretChar]

/-- Web tokens of three parts. -/
def webToken : Pattern :=
  let part := star (alphanumericOr "_-")
  all [wordEdge, lit "eyJ", part, lit ".", part, lit ".", part]

/-- Card numbers: four groups of four digits. -/
def cardNumber : Pattern :=
  let group := times 4 (.char isDecimalDigit)
  let gap := opt (.char fun c => isBlank c || c == '-')
  all [wordEdge, group, gap, group, gap, group, gap, group, wordEdge]

/-- National identity numbers: six digits and seven. -/
def nationalId : Pattern :=
  all [wordEdge, times 6 (.char isDecimalDigit), opt (lit "-"), times 7 (.char isDecimalDigit),
    wordEdge]

/-- A pattern and what its matches become. -/
structure MaskRule where
  pattern : Pattern
  mask : Found → List Char

/-- What is masked, and how, in this order. -/
def rules : List MaskRule :=
  [⟨email, fun _ => "[EMAIL_MASKED]".toList⟩,
    ⟨namedSecret, fun m => m.captured 1 ++ "=[MASKED]".toList⟩,
    ⟨bearerToken, fun _ => "Bearer [TOKEN_MASKED]".toList⟩,
    ⟨webToken, fun _ => "[JWT_MASKED]".toList⟩,
    ⟨cardNumber, fun _ => "[CARD_MASKED]".toList⟩,
    ⟨nationalId, fun _ => "[SSN_MASKED]".toList⟩]

/-- A text with its sensitive parts replaced. -/
def mask (text : List Char) : List Char :=
  rules.foldl (fun text rule => rule.pattern.replace rule.mask text) text

/-! ## Previews -/

/-- Whether the environment asks for masking. -/
def isRequested (environment : List (String × String)) : Bool :=
  let value (name : String) := lowerString ((environment.lookup name).getD "")
  value "MASK_SENSITIVE_LOGS" == "true" || value "NODE_ENV" == "production"

/-- The first characters of a text; a negative number leaves out as many at its end. -/
def firstChars (count : Int) (text : List Char) : List Char :=
  if 0 ≤ count then text.take count.toNat else text.take (text.length - count.natAbs)

/-- The start of a text, with a mark if something is left out. -/
def shorten (limit : Int) (text : List Char) : List Char :=
  if limit < text.length then firstChars limit text ++ "...[truncated]".toList else text

/-- The start of a text, masked or not. -/
def preview (limit : Int) (masked : Bool) (text : List Char) : List Char :=
  let shortened := shorten limit text
  if masked then mask shortened else shortened

/-- The start of a text under a limit that may be of any kind: a limit that is no number cannot be
compared, and one that is not whole cannot cut. -/
def previewWithin (limit : Value) (masked : Bool) (text : List Char) :
    Except Failure (List Char) :=
  match limit with
  | .int n => .ok (preview n masked text)
  | .bool b => .ok (preview (Value.ofBool b) masked text)
  | .float x =>
    if x.compareInt? text.length == some .lt then
      .error (.mismatch .wrongKind
        "slice indices must be integers or None or have an __index__ method")
    else .ok (if masked then mask text else text)
  | v =>
    .error (.mismatch .wrongKind
      ("'>' not supported between instances of 'int' and '" ++ v.kindName ++ "'"))

end GuestCode.Masking
