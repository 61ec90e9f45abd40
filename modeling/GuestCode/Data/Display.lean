import GuestCode.Data.Value
import GuestCode.Text.Classes

/-!
# How values are shown

A value is shown in reports either plainly, so that a text stands for itself, or as a literal, so
that a text is quoted; the members of lists and mappings are always literals.

* `Text.quoted`: a text as a literal
* `Value.literal`, `Value.display`: a value as a literal, and plainly
-/

namespace GuestCode

namespace Text

/-- A number in hexadecimal digits, with zeros before it up to a given width. -/
def hexPadded (width n : Nat) : List Char :=
  let digits := Nat.toDigits 16 n
  List.replicate (width - digits.length) '0' ++ digits

/-- A character of a quoted text: the quote, the backslash and unprintable characters are
escaped. -/
def quotedChar (quote c : Char) : List Char :=
  if c == quote || c == '\\' then ['\\', c]
  else if c == '\n' then ['\\', 'n']
  else if c == '\r' then ['\\', 'r']
  else if c == '\t' then ['\\', 't']
  else if isPrintable c then [c]
  else if c.toNat < 0x100 then '\\' :: 'x' :: hexPadded 2 c.toNat
  else if c.toNat < 0x10000 then '\\' :: 'u' :: hexPadded 4 c.toNat
  else '\\' :: 'U' :: hexPadded 8 c.toNat

/-- A text as a literal: in single quotes, or in double quotes if it holds single quotes and no
double ones. -/
def quoted (text : List Char) : List Char :=
  let quote := if text.contains '\'' && !text.contains '"' then '"' else '\''
  quote :: text.flatMap (quotedChar quote) ++ [quote]

end Text

/-- A string as a literal. -/
def quotedString (s : String) : String := String.ofList (Text.quoted s.toList)

namespace Value

/-- An octet of a byte literal. -/
def octetLiteral (quote : Char) (octet : UInt8) : List Char :=
  let c := Char.ofNat octet.toNat
  if c == quote || c == '\\' then ['\\', c]
  else if c == '\n' then ['\\', 'n']
  else if c == '\r' then ['\\', 'r']
  else if c == '\t' then ['\\', 't']
  else if 32 ≤ octet.toNat && octet.toNat < 127 then [c]
  else '\\' :: 'x' :: Text.hexPadded 2 octet.toNat

/-- Octets as a literal. -/
def bytesLiteral (octets : List UInt8) : String :=
  let quote := if octets.contains 39 && !octets.contains 34 then '"' else '\''
  String.ofList ('b' :: quote :: octets.flatMap (octetLiteral quote) ++ [quote])

/-- A date as a literal. -/
def dateLiteral (d : Date) : String :=
  "datetime.date(" ++ toString d.year ++ ", " ++ toString d.month ++ ", " ++ toString d.day ++ ")"

/-- A span of time as a literal: days, and seconds of a day. -/
def spanLiteral (seconds : Int) : String :=
  let days := seconds.fdiv 86400
  let rest := seconds.fmod 86400
  let parts := (if days = 0 then [] else ["days=" ++ toString days]) ++
    (if rest = 0 then [] else ["seconds=" ++ toString rest])
  "datetime.timedelta(" ++ ", ".intercalate parts ++ ")"

/-- An offset from universal time as a literal. -/
def offsetLiteral (offset : Int) : String :=
  if offset = 0 then "datetime.timezone.utc"
  else "datetime.timezone(" ++ spanLiteral offset ++ ")"

/-- A moment as a literal. -/
def momentLiteral (m : Moment) : String :=
  let parts := [m.date.year, m.date.month, m.date.day, m.hour, m.minute] ++
    (if m.second = 0 && m.microsecond = 0 then [] else [m.second]) ++
    (if m.microsecond = 0 then [] else [m.microsecond])
  let zone := (m.offset.map fun o => ", tzinfo=" ++ offsetLiteral o).getD ""
  "datetime.datetime(" ++ ", ".intercalate (parts.map toString) ++ zone ++ ")"

/-- A number as it is shown. -/
def floatText (x : Binary64) : String := x.text Binary64.plainStyle

/-- What stands for a knot inside itself. -/
def elision (isMapping : Bool) : String := if isMapping then "\x7b...\x7d" else "[...]"

mutual

/-- A value as a literal, inside the knots with the labels `around`. -/
def literalInside (around : List Nat) : Value → String
  | null => "None"
  | bool b => if b then "True" else "False"
  | int n => toString n
  | float x => floatText x
  | text s => quotedString s
  | date d => dateLiteral d
  | moment m => momentLiteral m
  | bytes octets => bytesLiteral octets
  | list items => "[" ++ ", ".intercalate (literals around items) ++ "]"
  | tuple items =>
    let parts := literals around items
    "(" ++ ", ".intercalate parts ++ (if parts.length = 1 then ",)" else ")")
  | set members =>
    if members.isEmpty then "set()"
    else "\x7b" ++ ", ".intercalate (literals around members) ++ "\x7d"
  | mapping entries => "\x7b" ++ ", ".intercalate (entryLiterals around entries) ++ "\x7d"
  | knot label body =>
    if around.contains label then elision (body.kindName == "dict")
    else literalInside (label :: around) body
  | again _ isMapping => elision isMapping

/-- The members of a list as literals. -/
def literals (around : List Nat) : List Value → List String
  | [] => []
  | v :: rest => literalInside around v :: literals around rest

/-- The entries of a mapping as literals. -/
def entryLiterals (around : List Nat) : List (Value × Value) → List String
  | [] => []
  | (k, v) :: rest =>
    (literalInside around k ++ ": " ++ literalInside around v) :: entryLiterals around rest

end

/-- A value as a literal. -/
def literal (v : Value) : String := literalInside [] v

/-- A value as it is shown: a text is itself, a date or a moment is its text, and all others are
literals. -/
def display : Value → String
  | text s => s
  | date d => d.iso
  | moment m => m.date.iso ++ " " ++ m.timeText
  | v => v.literal

end Value

end GuestCode
