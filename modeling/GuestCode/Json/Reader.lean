import GuestCode.Data.Value
import GuestCode.Text.Utf8

/-!
# Reading JSON

JSON texts as values. Of several entries with one key the last counts, in the place of the first.
Beyond the standard, `NaN`, `Infinity` and `-Infinity` are read as numbers. Half a surrogate pair
is no character and becomes the replacement character. A text that is no JSON is refused with the
place of the first fault.

* `Json.Fault`, `Json.ReadError`: what is wrong, and where
* `Json.read`, `Json.read?`: the value of a text
* `Json.readOctets?`: the value of a text in UTF-8, UTF-16 or UTF-32
-/

namespace GuestCode.Json

/-! ## Faults -/

/-- What is wrong with a text that is no JSON. -/
inductive Fault where
  | noValue
  | noKey
  | noColon
  | noComma
  | unterminatedString
  | controlCharacter
  | invalidEscape
  | invalidCode
  | extraData
  | byteOrderMark
deriving Repr, DecidableEq, Inhabited

/-- What a fault says. -/
def Fault.text : Fault → String
  | noValue => "Expecting value"
  | noKey => "Expecting property name enclosed in double quotes"
  | noColon => "Expecting ':' delimiter"
  | noComma => "Expecting ',' delimiter"
  | unterminatedString => "Unterminated string starting at"
  | controlCharacter => "Invalid control character at"
  | invalidEscape => "Invalid \\escape"
  | invalidCode => "Invalid \\uXXXX escape"
  | extraData => "Extra data"
  | byteOrderMark => "Unexpected UTF-8 BOM (decode using utf-8-sig)"

/-- Why a text cannot be read: a fault, with the number of characters from its place to the end of
the text, or a number with too many digits. -/
inductive ReadError where
  | fault (fault : Fault) (left : Nat)
  | tooManyDigits (digits : Nat)
deriving Repr, DecidableEq, Inhabited

/-- The report of an error in a text: lines and columns are counted from one, characters from
zero. -/
def ReadError.message (text : List Char) : ReadError → String
  | fault f left =>
    let before := text.take (text.length - left)
    let column := (before.reverse.takeWhile (· != '\n')).length + 1
    f.text ++ ": line " ++ toString (before.count '\n' + 1) ++ " column " ++ toString column ++
      " (char " ++ toString before.length ++ ")"
  | tooManyDigits digits =>
    "Exceeds the limit (4300 digits) for integer string conversion: value has " ++
      toString digits ++ " digits; use sys.set_int_max_str_digits() to increase the limit"

/-- The error of a fault at the start of a text. -/
def failAt {α : Type} (f : Fault) (text : List Char) : Except ReadError α :=
  .error (.fault f text.length)

/-- A text without the blanks of JSON before it. -/
def skipBlanks (text : List Char) : List Char :=
  text.dropWhile fun c => c == ' ' || c == '\t' || c == '\n' || c == '\r'

/-! ## Strings -/

/-- The value of a hexadecimal digit. -/
def hexDigit? (c : Char) : Option Nat :=
  if c.isDigit then some (c.toNat - '0'.toNat)
  else if 'a' ≤ c ∧ c ≤ 'f' then some (c.toNat - 'a'.toNat + 10)
  else if 'A' ≤ c ∧ c ≤ 'F' then some (c.toNat - 'A'.toNat + 10)
  else none

/-- The value of hexadecimal digits. -/
def hexValue? (digits : List Char) : Option Nat :=
  digits.foldlM (fun n c => (hexDigit? c).map fun d => n * 16 + d) 0

/-- The character that a one-letter escape stands for. -/
def escapedChar? (c : Char) : Option Char :=
  match c with
  | '"' => some '"'
  | '\\' => some '\\'
  | '/' => some '/'
  | 'b' => some '\x08'
  | 'f' => some '\x0c'
  | 'n' => some '\n'
  | 'r' => some '\r'
  | 't' => some '\t'
  | _ => none

/-- The codes of a string up to its closing quote, and the text after it; `opening` is the number
of characters from the opening quote to the end of the text. -/
def readCodes (opening : Nat) : List Char → Except ReadError (List Nat × List Char)
  | [] => .error (.fault .unterminatedString opening)
  | '"' :: rest => .ok ([], rest)
  | ['\\'] => .error (.fault .unterminatedString opening)
  | '\\' :: 'u' :: a :: b :: c :: d :: e :: rest =>
    match hexValue? [a, b, c, d] with
    | none => failAt .invalidCode ('u' :: a :: b :: c :: d :: e :: rest)
    | some code => do
      let (codes, rest) ← readCodes opening (e :: rest)
      return (code :: codes, rest)
  | '\\' :: 'u' :: rest => failAt .invalidCode ('u' :: rest)
  | '\\' :: e :: rest =>
    match escapedChar? e with
    | none => failAt .invalidEscape ('\\' :: e :: rest)
    | some c => do
      let (codes, rest) ← readCodes opening rest
      return (c.toNat :: codes, rest)
  | c :: rest =>
    if c.toNat < 0x20 then failAt .controlCharacter (c :: rest)
    else do
      let (codes, rest) ← readCodes opening rest
      return (c.toNat :: codes, rest)

/-- Whether a code is the first half of a surrogate pair. -/
def isHighHalf (code : Nat) : Bool := 0xD800 ≤ code && code < 0xDC00

/-- Whether a code is the second half of a surrogate pair. -/
def isLowHalf (code : Nat) : Bool := 0xDC00 ≤ code && code < 0xE000

/-- The text of codes, surrogate pairs being joined. -/
def joinHalves : List Nat → List Char
  | [] => []
  | [code] =>
    [if isHighHalf code || isLowHalf code then Utf8.replacement else Char.ofNat code]
  | code :: next :: rest =>
    if isHighHalf code && isLowHalf next then
      Char.ofNat (0x10000 + (code - 0xD800) * 0x400 + (next - 0xDC00)) :: joinHalves rest
    else
      (if isHighHalf code || isLowHalf code then Utf8.replacement else Char.ofNat code) ::
        joinHalves (next :: rest)

/-- The text of a string up to its closing quote, and what follows. -/
def readString (text : List Char) : Except ReadError (String × List Char) :=
  (readCodes (text.length + 1) text).map fun (codes, rest) =>
    (String.ofList (joinHalves codes), rest)

/-! ## Numbers -/

/-- The value of decimal digits. -/
def digitsValue (digits : List Char) : Nat :=
  digits.foldl (fun n c => n * 10 + (c.toNat - '0'.toNat)) 0

/-- The digits at the start of a text, and what follows. -/
def readDigits (text : List Char) : List Char × List Char :=
  (text.takeWhile Char.isDigit, text.dropWhile Char.isDigit)

/-- The fraction digits after a point, if both are there. -/
def readFraction (text : List Char) : List Char × List Char :=
  match text with
  | '.' :: rest =>
    match readDigits rest with
    | ([], _) => ([], text)
    | found => found
  | _ => ([], text)

/-- The exponent at the start of a text, if there is a whole one. -/
def readExponent (text : List Char) : Option Int × List Char :=
  match text with
  | [] => (none, text)
  | e :: rest =>
    if e == 'e' || e == 'E' then
      let (negative, body) :=
        match rest with
        | '-' :: body => (true, body)
        | '+' :: body => (false, body)
        | _ => (false, rest)
      match readDigits body with
      | ([], _) => (none, text)
      | (digits, after) =>
        let n : Int := digitsValue digits
        (some (if negative then -n else n), after)
    else (none, text)

/-- The most digits that an integer may have. -/
def maxIntegerDigits : Nat := 4300

/-- The digits of the whole part at the start of a text, and what follows: a zero stands alone. -/
def readWhole? (text : List Char) : Option (List Char × List Char) :=
  match text with
  | '0' :: rest => some (['0'], rest)
  | c :: _ => if c.isDigit then some (readDigits text) else none
  | [] => none

/-- The number whose digits start a text, and what follows. -/
def readNumber? (negative : Bool) (text : List Char) :
    Option (Except ReadError (Value × List Char)) :=
  (readWhole? text).map fun (whole, rest) =>
    let (fraction, rest) := readFraction rest
    let (exponent, rest) := readExponent rest
    if fraction.isEmpty && exponent.isNone then
      if maxIntegerDigits < whole.length then .error (.tooManyDigits whole.length)
      else
        let n : Int := digitsValue whole
        .ok (.int (if negative then -n else n), rest)
    else
      let scale := exponent.getD 0 - fraction.length
      .ok (.float (Binary64.ofDecimal negative (digitsValue (whole ++ fraction)) scale), rest)

/-- The words that stand for values. -/
def namedValues : List (List Char × Value) :=
  [("null", .null), ("true", .bool true), ("false", .bool false), ("NaN", .float .nan),
    ("Infinity", .float (.infinite false)), ("-Infinity", .float (.infinite true))].map
      fun (name, v) => (name.toList, v)

/-- The named value that starts a text, and what follows. -/
def readNamed (text : List Char) : Except ReadError (Value × List Char) :=
  match namedValues.find? fun entry => entry.1.isPrefixOf text with
  | some entry => .ok (entry.2, text.drop entry.1.length)
  | none => failAt .noValue text

/-! ## Values -/

mutual

/-- The value that starts a text, and what follows. Each of the three readers spends one unit of
fuel where it reads one character at least. -/
def readValue : Nat → List Char → Except ReadError (Value × List Char)
  | 0, text => failAt .noValue text
  | fuel + 1, text =>
    match text with
    | '"' :: rest => (readString rest).map fun (s, rest) => (.text s, rest)
    | '[' :: rest =>
      match skipBlanks rest with
      | ']' :: rest => .ok (.list [], rest)
      | rest => (readItems fuel rest).map fun (items, rest) => (.list items, rest)
    | '\x7b' :: rest =>
      match skipBlanks rest with
      | '\x7d' :: rest => .ok (.mapping [], rest)
      | rest => (readEntries fuel [] rest).map fun (entries, rest) => (.mapping entries, rest)
    | '-' :: rest => (readNumber? true rest).getD (readNamed text)
    | _ => (readNumber? false text).getD (readNamed text)

/-- The items of a list up to its closing bracket, and what follows. -/
def readItems : Nat → List Char → Except ReadError (List Value × List Char)
  | 0, text => failAt .noValue text
  | fuel + 1, text => do
    let (first, rest) ← readValue fuel text
    match skipBlanks rest with
    | ',' :: rest => do
      let (others, rest) ← readItems fuel (skipBlanks rest)
      return (first :: others, rest)
    | ']' :: rest => return ([first], rest)
    | rest => failAt .noComma rest

/-- The entries of a mapping up to its closing brace, put after those read before, and what
follows. -/
def readEntries : Nat → List (Value × Value) → List Char →
    Except ReadError (List (Value × Value) × List Char)
  | 0, _, text => failAt .noKey text
  | fuel + 1, entries, text =>
    match text with
    | '"' :: rest => do
      let (key, rest) ← readString rest
      match skipBlanks rest with
      | ':' :: rest => do
        let (value, rest) ← readValue fuel (skipBlanks rest)
        let entries := Value.insert (.text key) value entries
        match skipBlanks rest with
        | ',' :: rest => readEntries fuel entries (skipBlanks rest)
        | '\x7d' :: rest => return (entries, rest)
        | rest => failAt .noComma rest
      | rest => failAt .noColon rest
    | _ => failAt .noKey text

end

/-- The value of a JSON text, or the first fault. A text of `n` characters nests no deeper than `n`
levels. -/
def read (text : List Char) : Except ReadError Value :=
  if text.head? == some '\uFEFF' then failAt .byteOrderMark text
  else
    match readValue (2 * text.length + 1) (skipBlanks text) with
    | .error e => .error e
    | .ok (v, rest) =>
      let rest := skipBlanks rest
      if rest.isEmpty then .ok v else failAt .extraData rest

/-- The value of a JSON text. -/
def read? (text : List Char) : Option Value := (read text).toOption

/-! ## Octets -/

/-- Octets in pairs as numbers, the last one left out if it stands alone. -/
def pairs (bigEndian : Bool) : List UInt8 → List Nat
  | a :: b :: rest =>
    (if bigEndian then a.toNat * 256 + b.toNat else b.toNat * 256 + a.toNat) ::
      pairs bigEndian rest
  | _ => []

/-- The text of octets in UTF-16. -/
def decodeUnits? (bigEndian : Bool) (octets : List UInt8) : Option (List Char) :=
  if octets.length % 2 = 0 then some (joinHalves (pairs bigEndian octets)) else none

/-- Numbers in pairs as one number each, the last one left out if it stands alone. -/
def joinPairs (bigEndian : Bool) : List Nat → List Nat
  | a :: b :: rest =>
    (if bigEndian then a * 65536 + b else b * 65536 + a) :: joinPairs bigEndian rest
  | _ => []

/-- The text of octets in UTF-32. -/
def decodeCodes? (bigEndian : Bool) (octets : List UInt8) : Option (List Char) :=
  let codes := joinPairs bigEndian (pairs bigEndian octets)
  if octets.length % 4 = 0 && codes.all (· < 0x110000) then some (joinHalves codes) else none

/-- The text of octets in the encoding that their mark, or the place of their first zeros, tells. -/
def decodeOctets? (octets : List UInt8) : Option (List Char) :=
  let utf8 (octets : List UInt8) := (Utf8.decodeFrom true 0 0 octets).toOption
  match octets with
  | 0 :: 0 :: 0xFE :: 0xFF :: rest => decodeCodes? true rest
  | 0xFF :: 0xFE :: 0 :: 0 :: rest => decodeCodes? false rest
  | 0xFE :: 0xFF :: rest => decodeUnits? true rest
  | 0xFF :: 0xFE :: rest => decodeUnits? false rest
  | 0xEF :: 0xBB :: 0xBF :: rest => utf8 rest
  | a :: b :: c :: d :: _ =>
    if a == 0 then if b != 0 then decodeUnits? true octets else decodeCodes? true octets
    else if b == 0 then
      if c != 0 || d != 0 then decodeUnits? false octets else decodeCodes? false octets
    else utf8 octets
  | [a, b] =>
    if a == 0 then decodeUnits? true octets
    else if b == 0 then decodeUnits? false octets
    else utf8 octets
  | _ => utf8 octets

/-- The value of a JSON text given as octets. -/
def readOctets? (octets : List UInt8) : Option Value :=
  (decodeOctets? octets).bind read?

end GuestCode.Json
