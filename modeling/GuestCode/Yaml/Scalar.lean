import GuestCode.Data.Coercion
import GuestCode.Text.Case
import GuestCode.Text.Pattern

/-!
# Values of scalars

What plain scalars mean, and the values that scalars with a tag stand for.

* `Yaml.Kind`, `Kind.ofPlain`: the meanings of plain scalars
* `Yaml.scalarValue`: the value of a scalar with a tag
-/

namespace GuestCode.Yaml

open Text (Pattern)

/-- Why a text cannot be read: it is no YAML of the supported kinds, or a scalar of it has the form
of a value that does not exist. -/
inductive ReadError where
  | malformed
  | noValue (f : Failure)
deriving Repr, DecidableEq, Inhabited

/-- The meanings that plain scalars can have. -/
inductive Kind where
  | bool
  | float
  | int
  | merge
  | null
  | moment
  | fallback
  /-- The marks of YAML itself, which stand for no value. -/
  | mark
  | text
deriving Repr, DecidableEq, Inhabited

namespace Kind

/-- What the names of the common tags start with. -/
def commonTag (name : String) : String := "tag:yaml.org,2002:" ++ name

/-- The tag of a meaning. -/
def tag : Kind → String
  | bool => commonTag "bool"
  | float => commonTag "float"
  | int => commonTag "int"
  | merge => commonTag "merge"
  | null => commonTag "null"
  | moment => commonTag "timestamp"
  | fallback => commonTag "value"
  | mark => commonTag "yaml"
  | text => commonTag "str"

/-! ## Forms of plain scalars -/

/-- A sign, which may be left out. -/
def sign : Pattern := .opt (.oneOf "+-")

/-- A digit. -/
def digit : Pattern := .char Char.isDigit

/-- One digit or two. -/
def digits12 : Pattern := .seq digit (.opt digit)

/-- Digits, with low lines between or after them. -/
def digitRun : Pattern := .seq digit (.star (.oneOf "0123456789_"))

/-- Digits and low lines. -/
def digitRest : Pattern := .star (.oneOf "0123456789_")

/-- Further places of a number to the base sixty. -/
def sixties : Pattern := .plus (.all [.exactly ':', .opt (.oneOf "012345"), digit])

/-- The forms of floating-point numbers. -/
def floatForm : Pattern :=
  let exponent := .opt (.all [.oneOf "eE", .oneOf "+-", .plus digit])
  .anyOf [
    .all [sign, digitRun, .exactly '.', digitRest, exponent],
    .all [.exactly '.', digitRun, exponent],
    .all [sign, digitRun, sixties, .exactly '.', digitRest],
    .all [sign, .exactly '.', .words ["inf", "Inf", "INF"]],
    .all [.exactly '.', .words ["nan", "NaN", "NAN"]]]

/-- The forms of integers. -/
def intForm : Pattern :=
  .seq sign (.anyOf [
    .all [.lit "0b", .plus (.oneOf "01_")],
    .all [.exactly '0', .plus (.oneOf "01234567_")],
    .exactly '0',
    .all [.oneOf "123456789", digitRest],
    .all [.lit "0x", .plus (.oneOf "0123456789abcdefABCDEF_")],
    .all [.oneOf "123456789", digitRest, sixties]])

/-- The form of dates: four digits, two and two. -/
def dateForm : Pattern :=
  .all [.times 4 digit, .exactly '-', .times 2 digit, .exactly '-', .times 2 digit]

/-- The parts of a moment. -/
inductive Part where
  | year | month | day | hour | minute | second | fraction | zone | zoneSign | zoneHour | zoneMinute
deriving Repr, DecidableEq, Inhabited

/-- The label of a part. -/
def Part.label (p : Part) : Nat := p.ctorIdx

/-- The form of moments, with the time of day where `time` asks for it or allows it. -/
def momentForm (time : Pattern → Pattern) : Pattern :=
  let part (p : Part) (form : Pattern) : Pattern := .capture p.label form
  .all [
    part .year (.times 4 digit), .exactly '-', part .month digits12, .exactly '-',
    part .day digits12,
    time (.all [
      .either (.oneOf "Tt") (.plus (.oneOf " \t")),
      part .hour digits12, .exactly ':', part .minute (.times 2 digit), .exactly ':',
      part .second (.times 2 digit),
      .opt (.seq (.exactly '.') (part .fraction (.star digit))),
      .opt (.seq .spaces (part .zone (.either (.exactly 'Z') (.all [
        part .zoneSign (.oneOf "+-"), part .zoneHour digits12,
        .opt (.seq (.exactly ':') (part .zoneMinute (.times 2 digit)))]))))])]

/-- The texts of truth values. -/
def boolTexts : List (String × Bool) :=
  [("yes", true), ("no", false), ("true", true), ("false", false), ("on", true), ("off", false)]

/-- A word as it is, capitalised, and in capitals. -/
def spellings (word : String) : List String := [word, word.capitalize, word.toUpper]

/-- The texts of null, the empty text apart. -/
def nullTexts : List String := "~" :: spellings "null"

/-- The texts of marks. -/
def markTexts : List String := ["!", "&", "*"]

/-- Whether a text as a whole has a form. -/
def hasForm (form : Pattern) (text : List Char) : Bool :=
  (form.matchAll? (.ofText text)).isSome

/-- A text without the line end after it, which says nothing about its meaning. -/
def withoutLineEnd (text : List Char) : List Char :=
  if text.getLast? == some '\n' then text.dropLast else text

/-- The meaning of a plain scalar. -/
def ofPlain (text : String) : Kind :=
  let chars := withoutLineEnd text.toList
  let line := String.ofList chars
  if text.isEmpty || nullTexts.contains line then null
  else if line == "<<" then merge
  else if line == "=" then fallback
  else if markTexts.contains line then mark
  else if (boolTexts.flatMap fun (word, _) => spellings word).contains line then bool
  else if !(chars.head?.any fun c => c.isDigit || c == '+' || c == '-' || c == '.') then .text
  else if hasForm floatForm chars then float
  else if hasForm intForm chars then int
  else if hasForm dateForm chars || hasForm (momentForm id) chars then moment
  else .text

end Kind

/-! ## Values -/

/-- The failure of a text that is no value of the kind it is taken for. -/
def noValue {α : Type} (message : String) : Except ReadError α :=
  .error (.noValue (.mismatch .wrongValue message))

/-- The sign of a number and the rest of it; low lines say nothing. -/
def signAndBody (text : String) : Bool × List Char :=
  match text.toList.filter (· != '_') with
  | '-' :: rest => (true, rest)
  | '+' :: rest => (false, rest)
  | chars => (false, chars)

/-- The failure of a text without characters. -/
def nothingThere {α : Type} : Except ReadError α := .error (.noValue .noCharacter)

/-- The integer that a text denotes to a base. -/
def integerInBase (base : Nat) (text : List Char) : Except ReadError Int :=
  (Value.integerOfText base (String.ofList text)).mapError .noValue

/-- The value of an integer: to the base two, eight, ten, sixteen or sixty. -/
def integerValue (text : String) : Except ReadError Int := do
  let (negative, body) := signAndBody text
  let n : Int ←
    match body with
    | [] => nothingThere
    | ['0'] => pure 0
    | '0' :: 'b' :: digits => integerInBase 2 digits
    | '0' :: 'x' :: digits => integerInBase 16 digits
    | '0' :: _ => integerInBase 8 body
    | _ =>
      if body.contains ':' then do
        let places ← (Text.splitOn ':' body).mapM (integerInBase 10)
        pure (places.foldl (fun n d => n * 60 + d) 0)
      else integerInBase 10 body
  return if negative then -n else n

/-- The floating-point number that a text denotes. -/
def decimalValue (text : List Char) : Except ReadError Binary64 :=
  match Text.Numeral.readDecimal? text with
  | some x => .ok x
  | none => noValue ("could not convert string to float: " ++ quotedString (String.ofList text))

/-- The sum of places of a number to the base sixty, the last place first. A place too far in front
has no weight that could be a floating-point number. -/
def sumOfSixties (sum : Binary64) (weight : Nat) : List Binary64 → Except ReadError Binary64
  | [] => .ok sum
  | x :: rest =>
    match Binary64.ofInt weight with
    | .infinite _ => .error (.noValue (.mismatch .overflow "int too large to convert to float"))
    | w => sumOfSixties (sum.add (x.mul w)) (weight * 60) rest

/-- The value of a floating-point number. -/
def floatValue (text : String) : Except ReadError Binary64 := do
  let (negative, body) := signAndBody (lowerString text)
  let x ←
    if text.toList.all (· == '_') then nothingThere
    else if body == ".inf".toList then pure (.infinite false)
    else if body == ".nan".toList then pure .nan
    else if body.contains ':' then do
      let places ← (Text.splitOn ':' body).mapM decimalValue
      sumOfSixties (.zero false) 1 places.reverse
    else decimalValue body
  return if negative then x.neg else x

/-- Refuses a number out of its range. -/
def requireRange (holds : Bool) (message : String) : Except ReadError Unit :=
  if holds then .ok () else noValue message

/-- The offset from universal time of a moment, in seconds; it is less than a day. -/
def offsetValue (m : Pattern.Found) : Except ReadError (Option Int) :=
  let number (p : Kind.Part) : Int := Json.digitsValue (m.captured p.label)
  match m.captured Kind.Part.zoneSign.label with
  | [] => .ok (if (m.captured Kind.Part.zone.label).isEmpty then none else some 0)
  | mark =>
    let size := number .zoneHour * 3600 + number .zoneMinute * 60
    let offset := if mark == ['-'] then -size else size
    if size < 86400 then .ok (some offset)
    else
      noValue ("offset must be a timedelta strictly between -timedelta(hours=24) and " ++
        "timedelta(hours=24), not " ++ Value.spanLiteral offset ++ ".")

/-- The value of a date or moment. -/
def momentValue (text : String) : Except ReadError Value := do
  match (Kind.momentForm .opt).matchAll? (.ofText (Kind.withoutLineEnd text.toList)) with
  | none =>
    .error (.noValue
      (.mismatch .noMember "'NoneType' object has no attribute 'groupdict'"))
  | some m => do
    let number (p : Kind.Part) : Nat := Json.digitsValue (m.captured p.label)
    let date : Date := ⟨number .year, number .month, number .day⟩
    let requireDate : Except ReadError Unit := do
      requireRange (date.year != 0) "year 0 is out of range"
      requireRange (1 ≤ date.month && date.month ≤ 12) "month must be in 1..12"
      requireRange date.isValid "day is out of range for month"
    if (m.capture? Kind.Part.hour.label).isNone then do
      requireDate
      return .date date
    else
      let offset ← offsetValue m
      requireDate
      let fraction := (m.captured Kind.Part.fraction.label).take 6
      let micros := Json.digitsValue (fraction ++ List.replicate (6 - fraction.length) '0')
      let moment : Moment :=
        ⟨date, number .hour, number .minute, number .second, micros, offset⟩
      requireRange (moment.hour < 24) "hour must be in 0..23"
      requireRange (moment.minute < 60) "minute must be in 0..59"
      requireRange (moment.second < 60) "second must be in 0..59"
      return .moment moment

/-- The base-64 digits. -/
def sixBitDigits : List Char :=
  "ABCDEFGHIJKLMNOPQRSTUVWXYZabcdefghijklmnopqrstuvwxyz0123456789+/".toList

/-- The value of a base-64 digit. -/
def sixBits? (c : Char) : Option Nat := sixBitDigits.idxOf? c

/-- Six bits of what base-64 digits denote: the place of the next digit among the four of a group,
the bits that are left over from the digit before it, and the fillers seen since. -/
structure SixBitState where
  place : Nat
  left : Nat
  fillers : Nat
deriving Repr, DecidableEq, Inhabited

/-- The octets that base-64 digits denote. A group of four digits makes three octets; fillers that
complete a group end the text, and the text must not end inside a group. What is neither a digit nor
a filler says nothing. -/
def octetsOfSixBits (state : SixBitState) : List Char → Option (List UInt8)
  | [] => if state.place = 0 then some [] else none
  | c :: rest =>
    if c == '=' then
      if state.place < 2 then octetsOfSixBits state rest
      else if 4 ≤ state.place + state.fillers + 1 then some []
      else octetsOfSixBits { state with fillers := state.fillers + 1 } rest
    else
      match sixBits? c with
      | none => octetsOfSixBits state rest
      | some bits =>
        match state.place with
        | 0 => octetsOfSixBits ⟨1, bits, 0⟩ rest
        | 1 =>
          (octetsOfSixBits ⟨2, bits % 16, 0⟩ rest).map
            (UInt8.ofNat (state.left * 4 + bits / 16) :: ·)
        | 2 =>
          (octetsOfSixBits ⟨3, bits % 4, 0⟩ rest).map
            (UInt8.ofNat (state.left * 16 + bits / 4) :: ·)
        | _ =>
          (octetsOfSixBits ⟨0, 0, 0⟩ rest).map (UInt8.ofNat (state.left * 64 + bits) :: ·)

/-- The octets that an ASCII text denotes in base-64 digits. -/
def binaryValue (text : String) : Except ReadError (List UInt8) :=
  let chars := text.toList
  match if chars.all (·.toNat < 128) then octetsOfSixBits ⟨0, 0, 0⟩ chars else none with
  | some octets => .ok octets
  | none => .error .malformed

/-- The value of a scalar with a tag. -/
def scalarValue (tag text : String) : Except ReadError Value :=
  if tag == Kind.text.tag then .ok (.text text)
  else if tag == Kind.null.tag then .ok .null
  else if tag == Kind.int.tag then (integerValue text).map Value.int
  else if tag == Kind.float.tag then (floatValue text).map Value.float
  else if tag == Kind.moment.tag then momentValue text
  else if tag == Kind.commonTag "binary" then (binaryValue text).map Value.bytes
  else if tag == Kind.bool.tag then
    match Kind.boolTexts.lookup (lowerString text) with
    | some b => .ok (.bool b)
    | none => .error (.noValue (.mismatch .noKey (lowerString text)))
  else .error .malformed

end GuestCode.Yaml
