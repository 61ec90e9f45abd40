import GuestCode.Number.Binary64
import GuestCode.Text.Split

/-!
# Numerals

Numbers as texts. An integer is a sign, a mark of the base, and digits of any script, with blanks
around all of it. A low line may stand between two digits. Decimal integers may not be longer than a
limit, for turning long ones into numbers takes too long. Other numbers are decimal, with a fraction
and an exponent, or words.

* `Numeral.Fault`: why a text is no integer
* `Numeral.read`: the integer that a text denotes
* `Numeral.readDecimal?`: the floating-point number that a text denotes
-/

namespace GuestCode.Text.Numeral

/-- Blanks around numerals: the separators of information that ASCII has are none of them. -/
def isPadding (c : Char) : Bool := isBlank c && !(28 ≤ c.toNat && c.toNat < 32)

/-- The value of a digit to a base: letters follow the digits of any script. -/
def digit? (base : Nat) (c : Char) : Option Nat :=
  let value? : Option Nat :=
    if 'a' ≤ c && c ≤ 'z' then some (c.toNat - 'a'.toNat + 10)
    else if 'A' ≤ c && c ≤ 'Z' then some (c.toNat - 'A'.toNat + 10)
    else decimalValue? c
  value?.filter (· < base)

/-- The digits at the start of a text, with what follows them. No low line may stand before the
digits, after them, or beside another one. -/
def digitRun? (base : Nat) (afterDigit : Bool) : List Char → Option (List Nat × List Char)
  | [] => if afterDigit then some ([], []) else none
  | c :: rest =>
    if c == '_' then if afterDigit then digitRun? base false rest else none
    else
      match digit? base c with
      | some d => (digitRun? base true rest).map fun (digits, after) => (d :: digits, after)
      | none => if afterDigit then some ([], c :: rest) else none

/-- The letter that marks a base after a zero. -/
def baseMark? : Nat → Option Char
  | 2 => some 'b'
  | 8 => some 'o'
  | 16 => some 'x'
  | _ => none

/-- A text without the mark of its base, after which a low line may stand. -/
def withoutMark (base : Nat) : List Char → List Char
  | '0' :: mark :: rest =>
    if baseMark? base == some mark.toLower then if rest.head? == some '_' then rest.tail else rest
    else '0' :: mark :: rest
  | text => text

/-- A text without the sign before it, and whether that is a minus. -/
def divideSign : List Char → Bool × List Char
  | '-' :: rest => (true, rest)
  | '+' :: rest => (false, rest)
  | text => (false, text)

/-- The most digits that a decimal numeral may have. -/
def maxDigits : Nat := 4300

/-- Why a text is no numeral. -/
inductive Fault where
  | malformed
  | tooLong (digits : Nat)
deriving Repr, DecidableEq, Inhabited

/-- The integer that a text denotes to a base. Whether a decimal numeral is too long is decided by
the digits at its start, even if what follows them makes no sense. -/
def read (base : Nat) (text : List Char) : Except Fault Int :=
  let (negative, body) := divideSign (text.dropWhile isPadding)
  match digitRun? base false (withoutMark base body) with
  | none => .error .malformed
  | some (digits, rest) =>
    if base = 10 && maxDigits < digits.length then .error (.tooLong digits.length)
    else if rest.all isPadding then
      let n : Nat := digits.foldl (fun n d => n * base + d) 0
      .ok (if negative then -(n : Int) else n)
    else .error .malformed

/-! ## Decimal fractions -/

/-- The decimal digits at the start of a text, and what follows them. -/
def decimalDigits : List Char → List Nat × List Char
  | [] => ([], [])
  | c :: rest =>
    match decimalValue? c with
    | some d =>
      let (digits, after) := decimalDigits rest
      (d :: digits, after)
    | none => ([], c :: rest)

/-- The natural number that decimal digits denote. -/
def ofDigits (digits : List Nat) : Nat := digits.foldl (fun n d => n * 10 + d) 0

/-- The exponent at the start of a text, 0 if there is none, and what follows it. -/
def exponent (text : List Char) : Int × List Char :=
  match text with
  | [] => (0, [])
  | mark :: rest =>
    let (negative, body) := divideSign rest
    match decimalDigits body with
    | ([], _) => (0, text)
    | (digits, after) =>
      if mark == 'e' || mark == 'E' then
        let n : Int := ofDigits digits
        (if negative then -n else n, after)
      else (0, text)

/-- The number that decimal digits denote, with a fraction and an exponent if they are there. -/
def decimal? (negative : Bool) (text : List Char) : Option Binary64 :=
  let (whole, rest) := decimalDigits text
  let (fraction, rest) :=
    match rest with
    | '.' :: rest => decimalDigits rest
    | _ => ([], rest)
  let (scale, rest) := exponent rest
  let digits := whole ++ fraction
  if digits.isEmpty || !rest.isEmpty then none
  else some (.ofDecimal negative (ofDigits digits) (scale - fraction.length))

/-- The words for infinity. -/
def infinityWords : List (List Char) := ["inf".toList, "infinity".toList]

/-- The number that a text without low lines denotes, in digits or by a word. -/
def readDecimal? (text : List Char) : Option Binary64 :=
  let (negative, body) :=
    divideSign (dropEndWhile isPadding (text.dropWhile isPadding))
  let word := body.map Char.toLower
  if infinityWords.contains word then some (.infinite negative)
  else if word == "nan".toList then some .nan
  else decimal? negative body

end GuestCode.Text.Numeral
