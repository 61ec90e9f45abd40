/-!
# UTF-8

Texts as octets. Decoding reports the first flaw, or puts a replacement character for each flaw,
where a flaw is the longest run of octets that a character could start with.

* `Utf8.encode`: the octets of a text
* `Utf8.Flaw`, `Utf8.decode`: decoding that stops at a flaw
* `Utf8.decodeLossy`: decoding that replaces flaws
* `Utf8.universalLineEnds`: all kinds of line ends as one
-/

namespace GuestCode.Utf8

/-- The octets of a character. -/
def encodeChar (c : Char) : List UInt8 :=
  let n := c.toNat
  let continuation (k : Nat) : UInt8 := UInt8.ofNat (0x80 + k % 0x40)
  if n < 0x80 then [UInt8.ofNat n]
  else if n < 0x800 then [UInt8.ofNat (0xC0 + n / 0x40), continuation n]
  else if n < 0x10000 then
    [UInt8.ofNat (0xE0 + n / 0x1000), continuation (n / 0x40), continuation n]
  else
    [UInt8.ofNat (0xF0 + n / 0x40000), continuation (n / 0x1000), continuation (n / 0x40),
      continuation n]

/-- The octets of a text. -/
def encode (text : List Char) : List UInt8 := text.flatMap encodeChar

/-- The replacement character. -/
def replacement : Char := '\uFFFD'

/-- What is wrong with octets that start no character. -/
inductive Cause where
  | invalidStart
  | invalidContinuation
  | unexpectedEnd
deriving Repr, DecidableEq, Inhabited

/-- The report of a cause. -/
def Cause.message : Cause → String
  | invalidStart => "invalid start byte"
  | invalidContinuation => "invalid continuation byte"
  | unexpectedEnd => "unexpected end of data"

/-- A character, or what is wrong, together with the number of octets after the first that belong
to it. -/
inductive Step where
  | char (c : Char) (more : Nat)
  | flaw (cause : Cause) (more : Nat)
deriving Repr, DecidableEq, Inhabited

/-- Whether an octet continues a character. -/
def isContinuation (b : UInt8) : Bool := 0x80 ≤ b && b ≤ 0xBF

/-- Reads the octets after the first one of a character of `more + 1` octets; the first of them
lies between `low` and `high`, and `seen` of them have been read. -/
def stepFrom (code seen : Nat) (low high : UInt8) : Nat → List UInt8 → Step
  | 0, _ => .char (Char.ofNat code) seen
  | _ + 1, [] => .flaw .unexpectedEnd seen
  | more + 1, b :: rest =>
    if low ≤ b && b ≤ high then
      stepFrom (code * 0x40 + (b.toNat - 0x80)) (seen + 1) 0x80 0xBF more rest
    else .flaw .invalidContinuation seen

/-- Reads one character from its first octet and those after it. With `surrogates`, codes of
surrogates count as characters and are replaced. -/
def step (surrogates : Bool) (b : UInt8) (rest : List UInt8) : Step :=
  if b < 0x80 then .char (Char.ofNat b.toNat) 0
  else if b < 0xC2 then .flaw .invalidStart 0
  else if b < 0xE0 then stepFrom (b.toNat - 0xC0) 0 0x80 0xBF 1 rest
  else if b < 0xF0 then
    let low := if b == 0xE0 then 0xA0 else 0x80
    let high := if b == 0xED && !surrogates then 0x9F else 0xBF
    match stepFrom (b.toNat - 0xE0) 0 low high 2 rest with
    | .char c more => .char (if c.toNat == 0 then replacement else c) more
    | other => other
  else if b < 0xF5 then
    let low := if b == 0xF0 then 0x90 else 0x80
    let high := if b == 0xF4 then 0x8F else 0xBF
    stepFrom (b.toNat - 0xF0) 0 low high 3 rest
  else .flaw .invalidStart 0

/-- A flaw in a text: the octets concerned, from the first one, and the cause. -/
structure Flaw where
  start : Nat
  octets : List UInt8
  cause : Cause
deriving Repr, DecidableEq, Inhabited

/-- Two hexadecimal digits. -/
def hexOctet (b : UInt8) : String :=
  let digits := Nat.toDigits 16 b.toNat
  String.ofList (List.replicate (2 - digits.length) '0' ++ digits)

/-- The report of a flaw. -/
def Flaw.message (flaw : Flaw) : String :=
  match flaw.octets with
  | [b] =>
    "'utf-8' codec can't decode byte 0x" ++ hexOctet b ++ " in position " ++
      toString flaw.start ++ ": " ++ flaw.cause.message
  | octets =>
    "'utf-8' codec can't decode bytes in position " ++ toString flaw.start ++ "-" ++
      toString (flaw.start + octets.length - 1) ++ ": " ++ flaw.cause.message

/-- Decodes the octets from place `start` on; the first `skip` of them belong to the character
before. -/
def decodeFrom (surrogates : Bool) (start skip : Nat) : List UInt8 → Except Flaw (List Char)
  | [] => .ok []
  | b :: rest =>
    match skip with
    | k + 1 => decodeFrom surrogates (start + 1) k rest
    | 0 =>
      match step surrogates b rest with
      | .char c more => do
        let text ← decodeFrom surrogates (start + 1) more rest
        return c :: text
      | .flaw cause more => .error ⟨start, b :: rest.take more, cause⟩

/-- The text of octets, or the first flaw. -/
def decode (octets : List UInt8) : Except Flaw (List Char) := decodeFrom false 0 0 octets

/-- Decodes octets, of which the first `skip` belong to the character or flaw before. -/
def decodeLossyFrom (skip : Nat) : List UInt8 → List Char
  | [] => []
  | b :: rest =>
    match skip with
    | k + 1 => decodeLossyFrom k rest
    | 0 =>
      match step false b rest with
      | .char c more => c :: decodeLossyFrom more rest
      | .flaw _ more => replacement :: decodeLossyFrom more rest

/-- The text of octets, with a replacement character for each flaw. -/
def decodeLossy (octets : List UInt8) : List Char := decodeLossyFrom 0 octets

/-- A text in which a carriage return, alone or before a line feed, is a line feed. -/
def universalLineEnds : List Char → List Char
  | [] => []
  | '\r' :: '\n' :: rest => '\n' :: universalLineEnds rest
  | '\r' :: rest => '\n' :: universalLineEnds rest
  | c :: rest => c :: universalLineEnds rest

end GuestCode.Utf8
