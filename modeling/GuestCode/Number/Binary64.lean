/-!
# Binary floating-point numbers

Numbers of the 64-bit binary floating-point format, as data: a sign, a mantissa below `2 ^ 53` and
an exponent of two, or one of the two infinities, or the one value that is no number. Equal
representations are equal numbers, the sign of zero apart. Where a result has to be rounded it is
the nearest number, of two equally near ones that with the even mantissa.

* `Binary64`: the type
* `Binary64.ofRatio`, `Binary64.ofDecimal`: rounding a ratio, or a decimal, to the nearest number
* `Binary64.compare?`, `Binary64.truncate?`: comparison and integer part
* `Binary64.add`, `Binary64.mul`: rounded arithmetic
-/

namespace GuestCode

/-- A binary floating-point number: `mantissa * 2 ^ exponent` with a sign, an infinity, or no
number at all. The functions below build numbers whose mantissa is below `2 ^ 53`, is at least
`2 ^ 52` unless the exponent is the least one, and whose exponent lies between -1074 and 971. -/
inductive Binary64 where
  | finite (negative : Bool) (mantissa : Nat) (exponent : Int)
  | infinite (negative : Bool)
  | nan
deriving Repr, DecidableEq, Inhabited

namespace Binary64

/-- The least exponent. -/
def minExponent : Int := -1074

/-- The greatest exponent. -/
def maxExponent : Int := 971

/-- Zero. -/
def zero (negative : Bool) : Binary64 := .finite negative 0 minExponent

/-- The quotient of two natural numbers rounded to the nearest one, a tie to the even one. -/
def divideToEven (num den : Nat) : Nat :=
  let q := num / den
  let r := num % den
  if 2 * r < den then q
  else if den < 2 * r then q + 1
  else if q % 2 = 0 then q else q + 1

/-- `num / (den * base ^ exponent)`, as a ratio of natural numbers. -/
def scaleRatio (base num den : Nat) (exponent : Int) : Nat × Nat :=
  if 0 ≤ exponent then (num, den * Nat.pow base exponent.toNat)
  else (num * Nat.pow base (-exponent).toNat, den)

/-- The number `2 ^ 53`, which no mantissa reaches. -/
def mantissaBound : Nat := 9007199254740992

/-- The number nearest to a ratio. -/
def ofRatio (negative : Bool) (num den : Nat) : Binary64 :=
  if num = 0 ∨ den = 0 then zero negative
  else
    let guess : Int := (Nat.log2 num : Int) - (Nat.log2 den : Int) - 53
    let (n, d) := scaleRatio 2 num den guess
    let exponent := max minExponent (if n / d < mantissaBound then guess else guess + 1)
    let (n, d) := scaleRatio 2 num den exponent
    let mantissa := divideToEven n d
    let (mantissa, exponent) :=
      if mantissa = mantissaBound then (mantissaBound / 2, exponent + 1) else (mantissa, exponent)
    if maxExponent < exponent then .infinite negative else .finite negative mantissa exponent

/-- The number nearest to an integer. -/
def ofInt (n : Int) : Binary64 := ofRatio (decide (n < 0)) n.natAbs 1

/-- The number nearest to `digits * 10 ^ exponent`. Beyond the range of the format no power is
computed. -/
def ofDecimal (negative : Bool) (digits : Nat) (exponent : Int) : Binary64 :=
  let size : Int := (Nat.log2 digits / 3 : Nat)
  if digits = 0 then zero negative
  else if 400 < exponent then .infinite negative
  else if exponent + size < -400 then zero negative
  else
    let (num, den) := scaleRatio 10 digits 1 (-exponent)
    ofRatio negative num den

/-- The absolute value of a finite number as a ratio. -/
def magnitude (mantissa : Nat) (exponent : Int) : Nat × Nat :=
  scaleRatio 2 mantissa 1 (-exponent)

/-- The integer part, if the number is finite. -/
def truncate? : Binary64 → Option Int
  | finite negative mantissa exponent =>
    let (num, den) := magnitude mantissa exponent
    let n : Int := (num / den : Nat)
    some (if negative then -n else n)
  | _ => none

/-- Whether a number is zero, of either sign. -/
def isZero : Binary64 → Bool
  | finite _ mantissa _ => mantissa == 0
  | _ => false

/-- The exact value of a finite number as a signed numerator and a denominator. -/
def toRatio (negative : Bool) (mantissa : Nat) (exponent : Int) : Int × Nat :=
  let (num, den) := magnitude mantissa exponent
  (if negative then -(num : Int) else num, den)

/-- Compares two numbers; what is no number compares with nothing. -/
def compare? : Binary64 → Binary64 → Option Ordering
  | nan, _ => none
  | _, nan => none
  | infinite a, infinite b => some (if a == b then .eq else if a then .lt else .gt)
  | infinite a, _ => some (if a then .lt else .gt)
  | _, infinite b => some (if b then .gt else .lt)
  | finite s m e, finite s' m' e' =>
    let (n, d) := toRatio s m e
    let (n', d') := toRatio s' m' e'
    some (compare (n * d') (n' * d))

/-- Compares a number with an integer, exactly. -/
def compareInt? : Binary64 → Int → Option Ordering
  | nan, _ => none
  | infinite negative, _ => some (if negative then .lt else .gt)
  | finite s m e, k =>
    let (n, d) := toRatio s m e
    some (compare n (k * d))

/-! ## Arithmetic -/

/-- The number with the other sign. -/
def neg : Binary64 → Binary64
  | finite negative mantissa exponent => finite (!negative) mantissa exponent
  | infinite negative => infinite (!negative)
  | nan => nan

/-- The sum of two numbers, rounded. A sum of zero is positive unless both numbers are negative. -/
def add : Binary64 → Binary64 → Binary64
  | nan, _ => nan
  | _, nan => nan
  | infinite a, infinite b => if a == b then infinite a else nan
  | infinite a, _ => infinite a
  | _, infinite b => infinite b
  | finite s m e, finite s' m' e' =>
    let (n, d) := toRatio s m e
    let (n', d') := toRatio s' m' e'
    let sum := n * d' + n' * d
    if sum = 0 then zero (s && s') else ofRatio (decide (sum < 0)) sum.natAbs (d * d')

/-- The product of two numbers, rounded. -/
def mul : Binary64 → Binary64 → Binary64
  | nan, _ => nan
  | _, nan => nan
  | infinite a, infinite b => infinite (a != b)
  | infinite a, finite s m _ => if m = 0 then nan else infinite (a != s)
  | finite s m _, infinite b => if m = 0 then nan else infinite (s != b)
  | finite s m e, finite s' m' e' =>
    let (n, d) := magnitude m e
    let (n', d') := magnitude m' e'
    ofRatio (s != s') (n * n') (d * d')

/-- A number divided by a natural number other than zero, rounded. -/
def divNat (x : Binary64) (divisor : Nat) : Binary64 :=
  match x with
  | finite s m e =>
    let (n, d) := magnitude m e
    ofRatio s n (d * divisor)
  | x => x

end Binary64

end GuestCode
