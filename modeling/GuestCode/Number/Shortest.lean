import GuestCode.Number.Binary64

/-!
# Shortest decimals

The shortest decimal that reads back as a given floating-point number: of the grids of one, two,
up to seventeen digits the first that holds such a decimal is taken, and of two such decimals on
it the nearer to the number.

* `Decimal`, `Decimal.shortest`: the digits and the place of the point
* `Binary64.text`: how numbers are written out
-/

namespace GuestCode

/-- The decimal `digits * 10 ^ exponent`. -/
structure Decimal where
  digits : Nat
  exponent : Int
deriving Repr, DecidableEq, Inhabited

namespace Decimal

/-- The number of digits of a natural number; zero has one. -/
def digitCount (n : Nat) : Nat := (Nat.toDigits 10 n).length

/-- The place of the decimal point of a positive ratio: the `p` with
`10 ^ (p - 1) ≤ num / den < 10 ^ p`. -/
def pointOf (num den : Nat) : Int :=
  if den ≤ num then digitCount (num / den)
  else
    let k := digitCount (den / num)
    if den = num * Nat.pow 10 (k - 1) then 2 - (k : Int) else 1 - (k : Int)

/-- The decimals of `count` digits next to a positive ratio, the nearer first, a tie to the even
one. -/
def neighbours (num den : Nat) (count : Nat) : List Decimal :=
  let exponent := pointOf num den - count
  let (n, d) := Binary64.scaleRatio 10 num den exponent
  let below := n / d
  let nearest := Binary64.divideToEven n d
  let other := if nearest = below then below + 1 else below
  [⟨nearest, exponent⟩, ⟨other, exponent⟩]

/-- A decimal without zeros at its end. -/
def withoutZeros : Nat → Decimal → Decimal
  | 0, d => d
  | fuel + 1, d =>
    if d.digits ≠ 0 ∧ d.digits % 10 = 0 then withoutZeros fuel ⟨d.digits / 10, d.exponent + 1⟩
    else d

/-- The shortest decimal that reads back as the number `mantissa * 2 ^ exponent`; seventeen digits
are always enough. -/
def shortest (mantissa : Nat) (exponent : Int) : Decimal :=
  let (num, den) := Binary64.magnitude mantissa exponent
  let candidates := (List.range 17).flatMap fun k => neighbours num den (k + 1)
  let found := candidates.find? fun d =>
    Binary64.ofDecimal false d.digits d.exponent == .finite false mantissa exponent
  withoutZeros 20 (found.getD ⟨mantissa, exponent⟩)

end Decimal

namespace Binary64

/-- How the parts of a number are put together in writing. -/
structure Style where
  /-- The greatest place of the decimal point that is written without an exponent. -/
  maxPoint : Int
  /-- The least place of the decimal point that is written without an exponent. -/
  minPoint : Int
  /-- The text of positive infinity. -/
  infinity : String
  /-- The text of what is no number. -/
  notANumber : String
deriving Repr, Inhabited

/-- Numbers as values are shown: an exponent is written from `1e+16` on and below `0.0001`. -/
def plainStyle : Style := ⟨16, -3, "inf", "nan"⟩

/-- Numbers in JSON texts, which name the values that have no digits. -/
def jsonStyle : Style := { plainStyle with infinity := "Infinity", notANumber := "NaN" }

/-- Zeros to write. -/
def zeros (n : Int) : String := String.ofList (List.replicate n.toNat '0')

/-- The text of the positive number whose digits are `digits` with the point at `point`. -/
def digitsText (style : Style) (digits : String) (point : Int) : String :=
  let count : Int := digits.length
  if point < style.minPoint ∨ style.maxPoint < point then
    let e := point - 1
    let mantissa :=
      if digits.length ≤ 1 then digits
      else String.ofList (digits.toList.take 1) ++ "." ++ String.ofList (digits.toList.drop 1)
    let size := toString e.natAbs
    mantissa ++ (if e < 0 then "e-" else "e+") ++ (if size.length < 2 then "0" ++ size else size)
  else if point ≤ 0 then "0." ++ zeros (-point) ++ digits
  else if count ≤ point then digits ++ zeros (point - count) ++ ".0"
  else
    String.ofList (digits.toList.take point.toNat) ++ "." ++
      String.ofList (digits.toList.drop point.toNat)

/-- The text of a number, with the fewest digits that read back. -/
def text (style : Style) : Binary64 → String
  | nan => style.notANumber
  | infinite negative => (if negative then "-" else "") ++ style.infinity
  | finite negative mantissa exponent =>
    (if negative then "-" else "") ++
      if mantissa = 0 then "0.0"
      else
        let d := Decimal.shortest mantissa exponent
        let digits := toString d.digits
        digitsText style digits (d.exponent + digits.length)

end Binary64

end GuestCode
