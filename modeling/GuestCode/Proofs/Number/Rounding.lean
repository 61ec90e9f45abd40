import GuestCode.Number.Binary64

/-!
# Rounding keeps signs

A ratio of positive numbers is rounded to a number of its own sign, or to the infinity of that
sign: unless the ratio is too close to zero for the format, it does not become zero. So a rounded
ratio compares with zero as the ratio does.

## Main statements

* `Binary64.ofRatio_cases`: what a ratio can be rounded to.
* `Binary64.compareInt?_zero_of_pos`: a number with a positive mantissa lies on the side of zero
  that its sign tells.
-/

namespace GuestCode.Binary64

/-- A scale that is small enough leaves a ratio of at least one. -/
theorem scaleRatio_le {num den : Nat} {exponent : Int} (hnum : num ≠ 0)
    (h : exponent ≤ (Nat.log2 num : Int) - Nat.log2 den - 1) :
    (scaleRatio 2 num den exponent).2 ≤ (scaleRatio 2 num den exponent).1 := by
  have hlow : 2 ^ Nat.log2 num ≤ num := Nat.log2_self_le hnum
  have hhigh : den ≤ 2 ^ (Nat.log2 den + 1) := Nat.le_of_lt Nat.lt_log2_self
  unfold scaleRatio
  split
  · next hexponent =>
    calc den * Nat.pow 2 exponent.toNat
        ≤ 2 ^ (Nat.log2 den + 1) * 2 ^ exponent.toNat := Nat.mul_le_mul_right _ hhigh
      _ = 2 ^ (Nat.log2 den + 1 + exponent.toNat) := (Nat.pow_add ..).symm
      _ ≤ 2 ^ Nat.log2 num := Nat.pow_le_pow_right (by decide) (by omega)
      _ ≤ num := hlow
  · next hexponent =>
    calc den
        ≤ 2 ^ (Nat.log2 den + 1) := hhigh
      _ ≤ 2 ^ (Nat.log2 num + (-exponent).toNat) := Nat.pow_le_pow_right (by decide) (by omega)
      _ = 2 ^ Nat.log2 num * 2 ^ (-exponent).toNat := Nat.pow_add ..
      _ ≤ num * Nat.pow 2 (-exponent).toNat := Nat.mul_le_mul_right _ hlow

theorem divideToEven_pos {num den : Nat} (hden : 0 < den) (h : den ≤ num) :
    0 < divideToEven num den := by
  have hquotient : 0 < num / den := Nat.div_pos h hden
  unfold divideToEven
  dsimp only
  split
  · exact hquotient
  · split
    · exact Nat.succ_pos _
    · split
      · exact hquotient
      · exact Nat.succ_pos _

theorem scaleRatio_snd_pos {num den : Nat} (hden : 0 < den) (exponent : Int) :
    0 < (scaleRatio 2 num den exponent).2 := by
  unfold scaleRatio
  split
  · exact Nat.mul_pos hden (Nat.pow_pos (by decide))
  · exact hden

/-! ## Rounding in two steps -/

/-- The exponent that a ratio is rounded to a multiple of. -/
def roundingExponent (num den : Nat) : Int :=
  let guess : Int := (Nat.log2 num : Int) - (Nat.log2 den : Int) - 53
  let (n, d) := scaleRatio 2 num den guess
  max minExponent (if n / d < mantissaBound then guess else guess + 1)

/-- A number with a mantissa that may have reached its bound. -/
def packed (negative : Bool) (mantissa : Nat) (exponent : Int) : Binary64 :=
  let (mantissa, exponent) :=
    if mantissa = mantissaBound then (mantissaBound / 2, exponent + 1) else (mantissa, exponent)
  if maxExponent < exponent then .infinite negative else .finite negative mantissa exponent

theorem ofRatio_eq_packed (negative : Bool) {num den : Nat} (hnum : num ≠ 0) (hden : den ≠ 0) :
    ofRatio negative num den =
      packed negative
        (divideToEven (scaleRatio 2 num den (roundingExponent num den)).1
          (scaleRatio 2 num den (roundingExponent num den)).2)
        (roundingExponent num den) := by
  unfold ofRatio
  rw [if_neg (by simp [hnum, hden])]
  rfl

theorem roundingExponent_le {num den : Nat} (hsize : Nat.log2 den < 1074) :
    roundingExponent num den ≤ (Nat.log2 num : Int) - Nat.log2 den - 1 := by
  unfold roundingExponent minExponent
  dsimp only
  split <;> omega

/-- What a number with a positive mantissa can be packed into. -/
theorem packed_cases (negative : Bool) {mantissa : Nat} (h : 0 < mantissa) (exponent : Int) :
    packed negative mantissa exponent = .infinite negative ∧ maxExponent ≤ exponent ∨
      ∃ mantissa' exponent', 0 < mantissa' ∧
        packed negative mantissa exponent = .finite negative mantissa' exponent' := by
  unfold packed
  by_cases hbound : mantissa = mantissaBound
  · simp only [hbound, if_true]
    split
    · exact .inl ⟨rfl, by omega⟩
    · exact .inr ⟨_, _, by decide, rfl⟩
  · simp only [hbound, if_false]
    split
    · exact .inl ⟨rfl, by omega⟩
    · exact .inr ⟨_, _, h, rfl⟩

/-- What a positive ratio is rounded to, if it does not vanish next to the least number: an infinity
only if it is very large, and never zero. -/
theorem ofRatio_cases (negative : Bool) {num den : Nat} (hnum : num ≠ 0) (hden : den ≠ 0)
    (hsize : Nat.log2 den < 1074) :
    ofRatio negative num den = .infinite negative ∧ maxExponent ≤ Nat.log2 num - Nat.log2 den ∨
      ∃ mantissa exponent, 0 < mantissa ∧
        ofRatio negative num den = .finite negative mantissa exponent := by
  have hexponent := @roundingExponent_le num den hsize
  have hpos : 0 < divideToEven (scaleRatio 2 num den (roundingExponent num den)).1
      (scaleRatio 2 num den (roundingExponent num den)).2 :=
    divideToEven_pos (scaleRatio_snd_pos (Nat.pos_of_ne_zero hden) _) (scaleRatio_le hnum hexponent)
  rw [ofRatio_eq_packed negative hnum hden]
  rcases packed_cases negative hpos (roundingExponent num den) with ⟨h, hlarge⟩ | h
  · exact .inl ⟨h, by omega⟩
  · exact .inr h

/-! ## Comparing with zero -/

theorem compareInt?_zero_of_zero (negative : Bool) (exponent : Int) :
    compareInt? (.finite negative 0 exponent) 0 = some .eq := by
  have hnum : (magnitude 0 exponent).1 = 0 := by
    unfold magnitude scaleRatio
    split <;> simp
  simp [compareInt?, toRatio, hnum]

theorem compareInt?_zero_of_pos (negative : Bool) {mantissa : Nat} (h : 0 < mantissa)
    (exponent : Int) :
    compareInt? (.finite negative mantissa exponent) 0 = some (if negative then .lt else .gt) := by
  have hnum : 0 < (magnitude mantissa exponent).1 := by
    unfold magnitude scaleRatio
    split
    · exact h
    · exact Nat.mul_pos h (Nat.pow_pos (by decide))
  simp only [compareInt?, toRatio, Int.zero_mul, Option.some.injEq]
  cases negative with
  | true => exact Int.compare_eq_lt.mpr (by simpa using hnum)
  | false => exact Int.compare_eq_gt.mpr (by simpa using hnum)

end GuestCode.Binary64
