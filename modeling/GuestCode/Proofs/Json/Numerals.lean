import GuestCode.Json.Reader
import GuestCode.Json.Writer
import Mathlib.Algebra.Group.Nat.Defs

/-!
# Numbers that are written and read

A number in a JSON text is a whole part, perhaps a fraction, and perhaps an exponent. It is read up
to its end, provided that what follows cannot go on with it. Integers are written with the digits
that they are read from. Floating-point numbers are always written with a fraction or an exponent,
so they are read as floating-point numbers again.

## Main statements

* `Json.exists_readNumber?_float`: what is read from a fraction or an exponent.
* `Json.readNumber?_toDigits`: integers are read as they were.
* `Json.isFloatText_digitsText`: the digits of a floating-point number can be read.
-/

namespace GuestCode.Json

/-! ## Parts of numbers -/

/-- A text of decimal digits. -/
def AllDigits (digits : List Char) : Prop := ∀ c ∈ digits, c.isDigit = true

/-- The whole part of a number: a lone zero, or digits of which the first one is no zero. -/
inductive IsWhole : List Char → Prop where
  | zero : IsWhole ['0']
  | digits {c : Char} {cs : List Char} (noZero : c ≠ '0') (digits : AllDigits (c :: cs)) :
      IsWhole (c :: cs)

/-- A fraction, if there is one. -/
inductive IsFraction : List Char → Prop where
  | none : IsFraction []
  | digits {digits : List Char} (nonempty : digits ≠ []) (all : AllDigits digits) :
      IsFraction ('.' :: digits)

/-- An exponent, if there is one. -/
inductive IsExponent : List Char → Prop where
  | none : IsExponent []
  | digits {sign : Char} {digits : List Char} (signed : sign ∈ ['+', '-']) (nonempty : digits ≠ [])
      (all : AllDigits digits) : IsExponent ('e' :: sign :: digits)

/-- A text that does not go on with a number that it follows. -/
def EndsNumber (rest : List Char) : Prop :=
  ∀ c ∈ rest.head?, c.isDigit = false ∧ c ∉ ['.', 'e', 'E']

variable {whole fraction exponent digits rest : List Char}

theorem AllDigits.append {others : List Char} (h : AllDigits digits) (h' : AllDigits others) :
    AllDigits (digits ++ others) :=
  fun c hc => (List.mem_append.mp hc).elim (h c) (h' c)

theorem allDigits_toDigits (n : Nat) : AllDigits (Nat.toDigits 10 n) :=
  fun _ hc => Nat.isDigit_of_mem_toDigits (by decide) (by decide) hc

theorem IsWhole.allDigits (h : IsWhole whole) : AllDigits whole := by
  cases h with
  | zero => exact fun c hc => List.mem_singleton.mp hc ▸ rfl
  | digits _ digits => exact digits

theorem IsWhole.ne_nil (h : IsWhole whole) : whole ≠ [] := by
  cases h <;> exact List.cons_ne_nil _ _

/-! ## Reading the parts -/

/-- Digits are read up to a character that is none. -/
theorem readDigits_append (h : AllDigits digits) (hrest : ∀ c ∈ rest.head?, c.isDigit = false) :
    readDigits (digits ++ rest) = (digits, rest) := by
  have hstop : rest.takeWhile Char.isDigit = [] ∧ rest.dropWhile Char.isDigit = rest := by
    cases rest with
    | nil => exact ⟨rfl, rfl⟩
    | cons c cs => simp [hrest c rfl]
  rw [readDigits, List.takeWhile_append_of_pos h, List.dropWhile_append_of_pos h, hstop.1, hstop.2,
    List.append_nil]

theorem readWhole?_append (h : IsWhole whole) (hrest : ∀ c ∈ rest.head?, c.isDigit = false) :
    readWhole? (whole ++ rest) = some (whole, rest) := by
  cases h with
  | zero => rfl
  | @digits c cs noZero digits =>
    have hc : c.isDigit = true := digits c List.mem_cons_self
    have hread := readDigits_append digits hrest
    rw [List.cons_append] at hread ⊢
    rw [readWhole?, if_pos hc, hread]
    exact noZero

/-- What may follow a fraction neither is a fraction nor goes on with digits. -/
theorem head?_exponent (hexponent : IsExponent exponent) (hrest : EndsNumber rest) :
    ∀ c ∈ (exponent ++ rest).head?, c.isDigit = false ∧ c ≠ '.' := by
  cases hexponent with
  | none =>
    intro c hc
    obtain ⟨hdigit, hmark⟩ := hrest c hc
    refine ⟨hdigit, ?_⟩
    rintro rfl
    exact hmark (by decide)
  | digits =>
    intro c hc
    obtain rfl : 'e' = c := by simpa using hc
    decide

theorem head?_fraction (hfraction : IsFraction fraction) (hexponent : IsExponent exponent)
    (hrest : EndsNumber rest) :
    ∀ c ∈ (fraction ++ (exponent ++ rest)).head?, c.isDigit = false := by
  cases hfraction with
  | none => exact fun c hc => (head?_exponent hexponent hrest c hc).1
  | digits =>
    intro c hc
    obtain rfl : '.' = c := by simpa using hc
    decide

theorem readFraction_append (hfraction : IsFraction fraction) (hexponent : IsExponent exponent)
    (hrest : EndsNumber rest) :
    readFraction (fraction ++ (exponent ++ rest)) = (fraction.tail, exponent ++ rest) := by
  have hhead := head?_exponent hexponent hrest
  cases hfraction with
  | none =>
    rw [List.nil_append, readFraction]
    · rfl
    · rintro others heq
      exact (hhead '.' (by rw [heq]; rfl)).2 rfl
  | @digits digits nonempty all =>
    have hread := readDigits_append all fun c hc => (hhead c hc).1
    cases digits with
    | nil => exact absurd rfl nonempty
    | cons c cs =>
      rw [List.cons_append, readFraction, hread]
      rfl

/-- An exponent is read, and where there is none, none is read. -/
theorem exists_readExponent_append (hexponent : IsExponent exponent) :
    ∃ value : Option Int, (value = none ↔ exponent = []) ∧
      ∀ {rest}, EndsNumber rest → readExponent (exponent ++ rest) = (value, rest) := by
  cases hexponent with
  | none =>
    refine ⟨none, ⟨fun _ => rfl, fun _ => rfl⟩, fun {rest} hrest => ?_⟩
    cases rest with
    | nil => rfl
    | cons c cs =>
      obtain ⟨-, hmark⟩ := hrest c rfl
      have hno : (c == 'e' || c == 'E') = false := by simp_all
      unfold readExponent
      dsimp only [List.nil_append]
      rw [hno, if_neg Bool.false_ne_true]
  | @digits sign digits signed nonempty all =>
    refine ⟨some (if sign = '-' then -(digitsValue digits : Int) else digitsValue digits),
      ⟨nofun, nofun⟩, fun {rest} hrest => ?_⟩
    have hread := readDigits_append all fun c hc => (hrest c hc).1
    have hsome : ∀ after, readDigits (digits ++ rest) ≠ ([], after) := by
      rintro after heq
      exact nonempty (Prod.mk.inj (hread.symm.trans heq)).1
    simp only [List.mem_cons, List.not_mem_nil, or_false] at signed
    rcases signed with rfl | rfl
    · simp [readExponent, hread]
    · simp [readExponent, hread]

/-! ## Integers -/

theorem digitsValue_toDigits (n : Nat) : digitsValue (Nat.toDigits 10 n) = n := by
  have hvalue : digitsValue (Nat.toDigits 10 n) = Nat.ofDigitChars 10 (Nat.toDigits 10 n) 0 := by
    simp only [digitsValue, Nat.ofDigitChars, Nat.mul_comm]
  rw [hvalue, Nat.ofDigitChars_ten_toDigits]

/-- The digits of a number other than zero start with no zero. -/
theorem exists_toDigits_eq_cons {n : Nat} (hn : n ≠ 0) :
    ∃ c cs, Nat.toDigits 10 n = c :: cs ∧ c ≠ '0' := by
  induction n using Nat.strongRecOn with
  | ind n ih =>
    rw [Nat.toDigits_eq_if (by decide)]
    split
    -- The first digit is that of the number without its last digit, unless it is the only one.
    · exact ⟨_, [], rfl, mt Nat.digitChar_eq_zero.mp hn⟩
    · obtain ⟨c, cs, hdigits, hc⟩ := ih (n / 10) (by omega) (by omega)
      exact ⟨c, cs ++ [Nat.digitChar (n % 10)], by rw [hdigits, List.cons_append], hc⟩

theorem isWhole_toDigits (n : Nat) : IsWhole (Nat.toDigits 10 n) := by
  by_cases hn : n = 0
  · rw [hn]
    exact .zero
  · obtain ⟨c, cs, hdigits, hc⟩ := exists_toDigits_eq_cons hn
    have hall := allDigits_toDigits n
    rw [hdigits] at hall ⊢
    exact .digits hc hall

/-- A whole part alone is an integer, and has to keep to the limit. -/
theorem readNumber?_whole (negative : Bool) (hwhole : IsWhole whole) (hrest : EndsNumber rest) :
    readNumber? negative (whole ++ rest) =
      some (if maxIntegerDigits < whole.length then .error (.tooManyDigits whole.length)
        else .ok (.int (if negative then -(digitsValue whole : Int) else digitsValue whole),
          rest)) := by
  -- There is neither a fraction nor an exponent, and what follows starts none.
  obtain ⟨value, hnone, hexponent⟩ := exists_readExponent_append .none
  obtain rfl := hnone.mpr rfl
  have hwhole := readWhole?_append hwhole fun c hc => (hrest c hc).1
  have hfraction := readFraction_append .none .none hrest
  have hexponent := hexponent hrest
  simp only [List.nil_append] at hfraction hexponent
  simp only [readNumber?, hwhole, Option.map_some, hfraction, hexponent, List.tail_nil,
    List.isEmpty_nil, Option.isNone_none, Bool.and_self, if_true]

/-- An integer within the limit is read as it was. -/
theorem readNumber?_toDigits (negative : Bool) {n : Nat} (hn : n < 10 ^ maxIntegerDigits)
    (hrest : EndsNumber rest) :
    readNumber? negative (Nat.toDigits 10 n ++ rest) =
      some (.ok (.int (if negative then -(n : Int) else n), rest)) := by
  have hfew : (Nat.toDigits 10 n).length ≤ maxIntegerDigits :=
    (Nat.length_toDigits_le_iff (by decide) (by decide)).mpr hn
  rw [readNumber?_whole negative (isWhole_toDigits n) hrest, if_neg (Nat.not_lt.mpr hfew),
    digitsValue_toDigits]

/-! ## Floating-point numbers -/

/-- What has a fraction or an exponent is read as a floating-point number. -/
theorem exists_readNumber?_float (negative : Bool) (hwhole : IsWhole whole)
    (hfraction : IsFraction fraction) (hexponent : IsExponent exponent)
    (hfloat : fraction = [] → exponent ≠ []) :
    ∃ x, ∀ {rest}, EndsNumber rest →
      readNumber? negative (whole ++ (fraction ++ (exponent ++ rest))) =
        some (.ok (.float x, rest)) := by
  obtain ⟨value, hnone, hread⟩ := exists_readExponent_append hexponent
  -- So the reader does not take it for an integer.
  have hno : (fraction.tail.isEmpty && value.isNone) = false := by
    cases hfraction with
    | none =>
      have hvalue : value ≠ none := mt hnone.mp (hfloat rfl)
      simpa [Option.ne_none_iff_isSome] using hvalue
    | digits nonempty => simp [nonempty]
  refine ⟨Binary64.ofDecimal negative (digitsValue (whole ++ fraction.tail))
    (value.getD 0 - fraction.tail.length), fun {rest} hrest => ?_⟩
  rw [readNumber?, readWhole?_append hwhole (head?_fraction hfraction hexponent hrest)]
  simp only [Option.map_some, readFraction_append hfraction hexponent hrest, hread hrest, hno,
    Bool.false_eq_true, if_false]

/-- A text that is read as a floating-point number, be it as one below zero, whatever follows. -/
structure IsFloatText (text : List Char) : Prop where
  opens : ∃ c cs, text = c :: cs ∧ c.isDigit = true
  reads : ∀ negative, ∃ x, ∀ {rest}, EndsNumber rest →
    readNumber? negative (text ++ rest) = some (.ok (.float x, rest))

theorem IsFloatText.of_parts (hwhole : IsWhole whole) (hfraction : IsFraction fraction)
    (hexponent : IsExponent exponent) (hfloat : fraction = [] → exponent ≠ []) :
    IsFloatText (whole ++ (fraction ++ exponent)) where
  opens := by
    obtain ⟨c, cs, rfl⟩ := List.exists_cons_of_ne_nil hwhole.ne_nil
    exact ⟨c, cs ++ (fraction ++ exponent), rfl, hwhole.allDigits c List.mem_cons_self⟩
  reads negative := by
    obtain ⟨x, hread⟩ := exists_readNumber?_float negative hwhole hfraction hexponent hfloat
    refine ⟨x, fun hrest => ?_⟩
    rw [List.append_assoc, List.append_assoc]
    exact hread hrest

theorem toList_zeros (n : Int) : (Binary64.zeros n).toList = List.replicate n.toNat '0' := by
  rw [Binary64.zeros, String.toList_ofList]

theorem allDigits_zeros (n : Nat) : AllDigits (List.replicate n '0') :=
  fun _ hc => List.eq_of_mem_replicate hc ▸ rfl

section Digits

variable {c : Char} {cs : List Char}

/-- The first digits of a text that starts with no zero. -/
theorem isWhole_take (hc : c ≠ '0') (hdigits : AllDigits (c :: cs)) {k : Nat} (hk : 0 < k) :
    IsWhole ((c :: cs).take k) := by
  obtain ⟨k, rfl⟩ := Nat.exists_eq_succ_of_ne_zero (Nat.ne_of_gt hk)
  rw [List.take_succ_cons]
  refine .digits hc fun d hd => hdigits d ?_
  exact List.mem_of_mem_take (i := k + 1) (by rwa [List.take_succ_cons])

/-- An exponent is written with its sign and two digits at least. -/
theorem exists_exponent (e : Int) :
    ∃ exponent, IsExponent exponent ∧ exponent ≠ [] ∧
      ((if e < 0 then "e-" else "e+") ++
        (if (toString e.natAbs).length < 2 then "0" ++ toString e.natAbs
          else toString e.natAbs)).toList = exponent := by
  have hsize : (toString e.natAbs).toList = Nat.toDigits 10 e.natAbs := Nat.toList_repr
  have hdigits := allDigits_toDigits e.natAbs
  have hpadded : ∃ digits, digits ≠ [] ∧ AllDigits digits ∧
      (if (toString e.natAbs).length < 2 then "0" ++ toString e.natAbs
        else toString e.natAbs).toList = digits := by
    split
    · refine ⟨'0' :: Nat.toDigits 10 e.natAbs, List.cons_ne_nil _ _, ?_, ?_⟩
      · have hzero : AllDigits ['0'] := allDigits_zeros 1
        exact hzero.append hdigits
      · rw [String.toList_append, hsize]
        rfl
    · exact ⟨_, Nat.toDigits_ne_nil, hdigits, hsize⟩
  obtain ⟨digits, hne, hall, hpadded⟩ := hpadded
  rw [String.toList_append, hpadded]
  split
  · exact ⟨'e' :: '-' :: digits, .digits (by decide) hne hall, List.cons_ne_nil _ _, rfl⟩
  · exact ⟨'e' :: '+' :: digits, .digits (by decide) hne hall, List.cons_ne_nil _ _, rfl⟩

/-- Digits that start with no zero can be read with the point at any place. -/
theorem isFloatText_digitsText (style : Binary64.Style) {digits : String}
    (hdigits : digits.toList = c :: cs) (hc : c ≠ '0') (hall : AllDigits (c :: cs))
    (point : Int) : IsFloatText (Binary64.digitsText style digits point).toList := by
  have hlength : digits.length = (c :: cs).length := by rw [← String.length_toList, hdigits]
  unfold Binary64.digitsText
  dsimp only
  split
  · -- One digit before the point, and the place of the point in the exponent.
    obtain ⟨exponent, hexponent, hne, hwritten⟩ := exists_exponent (point - 1)
    rw [String.append_assoc, String.toList_append, hwritten]
    have hone : IsWhole [c] := isWhole_take hc hall Nat.one_pos
    split
    · next hshort =>
      obtain rfl : cs = [] := by
        rw [hlength, List.length_cons] at hshort
        exact List.length_eq_zero_iff.mp (by omega)
      rw [hdigits]
      exact .of_parts hone .none hexponent fun _ => hne
    · next hlong =>
      have hrest : cs ≠ [] := by
        rintro rfl
        exact hlong (by simp [hlength])
      simp only [String.toList_append, String.toList_ofList, hdigits]
      have hcs : AllDigits cs := fun d hd => hall d (List.mem_cons_of_mem c hd)
      have htext := IsFloatText.of_parts hone (.digits hrest hcs) hexponent nofun
      simpa using htext
  · split
    · -- Zeros between the point and the digits.
      next hpoint =>
      simp only [String.toList_append, toList_zeros, hdigits]
      have hfraction : IsFraction ('.' :: (List.replicate (-point).toNat '0' ++ c :: cs)) :=
        .digits (by simp) ((allDigits_zeros _).append hall)
      have htext := IsFloatText.of_parts .zero hfraction .none nofun
      simpa using htext
    · next hpoint =>
      split
      · -- Zeros between the digits and the point.
        simp only [String.toList_append, toList_zeros, hdigits]
        have hwhole : IsWhole (c :: (cs ++ List.replicate (point - digits.length).toNat '0')) := by
          refine .digits hc ?_
          rw [← List.cons_append]
          exact hall.append (allDigits_zeros _)
        have hfraction : IsFraction ['.', '0'] := .digits (by simp) (allDigits_zeros 1)
        have htext := IsFloatText.of_parts hwhole hfraction .none nofun
        simpa using htext
      · -- The point between two digits.
        next hinside =>
        simp only [String.toList_append, String.toList_ofList, hdigits]
        have hwhole : IsWhole ((c :: cs).take point.toNat) := isWhole_take hc hall (by omega)
        have hfraction : IsFraction ('.' :: (c :: cs).drop point.toNat) := by
          refine .digits ?_ fun d hd => hall d (List.mem_of_mem_drop hd)
          rw [Ne, List.drop_eq_nil_iff, ← hlength]
          omega
        have htext := IsFloatText.of_parts hwhole hfraction .none nofun
        simpa using htext

end Digits

/-! ## Shortest decimals -/

theorem digits_withoutZeros_ne_zero (fuel : Nat) {d : Decimal} (h : d.digits ≠ 0) :
    (Decimal.withoutZeros fuel d).digits ≠ 0 := by
  induction fuel generalizing d with
  | zero => exact h
  | succ fuel ih =>
    unfold Decimal.withoutZeros
    split
    · next hzero => exact ih (d := ⟨d.digits / 10, d.exponent + 1⟩) (by dsimp only; omega)
    · exact h

/-- A decimal that reads back as a number other than zero is not zero. -/
theorem digits_found_ne_zero {mantissa : Nat} (h : mantissa ≠ 0) (exponent : Int)
    (candidates : List Decimal) :
    ((candidates.find? fun d =>
      Binary64.ofDecimal false d.digits d.exponent == .finite false mantissa exponent).getD
        ⟨mantissa, exponent⟩).digits ≠ 0 := by
  cases found : candidates.find? fun d =>
      Binary64.ofDecimal false d.digits d.exponent == .finite false mantissa exponent with
  | none => exact h
  | some d =>
    -- The candidate reads back as the number, and zero would read back as zero.
    intro hzero
    have hback : (Binary64.ofDecimal false d.digits d.exponent ==
        .finite false mantissa exponent) = true :=
      List.find?_some (p := fun d : Decimal =>
        Binary64.ofDecimal false d.digits d.exponent == .finite false mantissa exponent) found
    have hdigits : d.digits = 0 := hzero
    rw [hdigits, Binary64.ofDecimal, if_pos rfl, Binary64.zero, beq_iff_eq] at hback
    cases hback
    exact h rfl

theorem digits_shortest_ne_zero {mantissa : Nat} (h : mantissa ≠ 0) (exponent : Int) :
    (Decimal.shortest mantissa exponent).digits ≠ 0 :=
  digits_withoutZeros_ne_zero 20 (digits_found_ne_zero h exponent _)

/-- The text of a finite number without its sign. -/
theorem isFloatText_magnitude (style : Binary64.Style) (mantissa : Nat) (exponent : Int) :
    IsFloatText (Binary64.text style (.finite false mantissa exponent)).toList := by
  rw [Binary64.text, if_neg Bool.false_ne_true, String.empty_append]
  split
  · exact .of_parts .zero (.digits (by simp) (allDigits_zeros 1)) .none nofun
  · next hmantissa =>
    have hnonzero := digits_shortest_ne_zero hmantissa exponent
    obtain ⟨c, cs, hdigits, hc⟩ := exists_toDigits_eq_cons hnonzero
    have hall := allDigits_toDigits (Decimal.shortest mantissa exponent).digits
    rw [hdigits] at hall
    exact isFloatText_digitsText style (Nat.toList_repr.trans hdigits) hc hall _

end GuestCode.Json
