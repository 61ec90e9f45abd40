import GuestCode.Json.Reader
import GuestCode.Json.Writer
import GuestCode.Proofs.Text.Utf8

/-!
# Strings that are written and read

A text is written as a string character by character, each as it is, as an escape of one letter, or
as one or two numbers of 16 bits. Reading turns the escapes back into codes, and joins the codes
that belong together. So a string is read as the text that it was written from, whatever stands
after it.

## Main statements

* `Json.exists_writtenAs`: how characters are written.
* `Json.WrittenAs.readCodes_append`: what is written is read as the codes that it stands for.
* `Json.WrittenAs.joinHalves_append`: these codes are the character.
* `Json.readString_append`: a string is read as the text that it was written from.
-/

namespace GuestCode.Json

/-! ## Hexadecimal digits -/

theorem hexDigit?_digitChar {d : Nat} (h : d < 16) : hexDigit? (Nat.digitChar d) = some d := by
  have hall : ∀ d : Fin 16, hexDigit? (Nat.digitChar d) = some d.val := by decide
  exact hall ⟨d, h⟩

/-- Adds a hexadecimal digit to a number. -/
def pushHex (n : Nat) (c : Char) : Option Nat := (hexDigit? c).map fun d => n * 16 + d

theorem foldlM_pushHex_toDigits (n : Nat) : (Nat.toDigits 16 n).foldlM pushHex 0 = some n := by
  induction n using Nat.strongRecOn with
  | ind n ih =>
    rw [Nat.toDigits_eq_if (by decide)]
    split
    · next hsmall => simp [pushHex, hexDigit?_digitChar hsmall]
    · -- The last digit is the remainder, and the digits before it are those of the quotient.
      have hlast : hexDigit? (Nat.digitChar (n % 16)) = some (n % 16) :=
        hexDigit?_digitChar (Nat.mod_lt n (by decide))
      rw [List.foldlM_append, ih (n / 16) (by omega)]
      simp only [List.foldlM_cons, List.foldlM_nil, pushHex, hlast, Option.map_some,
        Option.bind_eq_bind, Option.bind_some, Option.pure_def, Option.some.injEq]
      omega

/-- Zeros before a number do not count. -/
theorem foldlM_pushHex_zeros (k : Nat) : (List.replicate k '0').foldlM pushHex 0 = some 0 := by
  have hzero : hexDigit? '0' = some 0 := by decide
  induction k with
  | zero => rfl
  | succ k ih =>
    rw [List.replicate_succ, List.foldlM_cons, pushHex, hzero]
    exact ih

theorem hexValue?_hexPadded (width n : Nat) : hexValue? (Text.hexPadded width n) = some n := by
  have hvalue : hexValue? (Text.hexPadded width n) =
      (Text.hexPadded width n).foldlM pushHex 0 := rfl
  rw [hvalue, Text.hexPadded, List.foldlM_append, foldlM_pushHex_zeros]
  exact foldlM_pushHex_toDigits n

/-- A number of 16 bits has four digits. -/
theorem exists_hexPadded_eq {n : Nat} (h : n < 0x10000) :
    ∃ a b c d, Text.hexPadded 4 n = [a, b, c, d] := by
  have hlength : (Text.hexPadded 4 n).length = 4 := by
    have hfew : (Nat.toDigits 16 n).length ≤ 4 :=
      (Nat.length_toDigits_le_iff (by decide) (by decide)).mpr h
    rw [Text.hexPadded, List.length_append, List.length_replicate]
    omega
  match hdigits : Text.hexPadded 4 n, hlength with
  | [a, b, c, d], _ => exact ⟨a, b, c, d, rfl⟩

/-! ## Characters -/

/-- The ways in which a character is written in a string, with the codes that are read for it. -/
inductive WrittenAs (c : Char) : List Char → List Nat → Prop where
  | letter {e : Char} (noNumber : e ≠ 'u') (means : escapedChar? e = some c) :
      WrittenAs c ['\\', e] [c.toNat]
  | plain (noQuote : c ≠ '"') (noEscape : c ≠ '\\') (noControl : ¬c.toNat < 0x20) :
      WrittenAs c [c] [c.toNat]
  | number (small : c.toNat < 0x10000) : WrittenAs c (unitEscape c.toNat) [c.toNat]
  | pair (large : 0x10000 ≤ c.toNat) :
      WrittenAs c
        (unitEscape (0xD800 + (c.toNat - 0x10000) / 0x400) ++
          unitEscape (0xDC00 + (c.toNat - 0x10000) % 0x400))
        [0xD800 + (c.toNat - 0x10000) / 0x400, 0xDC00 + (c.toNat - 0x10000) % 0x400]

theorem exists_writtenAs (asciiOnly : Bool) (c : Char) :
    ∃ codes, WrittenAs c (escapedChar asciiOnly c) codes := by
  by_cases hletter : c ∈ ['"', '\\', '\n', '\r', '\t', '\x08', '\x0c']
  · simp only [List.mem_cons, List.not_mem_nil, or_false] at hletter
    rcases hletter with rfl | rfl | rfl | rfl | rfl | rfl | rfl
    all_goals exact ⟨_, .letter (by decide) rfl⟩
  · simp only [List.mem_cons, List.not_mem_nil, or_false, not_or] at hletter
    simp only [escapedChar, beq_iff_eq, hletter, if_false]
    split
    · exact ⟨_, .number (by omega)⟩
    · next hcontrol =>
      split
      · exact ⟨_, .plain hletter.1 hletter.2.1 hcontrol⟩
      · split
        · next hsmall => exact ⟨_, .number hsmall⟩
        · next hlarge => exact ⟨_, .pair (Nat.not_lt.mp hlarge)⟩

section Reading

variable {opening : Nat} {c : Char} {written rest after : List Char} {codes later : List Nat}

theorem readCodes_unitEscape {unit : Nat} (hunit : unit < 0x10000)
    (h : readCodes opening rest = .ok (later, after)) :
    readCodes opening (unitEscape unit ++ rest) = .ok (unit :: later, after) := by
  obtain ⟨a, b, c, d, hdigits⟩ := exists_hexPadded_eq hunit
  have hvalue : hexValue? [a, b, c, d] = some unit := by rw [← hdigits, hexValue?_hexPadded]
  cases rest with
  -- At least the closing quote follows, since the rest can be read.
  | nil => cases h
  | cons e others =>
    rw [unitEscape, hdigits]
    simp only [List.cons_append, List.nil_append]
    rw [readCodes, hvalue, h]
    rfl

/-- A character is read as the codes that are read for it, and what follows as it would be alone. -/
theorem WrittenAs.readCodes_append (hwritten : WrittenAs c written codes)
    (h : readCodes opening rest = .ok (later, after)) :
    readCodes opening (written ++ rest) = .ok (codes ++ later, after) := by
  have hvalid := Utf8.toNat_valid c
  cases hwritten with
  -- The reader tries a number first, which a letter other than `u` does not start.
  | @letter e noNumber means =>
    rw [List.cons_append, List.singleton_append, readCodes, means, h]
    · rfl
    · rintro a b d f others g rfl -
      exact noNumber rfl
    · exact fun heq => noNumber heq
  | plain noQuote noEscape noControl =>
    rw [List.singleton_append, readCodes, if_neg noControl, h]
    · rfl
    · exact noQuote
    · exact fun heq _ => noEscape heq
    all_goals (intros; simp_all)
  | number small => exact readCodes_unitEscape small h
  | pair large =>
    rw [List.append_assoc]
    exact readCodes_unitEscape (by omega) (readCodes_unitEscape (by omega) h)

/-- The code of a character is no half of a pair. -/
theorem isHalf_toNat (c : Char) : isHighHalf c.toNat = false ∧ isLowHalf c.toNat = false := by
  have hvalid := Utf8.toNat_valid c
  unfold isHighHalf isLowHalf
  constructor
  all_goals
    rw [Bool.and_eq_false_iff, decide_eq_false_iff_not, decide_eq_false_iff_not]
    omega

theorem joinHalves_toNat (c : Char) (later : List Nat) :
    joinHalves (c.toNat :: later) = c :: joinHalves later := by
  obtain ⟨hhigh, hlow⟩ := isHalf_toNat c
  cases later with
  | nil => simp [joinHalves, hhigh, hlow, Char.ofNat_toNat]
  | cons next rest => simp [joinHalves, hhigh, hlow, Char.ofNat_toNat]

/-- The codes that are read for a character are the character. -/
theorem WrittenAs.joinHalves_append (hwritten : WrittenAs c written codes) (later : List Nat) :
    joinHalves (codes ++ later) = c :: joinHalves later := by
  cases hwritten with
  | letter => exact joinHalves_toNat c later
  | plain => exact joinHalves_toNat c later
  | number => exact joinHalves_toNat c later
  | pair large =>
    -- Both halves are in the ranges of their kinds, since no code is beyond 0x10FFFF.
    have hvalid := Utf8.toNat_valid c
    have hhigh : isHighHalf (0xD800 + (c.toNat - 0x10000) / 0x400) = true := by
      unfold isHighHalf
      rw [Bool.and_eq_true, decide_eq_true_eq, decide_eq_true_eq]
      omega
    have hlow : isLowHalf (0xDC00 + (c.toNat - 0x10000) % 0x400) = true := by
      unfold isLowHalf
      rw [Bool.and_eq_true, decide_eq_true_eq, decide_eq_true_eq]
      omega
    have hcode : 0x10000 + (0xD800 + (c.toNat - 0x10000) / 0x400 - 0xD800) * 0x400 +
        (0xDC00 + (c.toNat - 0x10000) % 0x400 - 0xDC00) = c.toNat := by omega
    rw [List.cons_append, List.singleton_append, joinHalves, hhigh, hlow, Bool.and_self, if_pos rfl,
      hcode, Char.ofNat_toNat]

/-! ## Strings -/

theorem exists_readCodes_append (opening : Nat) (asciiOnly : Bool) (text after : List Char) :
    ∃ codes,
      readCodes opening (text.flatMap (escapedChar asciiOnly) ++ '"' :: after) =
        .ok (codes, after) ∧
      joinHalves codes = text := by
  induction text with
  | nil => exact ⟨[], rfl, rfl⟩
  | cons c text ih =>
    obtain ⟨later, hread, hjoined⟩ := ih
    obtain ⟨codes, hwritten⟩ := exists_writtenAs asciiOnly c
    refine ⟨codes ++ later, ?_, ?_⟩
    · rw [List.flatMap_cons, List.append_assoc]
      exact hwritten.readCodes_append hread
    · rw [hwritten.joinHalves_append, hjoined]

end Reading

theorem toList_quote (asciiOnly : Bool) (s : String) :
    (quote asciiOnly s).toList = '"' :: (s.toList.flatMap (escapedChar asciiOnly) ++ ['"']) := by
  rw [quote, String.toList_ofList, quotedChars, List.cons_append]

/-- A text of plain characters stands in its string as it is. -/
theorem toList_quote_of_plain {s : String}
    (h : ∀ c ∈ s.toList, c ≠ '"' ∧ c ≠ '\\' ∧ 0x20 ≤ c.toNat ∧ c.toNat < 0x7F) (asciiOnly : Bool) :
    (quote asciiOnly s).toList = '"' :: (s.toList ++ ['"']) := by
  have hescaped : ∀ c ∈ s.toList, escapedChar asciiOnly c = [c] := by
    intro c hc
    obtain ⟨hquote, hslash, hlow, hhigh⟩ := h c hc
    have hcontrol : ∀ d ∈ ['\n', '\r', '\t', '\x08', '\x0c'], c ≠ d := by
      rintro d hd rfl
      have hall : ∀ d ∈ ['\n', '\r', '\t', '\x08', '\x0c'], d.toNat < 0x20 := by decide
      exact Nat.not_lt.mpr hlow (hall c hd)
    simp only [List.forall_mem_cons] at hcontrol
    obtain ⟨hline, hreturn, htab, hback, hfeed, -⟩ := hcontrol
    simp [escapedChar, hquote, hslash, hline, hreturn, htab, hback, hfeed, Nat.not_lt.mpr hlow,
      hhigh]
  rw [toList_quote, List.flatMap_def, List.map_congr_left hescaped, ← List.flatMap_def,
    List.flatMap_singleton']

/-- A string is read as the text that it was written from. -/
theorem readString_append (asciiOnly : Bool) (s : String) (after : List Char) :
    readString (s.toList.flatMap (escapedChar asciiOnly) ++ '"' :: after) = .ok (s, after) := by
  obtain ⟨codes, hread, hjoined⟩ := exists_readCodes_append
    ((s.toList.flatMap (escapedChar asciiOnly) ++ '"' :: after).length + 1) asciiOnly s.toList after
  rw [readString, hread]
  simp only [Except.map, hjoined, String.ofList_toList]

end GuestCode.Json
