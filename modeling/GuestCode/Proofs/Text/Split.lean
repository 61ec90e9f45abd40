import GuestCode.Text.Split
import Mathlib.Data.List.TakeWhile

/-!
# Trimmed texts

Trimming a text takes blanks from its ends, so blanks that are put there make no difference, and a
trimmed text stays as it is.

## Main statements

* `Text.exists_append_dropEndWhile`: what is dropped at the end of a text.
* `Text.trim_append_cons`: a text is trimmed on both sides of a character that is no blank.
* `Text.trim_blank`: blanks around a text make no difference.
* `Text.trim_trim`: a trimmed text stays as it is.
-/

namespace GuestCode.Text

variable {drop : Char → Bool} {before after gap gap' text : List Char} {c : Char}

/-! ## The end of a text -/

/-- What is dropped at the end of a text. -/
theorem exists_append_dropEndWhile (drop : Char → Bool) (text : List Char) :
    ∃ gap : List Char, (∀ c ∈ gap, drop c = true) ∧ text = dropEndWhile drop text ++ gap := by
  refine ⟨(text.reverse.takeWhile drop).reverse, fun c hc => ?_, ?_⟩
  · exact List.all_eq_true.mp (List.all_takeWhile (l := text.reverse)) c (List.mem_reverse.mp hc)
  · rw [dropEndWhile, ← List.reverse_append, List.takeWhile_append_dropWhile, List.reverse_reverse]

/-- What is left does not end with a character that is dropped. -/
theorem of_getLast?_dropEndWhile : ∀ c ∈ (dropEndWhile drop text).getLast?, drop c = false := by
  intro c hc
  rw [dropEndWhile, List.getLast?_reverse] at hc
  have hhead := List.head?_dropWhile_not drop text.reverse
  rw [hc] at hhead
  simpa using hhead

/-- Characters that are dropped make no difference at the end of a text. -/
theorem dropEndWhile_append (h : ∀ c ∈ gap, drop c = true) (text : List Char) :
    dropEndWhile drop (text ++ gap) = dropEndWhile drop text := by
  rw [dropEndWhile, List.reverse_append,
    List.dropWhile_append_of_pos fun c hc => h c (List.mem_reverse.mp hc)]
  rfl

theorem dropEndWhile_dropEndWhile (drop : Char → Bool) (text : List Char) :
    dropEndWhile drop (dropEndWhile drop text) = dropEndWhile drop text := by
  obtain ⟨gap, hgap, htext⟩ := exists_append_dropEndWhile drop text
  exact (dropEndWhile_append hgap _).symm.trans (congrArg (dropEndWhile drop) htext.symm)

/-- Nothing is dropped before a character that stays. -/
theorem dropEndWhile_append_cons (h : drop c = false) (before after : List Char) :
    dropEndWhile drop (before ++ c :: after) = before ++ c :: dropEndWhile drop after := by
  have hstays : (c :: before.reverse).dropWhile drop = c :: before.reverse :=
    List.dropWhile_cons_of_neg (by rw [h]; exact Bool.false_ne_true)
  rw [dropEndWhile, List.reverse_append, List.reverse_cons, List.append_assoc,
    List.singleton_append, List.dropWhile_append]
  -- Whether all that stands after the character is dropped.
  split
  · next hnil =>
    rw [hstays, dropEndWhile, List.isEmpty_iff.mp hnil]
    simp
  · rw [dropEndWhile]
    simp

/-- Nothing is dropped if the last character stays. -/
theorem dropEndWhile_concat (h : drop c = false) (before : List Char) :
    dropEndWhile drop (before ++ [c]) = before ++ [c] := dropEndWhile_append_cons h before []

/-! ## Both ends -/

/-- A text is trimmed on both sides of a character that is no blank. -/
theorem trim_append_cons (h : isBlank c = false) (before after : List Char) :
    trim (before ++ c :: after) = trimStart before ++ c :: trimEnd after := by
  have hc : ¬isBlank c = true := by
    rw [h]
    exact Bool.false_ne_true
  have hstart : trimStart (before ++ c :: after) = trimStart before ++ c :: after := by
    rw [trimStart, trimStart, List.dropWhile_append]
    split
    · next hnil =>
      rw [List.isEmpty_iff.mp hnil, List.dropWhile_cons_of_neg hc]
      rfl
    · rfl
  rw [trim, hstart, trimEnd, dropEndWhile_append_cons h]
  rfl

/-- Blanks around a text make no difference. -/
theorem trim_blank (hgap : ∀ c ∈ gap, isBlank c = true) (hgap' : ∀ c ∈ gap', isBlank c = true)
    (text : List Char) : trim (gap ++ (text ++ gap')) = trim text := by
  rw [trim, trimStart, List.dropWhile_append_of_pos hgap, trim, trimStart, List.dropWhile_append]
  split
  · next hnil =>
    rw [List.isEmpty_iff.mp hnil, List.dropWhile_eq_nil_iff.mpr hgap']
  · exact dropEndWhile_append hgap' _

/-- A text between two characters that are no blanks stays as it is. -/
theorem trim_between {first last : Char} (hfirst : isBlank first = false)
    (hlast : isBlank last = false) (text : List Char) :
    trim (first :: (text ++ [last])) = first :: (text ++ [last]) := by
  have hstart := trim_append_cons hfirst [] (text ++ [last])
  rw [trimEnd, dropEndWhile_append_cons hlast] at hstart
  exact hstart

/-- A text without blanks stays as it is. -/
theorem trim_of_not_blank (h : ∀ c ∈ text, isBlank c = false) : trim text = text := by
  have hstays : ∀ {s : List Char}, (∀ c ∈ s, isBlank c = false) → s.dropWhile isBlank = s := by
    intro s hs
    cases s with
    | nil => rfl
    | cons c cs => rw [List.dropWhile_cons, hs c (.head _), if_neg Bool.false_ne_true]
  rw [trim, trimEnd, dropEndWhile, trimStart, hstays h,
    hstays fun c hc => h c (List.mem_reverse.mp hc), List.reverse_reverse]

/-- What is trimmed from a text. -/
theorem exists_append_trim (text : List Char) : ∃ gap gap' : List Char,
    (∀ c ∈ gap, isBlank c = true) ∧ (∀ c ∈ gap', isBlank c = true) ∧
      text = gap ++ (trim text ++ gap') := by
  have hstart : text = text.takeWhile isBlank ++ trimStart text :=
    List.takeWhile_append_dropWhile.symm
  obtain ⟨gap', hgap', hend⟩ := exists_append_dropEndWhile isBlank (trimStart text)
  exact ⟨_, gap', fun c hc => List.all_eq_true.mp List.all_takeWhile c hc, hgap',
    hstart.trans (congrArg (text.takeWhile isBlank ++ ·) hend)⟩

/-- A trimmed text stays as it is. -/
theorem trim_trim (text : List Char) : trim (trim text) = trim text := by
  obtain ⟨gap, gap', hgap, hgap', htext⟩ := exists_append_trim text
  calc trim (trim text) = trim (gap ++ (trim text ++ gap')) := (trim_blank hgap hgap' _).symm
    _ = trim text := congrArg trim htext.symm

/-- A trimmed text starts with no blank. -/
theorem trimStart_of_trim (h : trim text = text) : trimStart text = text := by
  obtain ⟨gap, -, hend⟩ := exists_append_dropEndWhile isBlank (trimStart text)
  have hsuffix : trimStart text <:+ text := List.dropWhile_suffix isBlank
  refine hsuffix.eq_of_length_le ?_
  have hlength := congrArg List.length hend
  rw [show dropEndWhile isBlank (trimStart text) = text from h, List.length_append] at hlength
  omega

/-- The front of a text that starts with no blank starts with none. -/
theorem trimStart_of_append (h : trimStart (before ++ after) = before ++ after) :
    trimStart before = before := by
  cases before with
  | nil => rfl
  | cons c cs =>
    have hc := List.dropWhile_eq_self_iff.mp h (by simp)
    exact List.dropWhile_cons_of_neg hc

end GuestCode.Text
