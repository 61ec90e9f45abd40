import GuestCode.Text.Split
import Mathlib.Data.List.Nodup

/-!
# Words between blanks and parts between separators

A text is divided at each blank, and at each separator, so that what stands on the two sides can be
divided on its own. What it is divided into may be kept without repetitions. When texts are joined,
a word may come about where they meet.

## Main statements

* `Text.blankSeparated_gap`: blanks divide a text into the words before and those after them.
* `Text.blankSeparated_word`: a text without blanks is one word.
* `Text.splitOn_append`: a separator divides a text.
* `Text.infix_append_cases`: where a word stands in two texts that are joined.
* `Text.nodup_distinct`, `Text.mem_distinct`: what is kept without repetitions.
-/

namespace GuestCode.Text

variable {c : Char} {gap u v word : List Char}

/-- One step of dividing a text at its blanks, from the right. -/
def blankStep (c : Char) (words : List (List Char)) : List (List Char) :=
  if isBlank c then [] :: words
  else
    match words with
    | [] => [[c]]
    | first :: rest => (c :: first) :: rest

theorem blankStep_cons (c : Char) (first : List Char) (rest : List (List Char)) :
    blankStep c (first :: rest) =
      if isBlank c then [] :: first :: rest else (c :: first) :: rest := rfl

theorem blankSeparated_eq (text : List Char) :
    blankSeparated text = (text.foldr blankStep [[]]).filter fun word => !word.isEmpty := rfl

/-- The words that are already divided stay behind the first one. -/
theorem foldr_blankStep_append (text first : List Char) (rest others : List (List Char)) :
    text.foldr blankStep ((first :: rest) ++ others) =
      text.foldr blankStep (first :: rest) ++ others := by
  induction text generalizing first rest with
  | nil => rfl
  | cons c cs ih =>
    rw [List.foldr_cons, List.foldr_cons, ih]
    obtain ⟨word, words, hwords⟩ : ∃ word words,
        cs.foldr blankStep (first :: rest) = word :: words := by
      clear ih
      induction cs with
      | nil => exact ⟨first, rest, rfl⟩
      | cons d ds ih =>
        obtain ⟨word, words, hwords⟩ := ih
        rw [List.foldr_cons, hwords, blankStep_cons]
        split
        · exact ⟨_, _, rfl⟩
        · exact ⟨_, _, rfl⟩
    rw [hwords, List.cons_append, blankStep_cons, blankStep_cons]
    split
    · rfl
    · rfl

/-- A blank divides a text. -/
theorem blankSeparated_append_cons (h : isBlank c = true) (u v : List Char) :
    blankSeparated (u ++ c :: v) = blankSeparated u ++ blankSeparated v := by
  have hstep : (c :: v).foldr blankStep [[]] = [[]] ++ v.foldr blankStep [[]] := by
    apply if_pos h
  rw [blankSeparated_eq, List.foldr_append, hstep, foldr_blankStep_append, List.filter_append]
  rfl

@[simp] theorem blankSeparated_nil : blankSeparated [] = [] := rfl

theorem blankSeparated_cons (h : isBlank c = true) (v : List Char) :
    blankSeparated (c :: v) = blankSeparated v :=
  blankSeparated_append_cons h [] v

/-- Blanks are no words. -/
theorem blankSeparated_of_blank (h : ∀ c ∈ gap, isBlank c = true) : blankSeparated gap = [] := by
  induction gap with
  | nil => rfl
  | cons c cs ih =>
    obtain ⟨hc, hcs⟩ := List.forall_mem_cons.mp h
    rw [blankSeparated_cons hc, ih hcs]

/-- Blanks divide a text into the words before and those after them. -/
theorem blankSeparated_gap (hne : gap ≠ []) (h : ∀ c ∈ gap, isBlank c = true) (u v : List Char) :
    blankSeparated (u ++ (gap ++ v)) = blankSeparated u ++ blankSeparated v := by
  obtain ⟨c, cs, rfl⟩ := List.exists_cons_of_ne_nil hne
  obtain ⟨hc, hcs⟩ := List.forall_mem_cons.mp h
  rw [List.cons_append, blankSeparated_append_cons hc]
  congr 1
  clear hne h hc
  induction cs with
  | nil => rfl
  | cons d ds ih =>
    obtain ⟨hd, hds⟩ := List.forall_mem_cons.mp hcs
    rw [List.cons_append, blankSeparated_cons hd, ih hds]

/-- What ends with a blank, or is empty, is divided from what follows it. -/
theorem blankSeparated_append (h : ∀ c ∈ u.getLast?, isBlank c = true) (v : List Char) :
    blankSeparated (u ++ v) = blankSeparated u ++ blankSeparated v := by
  rcases List.eq_nil_or_concat u with rfl | ⟨front, c, rfl⟩
  · rfl
  · rw [List.concat_eq_append] at h ⊢
    have hc : isBlank c = true := h c (by simp)
    rw [List.append_assoc, List.singleton_append, blankSeparated_append_cons hc,
      blankSeparated_append_cons hc, blankSeparated_nil, List.append_nil]

/-- A text without blanks is one word. -/
theorem blankSeparated_word (hne : word ≠ []) (h : ∀ c ∈ word, isBlank c = false) :
    blankSeparated word = [word] := by
  have hfold : word.foldr blankStep [[]] = [word] := by
    clear hne
    induction word with
    | nil => rfl
    | cons c cs ih =>
      obtain ⟨hc, hcs⟩ := List.forall_mem_cons.mp h
      rw [List.foldr_cons, ih hcs, blankStep_cons, hc]
      rfl
  rw [blankSeparated_eq, hfold, List.filter_cons_of_pos (by simpa using hne)]
  rfl

/-- A text without a separator is one part. -/
theorem splitOn_eq_singleton {separator : Char} {text : List Char} (h : separator ∉ text) :
    splitOn separator text = [text] := by
  induction text with
  | nil => rfl
  | cons c rest ih =>
    obtain ⟨hc, hrest⟩ := not_or.mp (mt List.mem_cons.mpr h)
    have hne : (c == separator) = false := by simpa using Ne.symm hc
    rw [splitOn, hne, if_neg Bool.false_ne_true, ih hrest]

theorem splitOn_ne_nil (separator : Char) (text : List Char) : splitOn separator text ≠ [] := by
  cases text with
  | nil => exact List.cons_ne_nil _ _
  | cons c cs =>
    rw [splitOn]
    split
    · exact List.cons_ne_nil _ _
    · split
      · exact List.cons_ne_nil _ _
      · exact List.cons_ne_nil _ _

/-- A separator divides a text. -/
theorem splitOn_append (separator : Char) (u v : List Char) :
    splitOn separator (u ++ separator :: v) = splitOn separator u ++ splitOn separator v := by
  induction u with
  | nil =>
    rw [show splitOn separator [] = [[]] from rfl, List.nil_append, splitOn,
      if_pos (beq_self_eq_true _), List.singleton_append]
  | cons c cs ih =>
    rw [List.cons_append, splitOn, splitOn, ih]
    split
    · rw [List.cons_append]
    · obtain ⟨first, rest, hparts⟩ := List.exists_cons_of_ne_nil (splitOn_ne_nil separator cs)
      rw [hparts]
      rfl

/-- A text is divided at its first separator. -/
theorem splitOn_append_cons {separator : Char} (h : separator ∉ u) (v : List Char) :
    splitOn separator (u ++ separator :: v) = u :: splitOn separator v := by
  rw [splitOn_append, splitOn_eq_singleton h, List.singleton_append]

/-! ## Joined texts -/

/-- What an image of a list starts with ends in the image of one of its members. -/
theorem exists_of_flatMap_eq_append {α β : Type} {f : β → List α} {xs : List β} {u v : List α}
    (h : xs.flatMap f = u ++ v) (hv : v ≠ []) : ∃ front x back a b, xs = front ++ x :: back ∧
      f x = a ++ b ∧ b ≠ [] ∧ u = front.flatMap f ++ a ∧ v = b ++ back.flatMap f := by
  induction xs generalizing u with
  | nil =>
    obtain ⟨-, rfl⟩ := List.nil_eq_append_iff.mp h
    exact absurd rfl hv
  | cons x xs ih =>
    rw [List.flatMap_cons] at h
    rcases List.append_eq_append_iff.mp h with ⟨z, rfl, hrest⟩ | ⟨z, hx, rfl⟩
    · obtain ⟨front, y, back, a, b, rfl, hy, hb, rfl, rfl⟩ := ih hrest
      exact ⟨x :: front, y, back, a, b, rfl, hy, hb, (List.append_assoc _ _ _).symm, rfl⟩
    · by_cases hz : z = []
      · subst hz
        obtain ⟨front, y, back, a, b, rfl, hy, hb, hnil, hrest⟩ := @ih [] rfl
        rw [List.append_nil] at hx
        refine ⟨x :: front, y, back, a, b, rfl, hy, hb, ?_, hrest⟩
        rw [List.flatMap_cons, List.append_assoc, ← hnil, List.append_nil, hx]
      · exact ⟨[], x, xs, u, z, rfl, hx, hz, rfl, rfl⟩

theorem infix_append_cases {mark s t : List Char} (h : mark <:+: s ++ t) :
    mark <:+: s ∨ mark <:+: t ∨
      ∃ u v, mark = u ++ v ∧ u ≠ [] ∧ v ≠ [] ∧ u <:+ s ∧ v <+: t := by
  obtain ⟨before, after, heq⟩ := h
  rcases List.append_eq_append_iff.mp heq with ⟨x, rfl, -⟩ | ⟨x, hs, rfl⟩
  · exact .inl ⟨before, x, rfl⟩
  rcases List.append_eq_append_iff.mp hs with ⟨y, rfl, rfl⟩ | ⟨y, rfl, rfl⟩
  · by_cases hu : y = []
    · exact .inr (.inl ⟨[], after, by rw [hu]; rfl⟩)
    by_cases hv : x = []
    · exact .inl ⟨before, [], by rw [hv]; simp⟩
    exact .inr (.inr ⟨y, x, rfl, hu, hv, List.suffix_append _ _, List.prefix_append _ _⟩)
  · exact .inr (.inl ⟨y, after, rfl⟩)

/-- A word does not start in a text without its first character. -/
theorem infix_of_infix_append (hc : c ∉ u) (h : c :: word <:+: u ++ v) : c :: word <:+: v := by
  rcases infix_append_cases h with hinfix | hinfix | ⟨x, y, hword, hx, -, hsuffix, -⟩
  · exact absurd (List.IsInfix.subset hinfix (.head _)) hc
  · exact hinfix
  · obtain ⟨d, ds, rfl⟩ := List.exists_cons_of_ne_nil hx
    obtain ⟨rfl, -⟩ := List.cons.inj hword
    exact absurd (hsuffix.subset (.head _)) hc

/-- A word does not go over a character that it does not hold. -/
theorem infix_or_of_infix_append_cons (hc : c ∉ word) (h : word <:+: u ++ c :: v) :
    word <:+: u ∨ word <:+: v := by
  rcases infix_append_cases h with hinfix | hinfix | ⟨x, y, rfl, -, hy, -, hprefix⟩
  · exact .inl hinfix
  · rcases List.infix_cons_iff.mp hinfix with hprefix | hinfix
    · cases word with
      | nil => exact .inl (List.nil_infix)
      | cons d ds =>
        obtain ⟨rfl, -⟩ := List.cons_prefix_cons.mp hprefix
        exact absurd (.head _) hc
    · exact .inr hinfix
  · obtain ⟨d, ds, rfl⟩ := List.exists_cons_of_ne_nil hy
    obtain ⟨rfl, -⟩ := List.cons_prefix_cons.mp hprefix
    exact absurd (List.mem_append_right x (.head _)) hc

/-! ## Lists without repetitions -/

/-- Without repetitions each element is there once. -/
theorem nodup_distinct {α : Type} [BEq α] [LawfulBEq α] (xs : List α) :
    (distinct xs).Nodup := by
  have hfold : ∀ seen : List α, seen.Nodup →
      (xs.foldl (fun seen x => if seen.contains x then seen else seen ++ [x]) seen).Nodup := by
    induction xs with
    | nil => exact fun _ hseen => hseen
    | cons x rest ih =>
      intro seen hseen
      rw [List.foldl_cons]
      refine ih _ ?_
      split
      · exact hseen
      · next hnew =>
        have hnotIn : x ∉ seen := by simpa using hnew
        refine List.nodup_append.mpr ⟨hseen, List.nodup_singleton x, fun y hy z hz => ?_⟩
        rintro rfl
        exact hnotIn (List.mem_singleton.mp hz ▸ hy)
  exact hfold [] List.nodup_nil

/-- Nothing but repetitions is left out. -/
theorem mem_distinct {α : Type} [BEq α] [LawfulBEq α] {xs : List α} {x : α} :
    x ∈ distinct xs ↔ x ∈ xs := by
  have hfold : ∀ seen : List α,
      x ∈ xs.foldl (fun seen x => if seen.contains x then seen else seen ++ [x]) seen ↔
        x ∈ seen ∨ x ∈ xs := by
    induction xs with
    | nil => simp
    | cons y rest ih =>
      intro seen
      rw [List.foldl_cons, ih, List.mem_cons]
      split
      · next hseen =>
        have hy : y ∈ seen := by simpa using hseen
        constructor
        · rintro (hx | hx)
          · exact .inl hx
          · exact .inr (.inr hx)
        · rintro (hx | rfl | hx)
          · exact .inl hx
          · exact .inl hy
          · exact .inr hx
      · rw [List.mem_append, List.mem_singleton, or_assoc]
  rw [distinct, hfold]
  simp

/-- An element that has been there before changes nothing. -/
theorem distinct_append_cons_append_cons {α : Type} [BEq α] [LawfulBEq α]
    (before middle after : List α) (x : α) :
    distinct (before ++ x :: (middle ++ x :: after)) =
      distinct (before ++ x :: (middle ++ after)) := by
  have hseen : x ∈ distinct (before ++ x :: middle) := mem_distinct.mpr (by simp)
  -- Both lists have the part up to the second place of the element in common.
  have hsplit : ∀ rest : List α, before ++ x :: (middle ++ rest) =
      (before ++ x :: middle) ++ rest := by simp
  rw [hsplit, hsplit]
  simp only [distinct, List.foldl_append] at hseen ⊢
  rw [List.foldl_cons, if_pos (by simpa using hseen)]

end GuestCode.Text
