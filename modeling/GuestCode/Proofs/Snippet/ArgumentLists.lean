import GuestCode.Proofs.Snippet.Nesting
import GuestCode.Proofs.Text.Split

/-!
# Arguments one after the other

Code is one argument if its brackets are balanced and no comma stands outside them. Such code is
passed over by the search for the commas of a list, so that a list can be followed from one of its
marks to the next.

## Main statements

* `IsArgument`: code that is one argument.
* `commasIn?_codeFrom`: an argument is passed over.
* `isArgument_of_commasIn?`: what stands before the first mark of a list is an argument.
* `slice_trimSpan`: the text of a trimmed range.
-/

namespace GuestCode

open Text

variable {source : List Char} {start : Nat}

/-! ## Code that is one argument -/

/-- The depth of brackets after code, `depth` before it; `none` if it falls below zero, or if there
is a comma outside all brackets. -/
def argumentDepth? (depth : Nat) : List Char → Option Nat
  | [] => some depth
  | c :: cs =>
    if isOpening c then argumentDepth? (depth + 1) cs
    else if isClosing c then if depth = 0 then none else argumentDepth? (depth - 1) cs
    else if c == ',' && depth == 0 then none
    else argumentDepth? depth cs

/-- Code that is one argument. -/
def IsArgument (code : List Char) : Prop := argumentDepth? 0 code = some 0

instance (code : List Char) : Decidable (IsArgument code) :=
  inferInstanceAs (Decidable (argumentDepth? 0 code = some 0))

/-- Blanks before an argument make no difference. -/
theorem isArgument_blank_append {gap code : List Char} (h : ∀ c ∈ gap, isBlank c = true) :
    IsArgument (gap ++ code) ↔ IsArgument code := by
  induction gap with
  | nil => rfl
  | cons c cs ih =>
    obtain ⟨hc, hcs⟩ := List.forall_mem_cons.mp h
    have hall : ∀ c ∈ ['(', '[', '\x7b', ')', ']', '\x7d', ','], isBlank c = false := by decide
    have hplain : c ∉ ['(', '[', '\x7b', ')', ']', '\x7d', ','] :=
      fun hmem => nomatch hc.symm.trans (hall c hmem)
    simp only [List.mem_cons, List.not_mem_nil, or_false, not_or] at hplain
    rw [List.cons_append, IsArgument, argumentDepth?, if_neg (by simp [isOpening, hplain]),
      if_neg (by simp [isClosing, hplain]), if_neg (by simp [hplain])]
    exact ih hcs

/-- The search for the commas of a list passes over code that is part of an argument. -/
theorem commasIn?_of_argumentDepth? {depth depth' : Nat} {code : List Placed}
    (h : argumentDepth? depth (code.map Placed.char) = some depth') (more : List Placed) :
    commasIn? ((depth : Int) + 1) (code ++ more) = commasIn? ((depth' : Int) + 1) more := by
  induction code generalizing depth with
  | nil =>
    obtain rfl := Option.some.inj h
    rfl
  | cons p rest ih =>
    rw [List.map_cons, argumentDepth?] at h
    rw [List.cons_append, commasIn?]
    split at h
    · next hopening =>
      rw [if_pos hopening, ← ih h]
      congr 1
    next hopening =>
    rw [if_neg hopening]
    split at h
    · next hclosing =>
      rw [if_pos hclosing]
      split at h
      · cases h
      · next hpositive =>
        rw [if_neg (by omega), ← ih h]
        congr 1
        omega
    next hclosing =>
    rw [if_neg hclosing]
    split at h
    · cases h
    · next hcomma =>
      have houtside : ¬(p.char == ',' && (depth : Int) + 1 == 1) = true := by
        intro htrue
        obtain ⟨hchar, hdepth⟩ := Bool.and_eq_true_iff.mp htrue
        rw [beq_iff_eq] at hdepth
        refine hcomma (Bool.and_eq_true_iff.mpr ⟨hchar, ?_⟩)
        rw [beq_iff_eq]
        omega
      rw [if_neg houtside, ih h]

/-- Balanced code that holds none of the commas of the list it is in is part of an argument. -/
theorem argumentDepth?_of_commasIn? {depth depth' close : Nat} {code more : List Placed}
    {commas : List Nat} (h : commasIn? ((depth : Int) + 1) (code ++ more) = some (commas, close))
    (hnone : ∀ p ∈ code, (commas ++ [close]).head? ≠ some p.place)
    (hnesting : nestingAfter? depth (code.map Placed.char) = some depth') :
    argumentDepth? depth (code.map Placed.char) = some depth' := by
  induction code generalizing depth with
  | nil => exact hnesting
  | cons p rest ih =>
    obtain ⟨hp, hrest⟩ := List.forall_mem_cons.mp hnone
    rw [List.map_cons, nestingAfter?] at hnesting
    rw [List.map_cons, argumentDepth?]
    rw [List.cons_append, commasIn?] at h
    split at hnesting
    · next hopening =>
      rw [if_pos hopening] at h ⊢
      exact ih (by rw [← h]; congr 1) hrest hnesting
    next hopening =>
    rw [if_neg hopening] at h ⊢
    split at hnesting
    · next hclosing =>
      rw [if_pos hclosing] at h ⊢
      split at hnesting
      · cases hnesting
      · next hpositive =>
        rw [if_neg (by omega)] at h
        rw [if_neg hpositive]
        exact ih (by rw [← h]; congr 1; omega) hrest hnesting
    next hclosing =>
    rw [if_neg hclosing] at h ⊢
    -- A comma of the list would be its first mark, which stands later.
    split at h
    · obtain ⟨⟨others, close'⟩, -, heq⟩ := Option.map_eq_some_iff.mp h
      obtain ⟨rfl, -⟩ := Prod.mk.inj heq
      exact absurd rfl hp
    · next hcomma =>
      have houtside : ¬(p.char == ',' && depth == 0) = true := by
        intro htrue
        obtain ⟨hchar, hdepth⟩ := Bool.and_eq_true_iff.mp htrue
        refine hcomma (Bool.and_eq_true_iff.mpr ⟨hchar, ?_⟩)
        rw [beq_iff_eq.mp hdepth]
        rfl
      rw [if_neg houtside]
      exact ih h hrest hnesting

/-! ## Code from a place on -/

/-- The characters of code of a snippet from a place on. -/
def codeFrom (source : List Char) (start : Nat) : List Placed :=
  (codeChars source).filter fun p => decide (start ≤ p.place)

theorem codeFrom_succ {before after : List Placed} {mark : Placed}
    (h : codeChars source = before ++ mark :: after) :
    codeFrom source (mark.place + 1) = after := by
  have hordered := pairwise_codeChars source
  rw [h] at hordered
  obtain ⟨-, hfrom, hbefore⟩ := List.pairwise_append.mp hordered
  have hafter := (List.pairwise_cons.mp hfrom).1
  have hnone : before.filter (fun p => decide (mark.place + 1 ≤ p.place)) = [] := by
    rw [List.filter_eq_nil_iff]
    intro p hp
    have hlt := hbefore p hp mark (.head _)
    simp
    omega
  rw [codeFrom, h, List.filter_append, hnone, List.nil_append, List.filter_cons_of_neg (by simp)]
  exact List.filter_eq_self.mpr fun p hp => decide_eq_true (hafter p hp)

/-- The code from a place on, divided at a character of code. -/
theorem exists_codeFrom {mark : Placed} (h : mark ∈ codeChars source) (hle : start ≤ mark.place) :
    ∃ between, between.map Placed.char = codeBetween source start mark.place ∧
      (∀ p ∈ between, p.place < mark.place) ∧
      codeFrom source start = between ++ mark :: codeFrom source (mark.place + 1) := by
  obtain ⟨before, after, hcode⟩ := List.append_of_mem h
  have hordered := pairwise_codeChars source
  rw [hcode] at hordered
  obtain ⟨-, hfrom, hbefore⟩ := List.pairwise_append.mp hordered
  have hafter := (List.pairwise_cons.mp hfrom).1
  have hlow : ∀ p ∈ before, p.place < mark.place := fun p hp => hbefore p hp mark (.head _)
  refine ⟨_, rfl, fun p hp => ?_, ?_⟩
  · have hbetween := (List.mem_filter.mp hp).2
    simp only [Bool.and_eq_true, decide_eq_true_eq] at hbetween
    exact hbetween.2
  · rw [codeFrom_succ hcode, codeFrom, hcode, List.filter_append, List.filter_append,
      List.filter_cons_of_pos (by simpa using hle), List.filter_cons_of_neg (by simp)]
    have hall : after.filter (fun p => decide (start ≤ p.place)) = after :=
      List.filter_eq_self.mpr fun p hp => decide_eq_true (by have hlt := hafter p hp; omega)
    have hnone : after.filter (fun p => decide (start ≤ p.place) && decide (p.place < mark.place)) =
        [] := by
      rw [List.filter_eq_nil_iff]
      intro p hp
      have hlt := hafter p hp
      simp
      omega
    rw [hall, hnone, List.append_nil]
    congr 1
    refine List.filter_congr fun p hp => ?_
    rw [decide_eq_true (hlow p hp), Bool.and_true]

/-- The search for the commas of a list goes on at the next mark. -/
theorem commasIn?_codeFrom {mark : Placed} (h : mark ∈ codeChars source) (hle : start ≤ mark.place)
    (hargument : IsArgument (codeBetween source start mark.place)) :
    commasIn? 1 (codeFrom source start) =
      commasIn? 1 (mark :: codeFrom source (mark.place + 1)) := by
  obtain ⟨between, hbetween, -, hcode⟩ := exists_codeFrom h hle
  rw [hcode]
  exact commasIn?_of_argumentDepth? (by rw [hbetween]; exact hargument) _

/-- Up to the first mark of a list, balanced code is one argument. -/
theorem isArgument_of_commasIn? {mark : Placed} {commas : List Nat} {close : Nat}
    (h : mark ∈ codeChars source) (hle : start ≤ mark.place)
    (hcommas : commasIn? 1 (codeFrom source start) = some (commas, close))
    (hfirst : (commas ++ [close]).head? = some mark.place)
    (hbalanced : Balanced (codeBetween source start mark.place)) :
    IsArgument (codeBetween source start mark.place) := by
  obtain ⟨between, hbetween, hlow, hcode⟩ := exists_codeFrom h hle
  rw [← hbetween] at hbalanced ⊢
  rw [hcode] at hcommas
  refine argumentDepth?_of_commasIn? hcommas (fun p hp heq => ?_) hbalanced
  rw [hfirst] at heq
  exact absurd (Option.some.inj heq) (Nat.ne_of_gt (hlow p hp))

/-- The list of a call starts behind its parenthesis. -/
theorem commasIn?_dropWhile {place : Nat} (h : ⟨place, '('⟩ ∈ codeChars source) :
    commasIn? 0 ((codeChars source).dropWhile fun p => decide ((p.place : Int) < place)) =
      commasIn? 1 (codeFrom source (place + 1)) := by
  obtain ⟨before, after, hcode, hdrop⟩ := dropWhile_codeChars h
  rw [hdrop, codeFrom_succ hcode]
  rfl

/-! ## The text of an argument -/

/-- The text of a trimmed range is trimmed. -/
theorem slice_trimSpan (source : List Char) (start stop : Nat) :
    Region.slice source (trimSpan source start stop).1 (trimSpan source start stop).2 =
      trim (Region.slice source start stop) := by
  obtain ⟨inner, hinner⟩ : ∃ inner, Region.slice source start stop = inner := ⟨_, rfl⟩
  obtain ⟨others, hothers⟩ : inner <+: source.drop start := hinner ▸ List.take_prefix _ _
  obtain ⟨rest, hrest⟩ : ∃ rest, inner.dropWhile isBlank = rest := ⟨_, rfl⟩
  have hfirst := List.takeWhile_append_dropWhile (p := isBlank) (l := inner)
  have hlast := List.takeWhile_append_dropWhile (p := isBlank) (l := rest.reverse)
  rw [hrest] at hfirst
  have hkept : rest = trimEnd rest ++ (rest.reverse.takeWhile isBlank).reverse := by
    rw [trimEnd, dropEndWhile, ← List.reverse_append, hlast, List.reverse_reverse]
  have htext : source.drop (start + (inner.takeWhile isBlank).length) = rest ++ others := by
    rw [← List.drop_drop, ← hothers]
    conv_lhs => rw [← hfirst, List.append_assoc]
    exact List.drop_left' (by rw [hfirst])
  have hlength := congrArg List.length hkept
  rw [List.length_append, List.length_reverse] at hlength
  dsimp only [trimSpan]
  rw [hinner, hrest, Region.slice, htext, trim, trimStart, hrest]
  conv_lhs => rw [hkept, List.append_assoc]
  exact List.take_left' (by rw [← hkept]; omega)

end GuestCode
