import GuestCode.Proofs.Rewrite.ModuleGrammar
import GuestCode.Proofs.Text.Preferred

/-!
# Passing over texts with module syntax

The patterns for declarations take a word of module syntax, and no line end before it. So none of
their matches starts in a text in which the word does not occur, and in a declaration one can start
at its first character only. A program is rewritten item by item.

## Main statements

* `ModuleSyntax.Announces`: patterns that take a word, and no line end before it.
* `ModuleSyntax.Passes`: what a rule makes of a text that stands between line ends.
* `ModuleSyntax.Announces.passes`, `ModuleSyntax.passes_of_none`, `ModuleSyntax.passes_of_match`:
  texts without the word, and declarations that do not match or do.
* `ModuleSyntax.apply_joinLines`: a rule makes of each item what it makes of it alone.
-/

namespace GuestCode

open Text Text.Pattern

namespace ModuleSyntax

variable {pattern : Pattern} {rule : Rule} {word text taken left rest : List Char}
  {before : Option Char} {offset : Nat} {captures : List Capture}

/-- Nothing, or a line end, comes next. -/
def EndsLine (rest : List Char) : Prop := rest.head?.all (· == '\n') = true

/-- Nothing, or a line end, stands before. -/
def StartsLine (before : Option Char) : Prop := before.all (· == '\n') = true

theorem endsLine_nil : EndsLine [] := rfl

theorem endsLine_cons (rest : List Char) : EndsLine ('\n' :: rest) := rfl

/-- What comes next is not in a class to which line ends do not belong. -/
theorem EndsLine.any_head? {accepts : Char → Bool} (h : EndsLine rest)
    (hline : accepts '\n' = false) : rest.head?.any accepts = false := by
  cases rest with
  | nil => rfl
  | cons c cs =>
    obtain rfl : c = '\n' := by simpa [EndsLine] using h
    exact hline

/-! ## Words of module syntax -/

theorem not_mem_mark (h : word ∈ marks) : '\n' ∉ word := by
  have hall : ∀ word ∈ marks, '\n' ∉ word := by decide
  exact hall word h

/-- A word of module syntax does not occur in itself again, nor in the other one. -/
theorem exists_cons_of_mem_marks (h : word ∈ marks) :
    ∃ c cs, word = c :: cs ∧ ∀ other ∈ marks, c ∉ other.tail := by
  rcases mem_marks.mp h with rfl | rfl
  · exact ⟨'i', "mport".toList, rfl, by decide⟩
  · exact ⟨'e', "xport".toList, rfl, by decide⟩

/-- Plain texts are plain when they are joined by a line end. -/
theorem IsPlain.append_cons (h : IsPlain text) (hrest : IsPlain rest) :
    IsPlain (text ++ '\n' :: rest) := by
  intro word hword hinfix
  rcases infix_or_of_infix_append_cons (not_mem_mark hword) hinfix with hinfix | hinfix
  · exact h word hword hinfix
  · exact hrest word hword hinfix

/-! ## Patterns that take a word -/

/-- Each text that a pattern takes holds a word, and no line end before it. -/
def Announces (word : List Char) (pattern : Pattern) : Prop :=
  ∀ w, pattern.Takes w → ∃ front back, w = front ++ (word ++ back) ∧ '\n' ∉ front

theorem announces_of_lit {patterns others : List Pattern} {s : String}
    (h : ∀ p ∈ patterns, p.takesNone ['\n'] = true) :
    Announces s.toList (all (patterns ++ lit s :: others)) := by
  intro w hw
  obtain ⟨front, behind, rfl, hfront, hbehind⟩ := takes_all_append.mp hw
  obtain ⟨text, back, rfl, htext, -⟩ := takes_all_cons.mp hbehind
  obtain rfl := takes_lit.mp htext
  exact ⟨front, back, rfl, fun hmem => not_mem_of_takes_all h hfront '\n' hmem (.head _)⟩

namespace Announces

variable (h : Announces word pattern) (hword : word ∈ marks)
include h hword

/-- No match starts in a text in which the word does not occur before the line ends. -/
theorem matchAt?_eq_none (hnot : ¬word <:+: text) (hrest : EndsLine rest) :
    pattern.matchAt? ⟨before, text ++ rest, offset, captures⟩ = none := by
  apply matchAt?_eq_none_of_not_takes
  intro u v huv hu
  obtain ⟨front, back, rfl, hline⟩ := h u hu
  have hsplit : text ++ rest = (front ++ word) ++ (back ++ v) := by
    rw [show text ++ rest = (front ++ (word ++ back)) ++ v from huv]
    simp only [List.append_assoc]
  rcases List.append_eq_append_iff.mp hsplit with ⟨x, hx, hxrest⟩ | ⟨x, rfl, -⟩
  · cases x with
    | nil =>
      rw [List.append_nil] at hx
      exact hnot ⟨front, [], by rw [hx, List.append_nil]⟩
    | cons c cs =>
      -- The word would go on behind the text, but there the line ends.
      obtain rfl : c = '\n' := by
        rw [hxrest] at hrest
        simpa [EndsLine] using hrest
      have hmem : '\n' ∈ front ++ word := by simp [hx]
      rcases List.mem_append.mp hmem with hmem | hmem
      · exact hline hmem
      · exact not_mem_mark hword hmem
  · exact hnot ⟨front, x, rfl⟩

/-- No match starts at a line end. -/
theorem matchAt?_line : pattern.matchAt? ⟨before, '\n' :: rest, offset, captures⟩ = none := by
  apply matchAt?_eq_none_of_not_takes
  intro u v huv hu
  obtain ⟨front, back, rfl, hline⟩ := h u hu
  obtain ⟨c, cs, rfl, -⟩ := exists_cons_of_mem_marks hword
  have hmem : '\n' ∈ front ++ (c :: cs) := by
    cases front with
    | nil =>
      obtain ⟨rfl, -⟩ := List.cons.inj huv
      exact .head _
    | cons d ds =>
      obtain ⟨rfl, -⟩ := List.cons.inj huv
      exact .head _
  rcases List.mem_append.mp hmem with hmem | hmem
  · exact hline hmem
  · exact not_mem_mark hword hmem

/-- A text in which the word does not occur stays as it is. -/
theorem replaceFrom_append {replacement : Found → List Char} (hnot : ¬word <:+: text)
    (hrest : EndsLine rest) : pattern.replaceFrom replacement before offset (text ++ rest) =
      text ++ pattern.replaceFrom replacement (text.getLast?.or before) (offset + text.length)
        rest := by
  apply replaceFrom_append_of_none
  rintro u v rfl -
  apply h.matchAt?_eq_none hword _ hrest
  exact fun hin => hnot (hin.trans (List.suffix_append u v).isInfix)

theorem replaceFrom_line {replacement : Found → List Char} :
    pattern.replaceFrom replacement before offset ('\n' :: rest) =
      '\n' :: pattern.replaceFrom replacement (some '\n') (offset + 1) rest :=
  replaceFrom_cons_of_none (h.matchAt?_line hword)

end Announces

/-! ## What rules make of texts -/

/-- What a rule makes of a text that stands between line ends. -/
def Passes (rule : Rule) (text result : List Char) : Prop :=
  ∀ before offset rest, StartsLine before → EndsLine rest → ∃ before' offset',
    rule.pattern.replaceFrom rule.replacement before offset (text ++ rest) =
      result ++ rule.pattern.replaceFrom rule.replacement before' offset' rest

section Passes

variable (h : Announces word rule.pattern) (hword : word ∈ marks)
include h hword

/-- A text in which the word does not occur is passed over. -/
theorem Announces.passes (hnot : ¬word <:+: text) : Passes rule text text :=
  fun _ _ _ _ hrest => ⟨_, _, h.replaceFrom_append hword hnot hrest⟩

/-- A declaration that does not match is passed over. -/
theorem passes_of_none {mark tail : List Char} (hmark : mark ∈ marks) (htail : IsPlain tail)
    (hnone : ∀ before offset rest, EndsLine rest →
      rule.pattern.matchAt? ⟨before, mark ++ (tail ++ rest), offset, []⟩ = none) :
    Passes rule (mark ++ tail) (mark ++ tail) := by
  intro before offset rest _ hrest
  obtain ⟨c, cs, rfl, -⟩ := exists_cons_of_mem_marks hmark
  obtain ⟨d, ds, rfl, htails⟩ := exists_cons_of_mem_marks hword
  have hnot : ¬d :: ds <:+: cs ++ tail := by
    intro hinfix
    exact htail (d :: ds) hword (infix_of_infix_append (htails (c :: cs) hmark) hinfix)
  have hfirst : rule.pattern.matchAt? ⟨before, c :: (cs ++ (tail ++ rest)), offset, []⟩ = none :=
    hnone before offset rest hrest
  rw [List.append_assoc, List.cons_append, replaceFrom_cons_of_none hfirst, ← List.append_assoc,
    h.replaceFrom_append hword hnot hrest]
  exact ⟨_, _, rfl⟩

/-- A match at the start of a text is replaced, and what stands behind it is passed over. -/
theorem passes_of_match (hne : taken ≠ []) (hleft : IsPlain left)
    (hmatch : ∀ before offset rest, StartsLine before → EndsLine rest → ∃ m,
      rule.pattern.matchAt? ⟨before, taken ++ (left ++ rest), offset, []⟩ = some m ∧
        m.text = taken ∧ rule.replacement m = []) :
    Passes rule (taken ++ left) left := by
  intro before offset rest hbefore hrest
  obtain ⟨m, hm, htext, hreplacement⟩ := hmatch before offset rest hbefore hrest
  rw [List.append_assoc, replaceFrom_append_of_match hne hm htext, hreplacement, List.nil_append,
    h.replaceFrom_append hword (hleft word hword) hrest]
  exact ⟨_, _, rfl⟩

/-- Behind a line end, a rule makes of each text what it makes of it alone. -/
theorem replaceFrom_flatMap_line {α : Type} {items : List α} {f g : α → List Char}
    (hpasses : ∀ i ∈ items, Passes rule (f i) (g i)) (before : Option Char) (offset : Nat) :
    rule.pattern.replaceFrom rule.replacement before offset
        (items.flatMap fun i => '\n' :: f i) = items.flatMap fun i => '\n' :: g i := by
  induction items generalizing before offset with
  | nil => rfl
  | cons i items ih =>
    obtain ⟨hi, hitems⟩ := List.forall_mem_cons.mp hpasses
    have hrest : EndsLine (items.flatMap fun i => '\n' :: f i) := by
      cases items with
      | nil => exact endsLine_nil
      | cons => exact endsLine_cons _
    obtain ⟨before', offset', hfirst⟩ := hi (some '\n') (offset + 1) _ rfl hrest
    rw [List.flatMap_cons, List.flatMap_cons, List.cons_append, h.replaceFrom_line hword, hfirst,
      ih hitems]
    rfl

/-- A rule makes of each text between line ends what it makes of it alone. -/
theorem apply_joinLines {α : Type} {items : List α} {f g : α → List Char}
    (hpasses : ∀ i ∈ items, Passes rule (f i) (g i)) :
    rule.apply false (joinLines (items.map f)) = joinLines (items.map g) := by
  rw [Rule.apply, if_neg Bool.false_ne_true, replace_eq_replaceFrom]
  cases items with
  | nil => rfl
  | cons i items =>
    obtain ⟨hi, hitems⟩ := List.forall_mem_cons.mp hpasses
    have hrest : EndsLine ((items.map f).flatMap ('\n' :: ·)) := by
      cases items with
      | nil => exact endsLine_nil
      | cons => exact endsLine_cons _
    obtain ⟨before', offset', hfirst⟩ := hi none 0 _ rfl hrest
    rw [List.map_cons, List.map_cons, joinLines, joinLines, hfirst, List.flatMap_map,
      replaceFrom_flatMap_line h hword hitems, List.flatMap_map]

end Passes

end ModuleSyntax

end GuestCode
