import GuestCode.Proofs.Text.Language
import GuestCode.Proofs.Text.Words
import GuestCode.Rewrite.Runnable

/-!
# The mark of the first line

The line that wraps the file capability is told by a comment, its mark. Texts are put together here
from pieces without the mark so that no mark comes about where the pieces meet: the mark starts and
ends with a slash, and it holds no brackets, commas, semicolons, equal signs and line ends.

## Main statements

* `Rewrite.Closed`: a text after which no mark goes on.
* `Rewrite.not_marked_flatMap`: harmless replacements make no mark.
-/

namespace GuestCode.Rewrite

open Text Text.Pattern Grammar

/-- Whether a text holds the mark of the line that wraps the file capability. -/
def Marked (text : List Char) : Prop := wrapperMark.toList <:+: text

/-- Brackets and marks that are not in the mark. -/
def separators : List Char := ['(', ')', '[', ']', '\x7b', '\x7d', ',', ';', '=', '\n']

theorem not_mem_mark {c : Char} (h : c ∈ separators) : c ∉ wrapperMark.toList := by
  have hall : ∀ c ∈ separators, c ∉ wrapperMark.toList := by decide +kernel
  exact hall c h

/-! ## Joining texts -/

section Joining

variable {s t u : List Char} {c : Char}

theorem slash_mem_of_front {u v : List Char} (h : wrapperMark.toList = u ++ v) (hu : u ≠ []) :
    '/' ∈ u := by
  obtain ⟨c, cs, rfl⟩ := List.exists_cons_of_ne_nil hu
  have hhead : wrapperMark.toList.head? = some '/' := by decide +kernel
  rw [h] at hhead
  obtain rfl : c = '/' := Option.some.inj hhead
  exact .head _

theorem slash_mem_of_back {u v : List Char} (h : wrapperMark.toList = u ++ v) (hv : v ≠ []) :
    '/' ∈ v := by
  have hlast : wrapperMark.toList.getLast? = some '/' := by decide +kernel
  rw [h, List.getLast?_append, List.getLast?_eq_some_getLast hv, Option.some_or] at hlast
  exact Option.some.inj hlast ▸ List.getLast_mem hv

theorem not_marked_of_slash (h : '/' ∉ s) : ¬Marked s := by
  intro hmarked
  have hslash : '/' ∈ wrapperMark.toList := by decide +kernel
  exact h (hmarked.subset hslash)

/-- A mark does not start in a text without slashes. -/
theorem marked_of_append_left (hu : '/' ∉ u) (h : Marked (u ++ t)) : Marked t := by
  rcases infix_append_cases h with h | h | ⟨x, y, hmark, hx, -, hxu, -⟩
  · exact absurd h (not_marked_of_slash hu)
  · exact h
  · exact absurd (hxu.subset (slash_mem_of_front hmark hx)) hu

/-- A mark does not end in a text without slashes. -/
theorem marked_of_append_right (hu : '/' ∉ u) (h : Marked (s ++ u)) : Marked s := by
  rcases infix_append_cases h with h | h | ⟨x, y, hmark, -, hy, -, hyu⟩
  · exact h
  · exact absurd h (not_marked_of_slash hu)
  · exact absurd (hyu.subset (slash_mem_of_back hmark hy)) hu

/-- A mark is before or after a character that it does not hold. -/
theorem marked_of_append_cons (hc : c ∉ wrapperMark.toList) (h : Marked (s ++ c :: t)) :
    Marked s ∨ Marked t := by
  have hcons : ∀ {y : List Char}, y ≠ [] → y <+: c :: t → c ∈ y := by
    intro y hy hyt
    obtain ⟨d, ds, rfl⟩ := List.exists_cons_of_ne_nil hy
    obtain ⟨after, heq⟩ := hyt
    obtain ⟨rfl, -⟩ := List.cons.inj heq
    exact .head _
  rcases infix_append_cases h with h | h | ⟨x, y, hmark, -, hy, -, hyt⟩
  · exact .inl h
  · rcases List.infix_cons_iff.mp h with h | h
    · exact absurd (hcons (by decide +kernel) h) hc
    · exact .inr h
  · exact absurd (hmark ▸ List.mem_append_right x (hcons hy hyt)) hc

end Joining

/-! ## Texts after which no mark goes on -/

/-- A text after which no mark goes on: a mark in a longer text is in it, or comes after it. -/
def Closed (s : List Char) : Prop := ∀ t, Marked (s ++ t) → Marked s ∨ Marked t

theorem closed_nil : Closed [] := fun _ h => .inr h

theorem closed_append_cons {s u : List Char} {c : Char} (hc : c ∉ wrapperMark.toList)
    (hu : '/' ∉ u) : Closed (s ++ c :: u) := by
  intro t h
  rw [List.append_assoc, List.cons_append] at h
  rcases marked_of_append_cons hc h with h | h
  · exact .inl (h.trans (List.prefix_append _ _).isInfix)
  · exact .inr (marked_of_append_left hu h)

theorem Closed.append {s u : List Char} (h : Closed s) (hu : '/' ∉ u) : Closed (s ++ u) := by
  intro t ht
  rw [List.append_assoc] at ht
  rcases h _ ht with hs | hut
  · exact .inl (hs.trans (List.prefix_append _ _).isInfix)
  · exact .inr (marked_of_append_left hu hut)

/-! ## Harmless replacements -/

/-- Whether a line starts after a text. -/
def EndsLine (before : List Char) : Prop := before.getLast?.all (· == '\n') = true

theorem exists_of_endsLine {before : List Char} (h : EndsLine before) (hne : before ≠ []) :
    ∃ line, before = line ++ ['\n'] := by
  obtain ⟨line, c, rfl⟩ := (List.eq_nil_or_concat before).resolve_left hne
  rw [EndsLine, List.concat_eq_append, List.getLast?_concat] at h
  obtain rfl : c = '\n' := by simpa using h
  exact ⟨line, List.concat_eq_append⟩

/-- Replacements of a match, which stands after the text `before`, that make no mark: the match
itself, texts without slashes at the start of a line, those that hold a character which the mark does
not hold, and those before such a character or before the end of the text. -/
inductive Harmless (before : List Char) (m : Found) : List Char → Prop where
  | same : Harmless before m m.text
  | atLineStart {r : List Char} : EndsLine before → '/' ∉ r → Harmless before m r
  | apart {r : List Char} {c : Char} : '/' ∉ r → c ∈ r → c ∉ wrapperMark.toList →
      Harmless before m r
  | beforeEnd {r : List Char} : '/' ∉ r → '\n' ∉ m.text → '/' ∉ m.after → Harmless before m r
  | beforeApart {r gap rest : List Char} {c : Char} : '/' ∉ r → '\n' ∉ m.text → '/' ∉ gap →
      c ∉ wrapperMark.toList → m.after = gap ++ c :: rest → Harmless before m r

theorem Harmless.not_marked {before s r : List Char} {m : Found} (h : Harmless before m r)
    (hclosed : EndsLine before → Closed s) (hs : ¬Marked (s ++ (m.text ++ m.after))) :
    ¬Marked (s ++ r ++ m.after) := by
  have hbefore : ¬Marked s := fun h => hs (h.trans (List.prefix_append _ _).isInfix)
  have hafter : ¬Marked m.after := fun h => hs
    (h.trans ((List.suffix_append m.text m.after).trans (List.suffix_append s _)).isInfix)
  intro hmarked
  cases h with
  | same =>
    rw [List.append_assoc] at hmarked
    exact hs hmarked
  | atLineStart hline hr =>
    rw [List.append_assoc] at hmarked
    rcases hclosed hline _ hmarked with h | h
    · exact hbefore h
    · exact hafter (marked_of_append_left hr h)
  | apart hr hmem hc =>
    obtain ⟨x, y, rfl⟩ := List.append_of_mem hmem
    obtain ⟨hx, hy⟩ : '/' ∉ x ∧ '/' ∉ y := by
      simp only [List.mem_append, List.mem_cons, not_or] at hr
      exact ⟨hr.1, hr.2.2⟩
    rw [← List.append_assoc, List.append_assoc, List.cons_append] at hmarked
    rcases marked_of_append_cons hc hmarked with h | h
    · exact hbefore (marked_of_append_right hx h)
    · exact hafter (marked_of_append_left hy h)
  | beforeEnd hr _ hend =>
    exact hbefore (marked_of_append_right hr (marked_of_append_right hend hmarked))
  | beforeApart hr _ hgap hc heq =>
    rw [heq, ← List.append_assoc] at hmarked
    rcases marked_of_append_cons hc hmarked with h | h
    · exact hbefore (marked_of_append_right hr (marked_of_append_right hgap h))
    · exact hafter (h.trans (heq ▸ ((List.suffix_cons _ _).trans (List.suffix_append _ _)).isInfix))

theorem Harmless.closed {before s r : List Char} {m : Found} (h : Harmless before m r)
    (hclosed : EndsLine before → Closed s) (hline : EndsLine m.text) (hne : m.text ≠ []) :
    Closed (s ++ r) := by
  obtain ⟨line, hline⟩ := exists_of_endsLine hline hne
  have hnewline : '\n' ∈ m.text := hline ▸ by simp
  cases h with
  | same =>
    rw [hline, ← List.append_assoc]
    exact closed_append_cons (not_mem_mark (by decide)) (by simp)
  | atLineStart hbefore hr => exact (hclosed hbefore).append hr
  | apart hr hmem hc =>
    obtain ⟨x, y, rfl⟩ := List.append_of_mem hmem
    rw [← List.append_assoc]
    refine closed_append_cons hc ?_
    simp only [List.mem_append, List.mem_cons, not_or] at hr
    exact hr.2.2
  | beforeEnd _ hm _ => exact absurd hnewline hm
  | beforeApart _ hm _ _ _ => exact absurd hnewline hm

/-- Harmless replacements make no mark: at each place, what has been made up to there is followed by
the text that is left. -/
theorem not_marked_flatMap {pattern : Pattern} {before text : List Char} {parts : List Part}
    (h : Divides pattern before text parts) {replacement : Found → List Char}
    (hharmless : ∀ (b : List Char) (m : Found),
      pattern.matchAt? ⟨b.getLast?, m.text ++ m.after, b.length, []⟩ = some m →
        Harmless b m (replacement m))
    {s : List Char} (hclosed : EndsLine before → Closed s) (hs : ¬Marked (s ++ text)) :
    ¬Marked (s ++ parts.flatMap fun | .plain c => [c] | .found m => replacement m) := by
  induction h generalizing s with
  | nil => exact hs
  | @plain before cs c parts _ _ ih =>
    rw [List.flatMap_cons, ← List.append_assoc]
    refine ih (fun hline => ?_) (by rwa [List.append_assoc])
    obtain ⟨line, hline⟩ := exists_of_endsLine hline (by simp)
    obtain ⟨-, hc⟩ := List.append_inj' hline rfl
    obtain rfl : c = '\n' := List.singleton_inj.mp hc
    exact closed_append_cons (not_mem_mark (by decide)) (by simp)
  | @found before m parts hmatch hne _ ih =>
    have hm := hharmless before m hmatch
    rw [List.flatMap_cons, ← List.append_assoc]
    refine ih (fun hline => hm.closed hclosed ?_ hne) (hm.not_marked hclosed hs)
    rwa [EndsLine, List.getLast?_append, List.getLast?_eq_some_getLast hne, Option.some_or,
      ← List.getLast?_eq_some_getLast hne] at hline

end GuestCode.Rewrite
