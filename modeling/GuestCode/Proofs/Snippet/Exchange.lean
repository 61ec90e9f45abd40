import GuestCode.Proofs.Snippet.Tokens
import GuestCode.Snippet.Remedy

/-!
# Exchange of tokens

What is read of a snippet before a token does not depend on what the token says. Only a `/` that may
open a regular expression makes the reader look ahead further than one character, and it looks no
further than the end of the line. So a string or a comment that no such `/` precedes on its line can
be exchanged for another one of its kind, and all that is judged by the redacted view stays as it
was.

## Main statements

* `Segment.token?_exchange`: a token is recognised whatever follows it, if only the next character
  stays.
* `Segment.redact_splitAfter_exchange`: the redacted view of a text in which a token is exchanged.
* `redact_exchange`: the same for a whole snippet, with the judgements that rest on it.
-/

namespace GuestCode

open Text

namespace Segment

/-! ## Reading does not look past the next character -/

section Exchange

variable {rest other : List Char}

/-- Texts with the same first character are empty together, or start alike. -/
theorem head?_eq_cases (hhead : rest.head? = other.head?) :
    (rest = [] ∧ other = []) ∨ ∃ c cs ds, rest = c :: cs ∧ other = c :: ds := by
  cases rest with
  | nil => exact .inl ⟨rfl, by simpa using hhead.symm⟩
  | cons c cs =>
    cases other with
    | nil => simp at hhead
    | cons d ds =>
      obtain rfl : c = d := by simpa using hhead
      exact .inr ⟨c, cs, ds, rfl, rfl⟩

/-- What is left of the rest of a text is not the text. -/
theorem ne_cons_of_suffix {left cs : List Char} (h : left <:+ cs) (c : Char) : left ≠ c :: cs := by
  rintro rfl
  have hlength := h.length_le
  rw [List.length_cons] at hlength
  omega

theorem afterQuoted_exchange {quote : Char} (hhead : rest.head? = other.head?) :
    ∀ taken, afterQuoted quote (taken ++ rest) = rest →
      afterQuoted quote (taken ++ other) = other
  | [], h => by
    rcases head?_eq_cases hhead with ⟨rfl, rfl⟩ | ⟨c, cs, ds, rfl, rfl⟩
    · exact h
    · -- Nothing has been read, so it is a line end that ends the string.
      rw [List.nil_append] at h ⊢
      by_cases hslash : c = '\\'
      · subst hslash
        refine absurd h (ne_cons_of_suffix ?_ _)
        cases cs with
        | nil => simp [afterQuoted]
        | cons d cs =>
          simpa [afterQuoted] using (afterQuoted_suffix quote cs).trans (List.suffix_cons d cs)
      · rw [afterQuoted_cons hslash] at h ⊢
        split at h
        · exact absurd h (ne_cons_of_suffix (List.suffix_refl cs) c)
        · split at h
          · next hquote hline => rw [if_neg hquote, if_pos hline]
          · exact absurd h (ne_cons_of_suffix (afterQuoted_suffix quote cs) c)
  | c :: taken, h => by
    rw [List.cons_append] at h ⊢
    by_cases hslash : c = '\\'
    · subst hslash
      cases taken with
      | nil =>
        rcases head?_eq_cases hhead with ⟨rfl, rfl⟩ | ⟨d, cs, ds, rfl, rfl⟩
        · exact h
        · refine absurd h (ne_cons_of_suffix ?_ d)
          simpa [afterQuoted] using afterQuoted_suffix quote cs
      | cons d taken =>
        simp only [List.cons_append, afterQuoted, beq_self_eq_true, if_true] at h ⊢
        exact afterQuoted_exchange hhead taken h
    · rw [afterQuoted_cons hslash] at h ⊢
      split at h
      · next hquote =>
        rw [if_pos hquote]
        obtain rfl : taken = [] := by simpa using h
        rfl
      · next hquote =>
        rw [if_neg hquote]
        split at h
        · next hline =>
          -- The line end would belong to what has been read.
          exact absurd h.symm (ne_cons_of_suffix (List.suffix_append taken rest) c)
        · next hline =>
          rw [if_neg hline]
          exact afterQuoted_exchange hhead taken h

theorem dropWhile_exchange {p : Char → Bool} (hhead : rest.head? = other.head?)
    (taken : List Char) (h : (taken ++ rest).dropWhile p = rest) :
    (taken ++ other).dropWhile p = other := by
  induction taken with
  | nil =>
    rcases head?_eq_cases hhead with ⟨rfl, rfl⟩ | ⟨c, cs, ds, rfl, rfl⟩
    · rfl
    · rw [List.nil_append, List.dropWhile_cons] at h ⊢
      split at h
      · exact absurd h (ne_cons_of_suffix (List.dropWhile_suffix _) c)
      · next hstop => rw [if_neg hstop]
  | cons c taken ih =>
    rw [List.cons_append, List.dropWhile_cons] at h ⊢
    split at h
    · next hgo => rw [if_pos hgo, ih h]
    · exact absurd h.symm (ne_cons_of_suffix (List.suffix_append taken rest) c)

theorem afterLine_exchange (hhead : rest.head? = other.head?) (taken : List Char)
    (h : afterLine (taken ++ rest) = rest) : afterLine (taken ++ other) = other :=
  dropWhile_exchange hhead taken h

theorem afterBlock_cons (c : Char) (cs : List Char) :
    afterBlock (c :: cs) =
      if c = '*' ∧ cs.head? = some '/' then cs.tail else afterBlock cs := by
  by_cases hclose : c = '*' ∧ cs.head? = some '/'
  · obtain ⟨rfl, hhead⟩ := hclose
    obtain ⟨ds, rfl⟩ := List.head?_eq_some_iff.mp hhead
    simp [afterBlock]
  · rw [if_neg hclose, afterBlock.eq_3]
    rintro ds rfl rfl
    exact hclose ⟨rfl, rfl⟩

/-- The next character after a text, which is seen where the text has come to its end. -/
theorem head?_append_congr (hhead : rest.head? = other.head?) (taken : List Char) :
    (taken ++ rest).head? = (taken ++ other).head? := by
  rw [List.head?_append, List.head?_append, hhead]

/-- What is read after one more character. -/
theorem tail_exchange {f : List Char → List Char} (hsuffix : ∀ text, f text <:+ text)
    (hhead : rest.head? = other.head?) {taken : List Char}
    (hf : ∀ taken' : List Char, taken'.length < taken.length →
      f (taken' ++ rest) = rest → f (taken' ++ other) = other)
    (hempty : f [] = []) (h : f (taken ++ rest).tail = rest) : f (taken ++ other).tail = other := by
  cases taken with
  | nil =>
    rcases head?_eq_cases hhead with ⟨rfl, rfl⟩ | ⟨c, cs, ds, rfl, rfl⟩
    · exact hempty
    · exact absurd h (ne_cons_of_suffix (hsuffix cs) c)
  | cons c taken => exact hf taken (by simp) h

theorem afterBlock_exchange (hhead : rest.head? = other.head?) :
    ∀ taken, afterBlock (taken ++ rest) = rest → afterBlock (taken ++ other) = other
  | [], h => by
    rcases head?_eq_cases hhead with ⟨rfl, rfl⟩ | ⟨c, cs, ds, rfl, rfl⟩
    · exact h
    · refine absurd h (ne_cons_of_suffix ?_ c)
      rw [List.nil_append, afterBlock_cons]
      split
      · exact List.tail_suffix cs
      · exact afterBlock_suffix cs
  | c :: taken, h => by
    rw [List.cons_append, afterBlock_cons] at h ⊢
    rw [← head?_append_congr hhead]
    split at h
    · next hclose =>
      rw [if_pos hclose]
      exact tail_exchange (f := id) List.suffix_refl hhead
        (fun taken' _ h' => by simpa using h') rfl h
    · next hclose =>
      rw [if_neg hclose]
      exact afterBlock_exchange hhead taken h

theorem afterRegex?_cons (inClass : Bool) (c : Char) (cs : List Char) :
    afterRegex? inClass (c :: cs) =
      if c = '\\' then
        if cs = [] ∨ cs.head? = some '\n' then none else afterRegex? inClass cs.tail
      else if c = '\n' then none
      else if inClass then afterRegex? (c != ']') cs
      else if c = '[' then afterRegex? true cs
      else if c = '/' then some (cs.dropWhile isLetter)
      else afterRegex? false cs := by
  cases cs <;> simp [afterRegex?]

/-- A regular expression takes at least the character that follows its mark. -/
theorem afterRegex?_cons_suffix {inClass : Bool} {c : Char} {cs left : List Char}
    (h : afterRegex? inClass (c :: cs) = some left) : left <:+ cs := by
  rw [afterRegex?_cons] at h
  split at h
  · split at h
    · cases h
    · exact (afterRegex?_suffix h).trans (List.tail_suffix cs)
  · split at h
    · cases h
    · split at h
      · exact afterRegex?_suffix h
      · split at h
        · exact afterRegex?_suffix h
        · split at h
          · obtain rfl := Option.some.inj h
            exact List.dropWhile_suffix _
          · exact afterRegex?_suffix h

theorem afterRegex?_exchange (hhead : rest.head? = other.head?) :
    ∀ (inClass : Bool) (taken : List Char), afterRegex? inClass (taken ++ rest) = some rest →
      afterRegex? inClass (taken ++ other) = some other
  | inClass, [], h => by
    rcases head?_eq_cases hhead with ⟨rfl, rfl⟩ | ⟨c, cs, ds, rfl, rfl⟩
    · exact h
    · exact absurd rfl (ne_cons_of_suffix (afterRegex?_cons_suffix h) c)
  | inClass, c :: taken, h => by
    rw [List.cons_append, afterRegex?_cons] at h ⊢
    split at h
    · next hslash =>
      rw [if_pos hslash]
      cases taken with
      | nil =>
        -- The escape would take the first character of what is left.
        rcases head?_eq_cases hhead with ⟨rfl, rfl⟩ | ⟨d, cs, ds, rfl, rfl⟩
        · exact h
        · split at h
          · cases h
          · exact absurd rfl (ne_cons_of_suffix (afterRegex?_suffix h) d)
      | cons d taken =>
        simp only [List.cons_append, reduceCtorEq, List.head?_cons, Option.some.injEq, false_or,
          List.tail_cons] at h ⊢
        split at h
        · cases h
        · next hline =>
          rw [if_neg hline]
          exact afterRegex?_exchange hhead inClass taken h
    · next hslash =>
      rw [if_neg hslash]
      split_ifs at h ⊢ with hline hclass hopen hclose
      · exact afterRegex?_exchange hhead _ taken h
      · exact afterRegex?_exchange hhead _ taken h
      · rw [dropWhile_exchange hhead taken (Option.some.inj h)]
      · exact afterRegex?_exchange hhead _ taken h

/-- A regular expression that is not closed on a line is none, whatever the next lines are. -/
theorem afterRegex?_line_congr (later : List Char) :
    ∀ (inClass : Bool) (line : List Char), afterRegex? inClass (line ++ '\n' :: rest) = none →
      afterRegex? inClass (line ++ '\n' :: later) = none
  | inClass, [], _ => by
    rw [List.nil_append, afterRegex?_cons]
    simp
  | inClass, c :: line, h => by
    rw [List.cons_append, afterRegex?_cons] at h ⊢
    by_cases hslash : c = '\\'
    · rw [if_pos hslash] at h ⊢
      cases line with
      | nil => simp
      | cons d line =>
        simp only [List.cons_append, reduceCtorEq, List.head?_cons, Option.some.injEq, false_or,
          List.tail_cons] at h ⊢
        split_ifs at h ⊢ with hline
        · rfl
        · exact afterRegex?_line_congr later _ line h
    · rw [if_neg hslash] at h ⊢
      split_ifs at h ⊢ with hline hclass hopen
      · rfl
      · exact afterRegex?_line_congr later _ line h
      · exact afterRegex?_line_congr later _ line h
      · exact afterRegex?_line_congr later _ line h

/-! ### Templates -/

/-- What reading a template does with a character that is printed. -/
theorem afterTemplate_printed_cons (outer : List (Option Nat)) (c : Char) (cs : List Char) :
    afterTemplate (none :: outer) (c :: cs) =
      if c == '\\' then afterTemplate (none :: outer) cs.tail
      else if c == '\x60' then afterTemplate outer cs
      else if c == '$' && cs.head? == some '\x7b' then
        afterTemplate (some 0 :: none :: outer) cs.tail
      else afterTemplate (none :: outer) cs := by
  simp [afterTemplate]

/-- A template that is open takes at least one character. -/
theorem afterTemplate_cons_suffix (state : Option Nat) (outer : List (Option Nat)) (c : Char)
    (cs : List Char) : afterTemplate (state :: outer) (c :: cs) <:+ cs := by
  cases state with
  | none =>
    rw [afterTemplate_printed_cons]
    split_ifs
    · exact (afterTemplate_suffix _ _).trans (List.tail_suffix cs)
    · exact afterTemplate_suffix _ _
    · exact (afterTemplate_suffix _ _).trans (List.tail_suffix cs)
    · exact afterTemplate_suffix _ _
  | some depth =>
    rw [afterTemplate_hole_cons]
    split_ifs
    · exact (afterTemplate_suffix _ _).trans (afterQuoted_suffix _ _)
    · exact afterTemplate_suffix _ _
    · exact (afterTemplate_suffix _ _).trans
        ((afterBlock_suffix _).trans (List.tail_suffix cs))
    · exact (afterTemplate_suffix _ _).trans (afterLine_suffix cs)
    all_goals exact afterTemplate_suffix _ _

/-- What is read after a token inside a template. -/
theorem afterTemplate_exchange_after {g : List Char → List Char}
    (hg : ∀ text, g text <:+ text)
    (hexchange : ∀ {rest other : List Char}, rest.head? = other.head? →
      ∀ taken, g (taken ++ rest) = rest → g (taken ++ other) = other)
    (hhead : rest.head? = other.head?) {stack : List (Option Nat)} {taken : List Char}
    (hf : ∀ taken' : List Char, taken'.length ≤ taken.length →
      afterTemplate stack (taken' ++ rest) = rest → afterTemplate stack (taken' ++ other) = other)
    (h : afterTemplate stack (g (taken ++ rest)) = rest) :
    afterTemplate stack (g (taken ++ other)) = other := by
  -- What the token leaves still holds all that is left in the end.
  obtain ⟨inner, hinner⟩ : rest <:+ g (taken ++ rest) := by
    conv_lhs => rw [← h]
    exact afterTemplate_suffix _ _
  obtain ⟨token, htoken⟩ := hg (taken ++ rest)
  have htaken : taken = token ++ inner := by
    rw [← hinner, ← List.append_assoc] at htoken
    exact (List.append_cancel_right htoken).symm
  subst htaken
  have hpast : g (token ++ (inner ++ other)) = inner ++ other := by
    refine hexchange (head?_append_congr hhead inner) token ?_
    rw [← List.append_assoc, hinner]
  rw [List.append_assoc, hpast]
  refine hf inner (by simp) ?_
  rw [hinner, h]

theorem afterTemplate_exchange (hhead : rest.head? = other.head?) :
    ∀ (stack : List (Option Nat)) (taken : List Char),
      afterTemplate stack (taken ++ rest) = rest → afterTemplate stack (taken ++ other) = other
  | [], taken, h => by
    rw [afterTemplate] at h ⊢
    obtain rfl : taken = [] := by simpa using h
    rfl
  | state :: outer, [], h => by
    rcases head?_eq_cases hhead with ⟨rfl, rfl⟩ | ⟨c, cs, ds, rfl, rfl⟩
    · exact h
    · exact absurd h (ne_cons_of_suffix (afterTemplate_cons_suffix state outer c cs) c)
  | none :: outer, c :: taken, h => by
    -- A printed character: an escape, the closing mark, the start of a hole, or a plain one.
    rw [List.cons_append, afterTemplate_printed_cons] at h ⊢
    rw [← head?_append_congr hhead]
    split_ifs at h ⊢
    · refine tail_exchange (afterTemplate_suffix _) hhead (fun taken' hshort h' => ?_) ?_ h
      · exact afterTemplate_exchange hhead _ taken' h'
      · simp [afterTemplate]
    · exact afterTemplate_exchange hhead _ taken h
    · refine tail_exchange (afterTemplate_suffix _) hhead (fun taken' hshort h' => ?_) ?_ h
      · exact afterTemplate_exchange hhead _ taken' h'
      · simp [afterTemplate]
    · exact afterTemplate_exchange hhead _ taken h
  | some depth :: outer, c :: taken, h => by
    -- In a hole strings and comments are read as wholes, and the template goes on after them.
    rw [List.cons_append, afterTemplate_hole_cons] at h ⊢
    rw [← head?_append_congr hhead]
    split_ifs at h ⊢
    · refine afterTemplate_exchange_after (afterQuoted_suffix c) afterQuoted_exchange hhead
        (fun taken' hshort h' => ?_) h
      exact afterTemplate_exchange hhead _ taken' h'
    · exact afterTemplate_exchange hhead _ taken h
    · refine afterTemplate_exchange_after (g := fun text => afterBlock text.tail)
        (fun text => (afterBlock_suffix _).trans (List.tail_suffix text))
        (fun hhead' token h' => tail_exchange afterBlock_suffix hhead'
          (fun token' _ h'' => afterBlock_exchange hhead' token' h'') rfl h')
        hhead (fun taken' hshort h' => ?_) h
      exact afterTemplate_exchange hhead _ taken' h'
    · refine afterTemplate_exchange_after afterLine_suffix afterLine_exchange hhead
        (fun taken' hshort h' => ?_) h
      exact afterTemplate_exchange hhead _ taken' h'
    all_goals exact afterTemplate_exchange hhead _ taken h
termination_by _ taken => taken.length
decreasing_by all_goals (simp_all only [List.length_cons]; omega)

/-! ### Tokens -/

/-- A token is recognised whatever follows it, if only the next character stays. -/
theorem token?_exchange (hhead : rest.head? = other.head?) {look : Lookback} {c : Char}
    {taken : List Char} {kind : Kind} (h : token? look c (taken ++ rest) = some (kind, rest)) :
    token? look c (taken ++ other) = some (kind, other) := by
  unfold token? at h ⊢
  rw [← head?_append_congr hhead]
  split_ifs at h ⊢
  · obtain ⟨rfl, hline⟩ := Prod.mk.inj (Option.some.inj h)
    rw [afterLine_exchange hhead taken hline]
  · obtain ⟨rfl, hblock⟩ := Prod.mk.inj (Option.some.inj h)
    rw [tail_exchange afterBlock_suffix hhead
      (fun taken' _ h' => afterBlock_exchange hhead taken' h') rfl hblock]
  · obtain ⟨rfl, hquoted⟩ := Prod.mk.inj (Option.some.inj h)
    rw [afterQuoted_exchange hhead taken hquoted]
  · obtain ⟨rfl, htemplate⟩ := Prod.mk.inj (Option.some.inj h)
    rw [afterTemplate_exchange hhead _ taken htemplate]
  · obtain ⟨left, hregex, hleft⟩ := Option.map_eq_some_iff.mp h
    obtain ⟨rfl, rfl⟩ := Prod.mk.inj hleft
    rw [afterRegex?_exchange hhead false taken hregex]
    rfl

/-- A character of code is code whatever follows, unless it is a `/` on the last line that is
there. -/
theorem token?_eq_none_exchange (hhead : rest.head? = other.head?) {look : Lookback} {c : Char}
    {taken : List Char} (hslash : c = '/' → '\n' ∈ taken)
    (h : token? look c (taken ++ rest) = none) : token? look c (taken ++ other) = none := by
  unfold token? at h ⊢
  rw [← head?_append_congr hhead]
  split_ifs at h ⊢ with _ _ _ _ hregex
  · -- The expression that is not closed breaks off at the end of the line.
    obtain ⟨rfl, -⟩ : c = '/' ∧ _ := by simpa using hregex
    obtain ⟨line, later, rfl⟩ := List.append_of_mem (hslash rfl)
    rw [Option.map_eq_none_iff] at h ⊢
    simp only [List.append_assoc, List.cons_append] at h ⊢
    exact afterRegex?_line_congr _ false line h
  · rfl

end Exchange

/-! ## Tokens of one kind -/

/-- Tokens that can stand for each other: strings in the same quotes and on one line, block comments
over as many lines, and line comments. -/
inductive Interchangeable : Segment → Segment → Prop where
  | string {quote : Char} {body body' : List Char} :
      quote ∈ ['\'', '"'] → QuotedBody quote body → '\n' ∉ body →
      QuotedBody quote body' → '\n' ∉ body' →
      Interchangeable ⟨.string, quote :: (body ++ [quote])⟩ ⟨.string, quote :: (body' ++ [quote])⟩
  | blockComment {body body' : List Char} :
      BlockBody body → BlockBody body' → body.count '\n' = body'.count '\n' →
      Interchangeable ⟨.blockComment, '/' :: '*' :: (body ++ ['*', '/'])⟩
        ⟨.blockComment, '/' :: '*' :: (body' ++ ['*', '/'])⟩
  | lineComment {body body' : List Char} :
      '\n' ∉ body → '\n' ∉ body' →
      Interchangeable ⟨.lineComment, '/' :: '/' :: body⟩ ⟨.lineComment, '/' :: '/' :: body'⟩

namespace Interchangeable

variable {s t : Segment}

theorem symm (h : Interchangeable s t) : Interchangeable t s := by
  cases h with
  | string hquote hbody hline hbody' hline' => exact .string hquote hbody' hline' hbody hline
  | blockComment hbody hbody' hcount => exact .blockComment hbody' hbody hcount.symm
  | lineComment hline hline' => exact .lineComment hline' hline

theorem isToken (h : Interchangeable s t) : IsToken s := by
  cases h with
  | string hquote hbody _ _ _ => exact .string hquote hbody
  | blockComment hbody _ _ => exact .blockComment hbody
  | lineComment hline _ => exact .lineComment hline

theorem kind_eq (h : Interchangeable s t) : s.kind = t.kind := by
  cases h <;> rfl

theorem kind_ne_code (h : Interchangeable s t) : s.kind ≠ .code := by
  cases h <;> exact nofun

/-- Interchangeable tokens open with the same character. -/
theorem exists_text_eq_cons (h : Interchangeable s t) :
    ∃ c cs ds, s.text = c :: cs ∧ t.text = c :: ds := by
  cases h with
  | string => exact ⟨_, _, _, rfl, rfl⟩
  | blockComment => exact ⟨_, _, _, rfl, rfl⟩
  | lineComment => exact ⟨_, _, _, rfl, rfl⟩

theorem head?_eq (h : Interchangeable s t) (after : List Char) :
    (s.text ++ after).head? = (t.text ++ after).head? := by
  obtain ⟨c, cs, ds, hs, ht⟩ := h.exists_text_eq_cons
  rw [hs, ht]
  rfl

/-- Interchangeable tokens leave the same in the redacted view. -/
theorem redacted_eq (h : Interchangeable s t) : s.redacted = t.redacted := by
  cases h with
  | @string quote body body' hquote _ hline _ hline' =>
    have hmark : quote ≠ '\n' := by
      rintro rfl
      simp at hquote
    simp [redacted, List.count_append, List.count_eq_zero_of_not_mem, hline, hline', hmark]
  | blockComment _ _ hcount => simp [redacted, List.count_append, hcount]
  | lineComment hline hline' =>
    simp [redacted, List.count_eq_zero_of_not_mem, hline, hline']

end Interchangeable

/-! ## Places of segments -/

theorem le_start_of_mem_ofSegments {r : Region} {start : Nat} {segments : List Segment}
    (h : r ∈ Region.ofSegments start segments) : start ≤ r.start := by
  induction segments generalizing start with
  | nil => cases h
  | cons s rest ih =>
    rcases List.mem_cons.mp h with rfl | hrest
    · exact Nat.le_refl start
    · have hle := ih hrest
      omega

theorem le_place_of_mem_placedFrom {p : Placed} {start : Nat} {text : List Char}
    (h : p ∈ placedFrom start text) : start ≤ p.place := by
  induction text generalizing start with
  | nil => cases h
  | cons c cs ih =>
    rcases List.mem_cons.mp h with rfl | hrest
    · exact Nat.le_refl start
    · have hle := ih hrest
      omega

theorem le_place_of_mem_codeOfSegments {p : Placed} {start : Nat} {segments : List Segment}
    (h : p ∈ codeOfSegments start segments) : start ≤ p.place := by
  induction segments generalizing start with
  | nil => cases h
  | cons s rest ih =>
    rw [codeOfSegments, List.mem_append] at h
    rcases h with hfirst | hrest
    · split at hfirst
      · exact le_place_of_mem_placedFrom hfirst
      · cases hfirst
    · have hle := ih hrest
      omega

/-- A character of code that joins other code moves no region but that code. -/
theorem mem_ofSegments_consCode {r : Region} (hkind : r.kind ≠ .code) {c : Char} {start : Nat}
    {segments : List Segment} (h : r ∈ Region.ofSegments start (consCode c segments)) :
    r ∈ Region.ofSegments (start + 1) segments := by
  unfold consCode at h
  split at h
  · next text rest =>
    rcases List.mem_cons.mp h with rfl | hrest
    · exact absurd rfl hkind
    · rw [Region.ofSegments]
      refine List.mem_cons_of_mem _ ?_
      simpa [Nat.add_comm, Nat.add_left_comm, Nat.add_assoc] using hrest
  · rcases List.mem_cons.mp h with rfl | hrest
    · exact absurd rfl hkind
    · exact hrest

theorem codeOfSegments_consCode (c : Char) (start : Nat) (segments : List Segment) :
    codeOfSegments start (consCode c segments) =
      ⟨start, c⟩ :: codeOfSegments (start + 1) segments := by
  unfold consCode
  split
  · next text rest =>
    simp [codeOfSegments, placedFrom, Nat.add_comm, Nat.add_left_comm]
  · simp [codeOfSegments, placedFrom]

theorem flatMap_redacted_consCode (c : Char) (segments : List Segment) :
    (consCode c segments).flatMap redacted = c :: segments.flatMap redacted := by
  unfold consCode
  split <;> simp [redacted]

/-! ## The redacted view -/

/-- The rest of a line starts with the line end. -/
theorem eq_newline_of_mem_head?_afterLine {text : List Char} {c : Char}
    (h : c ∈ (afterLine text).head?) : c = '\n' := by
  have hstop := List.head?_dropWhile_not (fun c => c != '\n') text
  rw [Option.mem_def] at h
  rw [afterLine] at h
  rw [h] at hstop
  simpa using hstop

/-- A line comment that is a region of its own is followed by the end of its line. -/
theorem head?_after_of_mem_ofSegments {body after : List Char} {look : Lookback} {start : Nat}
    (hregion : ⟨.lineComment, start, start + ('/' :: '/' :: body).length⟩ ∈
      Region.ofSegments start (splitAfter look ('/' :: ('/' :: body ++ after)))) :
    ∀ c ∈ after.head?, c = '\n' := by
  intro c hc
  have hread : token? look '/' ('/' :: body ++ after) =
      some (.lineComment, afterLine ('/' :: body ++ after)) := by simp [token?]
  obtain ⟨taken, htaken⟩ := afterLine_suffix ('/' :: body ++ after)
  rw [← htaken] at hregion
  rw [splitAfter_token (by rw [htaken]; exact hread)] at hregion
  rcases List.mem_cons.mp hregion with hfirst | hlater
  · -- The comment has the length of what is read, so what is left is all that follows it.
    have hlength : taken.length = ('/' :: body).length := by
      simpa [Nat.add_assoc] using (Region.mk.inj hfirst).2.2.symm
    have hleft := (List.append_inj htaken hlength).2
    rw [← hleft] at hc
    exact eq_newline_of_mem_head?_afterLine hc
  · have hle := le_start_of_mem_ofSegments hlater
    simp only [List.length_cons] at hle
    omega

/-- The redacted view of a text that starts with a token, which is exchanged. -/
theorem redact_splitAfter_exchange_first {token other : Segment} (h : Interchangeable token other)
    {after : List Char} {look : Lookback} {start : Nat}
    (hregion : ⟨token.kind, start, start + token.text.length⟩ ∈
      Region.ofSegments start (splitAfter look (token.text ++ after))) :
    (splitAfter look (other.text ++ after)).flatMap redacted =
      (splitAfter look (token.text ++ after)).flatMap redacted := by
  have hafter : token.kind = .lineComment → ∀ c ∈ after.head?, c = '\n' := by
    intro hkind
    cases h with
    | string => cases hkind
    | blockComment => cases hkind
    | lineComment hline hline' => exact head?_after_of_mem_ofSegments hregion
  have htoken := splitAfter_isToken h.isToken h.kind_ne_code hafter look
  have hother := splitAfter_isToken h.symm.isToken h.symm.kind_ne_code
    (fun hkind => hafter (h.kind_eq.trans hkind)) look
  rw [htoken, hother, List.flatMap_cons, List.flatMap_cons, h.redacted_eq, h.kind_eq]

/-- The redacted view of a text in which a token is exchanged for one that can stand for it. No `/`
in the code before the token is on the line of the token. -/
theorem redact_splitAfter_exchange {token other : Segment} (h : Interchangeable token other)
    (after before : List Char) (look : Lookback) (start : Nat)
    (hregion : ⟨token.kind, start + before.length, start + before.length + token.text.length⟩ ∈
      Region.ofSegments start (splitAfter look (before ++ (token.text ++ after))))
    (hslash : ∀ p ∈ codeOfSegments start (splitAfter look (before ++ (token.text ++ after))),
      p.char = '/' → p.place < start + before.length → '\n' ∈ before.drop (p.place - start)) :
    (splitAfter look (before ++ (other.text ++ after))).flatMap redacted =
      (splitAfter look (before ++ (token.text ++ after))).flatMap redacted := by
  -- What stands before the token is read segment by segment; the view of each stays as it is.
  match before with
  | [] => exact redact_splitAfter_exchange_first h hregion
  | c :: before =>
    have hhead := h.head?_eq after
    simp only [List.cons_append, List.length_cons] at hregion hslash ⊢
    cases hread : token? look c (before ++ (token.text ++ after)) with
    | none =>
      -- A character of code stays code: if it is a `/`, its line ends before the token.
      rw [splitAfter_of_none hread] at hregion hslash ⊢
      rw [codeOfSegments_consCode] at hslash
      have hline : c = '/' → '\n' ∈ before := by
        rintro rfl
        simpa using hslash ⟨start, '/'⟩ List.mem_cons_self rfl (by simp)
      rw [splitAfter_of_none (token?_eq_none_exchange hhead hline hread),
        flatMap_redacted_consCode, flatMap_redacted_consCode]
      congr 1
      refine redact_splitAfter_exchange h after before (look.afterCode c) (start + 1) ?_ ?_
      · have hmem := mem_ofSegments_consCode h.kind_ne_code hregion
        rwa [Nat.add_assoc start 1, Nat.add_comm 1]
      · intro p hp hchar hplace
        have hle := le_place_of_mem_codeOfSegments hp
        have hin := hslash p (List.mem_cons_of_mem _ hp) hchar (by omega)
        rwa [show p.place - start = p.place - (start + 1) + 1 by omega, List.drop_succ_cons] at hin
    | some found =>
      -- A token that ends before the one that is exchanged is read as it was.
      obtain ⟨kind, left⟩ := found
      obtain ⟨taken, htaken⟩ := token?_suffix hread
      rw [← htaken] at hread hregion hslash ⊢
      rw [splitAfter_token hread] at hregion hslash ⊢
      have hlater := (List.mem_cons.mp hregion).resolve_left (by simp)
      have hle := le_start_of_mem_ofSegments hlater
      simp only [List.length_cons] at hle
      obtain ⟨rest, hrest⟩ : taken <+: before :=
        List.prefix_of_prefix_length_le ⟨left, htaken⟩ (List.prefix_append before _) (by omega)
      have hshorter : rest.length ≤ before.length := by simp [← hrest]
      subst hrest
      obtain rfl : left = rest ++ (token.text ++ after) :=
        List.append_cancel_left (htaken.trans (List.append_assoc taken rest _))
      have hother := token?_exchange (head?_append_congr hhead rest) hread
      rw [List.append_assoc, splitAfter_token hother, List.flatMap_cons, List.flatMap_cons]
      congr 1
      refine redact_splitAfter_exchange h after rest (look.afterToken kind)
        (start + (c :: taken).length) ?_ ?_
      · convert hlater using 2 <;> simp <;> omega
      · intro p hp hchar hplace
        have hle := le_place_of_mem_codeOfSegments hp
        have hin := hslash p (List.mem_append_right _ hp) hchar (by simp at hplace ⊢; omega)
        obtain ⟨k, hk⟩ := Nat.exists_eq_add_of_le hle
        rw [show p.place - start = (c :: taken).length + k by omega, ← List.cons_append,
          List.drop_length_add_append] at hin
        rwa [show p.place - (start + (c :: taken).length) = k by omega]
termination_by before.length
decreasing_by all_goals (simp_all only [List.length_cons]; omega)

end Segment

/-! ## Judgements by the redacted view -/

section SameView

variable {source exchanged : List Char}

theorem Dialect.hasModuleSyntax_congr (h : redact exchanged = redact source) :
    hasModuleSyntax exchanged = hasModuleSyntax source := by
  simp only [hasModuleSyntax, h]

theorem Dialect.hasTypeSyntax_congr (h : redact exchanged = redact source) :
    hasTypeSyntax exchanged = hasTypeSyntax source := by
  simp only [hasTypeSyntax, h]

theorem Dialect.hasMarkup_congr (h : redact exchanged = redact source) :
    hasMarkup exchanged = hasMarkup source := by
  simp only [hasMarkup, h]

theorem importedNames_congr (h : redact exchanged = redact source) :
    importedNames exchanged = importedNames source := by
  simp only [importedNames, h]

theorem capabilityCalls_congr (h : redact exchanged = redact source)
    (capabilities : List (List Char)) :
    capabilityCalls exchanged capabilities = capabilityCalls source capabilities := by
  simp only [capabilityCalls, h]

theorem Remedy.blamesModules_congr (h : redact exchanged = redact source) (manifest : Manifest)
    (error : String) :
    blamesModules ⟨manifest, error, exchanged⟩ = blamesModules ⟨manifest, error, source⟩ := by
  simp only [blamesModules, Dialect.hasModuleSyntax_congr h]
  cases notDefined.matchAt? (.ofText error.toList) with
  | none => rfl
  | some m => simp only [importedNames_congr h]

/-- Every rule looks at a snippet through its redacted view only. -/
theorem Remedy.rule_congr (h : redact exchanged = redact source) (manifest : Manifest)
    (error : String) : ∀ rule ∈ rules,
      rule ⟨manifest, error, exchanged⟩ = rule ⟨manifest, error, source⟩ := by
  have hcalls : Case.calls ⟨manifest, error, exchanged⟩ = Case.calls ⟨manifest, error, source⟩ :=
    capabilityCalls_congr h _
  simp only [rules, List.forall_mem_cons]
  refine ⟨?_, ?_, ?_, ?_, ?_, by simp⟩
  · simp only [moduleSyntax?, blamesModules_congr h]
  · simp only [markup?, Dialect.hasMarkup_congr h]
  · simp only [typeSyntax?, Dialect.hasTypeSyntax_congr h]
  · simp only [unknownMethod?, hcalls]
    rfl
  · simp only [positionalCall?, hcalls]
    rfl

theorem Remedy.explain_congr (h : redact exchanged = redact source) (manifest : Manifest)
    (error : String) : explain manifest error exchanged = explain manifest error source := by
  unfold explain
  refine List.foldl_ext _ _ _ fun message rule hrule => ?_
  rw [rule_congr h manifest error rule hrule]

end SameView

/-- The redacted view of a snippet, and all that is judged by it, is the same if a string or comment
is exchanged for one of its kind: strings in the same quotes and on one line, block comments over as
many lines, line comments. In the code before the token no `/` may stand on the line of the
token. -/
theorem redact_exchange {token other : Segment} (h : Segment.Interchangeable token other)
    (before after : List Char)
    (hregion : ⟨token.kind, before.length, before.length + token.text.length⟩ ∈
      Region.ofSource (before ++ token.text ++ after))
    (hslash : ∀ p ∈ codeChars (before ++ token.text ++ after), p.place < before.length →
      '\n' ∉ before.drop p.place → p.char ≠ '/') :
    let source := before ++ token.text ++ after
    let exchanged := before ++ other.text ++ after
    redact exchanged = redact source ∧
      Dialect.hasModuleSyntax exchanged = Dialect.hasModuleSyntax source ∧
      Dialect.hasTypeSyntax exchanged = Dialect.hasTypeSyntax source ∧
      Dialect.hasMarkup exchanged = Dialect.hasMarkup source ∧
      importedNames exchanged = importedNames source ∧
      (∀ capabilities,
        capabilityCalls exchanged capabilities = capabilityCalls source capabilities) ∧
      ∀ manifest error,
        Remedy.explain manifest error exchanged = Remedy.explain manifest error source := by
  intro source exchanged
  have hview : redact exchanged = redact source := by
    simp only [redact, Segment.split, source, exchanged, List.append_assoc]
    refine Segment.redact_splitAfter_exchange h after before .start 0 ?_ ?_
    · simpa [Region.ofSource, Segment.split] using hregion
    · intro p hp hchar hplace
      by_contra hline
      refine hslash p ?_ (by simpa using hplace) hline hchar
      simpa [codeChars, Segment.split] using hp
  exact ⟨hview, Dialect.hasModuleSyntax_congr hview, Dialect.hasTypeSyntax_congr hview,
    Dialect.hasMarkup_congr hview, importedNames_congr hview, capabilityCalls_congr hview,
    Remedy.explain_congr hview⟩

/-- A string that holds the mark of a comment, in the place of a harmless one. The `/` of a division
stands on the line before. -/
theorem redact_exchange_commentMark :
    Segment.Interchangeable ⟨.string, ['"', 'a', '"']⟩ ⟨.string, ['"', '/', '*', '"']⟩ ∧
      ⟨.string, 8, 11⟩ ∈ Region.ofSource "a / b\nf(\"a\") // b".toList ∧
      (∀ p ∈ codeChars "a / b\nf(\"a\") // b".toList, p.place < 8 →
        '\n' ∉ "a / b\nf(".toList.drop p.place → p.char ≠ '/') ∧
      redact "a / b\nf(\"/*\") // b".toList = redact "a / b\nf(\"a\") // b".toList := by
  have h : Segment.Interchangeable ⟨.string, ['"', 'a', '"']⟩ ⟨.string, ['"', '/', '*', '"']⟩ :=
    @Segment.Interchangeable.string '"' ['a'] ['/', '*'] (by decide)
      (.char (by decide) (by decide) (by decide) .nil) (by decide)
      (.char (by decide) (by decide) (by decide)
        (.char (by decide) (by decide) (by decide) .nil)) (by decide)
  have hregion : ⟨.string, 8, 11⟩ ∈ Region.ofSource "a / b\nf(\"a\") // b".toList := by
    decide +kernel
  have hslash : ∀ p ∈ codeChars "a / b\nf(\"a\") // b".toList, p.place < 8 →
      '\n' ∉ "a / b\nf(".toList.drop p.place → p.char ≠ '/' := by
    decide +kernel
  exact ⟨h, hregion, hslash,
    (redact_exchange h "a / b\nf(".toList ") // b".toList hregion hslash).1⟩

end GuestCode
