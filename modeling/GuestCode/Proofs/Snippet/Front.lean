import GuestCode.Proofs.Snippet.Reading
import GuestCode.Proofs.Snippet.Slashes

/-!
# The front of a text

A character of code divides a text: no comment and no literal is open there. So the text before it
is read as it is on its own, and as it is with anything else behind the character that could not
close a regular expression. For only a `/` looks ahead for more than a character, and it is divided
by whether there is another one to close what it may open.

## Main statements

* `Segment.token?_front`: a comment or literal that ends before a character ends there anyway.
* `Segment.token?_eq_none_front`: what is behind a `/` matters for it only by a `/` in it.
* `exists_codeAfter_front`: the code of a text up to a character of code.
* `exists_codeChars_front`: the code of a snippet on both sides of such a character.
-/

namespace GuestCode

open Text

namespace Segment

variable {text rest taken : List Char}

/-! ## Tokens that end in the text -/

theorem afterQuoted_front {quote : Char} (h : afterQuoted quote text ≠ []) (more : List Char) :
    afterQuoted quote (text ++ more) = afterQuoted quote text ++ more := by
  fun_induction afterQuoted quote text with
  | case1 | case2 => exact absurd rfl h
  | case3 c cs d ds ih => simp [afterQuoted, *]
  | case4 c cs hslash hquote => simp [afterQuoted_cons (by simpa using hslash), hquote]
  | case5 c cs hslash hquote hline =>
    rw [List.cons_append, afterQuoted_cons (by simpa using hslash), if_neg hquote, if_pos hline]
  | case6 c cs hslash hquote hline ih =>
    rw [List.cons_append, afterQuoted_cons (by simpa using hslash), if_neg hquote, if_neg hline,
      ih h]

theorem afterLine_front (h : afterLine text ≠ []) (more : List Char) :
    afterLine (text ++ more) = afterLine text ++ more := by
  have hmore : ¬(text.dropWhile fun c => c != '\n').isEmpty = true := mt List.isEmpty_iff.mp h
  rw [afterLine, List.dropWhile_append, if_neg hmore]
  rfl

theorem afterBlock_front (h : afterBlock text ≠ []) (more : List Char) :
    afterBlock (text ++ more) = afterBlock text ++ more := by
  induction text with
  | nil => exact absurd rfl h
  | cons c cs ih =>
    rw [afterBlock_cons] at h
    rw [List.cons_append, afterBlock_cons, afterBlock_cons]
    cases cs with
    | nil => simp [afterBlock] at h
    | cons d ds =>
      rw [List.cons_append, List.head?_cons, List.head?_cons]
      split
      · rfl
      · next hopen =>
        rw [List.head?_cons, if_neg hopen] at h
        rw [← List.cons_append, ih h]

theorem afterBlock_tail_front (h : afterBlock text.tail ≠ []) (more : List Char) :
    afterBlock (text ++ more).tail = afterBlock text.tail ++ more := by
  cases text with
  | nil => exact absurd rfl h
  | cons c cs => exact afterBlock_front h more

@[simp] theorem afterTemplate_nil (stack : List (Option Nat)) : afterTemplate stack [] = [] :=
  List.suffix_nil.mp (afterTemplate_suffix stack [])

theorem afterTemplate_front : ∀ (stack : List (Option Nat)) (text : List Char),
    afterTemplate stack text ≠ [] →
      ∀ more, afterTemplate stack (text ++ more) = afterTemplate stack text ++ more
  | [], text, _, more => by rw [afterTemplate, afterTemplate]
  | state :: outer, [], h, _ => absurd (afterTemplate_nil _) h
  | state :: outer, [c], h, _ =>
    absurd (List.suffix_nil.mp (afterTemplate_cons_suffix state outer c [])) h
  | none :: outer, c :: d :: text, h, more => by
    have hhead : (d :: text ++ more).head? = (d :: text).head? := rfl
    rw [afterTemplate_printed_cons] at h
    rw [List.cons_append, afterTemplate_printed_cons, afterTemplate_printed_cons, hhead]
    split_ifs at h ⊢
    · exact afterTemplate_front _ text h more
    · exact afterTemplate_front _ (d :: text) h more
    · exact afterTemplate_front _ text h more
    · exact afterTemplate_front _ (d :: text) h more
  | some depth :: outer, c :: d :: text, h, more => by
    -- In a hole strings and comments are read as wholes, and something is left of each.
    have hleft : ∀ {f : List Char → List Char} {t : List Char},
        afterTemplate (some depth :: outer) (f t) ≠ [] → f t ≠ [] :=
      fun h hnil => h (by rw [hnil, afterTemplate_nil])
    have hhead : (d :: text ++ more).head? = (d :: text).head? := rfl
    rw [afterTemplate_hole_cons] at h
    rw [List.cons_append, afterTemplate_hole_cons, afterTemplate_hole_cons, hhead]
    split_ifs at h ⊢
    · have := (afterQuoted_suffix c (d :: text)).length_le
      rw [afterQuoted_front (hleft h), afterTemplate_front _ _ h]
    · exact afterTemplate_front _ (d :: text) h more
    · have : (afterBlock (d :: text).tail).length ≤ text.length :=
        (afterBlock_suffix text).length_le
      rw [afterBlock_tail_front (hleft h), afterTemplate_front _ _ h]
    · have := (afterLine_suffix (d :: text)).length_le
      rw [afterLine_front (hleft h), afterTemplate_front _ _ h]
    all_goals exact afterTemplate_front _ (d :: text) h more
termination_by _ text => text.length
decreasing_by all_goals (simp_all only [List.length_cons]; omega)

/-- What a reader leaves of a text is all of what follows the text, so that it leaves nothing of the
text on its own. -/
theorem eq_nil_of_front {f : List Char → List Char}
    (hfront : ∀ {t : List Char}, f t ≠ [] → ∀ more, f (t ++ more) = f t ++ more)
    (h : f (taken ++ rest) = rest) : f taken = [] := by
  by_contra hne
  have hmore := hfront hne rest
  rw [h] at hmore
  exact hne (List.self_eq_append_left.mp hmore)

theorem afterRegex?_front {inClass : Bool}
    (h : afterRegex? inClass (taken ++ rest) = some rest) : afterRegex? inClass taken = some [] := by
  obtain ⟨body, after, htext, hbody, hrest⟩ := afterRegex?_eq_some_iff.mp h
  have hflags : after = after.takeWhile isLetter ++ rest := by
    rw [hrest, List.takeWhile_append_dropWhile]
  rw [hflags, ← List.cons_append, ← List.append_assoc] at htext
  have hall : ∀ c ∈ after.takeWhile isLetter, isLetter c = true :=
    List.all_eq_true.mp List.all_takeWhile
  rw [List.append_cancel_right htext, afterRegex?_append hbody,
    ← List.append_nil (after.takeWhile isLetter), List.dropWhile_append_of_pos hall]
  rfl

/-- A comment or literal that ends before a character ends there if nothing follows. -/
theorem token?_front {look : Lookback} {c d : Char} {kind : Kind}
    (h : token? look c (taken ++ d :: rest) = some (kind, d :: rest)) :
    token? look c taken = some (kind, []) := by
  cases taken with
  | nil =>
    -- Only the mark of a string that ends with its line: all else takes the next character too.
    rw [List.nil_append, token?] at h
    split_ifs at h with hline hblock hquote htemplate hregex
    · obtain ⟨rfl, hleft⟩ := Prod.mk.inj (Option.some.inj h)
      have hd : d = '/' := by simpa using (Bool.and_eq_true_iff.mp hline).2
      subst hd
      exact absurd hleft (ne_cons_of_suffix (afterLine_suffix rest) _)
    · obtain ⟨rfl, hleft⟩ := Prod.mk.inj (Option.some.inj h)
      exact absurd hleft (ne_cons_of_suffix (afterBlock_suffix rest) _)
    · obtain ⟨rfl, -⟩ := Prod.mk.inj (Option.some.inj h)
      simp [token?, hquote, afterQuoted]
    · obtain ⟨rfl, hleft⟩ := Prod.mk.inj (Option.some.inj h)
      exact absurd hleft (ne_cons_of_suffix (afterTemplate_cons_suffix _ _ d rest) _)
    · obtain ⟨left, hleft, heq⟩ := Option.map_eq_some_iff.mp h
      obtain ⟨-, rfl⟩ := Prod.mk.inj heq
      exact absurd rfl (ne_cons_of_suffix (afterRegex?_cons_suffix hleft) d)
  | cons b taken =>
    have hhead : (b :: taken ++ d :: rest).head? = (b :: taken).head? := rfl
    rw [token?, hhead] at h
    rw [token?]
    split_ifs at h ⊢
    · obtain ⟨rfl, hline⟩ := Prod.mk.inj (Option.some.inj h)
      rw [eq_nil_of_front afterLine_front hline]
    · obtain ⟨rfl, hblock⟩ := Prod.mk.inj (Option.some.inj h)
      rw [eq_nil_of_front (f := fun t => afterBlock t.tail) afterBlock_tail_front hblock]
    · obtain ⟨rfl, hquoted⟩ := Prod.mk.inj (Option.some.inj h)
      rw [eq_nil_of_front afterQuoted_front hquoted]
    · obtain ⟨rfl, htemplate⟩ := Prod.mk.inj (Option.some.inj h)
      rw [eq_nil_of_front (afterTemplate_front _ _) htemplate]
    · obtain ⟨left, hregex, hleft⟩ := Option.map_eq_some_iff.mp h
      obtain ⟨rfl, rfl⟩ := Prod.mk.inj hleft
      rw [afterRegex?_front hregex]
      rfl

/-! ## Regular expressions that are not closed -/

/-- A regular expression that is not closed is none whatever follows without a slash. -/
theorem afterRegex?_eq_none_front {inClass : Bool} {other : List Char} (hslash : '/' ∉ other)
    (h : afterRegex? inClass (taken ++ rest) = none) :
    afterRegex? inClass (taken ++ other) = none := by
  by_contra hsome
  obtain ⟨left, hleft⟩ := Option.ne_none_iff_exists'.mp hsome
  obtain ⟨body, after, htext, hbody, -⟩ := afterRegex?_eq_some_iff.mp hleft
  rcases List.append_eq_append_iff.mp htext with ⟨more, rfl, hmore⟩ | ⟨more, rfl, hmore⟩
  · exact hslash (hmore ▸ by simp)
  · cases more with
    | nil => exact hslash (by rw [← List.nil_append other, ← hmore]; exact .head _)
    | cons d more =>
      obtain ⟨rfl, -⟩ := List.cons.inj hmore
      rw [List.append_assoc, List.cons_append, afterRegex?_append hbody] at h
      cases h

/-- What follows a character of code matters only by a slash in it, or by the next character. -/
theorem token?_eq_none_front {look : Lookback} {c : Char} {other : List Char}
    (hhead : ∀ d ∈ other.head?, rest.head? = some d) (hslash : '/' ∉ other)
    (h : token? look c (taken ++ rest) = none) : token? look c (taken ++ other) = none := by
  have hnext : ∀ d, ¬(c == '/' && (taken ++ rest).head? == some d) = true →
      ¬(c == '/' && (taken ++ other).head? == some d) = true := by
    intro d hd hother
    obtain ⟨hc, hother⟩ := Bool.and_eq_true_iff.mp hother
    refine hd (Bool.and_eq_true_iff.mpr ⟨hc, ?_⟩)
    cases taken with
    | nil => exact beq_iff_eq.mpr (hhead d (beq_iff_eq.mp hother))
    | cons b taken => exact hother
  unfold token? at h ⊢
  split_ifs at h with hline hblock hquote htemplate hregex
  · rw [if_neg (hnext _ hline), if_neg (hnext _ hblock), if_neg hquote, if_neg htemplate,
      if_pos hregex, afterRegex?_eq_none_front hslash (Option.map_eq_none_iff.mp h)]
    rfl
  · rw [if_neg (hnext _ hline), if_neg (hnext _ hblock), if_neg hquote, if_neg htemplate,
      if_neg hregex]

end Segment

/-! ## Code up to a character of code -/

variable {look : Segment.Lookback} {text rest : List Char} {c : Char}

/-- A text before a character of code is read as on its own, with what followed or with anything
else without a slash behind the character. -/
theorem exists_codeAfter_front (h : ⟨text.length, c⟩ ∈ codeAfter look (text ++ c :: rest)) :
    ∃ last, ∀ other, other = rest ∨ '/' ∉ c :: other →
      codeAfter look (text ++ c :: other) =
        codeAfter look text ++ (codeAfter last (c :: other)).map (Placed.shift text.length) := by
  generalize hwhole : text ++ c :: rest = whole at h
  fun_induction Segment.splitAfter look whole generalizing text with
  | case1 => simp at h
  | case2 look b cs kind left htoken _ ih =>
    obtain ⟨taken, rfl⟩ := Segment.token?_suffix htoken
    rw [codeAfter_of_token htoken] at h
    obtain ⟨⟨place, d⟩, hmem, heq⟩ := List.mem_map.mp h
    obtain ⟨hplace, hchar⟩ := Placed.mk.inj heq
    dsimp only at hplace hchar
    subst hchar
    -- The token ends in the text, since the character is behind it.
    obtain ⟨inner, rfl⟩ : ∃ inner, text = b :: (taken ++ inner) := by
      cases text with
      | nil => exact absurd hplace (by rw [List.length_nil]; omega)
      | cons b' text =>
        obtain ⟨rfl, htext⟩ := List.cons.inj hwhole
        rw [List.length_cons] at hplace
        obtain ⟨inner, rfl⟩ := List.prefix_of_prefix_length_le (List.prefix_append taken left)
          ⟨d :: rest, htext⟩ (by omega)
        exact ⟨inner, rfl⟩
    obtain rfl : inner ++ d :: rest = left := by simpa using hwhole
    obtain rfl : place = inner.length := by
      simp only [List.length_cons, List.length_append] at hplace
      omega
    obtain ⟨last, hread⟩ := ih rfl hmem
    refine ⟨last, fun other hother => ?_⟩
    have halone : Segment.token? look b (taken ++ inner) = some (kind, inner) := by
      cases inner with
      | nil => exact (List.append_nil taken).symm ▸ Segment.token?_front htoken
      | cons e inner =>
        have hhead : (e :: inner ++ d :: rest).head? = (e :: inner).head? := rfl
        exact Segment.token?_exchange hhead htoken
    have hmore : Segment.token? look b (taken ++ (inner ++ d :: other)) =
        some (kind, inner ++ d :: other) := by
      have hhead : (d :: rest).head? = (d :: other).head? := rfl
      exact Segment.token?_exchange (Segment.head?_append_congr hhead inner) htoken
    rw [List.cons_append, List.append_assoc, codeAfter_of_token hmore, codeAfter_of_token halone,
      hread other hother, List.map_append, map_shift_map_shift]
    congr 3
  | case3 look b cs htoken ih =>
    rw [codeAfter_of_none htoken] at h
    cases text with
    | nil => exact ⟨look, fun other _ => by simp⟩
    | cons b' text =>
      obtain ⟨rfl, rfl⟩ := List.cons.inj hwhole
      have hmem : ⟨text.length, c⟩ ∈ codeAfter (look.afterCode b') (text ++ c :: rest) := by
        rcases List.mem_cons.mp h with heq | h
        · exact absurd (congrArg Placed.place heq) (by simp)
        · obtain ⟨⟨place, d⟩, hmem, heq⟩ := List.mem_map.mp h
          obtain ⟨hplace, hchar⟩ := Placed.mk.inj heq
          dsimp only [List.length_cons] at hplace hchar
          obtain rfl : place = text.length := by omega
          exact hchar ▸ hmem
      obtain ⟨last, hread⟩ := ih rfl hmem
      refine ⟨last, fun other hother => ?_⟩
      have halone : Segment.token? look b' text = none := by
        rw [← List.append_nil text]
        exact Segment.token?_eq_none_front (by simp) (by simp) htoken
      have hmore : Segment.token? look b' (text ++ c :: other) = none := by
        rcases hother with rfl | hslash
        · exact htoken
        · have hhead : ∀ d ∈ (c :: other).head?, (c :: rest).head? = some d := fun _ hd => hd
          exact Segment.token?_eq_none_front hhead hslash htoken
      rw [List.cons_append, codeAfter_of_none hmore, codeAfter_of_none halone, hread other hother,
        List.map_append, map_shift_map_shift, List.cons_append, List.length_cons,
        Nat.add_comm text.length]

/-- Where a character of a text is code. -/
theorem isCodeAt_append_iff :
    isCodeAt (Region.ofSource (text ++ c :: rest)) text.length = true ↔
      ⟨text.length, c⟩ ∈ codeChars (text ++ c :: rest) := by
  rw [← inCode_iff_isCodeAt]
  refine ⟨fun h => mem_codeChars h ?_, fun h => (inCode_of_mem_codeChars h).1⟩
  rw [List.getElem?_append_right (Nat.le_refl _), Nat.sub_self, List.getElem?_cons_zero]

variable {other : List Char}

/-- The code of a text on both sides of a character of code that opens nothing. -/
theorem exists_codeChars_front (hc : c ∉ Segment.openers)
    (h : isCodeAt (Region.ofSource (text ++ c :: rest)) text.length = true)
    (hother : other = rest ∨ '/' ∉ other) :
    ∃ back, codeChars (text ++ c :: other) = codeChars text ++ ⟨text.length, c⟩ :: back := by
  obtain ⟨last, hread⟩ := exists_codeAfter_front (isCodeAt_append_iff.mp h)
  have hslash : other = rest ∨ '/' ∉ c :: other :=
    hother.imp_right fun hother hmem =>
      (List.mem_cons.mp hmem).elim (fun heq => hc (heq ▸ by decide)) hother
  have hcode := hread other hslash
  rw [codeAfter_of_none (Segment.token?_eq_none hc last other), List.map_cons] at hcode
  exact ⟨_, hcode⟩

/-- Whether a character that opens nothing is code does not depend on what follows without a
slash. -/
theorem isCodeAt_front (hc : c ∉ Segment.openers)
    (h : isCodeAt (Region.ofSource (text ++ c :: rest)) text.length = true) (hother : '/' ∉ other) :
    isCodeAt (Region.ofSource (text ++ c :: other)) text.length = true := by
  obtain ⟨back, hcode⟩ := exists_codeChars_front hc h (.inr hother)
  rw [isCodeAt_append_iff, hcode]
  exact List.mem_append_right _ (.head _)

end GuestCode
