import GuestCode.Proofs.Snippet.Exchange
import GuestCode.Proofs.Snippet.Tiling

/-!
# Runs of code

Code ends where a comment or a literal opens, and these open with a quote or a slash. So from a
place in code on, all is code up to the next of these characters. In the other direction, a comment or a
literal does not end with a blank, unless the end of its line or of the snippet ends it.

## Main statements

* `Segment.exists_opener`: a comment or a literal opens with a quote or a slash.
* `InCode.exists_region_of_run`: a text from a place in code on is in one region of code.
* `InCode.exists_region_of_blank_run`: the same with a blank before it.
-/

namespace GuestCode

open Text

namespace Segment

/-- The characters that comments and literals open with. -/
def openers : List Char := ['\'', '"', '\x60', '/']

/-! ## The first and the last character of a token -/

theorem opener_of_token? {look : Lookback} {c : Char} {cs rest : List Char} {kind : Kind}
    (h : token? look c cs = some (kind, rest)) : c ∈ openers := by
  by_contra hc
  rw [token?_eq_none hc look cs] at h
  cases h

/-- A comment or a literal opens with a quote or a slash. -/
theorem exists_opener {look : Lookback} {text : List Char} {s : Segment}
    (h : s ∈ splitAfter look text) (hkind : s.kind ≠ .code) :
    ∃ c cs, s.text = c :: cs ∧ c ∈ openers := by
  fun_induction splitAfter look text with
  | case1 => cases h
  | case2 look c cs kind rest htoken _ ih =>
    rcases List.mem_cons.mp h with rfl | h
    · exact ⟨c, _, rfl, opener_of_token? htoken⟩
    · exact ih h
  | case3 look c cs htoken ih =>
    refine ih ?_
    unfold consCode at h
    split at h
    · next others hothers =>
      rw [hothers]
      rcases List.mem_cons.mp h with rfl | h
      · exact absurd rfl hkind
      · exact List.mem_cons_of_mem _ h
    · rcases List.mem_cons.mp h with rfl | h
      · exact absurd rfl hkind
      · exact h

/-- A text ends before another one with a character that is no blank. -/
def EndsBefore (rest text : List Char) : Prop :=
  ∃ w c, text = w ++ c :: rest ∧ isBlank c = false

theorem EndsBefore.cons {rest text : List Char} (c : Char) (h : EndsBefore rest text) :
    EndsBefore rest (c :: text) := by
  obtain ⟨w, d, rfl, hd⟩ := h
  exact ⟨c :: w, d, rfl, hd⟩

theorem EndsBefore.of_suffix {rest text text' : List Char} (h : EndsBefore rest text)
    (hsuffix : text <:+ text') : EndsBefore rest text' := by
  obtain ⟨w, d, rfl, hd⟩ := h
  obtain ⟨v, rfl⟩ := hsuffix
  exact ⟨v ++ w, d, (List.append_assoc ..).symm, hd⟩

theorem endsBefore_afterQuoted {quote : Char} (hquote : isBlank quote = false) (text : List Char)
    (hrest : afterQuoted quote text ≠ []) (hline : (afterQuoted quote text).head? ≠ some '\n') :
    EndsBefore (afterQuoted quote text) text := by
  fun_induction afterQuoted quote text with
  | case1 => exact absurd rfl hrest
  | case2 => exact absurd rfl hrest
  | case3 _ _ _ _ ih => exact ((ih hrest hline).cons _).cons _
  | case4 c cs _ hc =>
    obtain rfl := beq_iff_eq.mp hc
    exact ⟨[], c, rfl, hquote⟩
  | case5 c cs _ _ hc =>
    obtain rfl := beq_iff_eq.mp hc
    exact absurd rfl hline
  | case6 c cs _ _ _ ih => exact (ih hrest hline).cons c

theorem endsBefore_afterBlock (text : List Char) (hrest : afterBlock text ≠ []) :
    EndsBefore (afterBlock text) text := by
  fun_induction afterBlock text with
  | case1 => exact absurd rfl hrest
  | case2 ds => exact ⟨['*'], '/', rfl, by decide⟩
  | case3 _ _ _ ih => exact (ih hrest).cons _

/-- A template ends with the mark that closes it. -/
theorem endsBefore_afterTemplate (stack : List (Option Nat)) (text : List Char)
    (hrest : afterTemplate stack text ≠ []) :
    stack = [] ∨ EndsBefore (afterTemplate stack text) text := by
  have hopen : ∀ {state : Option Nat} {outer : List (Option Nat)} {left cs : List Char} {c : Char},
      left <:+ cs → (afterTemplate (state :: outer) left ≠ [] →
        state :: outer = [] ∨ EndsBefore (afterTemplate (state :: outer) left) left) →
      afterTemplate (state :: outer) left ≠ [] →
      EndsBefore (afterTemplate (state :: outer) left) (c :: cs) := by
    intro state outer left cs c hleft ih hrest
    rcases ih hrest with hnil | hends
    · cases hnil
    · exact (hends.of_suffix hleft).cons c
  have hclose : ∀ {outer : List (Option Nat)} {cs : List Char} {c : Char}, isBlank c = false →
      (afterTemplate outer cs ≠ [] → outer = [] ∨ EndsBefore (afterTemplate outer cs) cs) →
      afterTemplate outer cs ≠ [] → EndsBefore (afterTemplate outer cs) (c :: cs) := by
    intro outer cs c hc ih hrest
    rcases ih hrest with rfl | hends
    · rw [afterTemplate]
      exact ⟨[], c, rfl, hc⟩
    · exact hends.cons c
  fun_induction afterTemplate stack text with
  | case1 => exact .inl rfl
  | case2 => exact absurd rfl hrest
  | case3 outer c cs _ ih => exact .inr (hopen (List.tail_suffix cs) ih hrest)
  | case4 outer c cs _ hc ih =>
    obtain rfl := beq_iff_eq.mp hc
    exact .inr (hclose (by decide) ih hrest)
  | case5 outer c cs _ _ _ ih => exact .inr (hopen (List.tail_suffix cs) ih hrest)
  | case6 outer c cs _ _ _ ih => exact .inr (hopen List.suffix_rfl ih hrest)
  | case7 depth outer c cs _ _ ih => exact .inr (hopen (afterQuoted_suffix c cs) ih hrest)
  | case8 depth outer c cs _ _ ih => exact .inr (hopen List.suffix_rfl ih hrest)
  | case9 depth outer c cs _ _ _ _ ih =>
    exact .inr (hopen ((afterBlock_suffix _).trans (List.tail_suffix cs)) ih hrest)
  | case10 depth outer c cs _ _ _ _ _ ih => exact .inr (hopen (afterLine_suffix cs) ih hrest)
  | case11 depth outer c cs _ _ _ _ _ ih => exact .inr (hopen List.suffix_rfl ih hrest)
  | case12 outer c cs _ _ _ _ _ hc ih =>
    obtain rfl := beq_iff_eq.mp hc
    exact .inr (hclose (by decide) ih hrest)
  | case13 outer c cs _ _ _ _ _ _ d ih => exact .inr (hopen List.suffix_rfl ih hrest)
  | case14 depth outer c cs _ _ _ _ _ _ ih => exact .inr (hopen List.suffix_rfl ih hrest)

/-- The codes of blanks. -/
def blankCodes : List Nat :=
  [9, 10, 11, 12, 13, 28, 29, 30, 31, 32, 0x85, 0xA0, 0x1680, 0x2000, 0x2001, 0x2002, 0x2003,
    0x2004, 0x2005, 0x2006, 0x2007, 0x2008, 0x2009, 0x200A, 0x2028, 0x2029, 0x202F, 0x205F, 0x3000]

theorem mem_blankCodes {c : Char} (h : isBlank c = true) : c.toNat ∈ blankCodes := by
  simp only [isBlank, Bool.or_eq_true, Bool.and_eq_true, decide_eq_true_eq, beq_iff_eq] at h
  simp only [blankCodes, List.mem_cons, List.not_mem_nil, or_false]
  omega

/-- A class that holds none of the codes of blanks holds no blank. -/
theorem eq_false_of_isBlank {p : Char → Bool}
    (h : ∀ n ∈ blankCodes, p (Char.ofNat n) = false) {c : Char} (hc : isBlank c = true) :
    p c = false := by
  rw [← Char.ofNat_toNat c]
  exact h c.toNat (mem_blankCodes hc)

/-- No blank is a letter. -/
theorem isLetter_of_isBlank {c : Char} (h : isBlank c = true) : isLetter c = false :=
  eq_false_of_isBlank (by decide +kernel) h

/-- No blank belongs to a word. -/
theorem isWordChar_of_isBlank {c : Char} (h : isBlank c = true) : isWordChar c = false :=
  eq_false_of_isBlank (by decide +kernel) h

/-- No comment or literal opens with a blank. -/
theorem not_mem_openers_of_isBlank {c : Char} (h : isBlank c = true) : c ∉ openers := by
  have hall : ∀ c ∈ openers, isBlank c = false := by decide
  exact fun hc => Bool.false_ne_true ((hall c hc).symm.trans h)

/-- A regular expression ends with a slash or with a flag. -/
theorem endsBefore_afterRegex? {inClass : Bool} {text rest : List Char}
    (h : afterRegex? inClass text = some rest) : EndsBefore rest text := by
  fun_induction afterRegex? inClass text with
  | case4 _ _ _ _ _ _ ih => exact ((ih h).cons _).cons _
  | case6 _ _ _ _ ih => exact (ih h).cons _
  | case7 _ _ _ _ _ _ _ ih => exact (ih h).cons _
  | case8 _ c cs _ _ _ _ hc =>
    obtain rfl := beq_iff_eq.mp hc
    obtain rfl := Option.some.inj h
    rcases List.eq_nil_or_concat (cs.takeWhile isLetter) with hnone | ⟨flags, d, hflags⟩
    · refine ⟨[], '/', ?_, by decide⟩
      have hdivided := List.takeWhile_append_dropWhile (p := isLetter) (l := cs)
      rw [hnone, List.nil_append] at hdivided
      rw [hdivided]
      rfl
    · have hd : isLetter d = true :=
        List.all_eq_true.mp (List.all_takeWhile (l := cs)) d (by rw [hflags]; simp)
      have hblank : isBlank d = false :=
        Bool.eq_false_iff.mpr fun h => Bool.false_ne_true ((isLetter_of_isBlank h).symm.trans hd)
      refine ⟨'/' :: flags, d, ?_, hblank⟩
      have hdivided := List.takeWhile_append_dropWhile (p := isLetter) (l := cs)
      rw [hflags] at hdivided
      conv_lhs => rw [← hdivided]
      simp
  | case9 _ _ _ _ _ _ _ _ ih => exact (ih h).cons _
  | _ => cases h

/-- A comment or a literal ends with a character that is no blank, unless a line end follows it, or
nothing. -/
theorem endsBefore_of_token? {look : Lookback} {c : Char} {cs rest : List Char} {kind : Kind}
    (h : token? look c cs = some (kind, rest)) (hrest : rest ≠ [])
    (hline : rest.head? ≠ some '\n') : EndsBefore rest (c :: cs) := by
  unfold token? at h
  split at h
  · obtain ⟨-, rfl⟩ := Prod.mk.inj (Option.some.inj h)
    obtain ⟨d, ds, hd⟩ := List.exists_cons_of_ne_nil hrest
    have hnewline : d = '\n' := eq_newline_of_mem_head?_afterLine (by rw [hd]; rfl)
    rw [hd, hnewline] at hline
    exact absurd rfl hline
  split at h
  · obtain ⟨-, rfl⟩ := Prod.mk.inj (Option.some.inj h)
    exact ((endsBefore_afterBlock _ hrest).of_suffix (List.tail_suffix cs)).cons c
  split at h
  · next hquote =>
    obtain ⟨-, rfl⟩ := Prod.mk.inj (Option.some.inj h)
    have hblank : isBlank c = false := by
      rcases Bool.or_eq_true_iff.mp hquote with hc | hc
      · exact beq_iff_eq.mp hc ▸ by decide
      · exact beq_iff_eq.mp hc ▸ by decide
    exact (endsBefore_afterQuoted hblank cs hrest hline).cons c
  split at h
  · obtain ⟨-, rfl⟩ := Prod.mk.inj (Option.some.inj h)
    rcases endsBefore_afterTemplate _ _ hrest with hnil | hends
    · cases hnil
    · exact hends.cons c
  split at h
  · obtain ⟨left, hleft, heq⟩ := Option.map_eq_some_iff.mp h
    obtain ⟨-, rfl⟩ := Prod.mk.inj heq
    exact (endsBefore_afterRegex? hleft).cons c
  · cases h

/-- A segment that is no code ends with a character that is no blank, unless a line end comes
next. -/
def EndsInMark (s next : Segment) : Prop :=
  s.kind ≠ .code → next.text.head? ≠ some '\n' → ∃ w c, s.text = w ++ [c] ∧ isBlank c = false

theorem isChain_endsInMark (look : Lookback) (text : List Char) :
    (splitAfter look text).IsChain EndsInMark := by
  fun_induction splitAfter look text with
  | case1 => exact List.isChain_nil
  | case2 look c cs kind rest htoken _ ih =>
    refine List.isChain_cons.mpr ⟨?_, ih⟩
    intro next hnext hkind hline
    -- The next segment starts with what follows the token.
    obtain ⟨others, hothers⟩ : ∃ others, splitAfter (look.afterToken kind) rest = next :: others :=
      ⟨_, (List.eq_cons_of_mem_head? hnext)⟩
    have hrest : rest = next.text ++ others.flatMap Segment.text := by
      rw [← flatMap_text_splitAfter (look.afterToken kind) rest, hothers, List.flatMap_cons]
    have hne : next.text ≠ [] :=
      text_ne_nil_of_mem_splitAfter _ rest next (by rw [hothers]; exact List.mem_cons_self)
    obtain ⟨d, ds, hd⟩ := List.exists_cons_of_ne_nil hne
    obtain ⟨w, e, hw, he⟩ := endsBefore_of_token? htoken (by rw [hrest, hd]; simp)
      (by rw [hrest, hd]; rw [hd] at hline; exact hline)
    refine ⟨w, e, ?_, he⟩
    obtain ⟨taken, rfl⟩ := token?_suffix htoken
    have htaken : c :: taken = w ++ [e] := by
      refine @List.append_cancel_right _ _ rest _ ?_
      rw [List.cons_append, hw, List.append_assoc]
      rfl
    simpa using htaken
  | case3 look c cs htoken ih =>
    unfold consCode
    split
    · next text rest hothers =>
      rw [hothers] at ih
      cases rest with
      | nil => exact List.isChain_singleton _
      | cons next others =>
        obtain ⟨-, hothers⟩ := List.isChain_cons_cons.mp ih
        exact List.isChain_cons_cons.mpr ⟨fun hkind => absurd rfl hkind, hothers⟩
    · exact List.isChain_cons.mpr ⟨fun next _ hkind => absurd rfl hkind, ih⟩

end Segment

/-! ## Places in code -/

/-- A place in a segment of code, which starts after the text `before` of other segments. -/
structure InSegment (source : List Char) (place : Nat) (front : List Segment) (s : Segment)
    (back : List Segment) : Prop where
  split : Segment.split source = front ++ s :: back
  code : s.kind = .code
  low : (front.flatMap Segment.text).length ≤ place
  high : place < (front.flatMap Segment.text).length + s.text.length

/-- A place of a snippet that is in code. -/
def InCode (source : List Char) (place : Nat) : Prop :=
  ∃ front s back, InSegment source place front s back

theorem regionBetween?_spec {regions : Array Region} {index : Int} {low high : Nat} {r : Region}
    (h : regionBetween? regions index low high = some r) :
    r ∈ regions ∧ (r.start : Int) ≤ index ∧ index < r.stop := by
  fun_induction regionBetween? regions index low high with
  | case1 => cases h
  | case2 low high hlow middle region hregion hbefore ih => exact ih h
  | case3 low high hlow middle region hregion hbefore hafter ih => exact ih h
  | case4 low high hlow middle region hregion hbefore hafter =>
    obtain rfl := Option.some.inj h
    exact ⟨Array.mem_of_getElem? hregion, by omega, by omega⟩
  | case5 => cases h

theorem exists_segment_of_mem_ofSegments {r : Region} {start : Nat} {segments : List Segment}
    (h : r ∈ Region.ofSegments start segments) :
    ∃ front s back, segments = front ++ s :: back ∧ s.kind = r.kind ∧
      r.start = start + (front.flatMap Segment.text).length ∧
      r.stop = r.start + s.text.length := by
  induction segments generalizing start with
  | nil => cases h
  | cons s rest ih =>
    rcases List.mem_cons.mp h with rfl | h
    · exact ⟨[], s, rest, rfl, rfl, rfl, rfl⟩
    · obtain ⟨front, s', back, rfl, hkind, hstart, hstop⟩ := ih h
      refine ⟨s :: front, s', back, rfl, hkind, ?_, hstop⟩
      rw [hstart, List.flatMap_cons, List.length_append, Nat.add_assoc]

/-- What counts as code by place is in code. -/
theorem inCode_of_isCodeAt {source : List Char} {place : Nat}
    (h : isCodeAt (Region.ofSource source) place = true) : InCode source place := by
  unfold isCodeAt at h
  split at h
  · next r hr =>
    obtain ⟨hmem, hlow, hhigh⟩ := regionBetween?_spec hr
    obtain ⟨front, s, back, hsplit, hkind, hstart, hstop⟩ :=
      exists_segment_of_mem_ofSegments (List.mem_toArray.mp hmem)
    refine ⟨front, s, back, hsplit, hkind.trans (beq_iff_eq.mp h), ?_, ?_⟩
    · omega
    · omega
  · cases h

theorem exists_of_mem_placedFrom {p : Placed} {start : Nat} {text : List Char}
    (h : p ∈ placedFrom start text) :
    ∃ k, text[k]? = some p.char ∧ p.place = start + k := by
  induction text generalizing start with
  | nil => cases h
  | cons c cs ih =>
    rcases List.mem_cons.mp h with rfl | h
    · exact ⟨0, rfl, rfl⟩
    · obtain ⟨k, hk, hplace⟩ := ih h
      exact ⟨k + 1, hk, by omega⟩

/-- The characters of code are in code, at their places. -/
theorem inCode_of_mem_codeChars {source : List Char} {p : Placed} (h : p ∈ codeChars source) :
    InCode source p.place ∧ source[p.place]? = some p.char := by
  have hsegments : ∀ {segments : List Segment} {start : Nat}, p ∈ codeOfSegments start segments →
      ∃ front s back k, segments = front ++ s :: back ∧ s.kind = .code ∧
        p.place = start + (front.flatMap Segment.text).length + k ∧ s.text[k]? = some p.char := by
    intro segments
    induction segments with
    | nil => intro start h; cases h
    | cons s rest ih =>
      intro start h
      rw [codeOfSegments, List.mem_append] at h
      rcases h with h | h
      · split at h
        · next hkind =>
          obtain ⟨k, hk, hplace⟩ := exists_of_mem_placedFrom h
          exact ⟨[], s, rest, k, rfl, beq_iff_eq.mp hkind, hplace, hk⟩
        · cases h
      · obtain ⟨front, s', back, k, rfl, hkind, hplace, hk⟩ := ih h
        refine ⟨s :: front, s', back, k, rfl, hkind, ?_, hk⟩
        rw [hplace, List.flatMap_cons, List.length_append]
        omega
  obtain ⟨front, s, back, k, hsplit, hkind, hplace, hk⟩ := hsegments h
  have hlt : k < s.text.length := (List.getElem?_eq_some_iff.mp hk).1
  refine ⟨⟨front, s, back, hsplit, hkind, by omega, by omega⟩, ?_⟩
  have hsource : source = front.flatMap Segment.text ++ (s.text ++ back.flatMap Segment.text) := by
    rw [← Segment.flatMap_split source, hsplit, List.flatMap_append, List.flatMap_cons]
  rw [hplace, Nat.zero_add, hsource, List.getElem?_append_right (Nat.le_add_right _ _),
    Nat.add_sub_cancel_left, List.getElem?_append_left hlt, hk]

theorem mem_placedFrom {start k : Nat} {text : List Char} {c : Char} (h : text[k]? = some c) :
    ⟨start + k, c⟩ ∈ placedFrom start text := by
  induction text generalizing start k with
  | nil => cases h
  | cons d ds ih =>
    cases k with
    | zero =>
      obtain rfl : d = c := Option.some.inj h
      exact .head _
    | succ k =>
      have hmem := @ih (start + 1) k h
      rw [Nat.add_right_comm] at hmem
      exact .tail _ hmem

theorem codeOfSegments_append (start : Nat) (front back : List Segment) :
    codeOfSegments start (front ++ back) = codeOfSegments start front ++
      codeOfSegments (start + (front.flatMap Segment.text).length) back := by
  induction front generalizing start with
  | nil => rfl
  | cons s front ih =>
    rw [List.cons_append, codeOfSegments, codeOfSegments, ih, List.flatMap_cons,
      List.length_append, Nat.add_assoc, List.append_assoc]

/-- A character at a place in code is one of the characters of code. -/
theorem mem_codeChars {source : List Char} {place : Nat} {c : Char} (h : InCode source place)
    (hc : source[place]? = some c) : ⟨place, c⟩ ∈ codeChars source := by
  obtain ⟨front, s, back, hsplit, hkind, hlow, hhigh⟩ := h
  obtain ⟨k, rfl⟩ := Nat.exists_eq_add_of_le hlow
  have hk : s.text[k]? = some c := by
    rw [← Segment.flatMap_split source, hsplit, List.flatMap_append, List.flatMap_cons,
      List.getElem?_append_right (Nat.le_add_right _ _), Nat.add_sub_cancel_left,
      List.getElem?_append_left (by omega)] at hc
    exact hc
  rw [codeChars, hsplit, codeOfSegments_append, Nat.zero_add]
  refine List.mem_append_right _ (List.mem_append_left _ ?_)
  rw [if_pos (beq_iff_eq.mpr hkind)]
  exact mem_placedFrom hk

/-! ## Runs -/

namespace InSegment

variable {source w rest : List Char} {place : Nat} {front back : List Segment} {s : Segment}

theorem source_eq (h : InSegment source place front s back) :
    source = front.flatMap Segment.text ++ (s.text ++ back.flatMap Segment.text) := by
  rw [← Segment.flatMap_split source, h.split, List.flatMap_append, List.flatMap_cons]

/-- What comes after a segment of code opens with a quote or a slash. -/
theorem opener_of_mem_head? (h : InSegment source place front s back) {c : Char}
    (hc : c ∈ (back.flatMap Segment.text).head?) : c ∈ Segment.openers := by
  cases back with
  | nil => cases hc
  | cons next others =>
    have hchain : (front ++ s :: next :: others).IsChain Segment.Divided :=
      h.split ▸ Segment.isChain_splitAfter .start source
    obtain ⟨-, hchain, -⟩ := List.isChain_append.mp hchain
    have hkind : next.kind ≠ .code := fun hcode =>
      (List.isChain_cons_cons.mp hchain).1 ⟨h.code, hcode⟩
    have hmem : next ∈ Segment.splitAfter .start source := by
      rw [← Segment.split, h.split]
      simp
    obtain ⟨d, ds, htext, hd⟩ := Segment.exists_opener hmem hkind
    rw [List.flatMap_cons, htext] at hc
    obtain rfl : d = c := Option.some.inj hc
    exact hd

/-- A text without quotes and slashes from a place in code on is in the segment of this place. -/
theorem exists_text_eq (h : InSegment source place front s back)
    (hw : source.drop place = w ++ rest) (hopen : ∀ c ∈ w, c ∉ Segment.openers) :
    ∃ u v, s.text = u ++ w ++ v ∧ place = (front.flatMap Segment.text).length + u.length := by
  obtain ⟨k, hk⟩ := Nat.exists_eq_add_of_le h.low
  have hhigh := h.high
  have hlt : k ≤ s.text.length := by omega
  have hdrop : s.text.drop k ++ back.flatMap Segment.text = w ++ rest := by
    rw [← hw, h.source_eq, hk, ← List.drop_drop, List.drop_left,
      List.drop_append_of_le_length hlt]
  have hprefix : w <+: s.text.drop k := by
    rcases List.append_eq_append_iff.mp hdrop with ⟨y, hwy, hback⟩ | ⟨y, hsy, -⟩
    · cases y with
      | nil => exact ⟨[], by rw [hwy]; simp⟩
      | cons c cs =>
        have hc : c ∈ Segment.openers := h.opener_of_mem_head? (by rw [hback]; rfl)
        exact absurd hc (hopen c (by rw [hwy]; simp))
    · exact ⟨y, hsy.symm⟩
  obtain ⟨v, hv⟩ := hprefix
  refine ⟨s.text.take k, v, ?_, ?_⟩
  · rw [List.append_assoc, hv, List.take_append_drop]
  · rw [hk, List.length_take, Nat.min_eq_left hlt]

theorem exists_region (h : InSegment source place front s back) :
    ∃ r ∈ Region.ofSource source, r.kind = .code ∧ r.text source = s.text := by
  have hmap := Region.map_ofSegments (Segment.split source) []
  have hs : s ∈ Segment.split source := by
    rw [h.split]
    simp
  rw [← hmap] at hs
  obtain ⟨r, hr, rfl⟩ := List.mem_map.mp hs
  rw [List.nil_append, Segment.flatMap_split]
  exact ⟨r, hr, h.code, rfl⟩

end InSegment

namespace InCode

variable {source w rest : List Char} {place : Nat}

/-- A text without quotes and slashes from a place in code on is in one region of code. -/
theorem exists_region_of_run (h : InCode source place) (hw : source.drop place = w ++ rest)
    (hopen : ∀ c ∈ w, c ∉ Segment.openers) :
    ∃ r ∈ Region.ofSource source, r.kind = .code ∧ w <:+: r.text source := by
  obtain ⟨front, s, back, hs⟩ := h
  obtain ⟨u, v, htext, -⟩ := hs.exists_text_eq hw hopen
  obtain ⟨r, hr, hkind, hrtext⟩ := hs.exists_region
  exact ⟨r, hr, hkind, u, v, by rw [hrtext, htext]⟩

/-- A blank before a place in code is in the same region of code, unless a line starts there. -/
theorem exists_region_of_blank_run {before : List Char} {b c : Char}
    (h : InCode source (before.length + 1)) (hsource : source = before ++ b :: (c :: w ++ rest))
    (hb : isBlank b = true) (hc : c ≠ '\n') (hopen : ∀ d ∈ c :: w, d ∉ Segment.openers) :
    ∃ r ∈ Region.ofSource source, r.kind = .code ∧ b :: c :: w <:+: r.text source := by
  obtain ⟨front, s, back, hs⟩ := h
  have hdrop : source.drop (before.length + 1) = c :: w ++ rest := by
    rw [hsource, List.drop_append]
    simp
  obtain ⟨u, v, htext, hplace⟩ := hs.exists_text_eq hdrop hopen
  obtain ⟨r, hr, hkind, hrtext⟩ := hs.exists_region
  have hsplit : front.flatMap Segment.text ++ u = before ++ [b] := by
    have hsource' := hs.source_eq
    rw [htext, hsource] at hsource'
    refine @List.append_inj_left _ _ (c :: w ++ v ++ back.flatMap Segment.text) _
      (c :: w ++ rest) ?_ ?_
    · simpa using hsource'.symm
    · rw [List.length_append, ← hplace, List.length_append, List.length_singleton]
  rcases List.eq_nil_or_concat u with rfl | ⟨u', d, rfl⟩
  · -- The blank would be the end of a comment or a literal.
    exfalso
    rcases List.eq_nil_or_concat front with rfl | ⟨front', t, rfl⟩
    · simp at hsplit
    · rw [List.concat_eq_append] at hs hsplit
      have hneighbours : ∀ {R : Segment → Segment → Prop},
          (Segment.splitAfter .start source).IsChain R → R t s := by
        intro R hchain
        rw [← Segment.split, hs.split] at hchain
        exact (List.isChain_append.mp hchain).2.2 t (by simp) s rfl
      have hkind : t.kind ≠ .code := fun hcode =>
        hneighbours (Segment.isChain_splitAfter .start source) ⟨hcode, hs.code⟩
      obtain ⟨w', e, ht, he⟩ := hneighbours (Segment.isChain_endsInMark .start source) hkind
        (by rw [htext]; simpa using hc)
      rw [List.flatMap_append, List.flatMap_singleton, ht, List.append_nil,
        ← List.append_assoc] at hsplit
      obtain rfl : e = b := by simpa using (List.append_inj' hsplit rfl).2
      exact Bool.false_ne_true (he.symm.trans hb)
  · rw [List.concat_eq_append, ← List.append_assoc] at hsplit
    obtain rfl : d = b := by simpa using (List.append_inj' hsplit rfl).2
    exact ⟨r, hr, hkind, u', v, by rw [hrtext, htext]; simp⟩

end InCode

end GuestCode
