import GuestCode.Proofs.Rewrite.Inert

/-!
# Stripped parameters

A parameter that has been stripped is left as it is when it is stripped again, with or without the
blanks at its ends: it starts with no access modifier, and before any colon outside brackets it has
an equals sign. A text that has no name before its colon is no parameter and has been left as it was.

## Main statements

* `Rewrite.StartsModified`: a text that starts with an access modifier.
* `Rewrite.not_startsModified_withoutModifiers`: all access modifiers are removed at once.
* `Rewrite.topLevelFrom?_append`: looking for a mark behind a text that does not hold it.
* `Rewrite.IsBare`: a parameter without access modifiers and annotation.
* `Rewrite.StripsTo`: what stripping makes of a parameter.
* `Rewrite.stripParameter_stripped`: a stripped parameter is left as it is.
* `Rewrite.stripParameter_idempotent`: so it is for every text, trimmed or not.
-/

namespace GuestCode.Rewrite

open Text Text.Pattern Grammar

/-! ## Access modifiers -/

/-- An access modifier and the blanks after it. -/
def accessModifier : Pattern := .seq (words modifierWords) someBlanks

/-- Whether a parameter may start with a character. -/
def startsParameter (c : Char) : Bool := isWordChar c || "$\x7b[.".toList.contains c

/-- A text that starts with an access modifier before a parameter. -/
def StartsModified (text : List Char) : Prop :=
  ∃ word ∈ modifierWords, ∃ (gap : List Char) (c : Char) (rest : List Char),
    text = word.toList ++ (gap ++ c :: rest) ∧ gap ≠ [] ∧ (∀ b ∈ gap, isBlank b = true) ∧
      startsParameter c = true

theorem takes_accessModifier {w : List Char} : accessModifier.Takes w ↔
    ∃ word ∈ modifierWords, ∃ gap : List Char, w = word.toList ++ gap ∧ gap ≠ [] ∧
      ∀ b ∈ gap, isBlank b = true := by
  constructor
  · rintro ⟨_, gap, rfl, hword, hgap⟩
    obtain ⟨word, hmem, rfl⟩ := (takes_words (by simp [modifierWords])).mp hword
    obtain ⟨hne, hgap⟩ := takes_plus_char.mp hgap
    exact ⟨word, hmem, gap, rfl, hne, hgap⟩
  · rintro ⟨word, hword, gap, rfl, hne, hgap⟩
    exact ⟨_, gap, rfl, (takes_words (by simp [modifierWords])).mpr ⟨word, hword, rfl⟩,
      takes_plus_char.mpr ⟨hne, hgap⟩⟩

theorem exists_cons_modifierWord {word : String} (h : word ∈ modifierWords) :
    ∃ c rest, word.toList = c :: rest ∧ startsParameter c = true := by
  have hall : ∀ word ∈ modifierWords, (word.toList.head?.any startsParameter) = true := by decide
  have hword := hall word h
  cases htext : word.toList with
  | nil =>
    rw [htext] at hword
    cases hword
  | cons c rest =>
    rw [htext] at hword
    exact ⟨c, rest, rfl, hword⟩

/-- What is matched as access modifiers starts with one, and a parameter follows. -/
theorem startsModified_of_matchAt? {text : List Char} {m : Found}
    (h : accessModifiers.matchAt? (.ofText text) = some m) :
    StartsModified text ∧ ∃ c rest, m.after = c :: rest ∧ startsParameter c = true := by
  obtain ⟨htakes, htext, -⟩ := exists_of_matchAt? h
  obtain ⟨p, hp, hends⟩ := @exists_of_matchAt?_followedBy
    [textStart, plus accessModifier] (wordCharOr "$\x7b[.") _ _ h
  have hafter : ∃ c rest, m.after = c :: rest ∧ startsParameter c = true := by
    rw [wordCharOr, ends, hp] at hends
    split at hends
    · exact absurd rfl hends
    · next c rest hrest =>
      split at hends
      · next hc => exact ⟨c, rest, hrest, hc⟩
      · exact absurd rfl hends
  refine ⟨?_, hafter⟩
  rw [accessModifiers, takes_all_cons] at htakes
  obtain ⟨_, others, hothers, rfl, htakes⟩ := htakes
  obtain ⟨modifiers, _, rfl, ⟨first, _, rfl, hfirst, parts, rfl, hparts⟩, rfl⟩ :=
    takes_all_cons.mp htakes
  obtain ⟨word, hword, gap, rfl, hne, hgap⟩ := takes_accessModifier.mp hfirst
  -- After the first modifier another one comes, or what follows all of them.
  have hfollows : ∃ c rest, parts.flatten ++ m.after = c :: rest ∧ startsParameter c = true := by
    cases parts with
    | nil => exact hafter
    | cons part parts =>
      obtain ⟨word', hword', gap', hpart, -⟩ :=
        takes_accessModifier.mp (hparts part List.mem_cons_self)
      obtain ⟨c, rest, hc, hstarts⟩ := exists_cons_modifierWord hword'
      exact ⟨c, rest ++ gap' ++ parts.flatten ++ m.after, by simp [hpart, hc], hstarts⟩
  obtain ⟨c, rest, hfollows, hc⟩ := hfollows
  refine ⟨word, hword, gap, c, rest, ?_, hne, hgap, hc⟩
  rw [← hfollows, show text = m.text ++ m.after from htext, hothers]
  simp

/-- All access modifiers are matched at once. -/
theorem not_startsModified_of_matchAt? {text : List Char} {m : Found}
    (h : accessModifiers.matchAt? (.ofText text) = some m) : ¬StartsModified m.after := by
  rintro ⟨word, hword, gap, c, rest, hafter, hne, hgap, hc⟩
  obtain ⟨q, hq, rfl⟩ := @find?_of_matchAt?_followedBy [textStart, plus accessModifier]
    (wordCharOr "$\x7b[.") _ _ h
  have hends : (all [textStart, plus accessModifier]).ends (.ofText text) =
      (accessModifier.ends (.ofText text)).flatMap (Pattern.many true accessModifier).ends :=
    List.flatMap_singleton _ _
  rw [hends, List.find?_flatMap] at hq
  obtain ⟨start, -, hq⟩ := List.exists_of_findSome?_eq_some hq
  -- From there one more modifier could be taken.
  have hword : accessModifier.Takes (word.toList ++ gap) :=
    takes_accessModifier.mpr ⟨word, hword, gap, rfl, hne, hgap⟩
  have hrest : q.rest = word.toList ++ gap ++ c :: rest :=
    hafter.trans (List.append_assoc _ _ _).symm
  obtain ⟨r, hr, hover⟩ := exists_mem_ends_of_takes rfl hword hrest
  have hlt : q.offset < r.offset := by
    have hpositive := List.length_pos_iff.mpr hne
    rw [hover.offset, List.length_append]
    omega
  have hstop := eq_false_of_find?_repeatEnds
    (fun _ _ hq => (exists_takes hq).imp fun _ h => h.2) (Nat.le_refl _) hq r hr hlt
  have hnext : r.rest = c :: rest := List.append_cancel_left (hover.rest.symm.trans hrest)
  rw [wordCharOr, ends, hnext] at hstop
  dsimp only at hstop
  rw [if_pos (show (isWordChar c || "$\x7b[.".toList.contains c) = true from hc)] at hstop
  cases hstop

/-- A text that starts with an access modifier is matched as such. -/
theorem matchAt?_ne_none_of_startsModified {text : List Char} (h : StartsModified text) :
    accessModifiers.matchAt? (.ofText text) ≠ none := by
  obtain ⟨word, hword, gap, c, rest, rfl, hne, hgap, hc⟩ := h
  have hmodifier : accessModifier.Takes (word.toList ++ gap) :=
    takes_accessModifier.mpr ⟨word, hword, gap, rfl, hne, hgap⟩
  have htext : (Progress.ofText (word.toList ++ (gap ++ c :: rest))).rest =
      word.toList ++ gap ++ c :: rest := (List.append_assoc _ _ _).symm
  obtain ⟨q, hq, hover⟩ := exists_mem_ends_of_takes rfl hmodifier htext
  have hrest : q.rest = c :: rest := List.append_cancel_left (hover.rest.symm.trans htext)
  have hmany : q ∈ (Pattern.many true accessModifier).ends q :=
    self_mem_repeatEnds true accessModifier.ends q.rest.length q
  have hlooks : (wordCharOr "$\x7b[.").ends q ≠ [] := by
    rw [wordCharOr, ends, hrest]
    dsimp only
    rw [if_pos (show (isWordChar c || "$\x7b[.".toList.contains c) = true from hc)]
    exact List.cons_ne_nil _ _
  refine matchAt?_ne_none (q := q) ?_
  rw [accessModifiers, ends_all_cons]
  refine List.mem_flatMap.mpr ⟨_, List.mem_singleton_self _, ?_⟩
  rw [ends_all_cons]
  exact List.mem_flatMap.mpr ⟨q, List.mem_flatMap.mpr ⟨q, hq, hmany⟩, mem_ends_followedBy hlooks⟩

/-- No access modifier is left before a parameter. -/
theorem not_startsModified_withoutModifiers (parameter : List Char) :
    ¬StartsModified (withoutModifiers parameter) := by
  rw [withoutModifiers]
  split
  · next m hmatch => exact not_startsModified_of_matchAt? hmatch
  · next hnone => exact fun h => matchAt?_ne_none_of_startsModified h hnone

theorem withoutModifiers_eq_self {text : List Char} (h : ¬StartsModified text) :
    withoutModifiers text = text := by
  rw [withoutModifiers]
  split
  · next m hmatch => exact absurd (startsModified_of_matchAt? hmatch).1 h
  · rfl

/-- A text starts with no access modifier if it is the front of one that starts with none, and what
is put after this front does not start like a parameter. -/
theorem not_startsModified_append {front back after : List Char}
    (h : ¬StartsModified (front ++ back))
    (hafter : ∀ (gap : List Char) (c : Char) (rest : List Char), after = gap ++ c :: rest →
      (∀ b ∈ gap, isBlank b = true) → startsParameter c = false) :
    ¬StartsModified (front ++ after) := by
  rintro ⟨word, hword, gap, c, rest, heq, hne, hgap, hc⟩
  have hno : ∀ (gap : List Char), after = gap ++ c :: rest → ¬∀ b ∈ gap, isBlank b = true :=
    fun gap heq hgap => nomatch hc.symm.trans (hafter gap c rest heq hgap)
  rcases List.append_eq_append_iff.mp heq with ⟨x, hfront, hx⟩ | ⟨x, rfl, hx⟩
  · -- The front ends within the word, or right behind it.
    cases x with
    | nil => exact hno gap hx hgap
    | cons d ds =>
      have hall : ∀ word ∈ modifierWords, ∀ d ∈ word.toList, startsParameter d = true := by decide
      have hstarts := hall word hword d (by rw [hfront]; simp)
      exact nomatch hstarts.symm.trans (hafter [] d (ds ++ (gap ++ c :: rest)) hx (by simp))
  · -- The front ends within the blanks, or behind the character after them.
    rcases List.append_eq_append_iff.mp hx with ⟨y, rfl, hy⟩ | ⟨y, rfl, hy⟩
    · cases y with
      | nil => exact hno [] hy.symm (by simp)
      | cons d ds =>
        obtain rfl := (List.cons.inj hy).1
        refine h ⟨word, hword, gap, c, ds ++ back, ?_, hne, hgap, hc⟩
        simp
    · exact hno y hy fun b hb => hgap b (List.mem_append_right x hb)

/-! ## Marks outside brackets -/

/-- Looking for a mark at a character that is no part of an arrow. -/
theorem topLevelFrom?_cons {target c : Char} {depth : Int} {index : Nat} {rest : List Char}
    (h : c = '=' → rest.head? ≠ some '>') :
    topLevelFrom? target depth index (c :: rest) =
      if c == '(' || c == '[' || c == '\x7b' || c == '<' then
        topLevelFrom? target (depth + 1) (index + 1) rest
      else if c == ')' || c == ']' || c == '\x7d' || c == '>' then
        topLevelFrom? target (depth - 1) (index + 1) rest
      else if depth == 0 && c == target then some index
      else if depth == 0 && target == ':' && c == '=' then none
      else topLevelFrom? target depth (index + 1) rest := by
  rw [topLevelFrom?]
  rintro rest' rfl rfl
  exact h rfl rfl

/-- By how much a character changes the depth of brackets. -/
def depthChange (c : Char) : Int :=
  if c == '(' || c == '[' || c == '\x7b' || c == '<' then 1
  else if c == ')' || c == ']' || c == '\x7d' || c == '>' then -1
  else 0

/-- The depth of brackets behind a text, arrows passed over. -/
def depthBehind (depth : Int) : List Char → Int
  | [] => depth
  | '=' :: '>' :: rest => depthBehind depth rest
  | c :: rest => depthBehind (depth + depthChange c) rest

/-- A search goes on at the depth behind a character, unless it ends there. -/
theorem topLevelFrom?_cons_depth {target c : Char} {depth : Int} {index : Nat} {rest : List Char}
    (h : c = '=' → rest.head? ≠ some '>') :
    topLevelFrom? target depth index (c :: rest) =
      if depth = 0 ∧ depthChange c = 0 ∧ (c = target ∨ target = ':' ∧ c = '=') then
        if c = target then some index else none
      else topLevelFrom? target (depth + depthChange c) (index + 1) rest := by
  rw [topLevelFrom?_cons h, depthChange, Int.sub_eq_add_neg]
  -- Both sides ask the same questions, the brackets first.
  split_ifs <;> simp_all

/-- If the first characters of a text are no arrow, they are none when anything but `>` is put behind
the text. -/
theorem noArrow_append {c : Char} {rest back : List Char}
    (h : ∀ rest', c = '=' → rest = '>' :: rest' → False) (hback : back.head? ≠ some '>') :
    c = '=' → (rest ++ back).head? ≠ some '>' := by
  intro hc hhead
  cases rest with
  | nil => exact hback hhead
  | cons d ds =>
    obtain rfl : d = '>' := Option.some.inj hhead
    exact h ds hc rfl

/-- Looking for a mark behind a text that does not hold it: all that matters of that text is the
depth behind it. -/
theorem topLevelFrom?_append {target : Char} {depth : Int} {index place : Nat}
    {front back : List Char} (h : topLevelFrom? target depth index (front ++ back) = some place)
    (hplace : index + front.length ≤ place) (hback : back.head? ≠ some '>') {back' : List Char}
    (hback' : back'.head? ≠ some '>') :
    topLevelFrom? target depth index (front ++ back') =
      topLevelFrom? target (depthBehind depth front) (index + front.length) back' := by
  fun_induction depthBehind depth front generalizing index with
  | case1 depth => rfl
  | case2 depth rest ih =>
    rw [List.length_cons, List.length_cons] at hplace ⊢
    rw [List.cons_append, List.cons_append, topLevelFrom?, ih h (by omega)]
    congr 1
    omega
  | case3 depth c rest harrow ih =>
    rw [List.length_cons] at hplace ⊢
    rw [List.cons_append, topLevelFrom?_cons_depth (noArrow_append harrow hback)] at h
    split at h
    · -- The search would have ended within the text.
      split at h
      · obtain rfl := Option.some.inj h
        omega
      · cases h
    · next hgoes =>
      rw [List.cons_append, topLevelFrom?_cons_depth (noArrow_append harrow hback'), if_neg hgoes,
        ih h (by omega)]
      congr 1
      omega

/-- A search for a colon passes over blanks and question marks. -/
theorem topLevelFrom?_of_isBlank {depth : Int} {index : Nat} {c : Char} {rest : List Char}
    (h : isBlank c = true ∨ c = '?') :
    topLevelFrom? ':' depth index (c :: rest) = topLevelFrom? ':' depth (index + 1) rest := by
  have hplain : c ∉ ['(', '[', '\x7b', '<', ')', ']', '\x7d', '>', ':', '='] := by
    have hall : ∀ c ∈ ['(', '[', '\x7b', '<', ')', ']', '\x7d', '>', ':', '='],
        isBlank c = false ∧ c ≠ '?' := by decide
    intro hmem
    rcases h with hc | hc
    · exact nomatch hc.symm.trans (hall c hmem).1
    · exact (hall c hmem).2 hc
  simp only [List.mem_cons, List.not_mem_nil, or_false, not_or] at hplain
  rw [topLevelFrom?_cons fun hequals => absurd hequals (by simp [hplain])]
  simp only [hplain, beq_iff_eq, or_self, Bool.or_eq_true, Bool.and_eq_true, and_false, if_false]

/-- Only at depth zero a mark is found behind blanks and question marks. -/
theorem eq_zero_of_topLevelFrom? {depth : Int} {index : Nat} {junk rest : List Char}
    (hjunk : ∀ c ∈ junk, isBlank c = true ∨ c = '?')
    (h : topLevelFrom? ':' depth index (junk ++ ':' :: rest) = some (index + junk.length)) :
    depth = 0 := by
  induction junk generalizing index with
  | nil =>
    by_contra hdepth
    have hzero : (depth == 0) = false := beq_false_of_ne hdepth
    have hcolon : ':' = '=' → rest.head? ≠ some '>' := fun hequals => absurd hequals (by decide)
    rw [List.nil_append, topLevelFrom?_cons hcolon, hzero] at h
    have hlater : topLevelFrom? ':' depth (index + 1) rest = some index := h
    obtain ⟨k, hk, -⟩ := getElem?_of_topLevelFrom? hlater
    omega
  | cons c cs ih =>
    obtain ⟨hc, hcs⟩ := List.forall_mem_cons.mp hjunk
    rw [List.cons_append, topLevelFrom?_of_isBlank hc, List.length_cons, Nat.add_comm cs.length 1,
      ← Nat.add_assoc] at h
    exact ih hcs h

/-! ## Names -/

/-- The name of a parameter, before blanks, question marks and the colon of its annotation. -/
theorem exists_append_name (text : List Char) : ∃ junk : List Char,
    (∀ c ∈ junk, isBlank c = true ∨ c = '?') ∧
      text = trimEnd (dropEndWhile (· == '?') (trimEnd text)) ++ junk := by
  obtain ⟨outer, houter, htext⟩ := exists_append_dropEndWhile isBlank text
  obtain ⟨marks, hmarks, hname⟩ := exists_append_dropEndWhile (· == '?') (trimEnd text)
  obtain ⟨inner, hinner, hrest⟩ := exists_append_dropEndWhile isBlank
    (dropEndWhile (· == '?') (trimEnd text))
  refine ⟨inner ++ (marks ++ outer), ?_, ?_⟩
  · exact List.forall_mem_append.mpr ⟨fun c hc => .inl (hinner c hc), List.forall_mem_append.mpr
      ⟨fun c hc => .inr (beq_iff_eq.mp (hmarks c hc)), fun c hc => .inl (houter c hc)⟩⟩
  · rw [← List.append_assoc, trimEnd, ← hrest, ← List.append_assoc, ← hname]
    exact htext

/-- Behind the name of a parameter a colon is looked for as at the start of a text. -/
theorem topLevelIndex?_name {text name junk after : List Char} {colon : Nat}
    (h : topLevelIndex? text ':' 0 = some colon) (htake : text.take colon = name ++ junk)
    (hjunk : ∀ c ∈ junk, isBlank c = true ∨ c = '?') (hafter : after.head? ≠ some '>') :
    topLevelIndex? (name ++ after) ':' 0 = topLevelFrom? ':' 0 name.length after := by
  have hfound : topLevelFrom? ':' 0 0 text = some colon := h
  obtain ⟨k, hk, hchar⟩ := getElem?_of_topLevelFrom? hfound
  obtain rfl : colon = k := by omega
  obtain ⟨hlt, hchar⟩ := List.getElem?_eq_some_iff.mp hchar
  have hcolon : name.length + junk.length = colon := by
    rw [← List.length_append, ← htake, List.length_take, Nat.min_eq_left (Nat.le_of_lt hlt)]
  -- The name with what is dropped after it ends at the colon.
  have htext : text = name ++ (junk ++ ':' :: text.drop (colon + 1)) := by
    rw [← List.append_assoc, ← htake, ← hchar, ← List.drop_eq_getElem_cons hlt,
      List.take_append_drop]
  obtain ⟨rest, hrest⟩ : ∃ rest, text.drop (colon + 1) = rest := ⟨_, rfl⟩
  rw [hrest] at htext
  rw [htext] at hfound
  have hback : (junk ++ ':' :: rest).head? ≠ some '>' := by
    cases junk with
    | nil => simp
    | cons c cs =>
      rintro hc
      obtain rfl : c = '>' := Option.some.inj hc
      rcases hjunk '>' (.head _) with hblank | hmark
      · exact absurd hblank (by decide)
      · exact absurd hmark (by decide)
  have hbehind : ∀ {back' : List Char}, back'.head? ≠ some '>' →
      topLevelFrom? ':' 0 0 (name ++ back') =
        topLevelFrom? ':' (depthBehind 0 name) name.length back' := by
    intro back' hback'
    rw [topLevelFrom?_append hfound (by omega) hback hback', Nat.zero_add]
  rw [hbehind hback, ← hcolon] at hfound
  have hdepth := eq_zero_of_topLevelFrom? hjunk hfound
  rw [topLevelIndex?, List.drop_zero, hbehind hafter, hdepth]

/-! ## Stripped parameters -/

/-- A parameter that starts with no access modifier and has no colon outside brackets before its
default. -/
structure IsBare (parameter : List Char) : Prop where
  unmodified : ¬StartsModified parameter
  colon : topLevelIndex? parameter ':' 0 = none

/-- A parameter that has neither access modifiers nor an annotation is left as it is. -/
theorem IsBare.stripParameter_eq_self {parameter : List Char} (h : IsBare parameter) :
    stripParameter parameter = parameter := by
  rw [stripParameter, withoutModifiers_eq_self h.unmodified]
  dsimp only
  rw [h.colon]

/-- A text that has no name before its colon. -/
def IsUnnamed (parameter : List Char) : Prop :=
  ∃ colon, topLevelIndex? (withoutModifiers parameter) ':' 0 = some colon ∧
    parameterName.matchAt? (.ofText (trimEnd ((withoutModifiers parameter).take colon))) = none

/-- No parameter starts with a blank. -/
theorem isBlank_of_startsParameter {c : Char} (h : startsParameter c = true) :
    isBlank c = false := by
  refine Bool.eq_false_iff.mpr fun hblank => ?_
  rw [Segment.eq_false_of_isBlank (p := startsParameter) (by decide +kernel) hblank] at h
  cases h

/-- A trimmed parameter has no blanks at its ends without its access modifiers either. -/
theorem trim_withoutModifiers {parameter : List Char} (h : trim parameter = parameter) :
    trim (withoutModifiers parameter) = withoutModifiers parameter := by
  rw [withoutModifiers]
  split
  · next m hmatch =>
    obtain ⟨-, c, rest, hafter, hc⟩ := startsModified_of_matchAt? hmatch
    obtain ⟨-, htext, -⟩ := exists_of_matchAt? hmatch
    have hblank := isBlank_of_startsParameter hc
    have hparameter : parameter = m.text ++ c :: rest := hafter ▸ htext
    rw [hparameter, trim_append_cons hblank] at h
    have hlength := congrArg List.length h
    obtain ⟨gap, -, hrest⟩ := exists_append_dropEndWhile isBlank rest
    -- Blanks dropped at the end would make the trimmed parameter shorter.
    have hgap : gap = [] := by
      have hstart := (List.dropWhile_suffix isBlank (l := m.text)).length_le
      have hend := congrArg List.length hrest
      rw [List.length_append] at hend
      simp only [trimStart, trimEnd, List.length_append, List.length_cons] at hlength
      exact List.eq_nil_of_length_eq_zero (by omega)
    rw [hgap, List.append_nil] at hrest
    rw [hafter, ← List.nil_append (c :: rest), trim_append_cons hblank, trimEnd, ← hrest]
    rfl
  · exact h

/-- What may stand after the name of a parameter without an annotation: nothing, or a default. -/
def IsDefault (after : List Char) : Prop :=
  after = [] ∨ ∃ gap more : List Char, after = gap ++ '=' :: more ∧ (∀ c ∈ gap, isBlank c = true) ∧
    more.head? ≠ some '>'

theorem IsDefault.head?_ne {after : List Char} (h : IsDefault after) : after.head? ≠ some '>' := by
  rcases h with rfl | ⟨gap, more, rfl, hgap, -⟩
  · simp
  cases gap with
  | nil => simp
  | cons c cs =>
    intro hc
    obtain rfl : c = '>' := Option.some.inj hc
    exact absurd (hgap '>' (.head _)) (by decide)

/-- In a default, an equals sign comes before any colon. -/
theorem IsDefault.topLevelFrom? {after : List Char} (h : IsDefault after) (index : Nat) :
    topLevelFrom? ':' 0 index after = none := by
  rcases h with rfl | ⟨gap, more, rfl, hgap, hmore⟩
  · rfl
  induction gap generalizing index with
  | nil => exact topLevelFrom?_cons fun _ => hmore
  | cons c cs ih =>
    obtain ⟨hc, hcs⟩ := List.forall_mem_cons.mp hgap
    rw [List.cons_append, topLevelFrom?_of_isBlank (.inl hc)]
    exact ih _ hcs

/-- A default does not start like a parameter. -/
theorem IsDefault.startsParameter {after : List Char} (h : IsDefault after)
    (gap' : List Char) (c : Char) (rest : List Char) (hafter : after = gap' ++ c :: rest) :
    (∀ b ∈ gap', isBlank b = true) → startsParameter c = false := by
  intro hgap'
  have hblank : ∀ {c : Char}, isBlank c = true → Rewrite.startsParameter c = false := fun hc =>
    Bool.eq_false_iff.mpr fun hstarts => nomatch hc.symm.trans (isBlank_of_startsParameter hstarts)
  rcases h with rfl | ⟨gap, more, rfl, hgap, -⟩
  · simp at hafter
  rcases List.append_eq_append_iff.mp hafter with ⟨x, rfl, hx⟩ | ⟨x, rfl, hx⟩
  · cases x with
    | nil =>
      obtain rfl := (List.cons.inj hx).1
      decide
    | cons d ds =>
      obtain rfl := (List.cons.inj hx).1
      have hequals := hgap' '=' (by simp)
      exact absurd hequals (by decide)
  · cases x with
    | nil =>
      obtain rfl := (List.cons.inj hx).1
      decide
    | cons d ds =>
      obtain rfl := (List.cons.inj hx).1
      exact hblank (hgap c (by simp))

/-- A name without its annotation is a bare parameter, with or without a default. -/
theorem isBare_name {text name junk after : List Char} {colon : Nat}
    (hmodifiers : ¬StartsModified text) (hcolon : topLevelIndex? text ':' 0 = some colon)
    (hname : text.take colon = name ++ junk) (hjunk : ∀ c ∈ junk, isBlank c = true ∨ c = '?')
    (hafter : IsDefault after) : IsBare (name ++ after) := by
  refine ⟨?_, ?_⟩
  · refine @not_startsModified_append name (junk ++ text.drop colon) after ?_ hafter.startsParameter
    rwa [← List.append_assoc, ← hname, List.take_append_drop]
  · rw [topLevelIndex?_name hcolon hname hjunk hafter.head?_ne, hafter.topLevelFrom?]

/-- The name of a parameter that has an annotation. -/
structure IsNameOf (name parameter : List Char) : Prop where
  /-- It stands where the access modifiers end. -/
  starts : ∃ back, withoutModifiers parameter = name ++ back
  trimmed : trimEnd name = name
  bare : ∀ after, IsDefault after → IsBare (name ++ after)

/-- What stripping makes of a parameter. -/
inductive StripsTo (parameter : List Char) : List Char → Prop where
  /-- Without a name the access modifiers stay, too. -/
  | unnamed (noName : IsUnnamed parameter) : StripsTo parameter parameter
  | bare (isBare : IsBare (withoutModifiers parameter)) :
      StripsTo parameter (withoutModifiers parameter)
  | name {name : List Char} (isName : IsNameOf name parameter) : StripsTo parameter name
  | default {name : List Char} (value : List Char) (isName : IsNameOf name parameter) :
      StripsTo parameter (name ++ " = ".toList ++ value)

theorem stripsTo_stripParameter (parameter : List Char) :
    StripsTo parameter (stripParameter parameter) := by
  have hmodifiers := not_startsModified_withoutModifiers parameter
  rw [stripParameter]
  dsimp only
  split
  · next hnone => exact .bare ⟨hmodifiers, hnone⟩
  next colon hcolon =>
  split
  · next hnone => exact .unnamed ⟨colon, hcolon, hnone⟩
  -- Behind the name there are only blanks and question marks before the colon.
  obtain ⟨junk, hjunk, hname⟩ := exists_append_name ((withoutModifiers parameter).take colon)
  have hisName : IsNameOf (trimEnd (dropEndWhile (· == '?')
      (trimEnd ((withoutModifiers parameter).take colon)))) parameter := by
    refine ⟨⟨junk ++ (withoutModifiers parameter).drop colon, ?_⟩, dropEndWhile_dropEndWhile _ _,
      fun after hafter => isBare_name hmodifiers hcolon hname hjunk hafter⟩
    rw [← List.append_assoc, ← hname, List.take_append_drop]
  split
  · exact .name hisName
  · exact .default _ hisName

namespace StripsTo

variable {parameter left : List Char}

/-- What is left is a bare parameter, unless there is no name. -/
theorem isBare_or (h : StripsTo parameter left) :
    IsBare left ∨ left = parameter ∧ IsUnnamed parameter := by
  cases h with
  | unnamed noName => exact .inr ⟨rfl, noName⟩
  | bare isBare => exact .inl isBare
  | name isName => exact .inl (by simpa using isName.bare [] (.inl rfl))
  | default value isName =>
    rw [List.append_assoc]
    exact .inl (isName.bare _ (.inr ⟨[' '], ' ' :: value, rfl, by decide, by simp⟩))

/-- What is left of a trimmed parameter is a bare one when it is trimmed, too. -/
theorem isBare_trim_or (h : StripsTo parameter left) (htrim : trim parameter = parameter) :
    IsBare (trim left) ∨ left = parameter ∧ IsUnnamed parameter := by
  have hfront := trim_withoutModifiers htrim
  have hstart : ∀ {name : List Char}, IsNameOf name parameter → trimStart name = name := by
    rintro name ⟨⟨back, hback⟩, -⟩
    exact trimStart_of_append (hback ▸ trimStart_of_trim hfront)
  cases h with
  | unnamed noName => exact .inr ⟨rfl, noName⟩
  | bare isBare => exact .inl (by rwa [hfront])
  | name isName =>
    rw [trim, hstart isName, isName.trimmed]
    exact .inl (by simpa using isName.bare [] (.inl rfl))
  | @default name value isName =>
    -- Blanks are trimmed behind the equals sign, and without a name those before it, too.
    obtain ⟨gap, -, hgap⟩ := exists_append_dropEndWhile isBlank (' ' :: value)
    have hmore : (trimEnd (' ' :: value)).head? ≠ some '>' := by
      intro hhead
      obtain ⟨rest, hrest⟩ := List.head?_eq_some_iff.mp hhead
      rw [show dropEndWhile isBlank _ = '>' :: rest from hrest] at hgap
      exact absurd (List.cons.inj hgap).1 (by decide)
    have hsplit : name ++ " = ".toList ++ value = (name ++ [' ']) ++ '=' :: ' ' :: value := by simp
    rw [hsplit, trim_append_cons (by decide)]
    refine .inl ?_
    cases name with
    | nil => exact isName.bare _ (.inr ⟨[], _, rfl, by simp, hmore⟩)
    | cons c cs =>
      have hc : ¬isBlank c = true := List.dropWhile_eq_self_iff.mp (hstart isName) (by simp)
      rw [trimStart, List.cons_append, List.dropWhile_cons_of_neg hc, ← List.cons_append,
        List.append_assoc]
      exact isName.bare _ (.inr ⟨[' '], _, rfl, by decide, hmore⟩)

end StripsTo

/-- A stripped parameter is left as it is when it is trimmed and stripped again. -/
theorem stripParameter_stripped {parameter : List Char} (h : trim parameter = parameter) :
    stripParameter (trim (stripParameter parameter)) = trim (stripParameter parameter) := by
  rcases (stripsTo_stripParameter parameter).isBare_trim_or h with hbare | ⟨hself, -⟩
  · exact hbare.stripParameter_eq_self
  · rw [hself, h, hself]

/-- Whatever a text looks like, what is left of it as a parameter is left as it is, and so it is
without the blanks around it, which the next pass does not read. Neither access modifiers nor an
annotation are left, unless there is no name before the colon; then the text stays. -/
theorem stripParameter_idempotent (parameter : List Char) :
    stripParameter (stripParameter parameter) = stripParameter parameter ∧
      stripParameter (trim (stripParameter (trim parameter))) =
        trim (stripParameter (trim parameter)) ∧
      (IsBare (stripParameter parameter) ∨
        stripParameter parameter = parameter ∧ IsUnnamed parameter) := by
  have hleft := (stripsTo_stripParameter parameter).isBare_or
  refine ⟨?_, stripParameter_stripped (trim_trim parameter), hleft⟩
  rcases hleft with hbare | ⟨hself, -⟩
  · exact hbare.stripParameter_eq_self
  · rw [hself, hself]

end GuestCode.Rewrite
