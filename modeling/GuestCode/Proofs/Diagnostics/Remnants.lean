import GuestCode.Proofs.Diagnostics.Secrets

/-!
# Passwords that are cut off

A text is cut before it is masked. Of a password that is cut off after at most sixteen characters
too little is left for a named secret. The rules for tokens and numbers still see it, and the mark
behind it: what they leave of it is its remnant.

## Main statements

* `Masking.foldl_replace_append`: what stands behind an equals sign is masked apart.
* `Masking.becomes_remnant`: what the rules for tokens and numbers leave of a password.
* `Masking.exists_mask_cut`: two masked texts that are cut in a password differ in its remnant only.
-/

namespace GuestCode.Masking

open Text Text.Pattern

/-! ## Behind an equals sign -/

/-- Whether no match of a rule goes over an equals sign, and what it becomes is up to the match. -/
structure StopsAtEquals (rule : MaskRule) : Prop where
  looksNear : rule.pattern.LooksNear
  takesSome : rule.pattern.takesSome = true
  takesNone : rule.pattern.takesNone ['='] = true
  mask : ∀ m after, rule.mask { m with after := after } = rule.mask m

theorem stopsAtEquals_laterRules : ∀ rule ∈ laterRules, StopsAtEquals rule := by
  have hdigits := looksNear_times_char 4 isDecimalDigit
  have hbearer : bearerToken.LooksNear :=
    ⟨looksNear_anyCase _, ⟨trivial, trivial⟩, trivial, trivial⟩
  have hweb : webToken.LooksNear :=
    ⟨looksNear_wordEdge, ⟨trivial, trivial, trivial⟩, trivial, trivial, trivial, trivial, trivial⟩
  have hcard : cardNumber.LooksNear :=
    ⟨looksNear_wordEdge, hdigits, ⟨trivial, trivial⟩, hdigits, ⟨trivial, trivial⟩, hdigits,
      ⟨trivial, trivial⟩, hdigits, looksNear_wordEdge⟩
  have hnational : nationalId.LooksNear :=
    ⟨looksNear_wordEdge, looksNear_times_char 6 isDecimalDigit, ⟨trivial, trivial⟩,
      looksNear_times_char 7 isDecimalDigit, looksNear_wordEdge⟩
  refine List.forall_mem_cons.mpr ⟨⟨hbearer, by decide, by decide, fun _ _ => rfl⟩, ?_⟩
  refine List.forall_mem_cons.mpr ⟨⟨hweb, by decide, by decide, fun _ _ => rfl⟩, ?_⟩
  refine List.forall_mem_cons.mpr ⟨⟨hcard, by decide, by decide, fun _ _ => rfl⟩, ?_⟩
  exact List.forall_mem_singleton.mpr ⟨hnational, by decide, by decide, fun _ _ => rfl⟩

/-- Whether rules make one text of another one that stands behind an equals sign. -/
def Becomes : List MaskRule → List Char → List Char → Prop
  | [], text, last => text = last
  | rule :: rules, text, last => ∃ next,
    (∀ offset, rule.pattern.replaceFrom rule.mask (some '=') offset text = next) ∧
      Becomes rules next last

/-- What stands before an equals sign and what stands behind it are masked apart. -/
theorem foldl_replace_append {later : List MaskRule} (hlater : ∀ rule ∈ later, StopsAtEquals rule)
    {front text last : List Char} (hfront : front.getLast? = some '=')
    (h : Becomes later text last) :
    later.foldl (fun text rule => rule.pattern.replace rule.mask text) (front ++ text) =
      later.foldl (fun text rule => rule.pattern.replace rule.mask text) front ++ last := by
  induction later generalizing front text with
  | nil =>
    rw [h]
    rfl
  | cons rule later ih =>
    obtain ⟨next, hnext, h⟩ := h
    obtain ⟨hrule, hlater⟩ := List.forall_mem_cons.mp hlater
    have hedge : ∀ c ∈ front.getLast?, rule.pattern.takesNone [c] = true := by
      rintro c hc
      obtain rfl : '=' = c := Option.some.inj (hfront.symm.trans hc)
      exact hrule.takesNone
    have hkept := getLast?_replaceFrom hrule.looksNear hrule.takesSome hrule.mask hedge none 0
    have happend := replaceFrom_append hrule.looksNear hrule.takesSome hrule.mask hedge none 0 text
    rw [hfront, Option.some_or, hnext] at happend
    rw [List.foldl_cons, List.foldl_cons, replace_eq_replaceFrom, replace_eq_replaceFrom, happend]
    exact ih hlater (hkept.trans hfront) h

/-! ## What is left of a password -/

/-- The mark behind a text that is cut off. -/
def cutMark : List Char := "...[truncated]".toList

/-- What is left of the start of a password that is cut off. -/
def remnant (kept : List Char) : List Char :=
  if "eyJ".toList <+: kept then "[JWT_MASKED].[truncated]".toList
  else if kept.length = 16 ∧ ∀ c ∈ kept, isDecimalDigit c = true then
    "[CARD_MASKED]...[truncated]".toList
  else if kept.length = 13 ∧ ∀ c ∈ kept, isDecimalDigit c = true then
    "[SSN_MASKED]...[truncated]".toList
  else kept ++ cutMark

section Remnant

variable {kept : List Char} {replacement : Found → List Char} {patterns : List Pattern}

/-- A cut text in which no match starts stays. -/
theorem replaceFrom_kept (hkept : ∀ c ∈ kept, c ∈ valueChars)
    (havoids : (all (wordEdge :: patterns)).avoids cutMark = true)
    {before : Option Char} {offset : Nat}
    (hstart : (all (wordEdge :: patterns)).matchAt?
      ⟨before, kept ++ cutMark, offset, []⟩ = none) :
    (all (wordEdge :: patterns)).replaceFrom replacement before offset
      (kept ++ cutMark) = kept ++ cutMark := by
  cases kept with
  | nil => exact replaceFrom_of_avoids havoids fun c hc => hc
  | cons c cs =>
    obtain ⟨hc, hcs⟩ := List.forall_mem_cons.mp hkept
    have hlater := @replaceFrom_of_word replacement (some c) (offset + 1) cs cutMark
      patterns (isWordChar_of_mem hc) fun d hd => isWordChar_of_mem (hcs d hd)
    rw [List.cons_append] at hstart ⊢
    rw [replaceFrom_cons_of_none hstart, hlater, replaceFrom_of_avoids havoids fun c hc => hc]

theorem bearerToken_kept (hkept : ∀ c ∈ kept, c ∈ valueChars) (before : Option Char)
    (offset : Nat) : bearerToken.replaceFrom replacement before offset
      (kept ++ cutMark) = kept ++ cutMark := by
  have havoids : bearerToken.avoids (valueChars ++ cutMark) = true := by
    decide
  exact replaceFrom_of_avoids havoids (List.forall_mem_append.mpr
    ⟨fun c hc => List.mem_append_left _ (hkept c hc), fun c hc => List.mem_append_right _ hc⟩)

/-- What a cut text starts with, without a full stop, is in what is kept of it. -/
theorem exists_append_of_cutMark {w after : List Char} (htext : kept ++ cutMark = w ++ after)
    (hdot : '.' ∉ w) : ∃ z, kept = w ++ z ∧ after = z ++ cutMark := by
  rcases List.append_eq_append_iff.mp htext with ⟨z, hz, hmark⟩ | ⟨z, hz, hafter⟩
  · cases z with
    | nil => exact ⟨[], by simpa using hz.symm, by simpa using hmark.symm⟩
    | cons c z =>
      obtain ⟨rfl, -⟩ : '.' = c ∧ _ := List.cons.inj hmark
      exact absurd (by simp [hz]) hdot
  · exact ⟨z, hz, hafter⟩

/-- A match without a full stop is in what is kept. -/
theorem exists_of_matchAt?_kept {pattern : Pattern} {before : Option Char} {offset : Nat}
    {m : Found} (hnone : pattern.takesNone ['.'] = true)
    (hm : pattern.matchAt? ⟨before, kept ++ cutMark, offset, []⟩ = some m) :
    ∃ z, kept = m.text ++ z ∧ m.after = z ++ cutMark := by
  obtain ⟨htakes, htext, -⟩ := exists_of_matchAt? hm
  refine exists_append_of_cutMark htext fun hdot => ?_
  exact not_mem_of_takesNone pattern hnone htakes '.' hdot (.head _)

/-! ### Web tokens -/

theorem webToken_kept_of_not_prefix (hkept : ∀ c ∈ kept, c ∈ valueChars)
    (h : ¬ "eyJ".toList <+: kept) (before : Option Char) (offset : Nat) :
    webToken.replaceFrom replacement before offset (kept ++ cutMark) = kept ++ cutMark := by
  refine replaceFrom_kept hkept (by decide) (Option.eq_none_iff_forall_ne_some.mpr ?_)
  intro m hm
  obtain ⟨htakes, htext, -⟩ := exists_of_matchAt? hm
  obtain ⟨_, _, hm, rfl, e, w, rfl, he, -⟩ := htakes
  obtain rfl := takes_lit.mp he
  rw [hm, List.nil_append, List.append_assoc] at htext
  obtain ⟨z, hz, -⟩ := exists_append_of_cutMark htext (by decide)
  exact h ⟨z, hz.symm⟩

/-- What starts like a web token is taken for one: two dots of the mark divide it. -/
theorem webToken_kept_of_prefix (hkept : ∀ c ∈ kept, c ∈ valueChars) (h : "eyJ".toList <+: kept)
    (offset : Nat) :
    webToken.replaceFrom (fun _ => "[JWT_MASKED]".toList) (some '=') offset (kept ++ cutMark) =
      "[JWT_MASKED].[truncated]".toList := by
  obtain ⟨x, rfl⟩ := h
  let isPart (c : Char) : Bool := c.isAlphanum || "_-".toList.contains c
  have hparts : ∀ c ∈ valueChars, isPart c = true := by decide
  have hx : ∀ c ∈ x, isPart c = true :=
    fun c hc => hparts c (hkept c (List.mem_append_right _ hc))
  have htext : "eyJ".toList ++ x ++ cutMark =
      "eyJ".toList ++ (x ++ "..".toList) ++ ".[truncated]".toList := by
    rw [List.append_assoc, List.append_assoc, List.append_assoc]
    rfl
  have hedge : wordEdge.ends ⟨some '=', "eyJ".toList ++ (x ++ cutMark), offset, []⟩ =
      [⟨some '=', "eyJ".toList ++ (x ++ cutMark), offset, []⟩] := rfl
  have hlead : (lit "eyJ").ends ⟨some '=', "eyJ".toList ++ (x ++ cutMark), offset, []⟩ =
      [⟨some 'J', x ++ cutMark, offset + 3, []⟩] := rfl
  have hrun := @head?_ends_many_char isPart (some 'J') (offset + 3) [] x cutMark hx rfl
  obtain ⟨others, hothers⟩ := List.head?_eq_some_iff.mp hrun
  have hplace : offset + ("eyJ".toList ++ (x ++ "..".toList)).length =
      offset + 3 + x.length + 1 + 1 := by
    simp
    omega
  have hends : (webToken.ends ⟨some '=', "eyJ".toList ++ (x ++ "..".toList) ++
      ".[truncated]".toList, offset, []⟩).head? =
        some ⟨some '.', ".[truncated]".toList,
          offset + ("eyJ".toList ++ (x ++ "..".toList)).length, []⟩ := by
    rw [← htext, List.append_assoc, hplace, webToken, ends_all_cons, hedge, List.flatMap_singleton,
      ends_all_cons, hlead, List.flatMap_singleton, ends_all_cons, Pattern.star, alphanumericOr,
      hothers, List.head?_flatMap, List.findSome?_cons]
    rfl
  have havoids : webToken.avoids ".[truncated]".toList = true := by decide
  rw [htext, replaceFrom_append_of_match (by simp) (matchAt?_of_head?_ends hends) rfl,
    replaceFrom_of_avoids havoids fun c hc => hc]
  rfl

/-! ### Numbers -/

/-- Groups of digits, between which another character may stand, up to the end of a word. -/
def digitGroups (gap : Char → Bool) : Nat → List Nat → List Pattern
  | size, [] => [times size (.char isDecimalDigit), wordEdge]
  | size, next :: sizes =>
    times size (.char isDecimalDigit) :: opt (.char gap) :: digitGroups gap next sizes

/-- The number of digits in groups of given sizes. -/
def digitCount : Nat → List Nat → Nat
  | size, [] => size
  | size, next :: sizes => size + digitCount next sizes

theorem le_digitCount (size : Nat) (sizes : List Nat) : size ≤ digitCount size sizes := by
  cases sizes with
  | nil => exact Nat.le_refl size
  | cons next sizes => exact Nat.le_add_right size _

/-- Whether a pattern is one for numbers in groups, which what is kept and the mark behind it do not
divide. -/
structure IsNumber (number : Pattern) (gap : Char → Bool) (size : Nat) (sizes : List Nat) :
    Prop where
  eq : number = all (wordEdge :: digitGroups gap size sizes)
  positive : ∀ k ∈ size :: sizes, 0 < k
  gap : ∀ c ∈ valueChars, gap c = false
  dot : number.takesNone ['.'] = true
  mark : number.avoids cutMark = true

theorem isNumber_cardNumber :
    IsNumber cardNumber (fun c => isBlank c || c == '-') 4 [4, 4, 4] :=
  ⟨rfl, by decide, by decide, by decide, by decide⟩

theorem isNumber_nationalId : IsNumber nationalId (fun c => c == '-') 6 [7] :=
  ⟨rfl, by decide, by decide, by decide, by decide⟩

section Numbers

variable {number : Pattern} {gap : Char → Bool} {size : Nat} {sizes : List Nat} {run : List Char}

theorem exists_digitGroups_eq (gap : Char → Bool) (size : Nat) (sizes : List Nat) :
    ∃ front, digitGroups gap size sizes = front ++ [wordEdge] := by
  induction sizes generalizing size with
  | nil => exact ⟨[times size (.char isDecimalDigit)], rfl⟩
  | cons next sizes ih =>
    obtain ⟨front, hfront⟩ := ih next
    refine ⟨times size (.char isDecimalDigit) :: opt (.char gap) :: front, ?_⟩
    rw [digitGroups, hfront]
    rfl

/-- What has nothing between its groups is all digits, as many as the groups have. -/
theorem takes_digitGroups {w : List Char} (hw : (all (digitGroups gap size sizes)).Takes w)
    (hgap : ∀ c ∈ w, gap c = false) :
    w.length = digitCount size sizes ∧ ∀ c ∈ w, isDecimalDigit c = true := by
  induction sizes generalizing size w with
  | nil =>
    obtain ⟨u, _, rfl, hu, rfl⟩ := takes_all_cons.mp hw
    rw [List.append_nil]
    exact takes_times_char hu
  | cons next sizes ih =>
    obtain ⟨u, _, rfl, hu, hlater⟩ := takes_all_cons.mp hw
    obtain ⟨g, v, rfl, hg, hv⟩ := takes_all_cons.mp hlater
    obtain ⟨hlength, hdigits⟩ := takes_times_char hu
    obtain rfl : g = [] := by
      rcases hg with ⟨c, hc, rfl⟩ | rfl
      · exact nomatch (hgap c (by simp)).symm.trans hc
      · rfl
    obtain ⟨hlength', hdigits'⟩ := ih hv fun c hc => hgap c (by simp [hc])
    rw [List.nil_append, List.length_append, hlength, hlength']
    exact ⟨rfl, List.forall_mem_append.mpr ⟨hdigits, hdigits'⟩⟩

/-- Digits of a group, after which no gap comes. -/
theorem ends_digits_gap {rest : List Char} (hrun : ∀ c ∈ run, isDecimalDigit c = true)
    (hrest : rest.head?.any gap = false) (before : Option Char) (offset : Nat)
    (captures : List Capture) :
    (all (times run.length (.char isDecimalDigit) :: opt (.char gap) :: patterns)).ends
        ⟨before, run ++ rest, offset, captures⟩ =
      (all patterns).ends ⟨run.getLast?.or before, rest, offset + run.length, captures⟩ := by
  have hgap : ∀ before offset, (opt (.char gap)).ends ⟨before, rest, offset, captures⟩ =
      [⟨before, rest, offset, captures⟩] := by
    intro before offset
    cases rest with
    | nil => rfl
    | cons c cs =>
      have hc : ¬ gap c = true := by simpa using hrest
      rw [opt, ends_either, ends_char_cons, if_neg hc]
      rfl
  rw [ends_all_cons, ends_times_char hrun, List.flatMap_singleton, ends_all_cons, hgap,
    List.flatMap_singleton]

/-- A number that is all that is kept is taken as a whole. -/
theorem exists_ends_digitGroups (hsizes : ∀ k ∈ size :: sizes, 0 < k)
    (hgap : ∀ c ∈ run, gap c = false) (hword : ∀ c ∈ run, isWordChar c = true)
    (hrun : ∀ c ∈ run, isDecimalDigit c = true) (hlength : run.length = digitCount size sizes)
    (before : Option Char) (offset : Nat) :
    ∃ behind, (all (digitGroups gap size sizes)).ends ⟨before, run ++ cutMark, offset, []⟩ =
      [⟨behind, cutMark, offset + run.length, []⟩] := by
  induction sizes generalizing size run before offset with
  | nil =>
    obtain rfl : run.length = size := hlength
    have hne : run ≠ [] := List.ne_nil_of_length_pos (hsizes _ (.head _))
    have hedge : (run.getLast?.or before).any isWordChar = true := by
      rw [List.getLast?_eq_some_getLast hne]
      exact hword _ (List.getLast_mem hne)
    refine ⟨run.getLast?.or before, ?_⟩
    rw [digitGroups, ends_all_cons, ends_times_char hrun, List.flatMap_singleton, all, wordEdge,
      ends_condition, hedge]
    rfl
  | cons next sizes ih =>
    rw [digitCount] at hlength
    obtain ⟨first, later, rfl, rfl⟩ : ∃ first later, run = first ++ later ∧ first.length = size :=
      ⟨run.take size, run.drop size, (List.take_append_drop size run).symm,
        List.length_take_of_le (by omega)⟩
    obtain ⟨-, hgap⟩ := List.forall_mem_append.mp hgap
    obtain ⟨-, hword⟩ := List.forall_mem_append.mp hword
    obtain ⟨hfirst, hlater⟩ := List.forall_mem_append.mp hrun
    obtain ⟨-, hsizes⟩ := List.forall_mem_cons.mp hsizes
    have hnext : 0 < next := hsizes next (.head sizes)
    rw [List.length_append] at hlength
    have hrest : (later ++ cutMark).head?.any gap = false := by
      cases later with
      | nil =>
        have hle : next ≤ digitCount next sizes := le_digitCount next sizes
        rw [List.length_nil] at hlength
        omega
      | cons c cs => exact hgap c (.head cs)
    rw [digitGroups, List.append_assoc, ends_digits_gap hfirst hrest, List.length_append,
      ← Nat.add_assoc]
    exact ih hsizes hgap hword hlater (by omega) _ _

/-- What is kept stays, unless it is a number as a whole. -/
theorem IsNumber.replaceFrom_of_not_digits (h : IsNumber number gap size sizes)
    (hkept : ∀ c ∈ kept, c ∈ valueChars)
    (hnot : ¬ (kept.length = digitCount size sizes ∧ ∀ c ∈ kept, isDecimalDigit c = true))
    (before : Option Char) (offset : Nat) :
    number.replaceFrom replacement before offset (kept ++ cutMark) = kept ++ cutMark := by
  obtain ⟨rfl, hsizes, hgap, hdot, havoids⟩ := h
  have hsize : 0 < size := hsizes size (.head sizes)
  refine replaceFrom_kept hkept havoids (Option.eq_none_iff_forall_ne_some.mpr ?_)
  intro m hm
  obtain ⟨z, hz, hafter⟩ := exists_of_matchAt?_kept hdot hm
  obtain ⟨_, w, htext, rfl, hw⟩ := takes_all_cons.mp (exists_of_matchAt? hm).1
  rw [List.nil_append] at htext
  rw [htext] at hz
  obtain ⟨hlength, hdigits⟩ := takes_digitGroups hw fun c hc => hgap c (hkept c (by simp [hz, hc]))
  -- The number ends where a word ends, so nothing of what is kept is behind it.
  obtain ⟨front, hfront⟩ := exists_digitGroups_eq gap size sizes
  rw [hfront] at hm
  have hend := @holds_behind_matchAt? (wordEdge :: front) _ _ m hm
  have hle : size ≤ digitCount size sizes := le_digitCount size sizes
  have hne : w ≠ [] := List.ne_nil_of_length_pos (by omega)
  have hword : ∀ c ∈ kept, isWordChar c = true := fun c hc => isWordChar_of_mem (hkept c hc)
  have hlast : isWordChar (w.getLast hne) = true :=
    hword _ (hz ▸ List.mem_append_left z (List.getLast_mem hne))
  cases z with
  | nil =>
    rw [List.append_nil] at hz
    exact hnot (hz ▸ ⟨hlength, hdigits⟩)
  | cons c z =>
    have hc : isWordChar c = true := hword c (by simp [hz])
    rw [hafter, htext, List.getLast?_eq_some_getLast hne] at hend
    simp [hlast, hc] at hend

/-- What is kept is masked if it is a number as a whole. -/
theorem IsNumber.replaceFrom_of_digits (h : IsNumber number gap size sizes)
    (hkept : ∀ c ∈ kept, c ∈ valueChars) (hlength : kept.length = digitCount size sizes)
    (hdigits : ∀ c ∈ kept, isDecimalDigit c = true) (mask : List Char) (offset : Nat) :
    number.replaceFrom (fun _ => mask) (some '=') offset (kept ++ cutMark) = mask ++ cutMark := by
  obtain ⟨rfl, hsizes, hgap, -, havoids⟩ := h
  have hword : ∀ c ∈ kept, isWordChar c = true := fun c hc => isWordChar_of_mem (hkept c hc)
  have hpos : 0 < size := hsizes size (.head sizes)
  have hle : size ≤ digitCount size sizes := le_digitCount size sizes
  have hne : kept ≠ [] := List.ne_nil_of_length_pos (by omega)
  have hedge : wordEdge.ends ⟨some '=', kept ++ cutMark, offset, []⟩ =
      [⟨some '=', kept ++ cutMark, offset, []⟩] := by
    obtain ⟨c, cs, rfl⟩ := List.exists_cons_of_ne_nil hne
    have hequals : isWordChar '=' = false := by decide
    rw [wordEdge, ends_condition]
    simp [hword c (.head cs), hequals]
  obtain ⟨behind, hends⟩ := exists_ends_digitGroups hsizes (fun c hc => hgap c (hkept c hc)) hword
    hdigits hlength (some '=') offset
  have hhead : ((all (wordEdge :: digitGroups gap size sizes)).ends
      ⟨some '=', kept ++ cutMark, offset, []⟩).head? =
        some ⟨behind, cutMark, offset + kept.length, []⟩ := by
    rw [ends_all_cons, hedge, List.flatMap_singleton, hends]
    rfl
  rw [replaceFrom_append_of_match hne (matchAt?_of_head?_ends hhead) rfl,
    replaceFrom_of_avoids havoids fun c hc => hc]

end Numbers

/-- What is left of a password that is cut off is what the later rules make of its start. -/
theorem becomes_remnant (hkept : ∀ c ∈ kept, c ∈ valueChars) :
    Becomes laterRules (kept ++ cutMark) (remnant kept) := by
  -- The masks hold nothing that is masked again.
  have hcard : cardNumber.avoids "[JWT_MASKED].[truncated]".toList = true := by decide
  have hnational : nationalId.avoids "[JWT_MASKED].[truncated]".toList = true := by decide
  have hnational' : nationalId.avoids "[CARD_MASKED]...[truncated]".toList = true := by
    decide
  refine ⟨_, fun offset => bearerToken_kept hkept _ offset, ?_⟩
  rw [remnant]
  split_ifs with hjwt hcardDigits hnationalDigits
  · exact ⟨_, fun offset => webToken_kept_of_prefix hkept hjwt offset,
      _, fun offset => replaceFrom_of_avoids hcard fun c hc => hc,
      _, fun offset => replaceFrom_of_avoids hnational fun c hc => hc, rfl⟩
  · obtain ⟨hlength, hdigits⟩ := hcardDigits
    exact ⟨_, fun offset => webToken_kept_of_not_prefix hkept hjwt _ offset,
      _, fun offset => isNumber_cardNumber.replaceFrom_of_digits hkept hlength hdigits _ offset,
      _, fun offset => replaceFrom_of_avoids hnational' fun c hc => hc, rfl⟩
  · obtain ⟨hlength, hdigits⟩ := hnationalDigits
    exact ⟨_, fun offset => webToken_kept_of_not_prefix hkept hjwt _ offset,
      _, fun offset => isNumber_cardNumber.replaceFrom_of_not_digits hkept hcardDigits _ offset,
      _, fun offset => isNumber_nationalId.replaceFrom_of_digits hkept hlength hdigits _ offset,
      rfl⟩
  · exact ⟨_, fun offset => webToken_kept_of_not_prefix hkept hjwt _ offset,
      _, fun offset => isNumber_cardNumber.replaceFrom_of_not_digits hkept hcardDigits _ offset,
      _, fun offset => isNumber_nationalId.replaceFrom_of_not_digits hkept hnationalDigits _ offset,
      rfl⟩

end Remnant

/-! ## Texts that are cut in a password -/

section Cut

variable {before value value' : List Char}

theorem withPassword_cutMark (before value : List Char) :
    withPassword before value cutMark =
      withPassword before (value ++ "...".toList) "[truncated]".toList := by
  rw [withPassword, withPassword, List.append_assoc]
  rfl

theorem mem_secretChars_cut (hvalue : ∀ c ∈ value, c ∈ valueChars) :
    ∀ c ∈ value ++ "...".toList, c ∈ secretChars :=
  List.forall_mem_append.mpr ⟨fun c hc => mem_secretChars (hvalue c hc), by decide⟩

/-- Two cut texts with a password differ in what is left of it only. -/
theorem exists_mask_cut (hbefore : ∀ c ∈ before.getLast?, isBlank c = true)
    (hvalue : ∀ c ∈ value, c ∈ valueChars) (hvalue' : ∀ c ∈ value', c ∈ valueChars)
    (hlength : value.length = value'.length) (hshort : value.length ≤ 16) :
    ∃ front, mask (withPassword before value cutMark) = front ++ remnant value ∧
      mask (withPassword before value' cutMark) = front ++ remnant value' := by
  have hclosed : ∀ c ∈ before.getLast?, endsValue c = true :=
    fun c hc => endsValue_of_isBlank (hbefore c hc)
  have havoids : email.avoids "[truncated]".toList = true := by decide
  have hmail : ∀ {value : List Char}, (∀ c ∈ value, c ∈ valueChars) →
      email.replace emailMask (withPassword before value cutMark) =
        withPassword (email.replace emailMask before) value cutMark := by
    intro value hvalue
    rw [withPassword_cutMark, withPassword_cutMark,
      email_withPassword (fun _ _ => rfl) hclosed (mem_secretChars_cut hvalue)
        endsValue_of_mem_mark,
      replaceFrom_of_avoids havoids fun c hc => hc]
  rw [mask_eq, mask_eq, hmail hvalue, hmail hvalue', withPassword_cutMark, withPassword_cutMark,
    withPassword, withPassword]
  rw [← getLast?_replace_email hbefore] at hbefore
  generalize email.replace emailMask before = front at hbefore ⊢
  obtain ⟨start, hstart, hstart'⟩ := exists_namedSecret_front hbefore
    (value ++ "...".toList ++ "[truncated]".toList) (value' ++ "...".toList ++ "[truncated]".toList)
  have hword := any_isWordChar_of_blank hbefore
  have hkept : ∀ {value : List Char}, (∀ c ∈ value, c ∈ valueChars) → value.length ≤ 16 →
      laterRules.foldl (fun text rule => rule.pattern.replace rule.mask text)
          (start ++ namedSecret.replaceFrom secretMask front.getLast? front.length
            ("password=".toList ++ (value ++ "...".toList ++ "[truncated]".toList))) =
        laterRules.foldl (fun text rule => rule.pattern.replace rule.mask text)
          (start ++ "password=".toList) ++ remnant value := by
    intro value hvalue hshort
    have hfront : (start ++ "password=".toList).getLast? = some '=' := by simp
    rw [replaceFrom_namedSecret_short hword (by simp; omega) (by simp)
      (mem_secretChars_cut hvalue), List.append_assoc value, ← List.append_assoc start]
    exact foldl_replace_append stopsAtEquals_laterRules hfront (becomes_remnant hvalue)
  rw [hstart, hstart', hkept hvalue hshort, hkept hvalue' (hlength ▸ hshort)]
  exact ⟨_, rfl, rfl⟩

end Cut

end GuestCode.Masking
