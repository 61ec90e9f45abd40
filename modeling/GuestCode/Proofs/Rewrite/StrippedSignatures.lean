import GuestCode.Proofs.Rewrite.StrippedLists

/-!
# Signatures that stay annotated

Signatures are looked for from left to right, and each is passed over as a whole once its parameters
are edited. So a signature that stays annotated stands inside the list of another signature, for
instance in a condition before a brace or in a default, or its list was none of a signature before
the edits, since what follows it has become a result type only by them.

## Main statements

* `Rewrite.AnnotatedAt`: a signature with an annotated parameter.
* `Rewrite.Continues.exists_signature`: a signature is found again with its parameters stripped.
* `Rewrite.Continues.of_annotatedAt`: what stays annotated from a place on.
* `Rewrite.annotatedAt_stripTypes`: what stays annotated when types are stripped.
* `Rewrite.stripTypes_condition`: an annotated function in a condition.
-/

namespace GuestCode.Rewrite

open Text Text.Pattern Grammar

variable {source : List Char} {all edits : List Edit} {look : Segment.Lookback} {start place : Nat}

/-! ## One signature -/

/-- The parameters of a call are edited as the ranges between its marks are. -/
theorem exists_of_arguments {arguments : Arguments}
    (hplace : ⟨place, '('⟩ ∈ codeChars source)
    (h : argumentSpans? source (codeChars source) place = some arguments) :
    ∃ commas, commasIn? 1 (codeFrom source (place + 1)) = some (commas, arguments.close) ∧
      parameterEdits source arguments.spans =
        parameterEdits source (spansBetween source (place + 1) (commas ++ [arguments.close])) := by
  obtain ⟨⟨commas, close⟩, hcommas, heq⟩ := Option.map_eq_some_iff.mp h
  rw [commasIn?_dropWhile hplace] at hcommas
  rw [show ((place : Int) + 1).toNat = place + 1 from rfl] at heq
  dsimp only at heq
  -- A call without arguments has no spans, where there is one empty range between the marks.
  split at heq
  · next first last hspans =>
    split at heq
    · next hempty =>
      subst heq
      refine ⟨commas, hcommas, ?_⟩
      have hslice : Region.slice source first last = [] := by
        rw [beq_iff_eq.mp hempty, Region.slice_self]
      rw [hspans, parameterEdits_cons, hslice]
      rfl
    · subst heq
      exact ⟨commas, hcommas, congrArg _ hspans.symm⟩
  · subst heq
    exact ⟨commas, hcommas, rfl⟩

/-- The parameters of a list that is closed. -/
theorem exists_arguments {commas : List Nat} {close : Nat}
    (hplace : ⟨place, '('⟩ ∈ codeChars source)
    (h : commasIn? 1 (codeFrom source (place + 1)) = some (commas, close)) :
    ∃ arguments, argumentSpans? source (codeChars source) place = some arguments ∧
      arguments.close = close ∧ parameterEdits source arguments.spans =
        parameterEdits source (spansBetween source (place + 1) (commas ++ [close])) := by
  obtain ⟨arguments, harguments⟩ : ∃ arguments,
      argumentSpans? source (codeChars source) place = some arguments := by
    rw [argumentSpans?, commasIn?_dropWhile hplace, h]
    exact ⟨_, rfl⟩
  obtain ⟨commas', hcommas, hspans⟩ := exists_of_arguments hplace harguments
  obtain ⟨rfl, rfl⟩ := Prod.mk.inj (Option.some.inj (h.symm.trans hcommas))
  exact ⟨arguments, harguments, rfl, hspans⟩

/-- No edit stands before a character that is none of the marks of a list. -/
theorem Spaced.succ {low : Nat} {c : Char} (h : Spaced source low edits)
    (hc : source[low]? = some c) (hmark : c ∈ ['\x7b', '=', '>']) :
    Spaced source (low + 1) edits := by
  cases h with
  | nil => exact .nil
  | @cons _ next left e rest hlow stands others =>
    refine .cons (Nat.lt_of_le_of_ne hlow fun heq => ?_) stands others
    have hno : ∀ c ∈ ['\x7b', '=', '>'], c ∉ ['(', ','] ∧ isClosing c = false := by decide
    have hleft : left ∈ codeChars source ∧
        (left.char ∈ ['(', ','] ∨ isClosing left.char = true) := by
      cases stands with
      | parameter stands hleft => exact ⟨stands.left_mem, .inl hleft⟩
      | result hmem hleft => exact ⟨hmem, .inr hleft⟩
    obtain ⟨hmem, hleft⟩ := hleft
    obtain rfl : c = left.char := Option.some.inj
      (hc.symm.trans (heq ▸ (inCode_of_mem_codeChars hmem).2))
    rcases hleft with hleft | hleft
    · exact (hno _ hmark).1 hleft
    · exact nomatch hleft.symm.trans (hno _ hmark).2

/-- The text behind a list up to the body of its signature. -/
theorem drop_of_signatureTail {before : Option Char} {tail : Found}
    (h : signatureTail.matchAt? ⟨before, source.drop start, start, []⟩ = some tail) :
    tail.stop = start + tail.text.length ∧ source.drop start = tail.text ++ tail.after ∧
      source.drop tail.stop = tail.after := by
  obtain ⟨-, htext, hstart⟩ := exists_of_matchAt? h
  have hstop : tail.stop = start + tail.text.length := by rw [Found.stop, hstart]
  refine ⟨hstop, htext, ?_⟩
  rw [hstop, ← List.drop_drop, show source.drop start = _ from htext, List.drop_left]

/-- What starts the body of a signature stays. -/
theorem exists_applyFrom_word {word : String} {low : Nat} {rest : List Char}
    (hword : word ∈ ["\x7b", "=>"]) (htext : source.drop low = word.toList ++ rest)
    (h : Spaced source low edits) :
    ∃ rest', Edit.applyFrom source low edits = word.toList ++ rest' := by
  simp only [List.mem_cons, List.not_mem_nil, or_false] at hword
  rcases hword with rfl | rfl
  · refine ⟨Edit.applyFrom source (low + 1) edits, ?_⟩
    rw [h.applyFrom_eq (Nat.le_succ low) (Nat.le_refl _), Region.slice, htext,
      Nat.succ_eq_add_one, Nat.add_sub_cancel_left]
    rfl
  · have hequals : source[low]? = some '=' := by
      rw [← List.head?_drop, htext]
      rfl
    have hspaced := h.succ hequals (by decide)
    refine ⟨Edit.applyFrom source (low + 2) edits, ?_⟩
    rw [hspaced.applyFrom_eq (show low ≤ low + 2 by omega) (Nat.le_refl _), Region.slice, htext,
      Nat.add_sub_cancel_left]
    rfl

/-- Where the edits of a signature are made, the tail of a signature follows. -/
theorem exists_applyFrom_tail {before : Option Char} {tail : Found}
    (htail : signatureTail.matchAt? ⟨before, source.drop start, start, []⟩ = some tail)
    (h : Spaced source (max start tail.stop) edits) :
    ∃ gap word rest, (∀ c ∈ gap, c = ' ' ∨ c = '\t') ∧ word ∈ ["\x7b", "=>"] ∧
      Edit.applyFrom source start
        ((if (tail.captured 1).isEmpty then [] else [⟨start, tail.stop, [' ']⟩]) ++ edits) =
          gap ++ (word.toList ++ rest) := by
  obtain ⟨hstop, htext, hafter⟩ := drop_of_signatureTail htail
  obtain ⟨word, hword, rest, hrest⟩ := exists_word_after_signatureTail htail
  have hspaced : Spaced source tail.stop edits := h.mono (Nat.le_max_right _ _)
  obtain ⟨rest', hrest'⟩ := exists_applyFrom_word hword (hafter.trans hrest) hspaced
  split
  · next hempty =>
    refine ⟨tail.text, word, rest', spaces_of_signatureTail htail (List.isEmpty_iff.mp hempty),
      hword, ?_⟩
    rw [List.nil_append, hspaced.applyFrom_eq (by omega) (Nat.le_succ _), hrest', Region.slice,
      htext, hstop, Nat.add_sub_cancel_left, List.take_left]
  · refine ⟨[' '], word, rest', by decide, hword, ?_⟩
    rw [List.singleton_append, Edit.applyFrom, hrest', Region.slice_self]
    rfl

/-- A closed list with a body or an arrow behind it is a signature. -/
theorem exists_signatureAt? {arguments : Arguments} {gap rest : List Char} {word : String}
    (h : argumentSpans? source (codeChars source) place = some arguments)
    (hgap : ∀ c ∈ gap, c = ' ' ∨ c = '\t') (hword : word ∈ ["\x7b", "=>"])
    (htext : source.drop (arguments.close + 1) = gap ++ (word.toList ++ rest)) :
    ∃ tail, signatureAt? source (codeChars source) place = some (arguments, tail) := by
  obtain ⟨tail, htail⟩ := Option.ne_none_iff_exists'.mp
    (@signatureTail_ne_none source[arguments.close]? gap rest (arguments.close + 1) _ hgap hword)
  refine ⟨tail, ?_⟩
  rw [signatureAt?, h]
  dsimp only
  rw [htext, htail]
  rfl

/-- Behind its list, a signature is read on from the body at the latest. -/
theorem Continues.exists_behind {arguments : Arguments} {tail : Found} {c : Char} {close : Nat}
    {later : List Edit}
    (h : Continues source all
      ((if (tail.captured 1).isEmpty then []
        else [⟨arguments.close + 1, tail.stop, [' ']⟩]) ++ later)
      (.mark c) (arguments.close + 1) (close + 1))
    (hclose : ⟨arguments.close, c⟩ ∈ codeChars source) (hc : isClosing c = true)
    (hmem : ⟨close, c⟩ ∈ codeChars (Edit.applyAll all source))
    (htail : signatureTail.matchAt? ⟨source[arguments.close]?, source.drop (arguments.close + 1),
      arguments.close + 1, []⟩ = some tail)
    (hlater : Spaced source (max (arguments.close + 1) tail.stop) later)
    (htidy : ∀ e ∈ all, TidyEdit source e) :
    ∃ look start place, Continues source all later look start place ∧
      (∀ k, close ≤ k → ⟨k, '('⟩ ∈ codeChars (Edit.applyAll all source) → place ≤ k) ∧
      ∀ k, ⟨k, '('⟩ ∈ codeChars source →
        (start ≤ k ↔ max (arguments.close + 1) tail.stop ≤ k) := by
  obtain ⟨output, houtput⟩ : ∃ output, Edit.applyAll all source = output := ⟨_, rfl⟩
  rw [houtput] at hmem ⊢
  obtain ⟨hstop, htext, hafter⟩ := drop_of_signatureTail htail
  have hbracket : ⟨close, '('⟩ ∉ codeChars output := fun hopening => by
    obtain rfl : c = '(' := congrArg Placed.char (eq_of_mem_codeChars hmem hopening rfl)
    cases hc
  split at h
  · next hempty =>
    have hspaces := spaces_of_signatureTail htail (List.isEmpty_iff.mp hempty)
    refine ⟨_, _, _, h, fun k hle hk => ?_, fun k hk => ⟨fun hle => Nat.max_le.mpr ⟨hle, ?_⟩,
      fun hle => (Nat.le_max_left _ _).trans hle⟩⟩
    · exact Nat.lt_of_le_of_ne hle fun heq => hbracket (heq ▸ hk)
    · -- Only spaces stand before the body.
      refine Nat.le_of_not_lt fun hlt => ?_
      have hchar := (inCode_of_mem_codeChars hk).2
      rw [← Nat.add_sub_cancel' hle, ← List.getElem?_drop, htext,
        List.getElem?_append_left (by omega)] at hchar
      rcases hspaces '(' (List.mem_of_getElem? hchar) with hspace | hspace
      · cases hspace
      · cases hspace
  · obtain ⟨c', rest, hrest, hc'⟩ := exists_after_signatureTail htail
    have hnext : source[tail.stop]? = some c' := by
      rw [← List.head?_drop, hafter, hrest]
      rfl
    have hstands := EditStands.result hclose hc (by dsimp only; omega) hnext hc'
    obtain ⟨done, hall, -⟩ := h.done
    obtain ⟨right, hplace, hjoins⟩ := hstands.joins
      (htidy _ (hall ▸ List.mem_append_right done (.head _))).toSoundEdit
    have hreaches := h.edited hjoins (hplace ▸ hlater.mono (Nat.le_max_right _ _))
    have hinner : Region.slice source (arguments.close + 1) (arguments.close + 1) ++
        ([' '] ++ Region.slice source tail.stop right.place) = [' '] := by
      rw [hplace, Region.slice_self, Region.slice_self]
      rfl
    dsimp only at hreaches
    rw [hinner] at hreaches
    have hblank := hreaches.text_eq
    have hright := hreaches.mem
    rw [houtput] at hblank hright
    -- What starts the body is no parenthesis.
    have hbody : ∀ {k}, ⟨k, '('⟩ ∈ codeChars source → k ≠ tail.stop := by
      rintro k hk rfl
      obtain rfl : '(' = c' := Option.some.inj ((inCode_of_mem_codeChars hk).2.symm.trans hnext)
      exact absurd hc' (by decide)
    refine ⟨_, _, _, hreaches.next, fun k hle hk => ?_, fun k hk => ?_⟩
    · by_contra hlt
      have hcases : k = close ∨ k = close + 1 ∨ k = close + 1 + 1 := by
        simp only [List.length_singleton] at hlt
        omega
      rcases hcases with rfl | rfl | rfl
      · exact hbracket hk
      · have hchar := congrArg List.head? hblank
        rw [Region.slice, List.head?_take, if_neg (by simp), List.head?_drop,
          (inCode_of_mem_codeChars hk).2] at hchar
        cases hchar
      · have hchar : right.char = '(' := congrArg Placed.char (eq_of_mem_codeChars hright hk rfl)
        exact hbody (hchar ▸ hjoins.right_mem) hplace
    · have hne := hbody hk
      omega

/-! ## Signatures with annotations -/

/-- A parenthesis that starts a signature, whose parameters are all stripped. -/
def StrippedAt (source : List Char) (place : Nat) (arguments : Arguments) : Prop :=
  ⟨place, '('⟩ ∈ codeChars source ∧
    (∃ tail, signatureAt? source (codeChars source) place = some (arguments, tail)) ∧
    ∀ parameter ∈ arguments.texts source, stripParameter parameter = parameter

/-- A parenthesis that starts a signature, some parameter of which is annotated. -/
def AnnotatedAt (source : List Char) (place : Nat) : Prop :=
  ⟨place, '('⟩ ∈ codeChars source ∧ ∃ signature ∈ signatureAt? source (codeChars source) place,
    ∃ parameter ∈ signature.1.texts source, stripParameter parameter ≠ parameter

instance (source : List Char) (place : Nat) : Decidable (AnnotatedAt source place) :=
  inferInstanceAs (Decidable (_ ∧ ∃ signature ∈ signatureAt? source (codeChars source) place,
    ∃ parameter ∈ signature.1.texts source, stripParameter parameter ≠ parameter))

theorem forall_texts_of_parameterEdits {arguments : Arguments}
    (h : parameterEdits source arguments.spans = []) :
    ∀ parameter ∈ arguments.texts source, stripParameter parameter = parameter := by
  intro parameter hparameter
  obtain ⟨span, hspan, rfl⟩ := List.mem_map.mp hparameter
  have hnone := List.filterMap_eq_nil_iff.mp h span hspan
  dsimp only at hnone
  split at hnone
  · next hsame => exact beq_iff_eq.mp hsame
  · cases hnone

theorem StrippedAt.not_annotatedAt {arguments : Arguments} (h : StrippedAt source place arguments) :
    ¬AnnotatedAt source place := by
  rintro ⟨-, ⟨arguments', tail'⟩, hsignature, parameter, hparameter, hne⟩
  obtain ⟨-, ⟨tail, hsignature'⟩, hstripped⟩ := h
  obtain ⟨rfl, -⟩ := Prod.mk.inj (Option.some.inj (hsignature'.symm.trans hsignature))
  exact hne (hstripped parameter hparameter)

/-- The parameters of a signature are stripped, and what follows is read on. -/
theorem Continues.exists_signature {opening opening' : Nat} {arguments : Arguments} {tail : Found}
    {later : List Edit}
    (h : Continues source all (parameterEdits source arguments.spans ++
      (if (tail.captured 1).isEmpty then []
        else [⟨arguments.close + 1, tail.stop, [' ']⟩]) ++ later)
      (.mark '(') (opening + 1) (opening' + 1))
    (hmem : ⟨opening, '('⟩ ∈ codeChars source)
    (hmem' : ⟨opening', '('⟩ ∈ codeChars (Edit.applyAll all source))
    (hsignature : signatureAt? source (codeChars source) opening = some (arguments, tail))
    (hlater : Spaced source (max (arguments.close + 1) tail.stop) later)
    (htidy : ∀ e ∈ all, TidyEdit source e) :
    ∃ arguments', StrippedAt (Edit.applyAll all source) opening' arguments' ∧
      ∃ look start place, Continues source all later look start place ∧
        (∀ k, arguments'.close ≤ k → ⟨k, '('⟩ ∈ codeChars (Edit.applyAll all source) → place ≤ k) ∧
        ∀ k, ⟨k, '('⟩ ∈ codeChars source →
          (start ≤ k ↔ max (arguments.close + 1) tail.stop ≤ k) := by
  obtain ⟨harguments, htail⟩ := exists_of_signatureAt? hsignature
  obtain ⟨commas, hcommas, hspans⟩ := exists_of_arguments hmem harguments
  obtain ⟨before, after, hcode, -⟩ := dropWhile_codeChars hmem
  obtain ⟨c, hc, hchain⟩ := isChain_adjacent_of_commasIn? hcode (by
    rw [← codeFrom_succ hcode]
    exact hcommas)
  have hclose := (mem_of_isChain hchain ⟨arguments.close, c⟩ (by simp)).1
  rw [hspans, List.append_assoc] at h
  -- The list is found again, and behind it the tail, so this is a signature once more.
  obtain ⟨commas', close', hlist, hnone, -, hclose', hnext⟩ :=
    @Continues.exists_list source all (opening' + 1) ⟨opening, '('⟩ ⟨arguments.close, c⟩ commas _ h
      (.head _) hc hchain hcommas (spaced_result hclose hc htail hlater) htidy
  obtain ⟨arguments', harguments', rfl, hspans'⟩ := exists_arguments hmem' hlist
  obtain ⟨gap, word, rest, hgap, hword, htext⟩ := exists_applyFrom_tail htail hlater
  have hsignature' := exists_signatureAt? harguments' hgap hword (hnext.text.trans htext)
  exact ⟨arguments', ⟨hmem', hsignature', forall_texts_of_parameterEdits (hspans'.trans hnone)⟩,
    hnext.exists_behind hclose hc hclose' htail hlater htidy⟩

/-- A place inside the list of a signature whose parameters are all stripped. -/
def InsideStripped (source : List Char) (place : Nat) : Prop :=
  ∃ opening arguments, StrippedAt source opening arguments ∧ opening < place ∧
    place < arguments.close

/-- A place of a stripped snippet that is that of a parenthesis of the snippet which starts no
signature there: up to it some edits are made, and the others come later. -/
def Overlooked (source : List Char) (place : Nat) : Prop :=
  ∃ opening done left, ⟨opening, '('⟩ ∈ codeChars source ∧
    signatureAt? source (codeChars source) opening = none ∧
    allSignatureEdits source = done ++ left ∧ (∀ e ∈ done, e.stop ≤ opening) ∧
    (∀ e ∈ left, opening < e.start) ∧
    (stripSignatures source).drop place = Edit.applyFrom source opening left

theorem Spaced.lt_start {low : Nat} (h : Spaced source low edits) : ∀ e ∈ edits, low < e.start := by
  induction h with
  | nil => simp
  | cons low_le stands others ih =>
    refine List.forall_mem_cons.mpr ⟨Nat.lt_of_le_of_lt low_le stands.lt_start, fun e he => ?_⟩
    exact Nat.lt_trans (Nat.lt_of_le_of_lt low_le stands.lt) (ih e he)

/-- No parenthesis of code stands before the first of those that are left. -/
theorem Reaches.le_of_opening {opening : Placed} {rest : List Placed} {k : Nat}
    (h : Reaches source all edits place (Region.slice source start opening.place)
      (codeBetween source start opening.place) opening)
    (hordered : (opening :: rest).Pairwise fun p q => p.place < q.place)
    (hcover : ∀ k, start ≤ k → ⟨k, '('⟩ ∈ codeChars source → ⟨k, '('⟩ ∈ opening :: rest)
    (hk : place ≤ k) (hmem : ⟨k, '('⟩ ∈ codeChars (Edit.applyAll all source)) :
    place + (Region.slice source start opening.place).length ≤ k := by
  by_contra hlt
  have hbetween : '(' ∈ codeBetween source start opening.place := by
    rw [← h.code_eq]
    refine List.mem_map.mpr ⟨⟨k, '('⟩, List.mem_filter.mpr ⟨hmem, ?_⟩, rfl⟩
    rw [Bool.and_eq_true, decide_eq_true_eq, decide_eq_true_eq]
    exact ⟨hk, Nat.lt_of_not_le hlt⟩
  obtain ⟨⟨k', c⟩, hk', rfl⟩ := List.mem_map.mp hbetween
  obtain ⟨hmem', hplace⟩ := List.mem_filter.mp hk'
  rw [Bool.and_eq_true, decide_eq_true_eq, decide_eq_true_eq] at hplace
  dsimp only at hplace hmem'
  rcases List.mem_cons.mp (hcover k' hplace.1 hmem') with heq | hrest
  · rw [← heq] at hplace
    exact Nat.lt_irrefl _ hplace.2
  · exact Nat.lt_asymm hplace.2 ((List.pairwise_cons.mp hordered).1 _ hrest)

/-- The edits that are left are among all edits. -/
theorem Continues.mem_of_mem {e : Edit} (h : Continues source all edits look start place)
    (he : e ∈ edits) : e ∈ all := by
  obtain ⟨done, hall, -⟩ := h.done
  exact hall ▸ List.mem_append_right done he

/-- The edits of signatures whose parentheses are not before a place. -/
theorem spaced_signatureEdits_of_ordered {opening : Placed} {rest : List Placed} {threshold : Nat}
    (hopenings : ∀ p ∈ opening :: rest, p ∈ codeChars source ∧ p.char = '(')
    (hordered : (opening :: rest).Pairwise fun p q => p.place < q.place) :
    Spaced source opening.place
        (signatureEdits source (codeChars source) threshold (opening :: rest)) ∧
      Spaced source opening.place (signatureEdits source (codeChars source) threshold rest) := by
  obtain ⟨hfirst, -⟩ := List.pairwise_cons.mp hordered
  have hlow : ∀ p ∈ opening :: rest, p ∈ codeChars source ∧ p.char = '(' ∧
      opening.place ≤ p.place := by
    intro p hp
    obtain ⟨hmem, hchar⟩ := hopenings p hp
    refine ⟨hmem, hchar, ?_⟩
    rcases List.mem_cons.mp hp with rfl | hp
    · exact Nat.le_refl _
    · exact Nat.le_of_lt (hfirst p hp)
  exact ⟨(spaced_signatureEdits hlow).mono (Nat.le_max_left _ _),
    (spaced_signatureEdits (List.forall_mem_cons.mp hlow).2).mono (Nat.le_max_left _ _)⟩

/-- A parenthesis that starts no signature, where it is found after the edits. -/
theorem Reaches.overlooked {opening : Placed}
    (h : Reaches source (allSignatureEdits source) edits place
      (Region.slice source start opening.place) (codeBetween source start opening.place) opening)
    (hbefore : Continues source (allSignatureEdits source) edits look start place)
    (hmem : opening ∈ codeChars source) (hchar : opening.char = '(')
    (hstart : start ≤ opening.place) (hspaced : Spaced source opening.place edits)
    (hnone : signatureAt? source (codeChars source) opening.place = none) :
    Overlooked source (place + (Region.slice source start opening.place).length) := by
  obtain ⟨done, hall, hdone⟩ := hbefore.done
  refine ⟨opening.place, done, edits, hchar ▸ hmem, hnone, hall,
    fun e he => (hdone e he).trans hstart, hspaced.lt_start, ?_⟩
  rw [hspaced.applyFrom_mark hmem (Nat.le_refl _), Region.slice_self, List.nil_append,
    ← h.next.text]
  exact drop_of_mem_codeChars h.mem

/-- What is left of annotated signatures from a place on. -/
theorem Continues.of_annotatedAt {openings : List Placed} {threshold : Nat}
    (h : Continues source (allSignatureEdits source)
      (signatureEdits source (codeChars source) threshold openings) look start place)
    (hopenings : ∀ p ∈ openings, p ∈ codeChars source ∧ p.char = '(')
    (hordered : openings.Pairwise fun p q => p.place < q.place)
    (hcover : ∀ k, start ≤ k → ⟨k, '('⟩ ∈ codeChars source → ⟨k, '('⟩ ∈ openings)
    (hthreshold : ∀ p ∈ openings, (start ≤ p.place ↔ threshold ≤ p.place))
    (htidy : ∀ e ∈ allSignatureEdits source, TidyEdit source e) {k : Nat} (hk : place ≤ k)
    (hannotated : AnnotatedAt (stripSignatures source) k) :
    InsideStripped (stripSignatures source) k ∨ Overlooked source k := by
  have hmark : isMark '(' = true := by decide +kernel
  -- By the parentheses of the snippet, as the edits of signatures are collected from them.
  fun_induction signatureEdits source (codeChars source) threshold openings
    generalizing look start place with
  | case1 =>
    -- Behind the last parenthesis of the snippet there is none after the edits either.
    exfalso
    obtain ⟨front, -, hcode⟩ := h.before.code
    have hmem := h.after.mem hannotated.1 hk
    rw [h.text, Edit.applyFrom] at hmem
    refine List.not_mem_nil (hcover (start + (k - place)) (Nat.le_add_right _ _) ?_)
    rw [hcode]
    exact List.mem_append_right _ (List.mem_map_of_mem hmem)
  | case2 threshold opening rest hlt ih =>
    -- A parenthesis that has been passed over with a list.
    obtain ⟨hopening, hrest⟩ := List.forall_mem_cons.mp hthreshold
    refine ih h (List.forall_mem_cons.mp hopenings).2 (List.pairwise_cons.mp hordered).2 ?_ hrest hk
    intro k hk hmem
    refine (List.mem_cons.mp (hcover k hk hmem)).resolve_left fun heq => ?_
    rw [← heq] at hlt hopening
    exact absurd (hopening.mp hk) (Nat.not_le_of_lt hlt)
  | case3 threshold opening rest hle hnone ih =>
    -- A parenthesis that starts no signature: it is the annotated one, or that comes later.
    obtain ⟨⟨hmem, hchar⟩, hothers⟩ := List.forall_mem_cons.mp hopenings
    obtain ⟨hopening, hrest⟩ := List.forall_mem_cons.mp hthreshold
    obtain ⟨hfirst, hordered'⟩ := List.pairwise_cons.mp hordered
    have hstart := hopening.mpr (Nat.le_of_not_lt hle)
    have hspaced := (@spaced_signatureEdits_of_ordered _ _ _ threshold hopenings hordered).2
    have hreaches := h.copied hmem (hchar ▸ hmark) hstart hspaced
      fun e he => (htidy e (h.mem_of_mem he)).toSoundEdit
    have hreached := hreaches.le_of_opening hordered hcover hk hannotated.1
    rcases Nat.eq_or_lt_of_le hreached with rfl | hlt
    · exact .inr (hreaches.overlooked h hmem hchar hstart hspaced hnone)
    · refine ih hreaches.next hothers hordered' (fun k hk hk' => ?_) (fun p hp => ?_) hlt
      · refine (List.mem_cons.mp (hcover k (by omega) hk')).resolve_left fun heq => ?_
        rw [← heq] at hk
        exact Nat.lt_irrefl _ hk
      · have hlt := hfirst p hp
        omega
  | case4 threshold opening rest hle arguments tail hsignature result =>
    rename_i ih
    -- A signature: the annotated parenthesis is not its own, but stands in its list or after it.
    obtain ⟨⟨hmem, hchar⟩, hothers⟩ := List.forall_mem_cons.mp hopenings
    obtain ⟨hopening, hrest⟩ := List.forall_mem_cons.mp hthreshold
    obtain ⟨hfirst, hordered'⟩ := List.pairwise_cons.mp hordered
    have hstart := hopening.mpr (Nat.le_of_not_lt hle)
    have hspaced := (@spaced_signatureEdits_of_ordered _ _ _ threshold hopenings hordered).1
    rw [signatureEdits, if_neg hle, hsignature] at hspaced
    have hreaches := h.copied hmem (hchar ▸ hmark) hstart hspaced
      fun e he => (htidy e (h.mem_of_mem he)).toSoundEdit
    obtain ⟨opening, c⟩ := opening
    obtain rfl : c = '(' := hchar
    have hlater := (@spaced_signatureEdits source 0 (max (arguments.close + 1) tail.stop) rest
      fun p hp => ⟨(hothers p hp).1, (hothers p hp).2, Nat.zero_le _⟩).mono (Nat.le_max_right _ _)
    obtain ⟨arguments', hstripped, look', start', place', hnext, hbehind, hiff⟩ :=
      hreaches.next.exists_signature hmem hreaches.mem hsignature hlater htidy
    have hreached := hreaches.le_of_opening hordered hcover hk hannotated.1
    rcases Nat.eq_or_lt_of_le hreached with rfl | hlt
    · exact absurd hannotated hstripped.not_annotatedAt
    rcases Nat.lt_or_ge k arguments'.close with hinside | houtside
    · exact .inl ⟨_, arguments', hstripped, hlt, hinside⟩
    · refine ih hnext hothers hordered' (fun k hk hk' => ?_) (fun p hp => ?_)
        (hbehind k houtside hannotated.1)
      · obtain ⟨-, -, -, hclose⟩ := exists_close hmem (exists_of_signatureAt? hsignature).1
        have hle := (Nat.le_max_left _ _).trans ((hiff k hk').mp hk)
        dsimp only at hstart
        refine (List.mem_cons.mp (hcover k (by omega) hk')).resolve_left fun heq => ?_
        obtain rfl := (Placed.mk.inj heq).1
        omega
      · obtain ⟨hpmem, hpchar⟩ := hothers p hp
        exact hiff p.place (by rw [← hpchar]; exact hpmem)

/-- A signature with an annotated parameter that is left stands inside the list of a signature, or
its parenthesis starts none before the edits. -/
theorem of_annotatedAt_stripSignatures (htidy : ∀ e ∈ allSignatureEdits source, TidyEdit source e)
    (h : AnnotatedAt (stripSignatures source) place) :
    InsideStripped (stripSignatures source) place ∨ Overlooked source place := by
  have hstart : Continues source (allSignatureEdits source) (allSignatureEdits source) .start 0 0 :=
    ⟨⟨[], rfl, nofun⟩, resumes_start source, resumes_start _, rfl⟩
  refine hstart.of_annotatedAt (fun p hp => ?_) ((pairwise_codeChars source).filter _)
    (fun k _ hk => List.mem_filter.mpr ⟨hk, rfl⟩) (fun _ _ => Iff.rfl) htidy (Nat.zero_le _) h
  obtain ⟨hmem, hchar⟩ := List.mem_filter.mp hp
  exact ⟨hmem, beq_iff_eq.mp hchar⟩

/-! ## Stripped types -/

/-- Which annotated parameters are left when types are stripped, if all edits are tidy and no cast
is removed from what is left: those of signatures inside the list of another signature, which are
passed over with that list, and those of lists in parentheses that are no signatures before the
edits. -/
theorem annotatedAt_stripTypes {codeOnly : Bool}
    (htidy : ∀ e ∈ allSignatureEdits (withoutDeclarations codeOnly source),
      TidyEdit (withoutDeclarations codeOnly source) e)
    (hcasts : stripTypes codeOnly source = stripSignatures (withoutDeclarations codeOnly source))
    (h : AnnotatedAt (stripTypes codeOnly source) place) :
    InsideStripped (stripTypes codeOnly source) place ∨
      Overlooked (withoutDeclarations codeOnly source) place := by
  rw [hcasts] at h ⊢
  exact of_annotatedAt_stripSignatures htidy h

theorem annotatedAt_stripTypes_default :
    let source := "const g = (a: A, b = (c: C) => c) => a;".toList
    (∀ e ∈ allSignatureEdits (withoutDeclarations true source),
      TidyEdit (withoutDeclarations true source) e) ∧
      stripTypes true source = "const g = (a, b = (c: C) => c) => a;".toList ∧
      AnnotatedAt (stripTypes true source) 18 ∧
      (InsideStripped (stripTypes true source) 18 ∨
        Overlooked (withoutDeclarations true source) 18) := by
  intro source
  have hsource : withoutDeclarations true source = source := by decide +kernel
  have hedits : allSignatureEdits source = [⟨11, 15, ['a']⟩] := by decide +kernel
  have hplain : ∀ c ∈ source, c ∉ Segment.openers := by decide
  have htidy : ∀ e ∈ allSignatureEdits (withoutDeclarations true source),
      TidyEdit (withoutDeclarations true source) e := by
    rw [hsource, hedits, List.forall_mem_singleton]
    exact ⟨⟨selfContained_of_plain fun c hc => hplain c (List.mem_of_mem_take hc),
      ⟨(selfContained_of_plain (by decide)).mono fun _ _ => rfl, by decide +kernel⟩, nofun⟩,
      by decide +kernel⟩
  have hresult : stripTypes true source = "const g = (a, b = (c: C) => c) => a;".toList := by
    decide +kernel
  have hcasts : stripTypes true source = stripSignatures (withoutDeclarations true source) := by
    decide +kernel
  have hannotated : AnnotatedAt (stripTypes true source) 18 := by
    rw [hresult]
    decide +kernel
  exact ⟨htidy, hresult, hannotated, annotatedAt_stripTypes htidy hcasts hannotated⟩

/-- A list that is the middle of a conditional becomes that of a signature when the parameter after
the colon is stripped. -/
example :
    let output := "c ? (p: A) : (b) => e".toList
    stripTypes true "c ? (p: A) : (b: Foo<X = Y>) => e".toList = output ∧
      AnnotatedAt output 4 := by
  decide +kernel

/-- A parenthesis that follows a condition closes the list of a signature if a brace comes next, and
so an annotated function in the condition stays annotated. -/
theorem stripTypes_condition :
    let source := "if (f((x: T) => x)) {}".toList
    ∀ codeOnly,
      stripTypes codeOnly source = source ∧ AnnotatedAt (stripTypes codeOnly source) 6 := by
  decide +kernel

end GuestCode.Rewrite
