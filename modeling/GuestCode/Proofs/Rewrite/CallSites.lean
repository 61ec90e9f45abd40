import GuestCode.Proofs.Rewrite.ObjectCalls
import GuestCode.Proofs.Snippet.Lookup

/-!
# Where rewritten calls stand

A positional call is rewritten if its parenthesis is code and its first argument does not start with
a brace. So the call is all code if it starts in code; otherwise a comment or a literal that is
broken off by the end of its line reaches into it. And the first argument is no object unless a
comment stands before the object.

## Main statements

* `Rewrite.exists_isRewritten`: every edit is that of such a call.
* `Rewrite.takes_fileCall`: what the text of a call is like.
* `Rewrite.exists_of_trimSpan_lt`: a trimmed range does not start with a blank.
* `Rewrite.isRewritten_site`: where a rewritten call and its first argument stand.
-/

namespace GuestCode.Rewrite

open Text Text.Pattern Grammar

variable {source : List Char}

/-- A call that is rewritten, with its arguments. -/
structure IsRewritten (source : List Char) (call : Found) (arguments : Arguments) : Prop where
  found : call ∈ fileCall.findAll source
  edited : ∃ e ∈ callEdits source,
    positionalEdit? source (Region.ofSource source) (codeChars source) call = some e
  arguments_eq : argumentSpans? source (codeChars source) (call.stop - 1 : Nat) = some arguments

/-- Every edit is that of a call that is rewritten. -/
theorem exists_isRewritten {e : Edit} (he : e ∈ callEdits source) :
    ∃ call arguments, IsRewritten source call arguments ∧ e.start = call.stop - 1 + 1 := by
  obtain ⟨call, hcall, arguments, hedit, hedits⟩ := (pairwise_callEdits source).2 e he
  refine ⟨call, arguments, ⟨hcall, ⟨e, he, hedit⟩, hedits.arguments_eq⟩, ?_⟩
  rw [hedits.edit_eq]

/-- The first character of a range that is neither a blank nor in a comment. -/
def firstMeaningful? (source : List Char) (start stop : Nat) : Option Kinded :=
  (((kinded source).take stop).drop start).find? fun k => !isBlank k.char && !k.kind.isComment

/-! ## The call -/

/-- The text of a call starts with the name of the capability, ends with the parenthesis, and opens no
comment or literal. -/
theorem takes_fileCall {w : List Char} (h : fileCall.Takes w) :
    "filesystem".toList <+: w ∧ (∃ u, w = u ++ ['(']) ∧ ∀ c ∈ w, c ∉ Segment.openers := by
  refine ⟨?_, exists_of_takes_fileCall h, not_mem_of_takes_all (by decide +kernel) h⟩
  obtain ⟨u, v, rfl, rfl, hv⟩ := takes_all_cons.mp h
  obtain ⟨name, rest, rfl, hname, -⟩ := takes_all_cons.mp hv
  exact takes_lit.mp hname ▸ List.prefix_append _ _

theorem exists_of_positionalEdit? {call : Found} {e : Edit}
    (h : positionalEdit? source (Region.ofSource source) (codeChars source) call = some e) :
    isCodeAt (Region.ofSource source) (call.stop - 1 : Nat) = true ∧
      ∃ arguments, argumentSpans? source (codeChars source) (call.stop - 1 : Nat) = some arguments ∧
        arePositional (arguments.texts source) = true := by
  rw [positionalEdit?] at h
  dsimp only at h
  split at h
  · next hcode =>
    split at h
    · cases h
    next arguments harguments =>
    split at h
    · next hpositional => exact ⟨hcode, arguments, harguments, hpositional⟩
    · cases h
  · cases h

/-! ## The first argument -/

/-- A range that is not blank does not start with a blank once it is trimmed. -/
theorem exists_of_trimSpan_lt {start stop : Nat}
    (h : (trimSpan source start stop).1 < (trimSpan source start stop).2) :
    ∃ c, source[(trimSpan source start stop).1]? = some c ∧ isBlank c = false := by
  obtain ⟨inner, hinner⟩ : ∃ inner, Region.slice source start stop = inner := ⟨_, rfl⟩
  dsimp only [trimSpan] at h ⊢
  rw [hinner] at h ⊢
  -- What is left without the blanks in front is not empty, else the range would be.
  obtain ⟨c, cs, hrest⟩ : ∃ c cs, inner.dropWhile isBlank = c :: cs := by
    refine List.exists_cons_of_ne_nil fun hnil => ?_
    rw [hnil, List.length_nil] at h
    omega
  have hdivide : inner.takeWhile isBlank ++ c :: cs = inner :=
    hrest ▸ List.takeWhile_append_dropWhile
  obtain ⟨others, hothers⟩ : inner <+: source.drop start := hinner ▸ List.take_prefix _ _
  refine ⟨c, ?_, ?_⟩
  · have hsource : source.drop start = inner.takeWhile isBlank ++ c :: (cs ++ others) := by
      conv_lhs => rw [← hothers, ← hdivide]
      rw [List.append_assoc, List.cons_append]
    rw [← List.getElem?_drop, hsource, List.getElem?_append_right (Nat.le_refl _), Nat.sub_self]
    rfl
  · have hhead := List.head?_dropWhile_not isBlank inner
    rw [hrest] at hhead
    simpa using hhead

/-- The first positional argument starts with a character that is neither a blank nor a brace. -/
theorem exists_first_argument {place : Nat} {arguments : Arguments}
    (h : argumentSpans? source (codeChars source) place = some arguments)
    (hpositional : arePositional (arguments.texts source) = true) :
    ∃ first rest c, arguments.spans = first :: rest ∧ first.1 < first.2 ∧
      source[first.1]? = some c ∧ isBlank c = false ∧ c ≠ '\x7b' := by
  obtain ⟨commas, -, hspans⟩ := exists_of_argumentSpans? h
  rcases hspans with hnil | hspans
  · rw [Arguments.texts, hnil] at hpositional
    cases hpositional
  obtain ⟨boundary, rest, hfirst⟩ : ∃ boundary rest,
      arguments.spans = trimSpan source (place + 1) boundary :: rest := by
    rw [hspans]
    cases commas with
    | nil => exact ⟨_, _, rfl⟩
    | cons => exact ⟨_, _, rfl⟩
  obtain ⟨⟨low, high⟩, hspan⟩ : ∃ first, trimSpan source (place + 1) boundary = first := ⟨_, rfl⟩
  rw [hspan] at hfirst
  rw [Arguments.texts, hfirst, List.map_cons, arePositional, Bool.and_eq_true, Bool.and_eq_true,
    bne_iff_ne] at hpositional
  dsimp only at hpositional
  obtain ⟨⟨hne, hbrace⟩, -⟩ := hpositional
  have hlt : low < high := by
    refine Nat.lt_of_not_le fun hle => ?_
    rw [Region.slice, Nat.sub_eq_zero_of_le hle, List.take_zero] at hne
    cases hne
  obtain ⟨c, hc, hblank⟩ := @exists_of_trimSpan_lt source (place + 1) boundary (by rwa [hspan])
  rw [hspan] at hc
  refine ⟨(low, high), rest, c, hfirst, hlt, hc, hblank, ?_⟩
  rintro rfl
  refine hbrace ?_
  rw [Region.slice, List.head?_take, if_neg (by omega), List.head?_drop, hc]

theorem firstMeaningful?_eq {start stop : Nat} {k : Kinded} (hlt : start < stop)
    (hk : (kinded source)[start]? = some k) (hblank : isBlank k.char = false)
    (hcomment : k.kind.isComment = false) : firstMeaningful? source start stop = some k := by
  have htake : ((kinded source).take stop)[start]? = some k := by
    rw [List.getElem?_take_of_lt hlt, hk]
  obtain ⟨hlength, hget⟩ := List.getElem?_eq_some_iff.mp htake
  rw [firstMeaningful?, List.drop_eq_getElem_cons hlength, hget, List.find?_cons_of_pos]
  rw [hblank, hcomment]
  rfl

/-- A call that is rewritten starts with the name of the capability and ends with a parenthesis of
code. It is code from an edge on, which is its start if it starts in code, and else the end of a
comment or a literal that starts before the call. Its first argument starts with a character that is
neither a blank nor a brace, so unless this is in a comment, the first character that is neither a
blank nor in a comment is no brace. -/
theorem isRewritten_site {call : Found} {arguments : Arguments}
    (h : IsRewritten source call arguments) :
    "filesystem".toList <+: source.drop call.start ∧ source[call.stop - 1]? = some '(' ∧
    (isCodeAt (Region.ofSource source) call.start = true → AllCode source call.start call.stop) ∧
    (∃ edge, call.start ≤ edge ∧ edge < call.stop ∧ AllCode source edge call.stop ∧
      (call.start < edge → ∃ r ∈ Region.ofSource source,
        r.kind ≠ .code ∧ r.start < call.start ∧ r.stop = edge)) ∧
    ∃ first rest k, arguments.spans = first :: rest ∧ (kinded source)[first.1]? = some k ∧
      isBlank k.char = false ∧ k.char ≠ '\x7b' ∧
      (k.kind.isComment = false → firstMeaningful? source first.1 first.2 = some k) := by
  obtain ⟨e, -, hedit⟩ := h.edited
  obtain ⟨hcode, arguments', harguments, hpositional⟩ := exists_of_positionalEdit? hedit
  obtain rfl : arguments' = arguments := Option.some.inj (harguments.symm.trans h.arguments_eq)
  obtain ⟨before, hmatch, -, hsource⟩ := exists_of_mem_findAll rfl h.found
  obtain ⟨htakes, -, hstart⟩ := exists_of_matchAt? hmatch
  obtain ⟨hname, ⟨u, hu⟩, hopen⟩ := takes_fileCall htakes
  have hdrop : source.drop call.start = call.text ++ call.after := by
    rw [hstart, hsource, List.drop_left]
  have hstop : call.stop = call.start + (u.length + 1) := by
    rw [Found.stop, hu, List.length_append, List.length_singleton]
  obtain ⟨last, hlast⟩ : ∃ last, call.stop = last + 1 := ⟨call.start + u.length, by omega⟩
  have hlength : call.start + call.text.length = last + 1 := hlast
  rw [hlast, Nat.add_sub_cancel] at hcode ⊢
  refine ⟨hdrop ▸ hname.trans (List.prefix_append _ _), ?_, fun hin => ?_, ?_, ?_⟩
  · have hplace : last = call.start + u.length := by omega
    rw [hplace, ← List.getElem?_drop, hdrop, hu, List.append_assoc,
      List.getElem?_append_right (Nat.le_refl _), Nat.sub_self]
    rfl
  · -- Nothing opens within the call, so it goes on as it starts.
    have hall := (inCode_of_isCodeAt hin).allCode hdrop hopen
    rwa [hlength] at hall
  · obtain ⟨edge, hlow, hhigh, hall, hregion⟩ :=
      exists_edge hdrop hopen hlength (by omega) hcode
    exact ⟨edge, hlow, Nat.lt_succ_of_le hhigh, hall, hregion⟩
  · obtain ⟨first, rest, c, hspans, hlt, hc, hblank, hbrace⟩ :=
      exists_first_argument harguments hpositional
    rw [← map_char_kinded source, List.getElem?_map] at hc
    obtain ⟨k, hk, rfl⟩ := Option.map_eq_some_iff.mp hc
    exact ⟨first, rest, k, hspans, hk, hblank, hbrace, firstMeaningful?_eq hlt hk hblank⟩

theorem isRewritten_site_readFile :
    let source := "filesystem.readFile(p)".toList
    let call : Found :=
      ⟨0, "filesystem.readFile(".toList, "p)".toList, [⟨1, 11, "readFile".toList⟩]⟩
    IsRewritten source call ⟨[(20, 21)], 21⟩ ∧ AllCode source call.start call.stop ∧
      firstMeaningful? source 20 21 = some ⟨'p', .code⟩ := by
  intro source call
  have hcall : IsRewritten source call ⟨[(20, 21)], 21⟩ :=
    ⟨by decide +kernel, by decide +kernel, by decide +kernel⟩
  obtain ⟨-, -, hall, -, first, rest, k, hspans, hk, -, -, hmeaningful⟩ := isRewritten_site hcall
  obtain ⟨rfl, rfl⟩ := List.cons.inj hspans
  have hp : (kinded source)[20]? = some ⟨'p', .code⟩ := by decide +kernel
  obtain rfl := Option.some.inj (hk.symm.trans hp)
  exact ⟨hcall, hall (by decide +kernel), hmeaningful rfl⟩

/-- A call that starts in a comment is rewritten, and so is one with an object after a comment. -/
theorem isRewritten_in_comment_and_with_object :
    (let source := "// filesystem.\nreadFile(p)".toList
      ∃ call arguments, IsRewritten source call arguments ∧
        ¬AllCode source call.start call.stop) ∧
    let source := "filesystem.readFile(/* c */ \x7b path: p \x7d)".toList
    ∃ call arguments first, IsRewritten source call arguments ∧
      arguments.spans.head? = some first ∧
      firstMeaningful? source first.1 first.2 = some ⟨'\x7b', .code⟩ := by
  constructor
  · intro source
    refine ⟨⟨3, "filesystem.\nreadFile(".toList, "p)".toList, [⟨1, 15, "readFile".toList⟩]⟩,
      ⟨[(24, 25)], 25⟩, ⟨by decide +kernel, by decide +kernel, by decide +kernel⟩, fun hall => ?_⟩
    exact absurd (hall 3 (by decide) (by decide)) (by decide +kernel)
  · intro source
    refine ⟨⟨0, "filesystem.readFile(".toList, "/* c */ \x7b path: p \x7d)".toList,
      [⟨1, 11, "readFile".toList⟩]⟩, ⟨[(20, 39)], 39⟩, (20, 39), ⟨?_, ?_, ?_⟩, rfl, ?_⟩
    all_goals decide +kernel

end GuestCode.Rewrite
