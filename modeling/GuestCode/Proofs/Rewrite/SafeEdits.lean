import GuestCode.Proofs.Rewrite.SafeRules
import GuestCode.Proofs.Rewrite.Signatures

/-!
# Edits that make no mark

An edit of a signature takes the place of a parameter or of a result. Before and after it is a
bracket or a comma, apart from blanks, so no mark comes about where it meets the text around it. The
object that positional arguments become has such characters at its own ends.

## Main statements

* `Rewrite.Careful.not_marked`: careful edits make no mark.
* `Rewrite.Spaced.careful`: the edits of signatures are careful.
* `Rewrite.forall_mem_positionalEdits`: the edits of calls have brackets at their own ends.
* `Rewrite.not_marked_applyFrom`: edits with brackets at their own ends make no mark.
-/

namespace GuestCode.Rewrite

open Text Text.Pattern Grammar

variable {source : List Char}

/-! ## Careful edits -/

/-- At one place is a character that the mark does not hold, and then there is no slash up to
another place. -/
def Parted (source : List Char) (edge start : Nat) : Prop :=
  ∃ c gap, source.drop edge = c :: (gap ++ source.drop start) ∧ start = edge + (gap.length + 1) ∧
    c ∉ wrapperMark.toList ∧ '/' ∉ gap

/-- From one place on is no slash up to another place, at which there is a character that the mark
does not hold. -/
def PartedAfter (source : List Char) (stop next : Nat) : Prop :=
  ∃ c gap, source.drop stop = gap ++ c :: source.drop (next + 1) ∧ next = stop + gap.length ∧
    c ∉ wrapperMark.toList ∧ '/' ∉ gap

/-- Edits from left to right, none before the place `low`, between characters that the mark does not
hold. -/
inductive Careful (source : List Char) : Nat → List Edit → Prop where
  | nil {low : Nat} : Careful source low []
  | cons {low edge next : Nat} {e : Edit} {rest : List Edit}
      (low_le : low ≤ edge)
      (left : Parted source edge e.start)
      (ordered : e.start ≤ e.stop)
      (right : PartedAfter source e.stop next)
      (text : ¬Marked e.text)
      (others : Careful source next rest) : Careful source low (e :: rest)

theorem Careful.mono {low low' : Nat} {edits : List Edit} (h : Careful source low edits)
    (hle : low' ≤ low) : Careful source low' edits := by
  cases h with
  | nil => exact .nil
  | cons low_le left ordered right text others =>
    exact .cons (Nat.le_trans hle low_le) left ordered right text others

/-- What is before all edits stays. -/
theorem applyFrom_append {start : Nat} {w : List Char} {edits : List Edit}
    (hw : source.drop start = w ++ source.drop (start + w.length))
    (hfirst : ∀ e ∈ edits.head?, start + w.length ≤ e.start) :
    Edit.applyFrom source start edits = w ++ Edit.applyFrom source (start + w.length) edits := by
  cases edits with
  | nil => exact hw
  | cons e rest =>
    have hslice : Region.slice source start e.start =
        w ++ Region.slice source (start + w.length) e.start := by
      have hle : start + w.length ≤ e.start := hfirst e rfl
      have hlength : e.start - start = w.length + (e.start - (start + w.length)) := by omega
      rw [Region.slice, hw, hlength, List.take_length_add_append]
      rfl
    rw [Edit.applyFrom, Edit.applyFrom, hslice]
    simp only [List.append_assoc]

theorem Careful.lt_start {low : Nat} {edits : List Edit} (h : Careful source low edits) :
    ∀ e ∈ edits.head?, low < e.start := by
  cases h with
  | nil => simp
  | @cons _ edge next e rest low_le left _ _ _ _ =>
    obtain ⟨c, gap, -, hstart, -, -⟩ := left
    intro e' he'
    obtain rfl : e = e' := Option.some.inj he'
    omega

/-- Careful edits make no mark. -/
theorem Careful.not_marked {low start : Nat} {edits : List Edit} (h : Careful source low edits)
    (hstart : start ≤ low) (hsource : ¬Marked (source.drop start)) :
    ¬Marked (Edit.applyFrom source start edits) := by
  induction h generalizing start with
  | nil => exact hsource
  | @cons low edge next e rest low_le left ordered right text others ih =>
    obtain ⟨before, gap, hleft, hplace, hbefore, hgap⟩ := left
    obtain ⟨after, gap', hright, hnext, hafter, hgap'⟩ := right
    obtain ⟨x, hx, hlength⟩ : ∃ x, source.drop start = x ++ source.drop edge ∧
        x.length = edge - start := by
      have hlt : edge < source.length := by
        refine Nat.lt_of_not_le fun hle => ?_
        rw [List.drop_eq_nil_of_le hle] at hleft
        cases hleft
      refine ⟨(source.drop start).take (edge - start), ?_, ?_⟩
      · conv_lhs => rw [← List.take_append_drop (edge - start) (source.drop start)]
        rw [List.drop_drop, Nat.add_sub_cancel' (Nat.le_trans hstart low_le)]
      · rw [List.length_take, List.length_drop]
        omega
    have hslice : Region.slice source start e.start = x ++ before :: gap := by
      have htake : e.start - start = x.length + (gap.length + 1) := by omega
      rw [Region.slice, hx, hleft, htake, List.take_length_add_append, List.take_succ_cons,
        List.take_left]
    have hlater : ¬Marked (Edit.applyFrom source e.stop rest) :=
      ih (by omega) fun hmarked => hsource
        (hmarked.trans (List.drop_suffix_drop_left source (by omega)).isInfix)
    have hafterText : Edit.applyFrom source e.stop rest =
        gap' ++ after :: Edit.applyFrom source (next + 1) rest := by
      have hw : (gap' ++ [after]).length = gap'.length + 1 := List.length_append
      have hstop : e.stop + (gap' ++ [after]).length = next + 1 := by omega
      have heq := @applyFrom_append source e.stop (gap' ++ [after]) rest
        (by rw [hstop, hright]; simp) fun e' he' => hstop ▸ others.lt_start e' he'
      rw [heq, hstop, List.append_assoc]
      rfl
    intro hmarked
    rw [Edit.applyFrom, hslice, hafterText] at hmarked
    have hsplit : x ++ before :: gap ++ e.text ++
          (gap' ++ after :: Edit.applyFrom source (next + 1) rest) =
        x ++ before :: ((gap ++ (e.text ++ gap')) ++
          after :: Edit.applyFrom source (next + 1) rest) := by
      simp
    rw [hsplit] at hmarked
    rcases marked_of_append_cons hbefore hmarked with h | h
    · exact hsource (h.trans (hx ▸ (List.prefix_append _ _).isInfix))
    rcases marked_of_append_cons hafter h with h | h
    · exact text (marked_of_append_right hgap' (marked_of_append_left hgap h))
    · refine hlater (h.trans ?_)
      rw [hafterText]
      exact ((List.suffix_cons _ _).trans (List.suffix_append _ _)).isInfix

/-! ## Parameters -/

theorem dropEndWhile_isInfix (drop : Char → Bool) (text : List Char) :
    dropEndWhile drop text <:+: text := by
  have h := List.reverse_prefix.mpr (List.dropWhile_suffix drop (l := text.reverse))
  rw [List.reverse_reverse] at h
  exact h.isInfix

theorem trim_isInfix (text : List Char) : trim text <:+: text :=
  (dropEndWhile_isInfix isBlank _).trans (List.dropWhile_suffix isBlank).isInfix

theorem withoutModifiers_isInfix (parameter : List Char) :
    withoutModifiers parameter <:+: parameter := by
  rw [withoutModifiers]
  split
  · next m hmatch =>
    obtain ⟨-, hrest, -⟩ := exists_of_matchAt? hmatch
    exact ⟨m.text, [], by rw [List.append_nil]; exact hrest.symm⟩
  · exact List.infix_rfl

/-- A parameter without its annotation is not marked if it was not before: its name and its default
are parts of it, with an equal sign between. -/
theorem not_marked_stripParameter {parameter : List Char} (h : ¬Marked parameter) :
    ¬Marked (stripParameter parameter) := by
  have hstripped : ¬Marked (withoutModifiers parameter) := fun hmarked =>
    h (hmarked.trans (withoutModifiers_isInfix parameter))
  rw [stripParameter]
  dsimp only
  split
  · exact hstripped
  next colon _ =>
  split
  · exact h
  have hname : trimEnd (dropEndWhile (· == '?')
      (trimEnd ((withoutModifiers parameter).take colon))) <:+: withoutModifiers parameter :=
    (dropEndWhile_isInfix _ _).trans ((dropEndWhile_isInfix _ _).trans
      ((dropEndWhile_isInfix _ _).trans (List.take_prefix _ _).isInfix))
  split
  · exact fun hmarked => hstripped (hmarked.trans hname)
  next equals _ =>
  intro hmarked
  have hsplit : ∀ name default : List Char, name ++ " = ".toList ++ default =
      (name ++ [' ']) ++ '=' :: ([' '] ++ default) := by simp
  rw [hsplit] at hmarked
  rcases marked_of_append_cons (not_mem_mark (by decide)) hmarked with hleft | hright
  · exact hstripped ((marked_of_append_right (by decide) hleft).trans hname)
  · have hdefault := marked_of_append_left (by decide) hright
    exact hstripped (hdefault.trans ((trim_isInfix _).trans (List.drop_suffix _ _).isInfix))

/-- Brackets and commas do not belong to the mark. -/
theorem not_mem_mark_of_isClosing {c : Char} (h : isClosing c = true) :
    c ∉ wrapperMark.toList := by
  refine not_mem_mark ?_
  simp only [isClosing, Bool.or_eq_true, beq_iff_eq] at h
  rcases h with (rfl | rfl) | rfl
  all_goals decide

theorem slash_not_mem_of_blank {gap : List Char} (h : ∀ c ∈ gap, isBlank c = true) : '/' ∉ gap :=
  fun hmem => absurd (h '/' hmem) (by decide)

/-- The edit of a signature makes no mark, and it stands between characters that the mark does not
hold. -/
theorem EditStands.careful {left : Placed} {next : Nat} {e : Edit}
    (h : EditStands source left next e) (hsource : ¬Marked (source.drop left.place)) :
    Parted source left.place e.start ∧ e.start ≤ e.stop ∧ PartedAfter source e.stop next ∧
      ¬Marked e.text := by
  cases h with
  | @parameter right start stop hstands hleft hright =>
    obtain ⟨gap, hgap, hstart, hbefore⟩ := hstands.before
    obtain ⟨gap', hgap', hstop, hafter⟩ := hstands.after
    refine ⟨⟨left.char, gap, ?_, by dsimp only; omega, ?_, slash_not_mem_of_blank hgap⟩, hstands.le,
      ⟨right.char, gap', ?_, hstop, ?_, slash_not_mem_of_blank hgap'⟩,
      not_marked_stripParameter fun h => hsource ?_⟩
    · rw [drop_of_mem_codeChars hstands.left_mem, hbefore]
    · have hall : ∀ c ∈ ['(', ','], c ∈ separators := by decide
      exact not_mem_mark (hall _ hleft)
    · rw [hafter, drop_of_mem_codeChars hstands.right_mem]
    · rcases hright with hcomma | hclosing
      · rw [hcomma]
        exact not_mem_mark (by decide)
      · exact not_mem_mark_of_isClosing hclosing
    · exact h.trans ((List.take_prefix _ _).isInfix.trans
        (List.drop_suffix_drop_left source (by omega)).isInfix)
  | @result next c hmem hclosing hle hnext hc =>
    obtain ⟨hlt, hnext⟩ := List.getElem?_eq_some_iff.mp hnext
    refine ⟨⟨left.char, [], drop_of_mem_codeChars hmem, rfl, not_mem_mark_of_isClosing hclosing,
      List.not_mem_nil⟩, hle, ⟨c, [], ?_, rfl, ?_, List.not_mem_nil⟩,
      not_marked_of_slash (show '/' ∉ [' '] by decide)⟩
    · rw [List.nil_append, List.drop_eq_getElem_cons hlt, hnext]
    · have hall : ∀ c ∈ ['\x7b', '='], c ∈ separators := by decide
      exact not_mem_mark (hall _ hc)

/-- The edits of signatures are careful. -/
theorem Spaced.careful {low : Nat} {edits : List Edit} (h : Spaced source low edits)
    (hsource : ¬Marked (source.drop low)) : Careful source low edits := by
  induction h with
  | nil => exact .nil
  | @cons low next left e rest hlow hstands hrest ih =>
    have hdrop : ∀ {k}, low ≤ k → ¬Marked (source.drop k) := fun hle h =>
      hsource (h.trans (List.drop_suffix_drop_left source hle).isInfix)
    obtain ⟨hleft, hle, hright, htext⟩ := hstands.careful (hdrop hlow)
    have hnext : low ≤ next := Nat.le_trans hlow (Nat.le_of_lt hstands.lt)
    exact .cons hlow hleft hle hright htext (ih (hdrop hnext))

/-! ## Positional calls -/

theorem not_marked_joinWith {fields : List (List Char)} (h : ∀ field ∈ fields, ¬Marked field) :
    ¬Marked (joinWith ", ".toList fields) := by
  induction fields with
  | nil => exact not_marked_of_slash (by simp [joinWith])
  | cons field fields ih =>
    obtain ⟨hfield, hfields⟩ := List.forall_mem_cons.mp h
    cases fields with
    | nil => simpa [joinWith] using hfield
    | cons next others =>
      have hjoined : joinWith ", ".toList (field :: next :: others) =
          field ++ ',' :: ([' '] ++ joinWith ", ".toList (next :: others)) := by
        simp [joinWith]
      rw [hjoined]
      intro hmarked
      rcases marked_of_append_cons (not_mem_mark (by decide)) hmarked with hmarked | hmarked
      · exact hfield hmarked
      · exact ih hfields (marked_of_append_left (by decide) hmarked)

/-- The keys of positional arguments are among these. -/
theorem mem_of_mem_positionalKeys {method : List Char} {key : String}
    (h : key ∈ positionalKeys method) : key ∈ ["path", "content", "pattern", "recursive"] := by
  rw [positionalKeys] at h
  split at h
  · exact List.mem_of_mem_take (i := 1) h
  split at h
  · exact List.mem_of_mem_take (i := 2) h
  · revert key
    decide

/-- The fields of the object that arguments become. -/
theorem exists_fields_objectArgument (keys : List String) (arguments : List (List Char)) :
    ∃ fields, objectArgument keys arguments =
        '\x7b' :: ' ' :: (joinWith ", ".toList fields ++ [' ', '\x7d', ')']) ∧
      ∀ field ∈ fields, ∃ pair ∈ keys.zip arguments,
        field = pair.1.toList ++ ": ".toList ++ pair.2 := by
  refine ⟨_, rfl, fun field hfield => ?_⟩
  obtain ⟨pair, hpair, heq⟩ := List.mem_filterMap.mp hfield
  refine ⟨pair, hpair, ?_⟩
  dsimp only at heq
  split at heq
  · cases heq
  · exact (Option.some.inj heq).symm

/-- The object that arguments become, between its own brackets. -/
theorem exists_of_objectArgument {method : List Char} {arguments : List (List Char)}
    (h : ∀ argument ∈ arguments, ¬Marked argument) :
    ∃ inner, objectArgument (positionalKeys method) arguments = '\x7b' :: (inner ++ [')']) ∧
      ¬Marked inner := by
  have hkeys : ∀ key ∈ ["path", "content", "pattern", "recursive"], '/' ∉ key.toList := by decide
  obtain ⟨fields, htext, hfields⟩ := exists_fields_objectArgument (positionalKeys method) arguments
  have hunmarked : ∀ field ∈ fields, ¬Marked field := by
    intro field hfield
    obtain ⟨pair, hpair, rfl⟩ := hfields field hfield
    obtain ⟨hkey, hvalue⟩ := List.of_mem_zip hpair
    have hslash := hkeys _ (mem_of_mem_positionalKeys hkey)
    exact fun hmarked => h _ hvalue
      (marked_of_append_left (List.not_mem_append hslash (by decide)) hmarked)
  refine ⟨" ".toList ++ joinWith ", ".toList fields ++ " \x7d".toList, ?_, fun hmarked => ?_⟩
  · rw [htext]
    simp
  · exact not_marked_joinWith hunmarked
      (marked_of_append_left (by decide) (marked_of_append_right (by decide) hmarked))

/-- A call of a file method ends with the parenthesis of its arguments. -/
theorem exists_of_takes_fileCall {w : List Char} (h : fileCall.Takes w) :
    ∃ u, w = u ++ ['('] := by
  obtain ⟨u, v, rfl, -, hv⟩ := (@takes_all_append _ [freeNameEdge, lit "filesystem", blanks, lit ".",
    blanks, .capture 1 (words ["readFile", "writeFile", "searchFiles"]), blanks] _).mp h
  obtain rfl := takes_lit.mp hv
  exact ⟨u, rfl⟩

/-- The call that an edit is for, and its arguments. -/
structure EditsCall (source : List Char) (call : Found) (arguments : Arguments) (e : Edit) :
    Prop where
  parenthesis : ⟨call.stop - 1, '('⟩ ∈ codeChars source
  start_le : call.start ≤ call.stop - 1
  arguments_eq : argumentSpans? source (codeChars source) (call.stop - 1 : Nat) = some arguments
  edit_eq : e = ⟨call.stop - 1 + 1, arguments.close + 1,
    objectArgument (positionalKeys (call.captured 1)) (arguments.texts source)⟩

theorem exists_editsCall {call : Found} {e : Edit} {before : List Char}
    (hsource : source = before ++ (call.text ++ call.after)) (hstart : call.start = before.length)
    (htakes : fileCall.Takes call.text)
    (h : positionalEdit? source (Region.ofSource source) (codeChars source) call = some e) :
    ∃ arguments, EditsCall source call arguments e := by
  obtain ⟨u, hu⟩ := exists_of_takes_fileCall htakes
  have hparenthesis : call.stop - 1 = call.start + u.length := by
    rw [Found.stop, hu, List.length_append, List.length_singleton]
    rfl
  rw [positionalEdit?] at h
  dsimp only at h
  split at h
  · next hcode =>
    split at h
    · cases h
    next arguments harguments =>
    split at h
    · next hpositional =>
      obtain rfl := Option.some.inj h
      have hchar : source[call.stop - 1]? = some '(' := by
        rw [hparenthesis, hstart, hsource, hu]
        simp
      exact ⟨arguments, mem_codeChars (inCode_of_isCodeAt hcode) hchar, by omega, harguments, rfl⟩
    · cases h
  · cases h

/-- The edit of a call stands after it, and it makes no mark. -/
theorem EditsCall.exists_inner {low : Nat} {call : Found} {arguments : Arguments} {e : Edit}
    (h : EditsCall source call arguments e) (hlow : low ≤ call.start)
    (hunmarked : ¬Marked (source.drop low)) :
    low ≤ e.start ∧ low ≤ e.stop ∧
      ∃ inner, e.text = '\x7b' :: (inner ++ [')']) ∧ ¬Marked inner := by
  obtain ⟨c, hc, -, hclose⟩ := exists_close h.parenthesis h.arguments_eq
  have hstart := h.start_le
  rw [h.edit_eq]
  refine ⟨by dsimp only; omega, by dsimp only; omega,
    exists_of_objectArgument fun argument hargument => ?_⟩
  obtain ⟨span, hspan, rfl⟩ := List.mem_map.mp hargument
  obtain ⟨left, right, -, -, hle, hstands⟩ :=
    exists_stands_of_mem_spans h.parenthesis h.arguments_eq hspan
  obtain ⟨gap, -, hplace, -⟩ := hstands.before
  exact fun hmarked => hunmarked (hmarked.trans ((List.take_prefix _ _).isInfix.trans
    (List.drop_suffix_drop_left source (by omega)).isInfix))

/-- The edits of calls stand after the place where the calls start, and they make no mark. -/
theorem forall_mem_positionalEdits {low start : Nat} {calls : List Found}
    (hcalls : ∀ call ∈ calls, low ≤ call.start ∧ fileCall.Takes call.text ∧
      ∃ before, source = before ++ (call.text ++ call.after) ∧ call.start = before.length)
    (hunmarked : ¬Marked (source.drop low)) :
    ∀ e ∈ positionalEdits source (Region.ofSource source) (codeChars source) start calls,
      low ≤ e.start ∧ low ≤ e.stop ∧ ∃ inner, e.text = '\x7b' :: (inner ++ [')']) ∧ ¬Marked inner := by
  fun_induction positionalEdits source (Region.ofSource source) (codeChars source) start calls with
  | case1 => simp
  | case2 start call rest _ ih | case3 start call rest _ _ ih =>
    exact ih fun c hc => hcalls c (.tail _ hc)
  | case4 start call rest _ e he ih =>
    obtain ⟨⟨hlow, htakes, before, hsource, hstart⟩, hothers⟩ := List.forall_mem_cons.mp hcalls
    obtain ⟨arguments, hcall⟩ := exists_editsCall hsource hstart htakes he
    exact List.forall_mem_cons.mpr ⟨hcall.exists_inner hlow hunmarked, ih hothers⟩

/-- Edits with brackets at their own ends make no mark. -/
theorem not_marked_applyFrom {low start : Nat} {edits : List Edit}
    (hedits : ∀ e ∈ edits, low ≤ e.stop ∧
      ∃ inner, e.text = '\x7b' :: (inner ++ [')']) ∧ ¬Marked inner)
    (hunmarked : ¬Marked (source.drop low)) (hstart : low ≤ start) :
    ¬Marked (Edit.applyFrom source start edits) := by
  have hdrop : ∀ {k}, low ≤ k → ¬Marked (source.drop k) := fun hle h =>
    hunmarked (h.trans (List.drop_suffix_drop_left source hle).isInfix)
  induction edits generalizing start with
  | nil => exact hdrop hstart
  | cons e rest ih =>
    obtain ⟨⟨hstop, inner, htext, hinner⟩, hrest⟩ := List.forall_mem_cons.mp hedits
    rw [Edit.applyFrom, htext, List.append_assoc, List.cons_append, List.append_assoc,
      List.singleton_append]
    intro hmarked
    rcases marked_of_append_cons (not_mem_mark (by decide)) hmarked with h | h
    · exact hdrop hstart (h.trans (List.take_prefix _ _).isInfix)
    rcases marked_of_append_cons (not_mem_mark (by decide)) h with h | h
    · exact hinner h
    · exact ih hrest hstop h

end GuestCode.Rewrite
