import GuestCode.Proofs.Rewrite.Parameters

/-!
# Ordinary snippets pass through

A snippet that needs no rewriting is left as it is, character for character. Each rewriting looks
for a word or a mark of its own, so a snippet in which none of them stands holds no match, however
malformed it is: brackets need not be balanced, and no comment or literal has to be closed. What is
left is the search for parameters, which finds brackets in any snippet but nothing to strip between
them, and the function around a snippet.

## Main statements

* `Rewrite.IsOrdinary`: a snippet without what the rewritings look for.
* `Rewrite.apply_of_silent`: a rule leaves a snippet alone that holds no text of its pattern.
* `Rewrite.stages_of_isOrdinary`: each of the seven rewritings leaves an ordinary snippet alone.
* `Rewrite.toRunnable_of_isOrdinary`: so the runnable form of the snippet is the snippet.
-/

namespace GuestCode.Rewrite

open Text Text.Pattern Grammar

variable {source : List Char}

/-! ## What the rewritings look for -/

/-- A snippet without what the rewritings look for: it has none of the words and marks of their
rules, it never names the file capability, and it is not one function that is called at once. -/
structure IsOrdinary (source : List Char) : Prop extends IsQuiet source where
  nameless : ¬"filesystem".toList <:+: source
  unwrapped : unwrapOnce? source = none

/-- A text says one of the words of the rewritings. -/
def Says (text : List Char) : Prop := ∃ s ∈ loudWords, s.toList <:+: text

theorem IsLoud.said {text : List Char} (h : IsLoud text) : Says text := by
  obtain ⟨u, v, s, hs, htext, -⟩ := h
  exact ⟨s, hs, u, v, htext.symm⟩

/-- A part of a quiet text says none of the words. -/
theorem IsQuiet.not_said (h : IsQuiet source) {text : List Char} (hpart : text <:+: source) :
    ¬Says text := by
  rintro ⟨s, hs, hword⟩
  exact h.words s hs (hword.trans hpart)

theorem said_of_takes {patterns others : List Pattern} {s : String} (hs : s ∈ loudWords)
    {w : List Char} (hw : (all (patterns ++ lit s :: others)).Takes w) : Says w :=
  ⟨s, hs, infix_of_takes hw⟩

/-! ## Rules -/

/-- A pattern is found nowhere in a snippet that holds no text of it. -/
theorem findAll_of_silent {pattern : Pattern} (hsome : pattern.takesSome = true)
    (h : ∀ w, pattern.Takes w → ¬w <:+: source) : pattern.findAll source = [] := by
  refine List.eq_nil_iff_forall_not_mem.mpr fun m hm => ?_
  obtain ⟨before, hmatch, -, hsource⟩ := exists_of_mem_findAll hsome hm
  apply h m.text (exists_of_matchAt? hmatch).1
  exact ⟨before, m.after, by rw [hsource, List.append_assoc]⟩

/-- A rule leaves a snippet alone that holds no text of its pattern, whatever is rewritten. -/
theorem apply_of_silent (codeOnly : Bool) {rule : Rule} (hsome : rule.pattern.takesSome = true)
    (h : ∀ w, rule.pattern.Takes w → ¬w <:+: source) : rule.apply codeOnly source = source := by
  have hnone := findAll_of_silent hsome h
  -- Without a match it makes no difference what a match would become.
  have hself : ∀ replacement, rule.pattern.replace replacement source = source :=
    fun replacement => replace_eq_self hsome (by simp [hnone])
  rw [Rule.apply]
  split
  · exact hself _
  · exact hself _

/-- A rule leaves a quiet snippet alone if its matches would say one of the words. -/
theorem apply_of_said (hquiet : IsQuiet source) (codeOnly : Bool) {rule : Rule}
    (hsome : rule.pattern.takesSome = true) (hsaid : ∀ w, rule.pattern.Takes w → Says w) :
    rule.apply codeOnly source = source :=
  apply_of_silent codeOnly hsome fun w hw hpart => hquiet.not_said hpart (hsaid w hw)

/-- A rule leaves a quiet snippet alone if one of the words is part of its pattern. -/
theorem apply_of_word (hquiet : IsQuiet source) (codeOnly : Bool) {rule : Rule}
    (patterns others : List Pattern) {s : String}
    (hpattern : rule.pattern = all (patterns ++ lit s :: others)) (hs : s ∈ loudWords)
    (hsome : rule.pattern.takesSome = true) : rule.apply codeOnly source = source :=
  apply_of_said hquiet codeOnly hsome fun _ hw => said_of_takes hs (hpattern ▸ hw)

/-- A declaration says `require` too, behind its equals sign. -/
theorem said_of_takes_requireDeclaration {w : List Char} (hw : requireDeclaration.Takes w) :
    Says w := by
  obtain ⟨u, rest, rfl, -, hrest⟩ := (@takes_all_append _ [lineStart, spaces,
    words ["const", "let", "var"], someBlanks, lazyPlus (noneOf "=;\n"), lit "=", blanks] _).mp hw
  obtain ⟨call, v, rfl, hcall, -⟩ := takes_all_cons.mp hrest
  refine ⟨"require", by decide, ?_⟩
  have hword : "require".toList <:+: call := @infix_of_takes [] _ _ _ hcall
  exact hword.trans ⟨u, v, List.append_assoc u call v⟩

section Stages

variable (codeOnly : Bool) (hquiet : IsQuiet source)
include hquiet

theorem removeImports_of_isQuiet : removeImports codeOnly source = source := by
  apply applyAll_eq_self codeOnly
  simp only [List.forall_mem_cons, List.not_mem_nil, false_implies, implies_true, and_true]
  exact ⟨apply_of_word hquiet codeOnly [lineStart, spaces] _ rfl (by decide) rfl,
    apply_of_word hquiet codeOnly [lineStart, spaces] _ rfl (by decide) rfl⟩

theorem normalizeExports_of_isQuiet : normalizeExports codeOnly source = source := by
  apply applyAll_eq_self codeOnly
  simp only [List.forall_mem_cons, List.not_mem_nil, false_implies, implies_true, and_true]
  exact ⟨apply_of_word hquiet codeOnly [statementMark, spaces] _ rfl (by decide) rfl,
    apply_of_word hquiet codeOnly [statementMark, spaces] _ rfl (by decide) rfl,
    apply_of_word hquiet codeOnly [statementMark, .capture 2 spaces] _ rfl (by decide) rfl,
    apply_of_word hquiet codeOnly [statementMark, .capture 2 spaces] _ rfl (by decide) rfl⟩

theorem removeRequires_of_isQuiet : removeRequires codeOnly source = source := by
  apply applyAll_eq_self codeOnly
  simp only [List.forall_mem_cons, List.not_mem_nil, false_implies, implies_true, and_true]
  exact ⟨apply_of_said hquiet codeOnly rfl fun _ => said_of_takes_requireDeclaration,
    apply_of_said hquiet codeOnly rfl fun _ hw => (isLoud_of_takes_requireBare hw).said⟩

theorem replaceSyncCalls_of_isQuiet : replaceSyncCalls codeOnly source = source :=
  apply_of_said hquiet codeOnly rfl fun _ hw => (isLoud_of_takes_syncCall hw).said

/-! ## Types -/

theorem withoutDeclarations_of_isQuiet : withoutDeclarations codeOnly source = source := by
  apply applyAll_eq_self codeOnly
  simp only [typeRules, List.forall_mem_cons, List.not_mem_nil, false_implies, implies_true,
    and_true]
  exact ⟨apply_of_word hquiet codeOnly [lineStart, spaces, opt (.seq (lit "declare") someBlanks)] _
      rfl (by decide) rfl,
    apply_of_word hquiet codeOnly [lineStart, spaces, opt (.seq (lit "declare") someBlanks)] _
      rfl (by decide) rfl,
    apply_of_word hquiet codeOnly [wordEdge, .capture 1 (words ["const", "let", "var"]),
      .capture 2 (.seq someBlanks identifier), blanks] _ rfl (by decide) rfl,
    apply_of_word hquiet codeOnly [wordEdge, .capture 1 (words ["let", "var"]),
      .capture 2 (.seq someBlanks identifier), blanks] _ rfl (by decide) rfl,
    apply_of_word hquiet codeOnly [wordEdge,
      .capture 1 (all [lit "function", blanks, opt (lit "*"), blanks, nameChars]), blanks] _ rfl
      (by decide) rfl⟩

/-- What looks like a cast has `as` between blanks. -/
theorem apply_cast_of_isQuiet : Rule.apply codeOnly (.remove cast) source = source := by
  refine apply_of_silent codeOnly rfl fun w hw hpart => ?_
  obtain ⟨gap, b, b', v, rfl, -, hb, hb', -⟩ := exists_of_takes_cast hw
  apply hquiet.casts b b' hb hb'
  exact (show [b, 'a', 's', b'] <:+: gap ++ b :: 'a' :: 's' :: b' :: v from ⟨gap, v, by simp⟩).trans
    hpart

/-- No parameter of a quiet snippet starts with an access modifier: neither the mark before the
parameter nor a blank belongs to a word, so the modifier would be a word of its own. -/
theorem not_startsModified_of_isQuiet {parameter : List Char}
    (hstands : StandsInCode source parameter) : ¬StartsModified parameter := by
  rintro ⟨word, hword, gap', c, rest', rfl, hne, hblank, -⟩
  obtain ⟨edge, mark, gap, rest, -, hmark, hgap, hdrop⟩ := hstands
  obtain ⟨b, bs, rfl⟩ := List.exists_cons_of_ne_nil hne
  have hb : isWordChar b = false := Segment.isWordChar_of_isBlank (hblank b (.head _))
  have hbefore : ∀ d ∈ mark :: gap, isWordChar d = false := by
    have hall : ∀ d ∈ ['(', ','], isWordChar d = false := by decide
    exact List.forall_mem_cons.mpr
      ⟨hall mark hmark, fun d hd => Segment.isWordChar_of_isBlank (hgap d hd)⟩
  have hsource : source = (source.take edge ++ mark :: gap) ++ word.toList ++
      (b :: bs ++ c :: rest' ++ rest) := by
    conv_lhs => rw [← List.take_append_drop edge source, hdrop]
    simp
  rcases hquiet.modifiers word hword _ _ hsource with hlast | hnext
  · rw [List.getLast?_append_cons, List.getLast?_eq_some_getLast (List.cons_ne_nil mark gap),
      Option.any_some, hbefore _ (List.getLast_mem _)] at hlast
    cases hlast
  · simp [hb] at hnext

/-- Without a colon there is neither an annotated parameter nor an annotated result. -/
theorem settled_of_isQuiet {place : Nat} (hplace : ⟨place, '('⟩ ∈ codeChars source) :
    Settled source place := by
  have hcolon : ':' ∉ source := by
    intro hmem
    obtain ⟨u, v, rfl⟩ := List.append_of_mem hmem
    exact hquiet.words ":" (by decide) ⟨u, v, by simp⟩
  intro arguments tail hsignature
  obtain ⟨harguments, htail⟩ := exists_of_signatureAt? hsignature
  constructor
  · -- Each parameter is stripped of nothing, so there is no edit.
    refine List.filterMap_eq_nil_iff.mpr fun span hspan => ?_
    obtain ⟨edge, mark, gap, hedge, hmark, hgap, hdrop⟩ :=
      exists_of_mem_spans hplace harguments hspan
    have hstands : StandsInCode source (Region.slice source span.1 span.2) :=
      ⟨edge, mark, gap, (source.drop span.1).drop (span.2 - span.1), hedge, hmark, hgap, by
        rw [hdrop, Region.slice, List.take_append_drop]⟩
    have hnone : topLevelIndex? (Region.slice source span.1 span.2) ':' 0 = none := by
      refine Option.eq_none_iff_forall_ne_some.mpr fun index hindex => hcolon ?_
      obtain ⟨k, -, hk⟩ := getElem?_of_topLevelFrom? hindex
      exact List.mem_of_mem_drop (List.mem_of_mem_take (List.mem_of_mem_drop
        (List.mem_of_getElem? hk)))
    have hbare : IsBare (Region.slice source span.1 span.2) :=
      ⟨not_startsModified_of_isQuiet hquiet hstands, hnone⟩
    dsimp only
    rw [hbare.stripParameter_eq_self, if_pos (beq_self_eq_true _)]
  · by_contra hcaptured
    obtain ⟨gap, rest, htext, -⟩ := captured_of_signatureTail htail hcaptured
    apply hcolon
    apply List.mem_of_mem_drop (i := arguments.close + 1)
    simp [htext]

theorem stripSignatures_of_isQuiet : stripSignatures source = source := by
  have hopenings : ∀ p ∈ (codeChars source).filter fun p => p.char == '(',
      Settled source p.place := by
    intro p hp
    obtain ⟨hmem, hchar⟩ := List.mem_filter.mp hp
    have hp : p = ⟨p.place, '('⟩ := by rw [← beq_iff_eq.mp hchar]
    exact settled_of_isQuiet hquiet (hp ▸ hmem)
  obtain ⟨start, hedits⟩ := exists_signatureEdits_append hopenings 0 []
  rw [List.append_nil] at hedits
  rw [stripSignatures, hedits]
  rfl

theorem stripTypes_of_isQuiet : stripTypes codeOnly source = source := by
  rw [stripTypes_eq, withoutDeclarations_of_isQuiet codeOnly hquiet,
    stripSignatures_of_isQuiet hquiet, apply_cast_of_isQuiet codeOnly hquiet]

end Stages

/-! ## Files and wrappers -/

/-- A snippet that does not name the file capability calls none of its methods. -/
theorem rewritePositionalCalls_of_nameless (h : ¬"filesystem".toList <:+: source) (root : String) :
    rewritePositionalCalls root source = source := by
  have hnone : fileCall.findAll source = [] :=
    findAll_of_silent rfl fun _ hw hpart =>
      h ((@infix_of_takes [freeNameEdge] _ _ _ hw).trans hpart)
  rw [rewritePositionalCalls, hnone]
  rfl

/-- A snippet that is no function called at once is not unwrapped, nor is it taken for one with the
line that wraps the file capability. -/
theorem unwrap_of_unwrapOnce? (h : ¬"filesystem".toList <:+: source)
    (hnone : unwrapOnce? source = none) : unwrap source = source := by
  have hline : ¬wrapperStart.toList.isPrefixOf source = true := by
    intro hprefix
    have hname : "filesystem".toList <:+: wrapperStart.toList :=
      ⟨"const ".toList, (" = " ++ wrapperMark).toList, by decide⟩
    exact h (hname.trans (List.isPrefixOf_iff_prefix.mp hprefix).isInfix)
  rw [unwrap, if_neg hline]
  cases source.length with
  | zero => rfl
  | succ n => rw [unwrapUpTo, hnone]

/-! ## All rewritings -/

/-- Each rewriting leaves an ordinary snippet alone, whether or not only code is rewritten. -/
theorem stages_of_isOrdinary (settings : Settings) (h : IsOrdinary source) :
    ∀ stage ∈ stages settings, stage source = source := by
  simp only [stages, List.forall_mem_cons, List.not_mem_nil, false_implies, implies_true, and_true]
  exact ⟨removeImports_of_isQuiet _ h.toIsQuiet, normalizeExports_of_isQuiet _ h.toIsQuiet,
    removeRequires_of_isQuiet _ h.toIsQuiet, replaceSyncCalls_of_isQuiet _ h.toIsQuiet,
    rewritePositionalCalls_of_nameless h.nameless _, stripTypes_of_isQuiet _ h.toIsQuiet,
    unwrap_of_unwrapOnce? h.nameless h.unwrapped⟩

theorem pass_of_isOrdinary (settings : Settings) (h : IsOrdinary source) :
    pass settings source = source := by
  -- One rewriting after the other gets the snippet as it was.
  have hfold : ∀ rewritings : List (List Char → List Char),
      (∀ stage ∈ rewritings, stage source = source) →
        rewritings.foldl (fun text stage => stage text) source = source := by
    intro rewritings hall
    induction rewritings with
    | nil => rfl
    | cons stage others ih =>
      obtain ⟨hstage, hothers⟩ := List.forall_mem_cons.mp hall
      rw [List.foldl_cons, hstage]
      exact ih hothers
  exact hfold _ (stages_of_isOrdinary settings h)

/-- The runnable form of an ordinary snippet is the snippet, and one pass is enough to see it. -/
theorem toRunnable_of_isOrdinary (settings : Settings) (source : List Char)
    (h : IsOrdinary source) : toRunnable settings source = ⟨source, 1⟩ := by
  have hpass := pass_of_isOrdinary settings h
  rw [toRunnable, maxPasses, passesFrom, hpass, if_pos (beq_self_eq_true source)]

/-- A snippet that is broken off in a template, with a bracket that nothing closes, an arrow behind a
list of parameters and the front of a function that is called at once. -/
theorem toRunnable_of_isOrdinary_brokenOff :
    let source := "(function () \x7b return ((a, [b) => \x7b /x(/ + \x60$\x7b 'c".toList
    IsOrdinary source ∧ ∀ settings, toRunnable settings source = ⟨source, 1⟩ := by
  intro source
  have hquiet : IsQuiet source := isQuiet_of_words (by decide +kernel)
  have hordinary : IsOrdinary source := ⟨hquiet, by decide +kernel, by decide +kernel⟩
  exact ⟨hordinary, fun settings => toRunnable_of_isOrdinary settings source hordinary⟩

end GuestCode.Rewrite
