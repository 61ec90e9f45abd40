import GuestCode.Proofs.Rewrite.Passes
import GuestCode.Proofs.Rewrite.Signatures
import GuestCode.Proofs.Text.Split
import GuestCode.Rewrite.Files
import GuestCode.Rewrite.Modules

/-!
# Literals and comments are left alone

If only code is rewritten, a match counts by where it starts. Most patterns say a word that they
look for before anything that could be a comment or a literal, so code that has none of these words
is left alone, whatever its comments and literals say. There are two ways round this: a declaration
starts with a plain keyword and may reach a `require` call through comments and literals, and the
annotation of a parameter is looked for in the text of the parameter as it is.

## Main statements

* `Rewrite.QuietCode`: code without the words that are looked for.
* `Rewrite.apply_of_loud`: a rule leaves quiet code alone if its pattern soon says such a word.
* `Rewrite.stages_of_quietCode`: what the rewritings leave alone.
-/

namespace GuestCode.Rewrite

open Text Text.Pattern Grammar

variable {source : List Char}

/-! ## Quiet code -/

/-- The words and marks that the rewritings look for. -/
def loudWords : List String :=
  ["import", "export", "require", "Sync", "type", "interface", ":", "<"]

/-- The words that may stand before a parameter. -/
def modifierWords : List String := ["public", "private", "protected", "readonly", "override"]

/-- A text without what the rewritings look for: it holds none of their words and marks, no access
modifier as a word of its own, and no `as` between blanks. -/
structure IsQuiet (text : List Char) : Prop where
  words : ∀ s ∈ loudWords, ¬s.toList <:+: text
  modifiers : ∀ s ∈ modifierWords, ∀ before after, text = before ++ s.toList ++ after →
    before.getLast?.any isWordChar = true ∨ after.head?.any isWordChar = true
  casts : ∀ b b', isBlank b = true → isBlank b' = true → ¬[b, 'a', 's', b'] <:+: text

/-- A snippet whose code is quiet; its comments and literals may say anything. -/
def QuietCode (source : List Char) : Prop :=
  ∀ r ∈ Region.ofSource source, r.kind = .code → IsQuiet (r.text source)

/-- A text without any of the words and marks is quiet. -/
theorem isQuiet_of_words {text : List Char}
    (h : ∀ s ∈ "as" :: (loudWords ++ modifierWords), ¬s.toList <:+: text) : IsQuiet text := by
  obtain ⟨hcast, hwords⟩ := List.forall_mem_cons.mp h
  obtain ⟨hloud, hmodifier⟩ := List.forall_mem_append.mp hwords
  refine ⟨hloud, fun s hs before after htext => ?_, fun b b' _ _ hinfix => ?_⟩
  · exact absurd ⟨before, after, htext.symm⟩ (hmodifier s hs)
  · exact hcast ((show "as".toList <:+: [b, 'a', 's', b'] from ⟨[b], [b'], rfl⟩).trans hinfix)

theorem quietCode_of_words
    (h : ∀ r ∈ Region.ofSource source, r.kind = .code →
      ∀ s ∈ "as" :: (loudWords ++ modifierWords), ¬s.toList <:+: r.text source) :
    QuietCode source :=
  fun r hr hkind => isQuiet_of_words (h r hr hkind)

/-! ## Rules -/

/-- A text says a word of the rewritings, and nothing before it opens a comment or a literal. -/
def IsLoud (text : List Char) : Prop :=
  ∃ u v : List Char, ∃ s ∈ loudWords, text = u ++ s.toList ++ v ∧ ∀ c ∈ u, c ∉ Segment.openers

theorem isLoud_of_takes {patterns others : List Pattern} {s : String} (hs : s ∈ loudWords)
    (hnone : ∀ p ∈ patterns, p.takesNone Segment.openers = true) {w : List Char}
    (hw : (all (patterns ++ lit s :: others)).Takes w) : IsLoud w := by
  obtain ⟨u, rest, rfl, hu, hrest⟩ := takes_all_append.mp hw
  obtain ⟨text, v, rfl, htext, -⟩ := takes_all_cons.mp hrest
  obtain rfl := takes_lit.mp htext
  exact ⟨u, v, s, hs, by rw [List.append_assoc], not_mem_of_takes_all hnone hu⟩

theorem length_takeWhile_isBlank_le {c : Char} (hc : isBlank c = false) (u v : List Char) :
    ((u ++ c :: v).takeWhile isBlank).length ≤ u.length := by
  induction u with
  | nil => simp [hc]
  | cons d u ih =>
    rw [List.cons_append, List.takeWhile_cons]
    split
    · exact Nat.succ_le_succ ih
    · exact Nat.zero_le _

/-- A match that is loud does not start in quiet code. -/
theorem startsInCode_of_isLoud (hquiet : QuietCode source) {before : List Char} {m : Found}
    (hstart : m.start = before.length) (hsource : source = before ++ (m.text ++ m.after))
    (hloud : IsLoud m.text) :
    Rule.startsInCode source (Region.ofSource source) m = false := by
  obtain ⟨u, v, s, hs, htext, hu⟩ := hloud
  obtain ⟨c, cs, hcs, hc⟩ : ∃ c cs, s.toList = c :: cs ∧ isBlank c = false := by
    have hall : ∀ s ∈ loudWords, ∃ c cs, s.toList = c :: cs ∧ isBlank c = false := by
      simp only [loudWords, List.forall_mem_cons]
      exact ⟨⟨_, _, rfl, rfl⟩, ⟨_, _, rfl, rfl⟩, ⟨_, _, rfl, rfl⟩, ⟨_, _, rfl, rfl⟩,
        ⟨_, _, rfl, rfl⟩, ⟨_, _, rfl, rfl⟩, ⟨_, _, rfl, rfl⟩, ⟨_, _, rfl, rfl⟩, by simp⟩
    exact hall s hs
  have hword : ∀ c ∈ s.toList, c ∉ Segment.openers := by
    have hall : ∀ s ∈ loudWords, ∀ c ∈ s.toList, c ∉ Segment.openers := by decide
    exact hall s hs
  have hblanks : (m.text.takeWhile isBlank).length ≤ u.length := by
    rw [htext, hcs, List.append_assoc]
    exact length_takeWhile_isBlank_le hc u _
  obtain ⟨k, hk⟩ : ∃ k, (m.text.takeWhile isBlank).length = k := ⟨_, rfl⟩
  rw [hk] at hblanks
  have hdrop : source.drop (before.length + k) = u.drop k ++ s.toList ++ (v ++ m.after) := by
    rw [hsource, ← List.drop_drop, List.drop_left, htext]
    simp [List.drop_append_of_le_length hblanks]
  refine Bool.eq_false_iff.mpr fun hcode => ?_
  rw [Rule.startsInCode, Rule.firstMark, hstart, hk, Bool.or_eq_true, decide_eq_true_eq] at hcode
  rcases hcode with hcode | hcode
  · -- The word has still to come.
    rw [List.drop_eq_nil_of_le hcode, hcs] at hdrop
    simp at hdrop
  · obtain ⟨r, hr, hkind, hinfix⟩ := (inCode_of_isCodeAt hcode).exists_region_of_run hdrop
      (List.forall_mem_append.mpr ⟨fun c hc => hu c (List.mem_of_mem_drop hc), hword⟩)
    exact (hquiet r hr hkind).words s hs ((List.suffix_append _ _).isInfix.trans hinfix)

/-- A rule leaves a snippet alone if none of its matches starts in code. -/
theorem apply_of_startsInCode {rule : Rule} (hsome : rule.pattern.takesSome = true)
    (hnone : ∀ m ∈ rule.pattern.findAll source,
      Rule.startsInCode source (Region.ofSource source) m = false) :
    rule.apply true source = source := by
  rw [Rule.apply, if_pos rfl]
  refine replace_eq_self hsome fun m hm => ?_
  rw [hnone m hm, if_neg Bool.false_ne_true]

/-- A rule leaves quiet code alone if each text that its pattern takes is loud. -/
theorem apply_of_loud (hquiet : QuietCode source) {rule : Rule}
    (hsome : rule.pattern.takesSome = true) (hloud : ∀ w, rule.pattern.Takes w → IsLoud w) :
    rule.apply true source = source := by
  refine apply_of_startsInCode hsome fun m hm => ?_
  obtain ⟨before, hmatch, -, hsource⟩ := exists_of_mem_findAll hsome hm
  obtain ⟨htakes, -, hstart⟩ := exists_of_matchAt? hmatch
  exact startsInCode_of_isLoud hquiet hstart hsource (hloud _ htakes)

/-- A rule leaves quiet code alone if its pattern says a word before anything that could open a
comment or a literal. -/
theorem apply_of_lit (hquiet : QuietCode source) {rule : Rule} (patterns others : List Pattern)
    {s : String} (hpattern : rule.pattern = all (patterns ++ lit s :: others)) (hs : s ∈ loudWords)
    (hsome : rule.pattern.takesSome = true)
    (hnone : ∀ p ∈ patterns, p.takesNone Segment.openers = true) :
    rule.apply true source = source :=
  apply_of_loud hquiet hsome fun _ hw => isLoud_of_takes hs hnone (hpattern ▸ hw)

theorem removeImports_of_quietCode (hquiet : QuietCode source) :
    removeImports true source = source := by
  refine applyAll_eq_self true ?_
  simp only [List.forall_mem_cons, List.not_mem_nil, false_implies, implies_true, and_true]
  exact ⟨apply_of_lit hquiet [lineStart, spaces] _ rfl (by decide) rfl (by decide),
    apply_of_lit hquiet [lineStart, spaces] _ rfl (by decide) rfl (by decide)⟩

theorem normalizeExports_of_quietCode (hquiet : QuietCode source) :
    normalizeExports true source = source := by
  refine applyAll_eq_self true ?_
  simp only [List.forall_mem_cons, List.not_mem_nil, false_implies, implies_true, and_true]
  exact ⟨apply_of_lit hquiet [statementMark, spaces] _ rfl (by decide) rfl (by decide),
    apply_of_lit hquiet [statementMark, spaces] _ rfl (by decide) rfl (by decide),
    apply_of_lit hquiet [statementMark, .capture 2 spaces] _ rfl (by decide) rfl (by decide),
    apply_of_lit hquiet [statementMark, .capture 2 spaces] _ rfl (by decide) rfl (by decide)⟩

/-- A synchronous primitive says that it is one, and before it the call says `fs`, unless it starts
with `require`. -/
theorem isLoud_of_takes_syncCall {w : List Char} (hw : syncCall.Takes w) : IsLoud w := by
  rw [syncCall, takes_all_cons] at hw
  obtain ⟨edge, rest, rfl, rfl, hw⟩ := hw
  obtain ⟨module, rest, rfl, hmodule, hrest⟩ := takes_all_cons.mp hw
  obtain ⟨first, hfirst, hmodule⟩ := (takes_anyOf (by simp)).mp hmodule
  have hplain : (∀ c ∈ module, c ∉ Segment.openers) → IsLoud (module ++ rest) := by
    intro hnone
    obtain ⟨point, rest, rfl, hpoint, hrest⟩ :=
      (@takes_all_append _ [blanks, lit ".", blanks] _).mp hrest
    obtain ⟨name, rest, rfl, hname, -⟩ := takes_all_cons.mp hrest
    have hpoint' : ∀ c ∈ point, c ∉ Segment.openers := not_mem_of_takes_all (by decide) hpoint
    obtain ⟨primitive, hprimitive, rfl⟩ := (takes_words (by simp [syncGuidance])).mp hname
    -- Each of the names ends with the word.
    have hends : ∀ s ∈ syncGuidance.map Prod.fst,
        s.toList = s.toList.take (s.length - 4) ++ "Sync".toList ∧
          ∀ c ∈ s.toList, c ∉ Segment.openers := by
      decide
    obtain ⟨hname, hnameNone⟩ := hends primitive hprimitive
    generalize primitive.toList.take (primitive.length - 4) = u at hname
    rw [hname] at hnameNone
    obtain ⟨hu, -⟩ := List.forall_mem_append.mp hnameNone
    refine ⟨module ++ point ++ u, rest, "Sync", by decide, by rw [hname]; simp, ?_⟩
    exact List.forall_mem_append.mpr ⟨List.forall_mem_append.mpr ⟨hnone, hpoint'⟩, hu⟩
  simp only [List.mem_cons, List.not_mem_nil, or_false] at hfirst
  rcases hfirst with rfl | rfl | rfl
  · obtain rfl := takes_lit.mp hmodule
    exact hplain (by decide)
  · obtain rfl := takes_lit.mp hmodule
    exact hplain (by decide)
  · obtain ⟨word, others, rfl, hword, -⟩ := takes_all_cons.mp hmodule
    obtain rfl := takes_lit.mp hword
    exact ⟨[], others ++ rest, "require", by decide, by simp, by simp⟩

theorem replaceSyncCalls_of_quietCode (hquiet : QuietCode source) :
    replaceSyncCalls true source = source :=
  apply_of_loud hquiet rfl fun _ => isLoud_of_takes_syncCall

/-! ## Requires -/

theorem isLoud_of_takes_requireBare {w : List Char} (hw : requireBare.Takes w) : IsLoud w := by
  obtain ⟨u, rest, rfl, hu, hrest⟩ := (@takes_all_append _ [lineStart, spaces] _).mp hw
  obtain ⟨call, rest, rfl, hcall, -⟩ := takes_all_cons.mp hrest
  obtain ⟨word, others, rfl, hword, -⟩ := takes_all_cons.mp hcall
  obtain rfl := takes_lit.mp hword
  exact ⟨u, others ++ rest, "require", by decide, by simp,
    not_mem_of_takes_all (by decide) hu⟩

/-- The declarations of what a `require` call returns that start in code. -/
def codeDeclarations (source : List Char) : List Found :=
  (requireDeclaration.findAll source).filter
    (Rule.startsInCode source (Region.ofSource source))

/-- Of quiet code exactly those declarations are removed that start in code. -/
theorem removeRequires_eq_self_iff (hquiet : QuietCode source) :
    removeRequires true source = source ↔ codeDeclarations source = [] := by
  have hremove : ∀ (pattern : Pattern) (text : List Char), pattern.takesSome = true →
      (Rule.apply true (.remove pattern) text).length ≤ text.length ∧
        ((Rule.apply true (.remove pattern) text).length = text.length →
          ∀ m ∈ pattern.findAll text,
            Rule.startsInCode text (Region.ofSource text) m = false) := by
    intro pattern text hsome
    have hshort : ∀ m : Found, (if Rule.startsInCode text (Region.ofSource text) m then []
        else m.text).length ≤ m.text.length := by
      intro m
      split
      · exact Nat.zero_le _
      · exact Nat.le_refl _
    obtain ⟨hle, heq⟩ := length_replace_le hsome fun m _ => hshort m
    refine ⟨hle, fun hlength m hm => Bool.eq_false_iff.mpr fun hcode => ?_⟩
    have hempty := heq hlength m hm
    rw [if_pos hcode] at hempty
    obtain ⟨-, -, htext, -⟩ := exists_of_mem_findAll hsome hm
    exact htext (List.eq_nil_of_length_eq_zero hempty.symm)
  have hbare := @apply_of_loud source hquiet (.remove requireBare) rfl
    fun _ => isLoud_of_takes_requireBare
  rw [codeDeclarations, List.filter_eq_nil_iff]
  constructor
  · intro hself m hm hcode
    obtain ⟨hle, heq⟩ := hremove requireDeclaration source rfl
    obtain ⟨hle', -⟩ :=
      hremove requireBare (Rule.apply true (.remove requireDeclaration) source) rfl
    have hlength : (removeRequires true source).length = source.length := congrArg _ hself
    rw [removeRequires, Rule.applyAll, List.foldl_cons, List.foldl_cons, List.foldl_nil] at hlength
    exact Bool.false_ne_true ((heq (by omega) m hm).symm.trans hcode)
  · intro hnone
    have hdeclaration := @apply_of_startsInCode source (.remove requireDeclaration) rfl
      fun m hm => Bool.eq_false_iff.mpr (hnone m hm)
    refine applyAll_eq_self true ?_
    simp only [List.forall_mem_cons, List.not_mem_nil, false_implies, implies_true, and_true]
    exact ⟨hdeclaration, hbare⟩

/-! ## Types -/

/-- A cast says `as` between blanks. -/
theorem exists_of_takes_cast {w : List Char} (hw : cast.Takes w) : ∃ blanks b b' v,
    w = blanks ++ b :: 'a' :: 's' :: b' :: v ∧ (∀ c ∈ blanks, isBlank c = true) ∧
      isBlank b = true ∧ isBlank b' = true ∧ b' ∉ Segment.openers := by
  have hblank : ∀ c, " \t".toList.contains c = true →
      isBlank c = true ∧ c ∉ Segment.openers := by
    intro c hc
    have hall : ∀ c ∈ " \t".toList, isBlank c = true ∧ c ∉ Segment.openers := by decide
    exact hall c (List.contains_iff_mem.mp hc)
  rw [cast, takes_all_cons] at hw
  obtain ⟨_, rest, rfl, rfl, hw⟩ := hw
  obtain ⟨left, rest, rfl, hleft, hw⟩ := takes_all_cons.mp hw
  obtain ⟨word, rest, rfl, hword, hw⟩ := takes_all_cons.mp hw
  obtain ⟨right, v, rfl, hright, -⟩ := takes_all_cons.mp hw
  obtain rfl := takes_lit.mp hword
  obtain ⟨hleftne, hleft⟩ := takes_plus_char.mp hleft
  obtain ⟨hrightne, hright⟩ := takes_plus_char.mp hright
  obtain ⟨blanks, b, rfl⟩ := (List.eq_nil_or_concat left).resolve_left hleftne
  obtain ⟨b', more, rfl⟩ := List.exists_cons_of_ne_nil hrightne
  rw [List.concat_eq_append] at hleft ⊢
  obtain ⟨hblanks, hb⟩ := List.forall_mem_append.mp hleft
  obtain ⟨hb', -⟩ := List.forall_mem_cons.mp hright
  exact ⟨blanks, b, b', more ++ v, by simp, fun c hc => (hblank c (hblanks c hc)).1,
    (hblank b (hb b (List.mem_singleton_self b))).1, (hblank b' hb').1, (hblank b' hb').2⟩

theorem apply_cast_of_quietCode (hquiet : QuietCode source) :
    Rule.apply true (.remove cast) source = source := by
  refine apply_of_startsInCode rfl fun m hm => ?_
  obtain ⟨before, hmatch, -, hsource⟩ := exists_of_mem_findAll rfl hm
  obtain ⟨htakes, -, hstart⟩ := exists_of_matchAt? hmatch
  obtain ⟨blanks, b, b', v, htext, hblanks, hb, hb', hopen⟩ := exists_of_takes_cast htakes
  have hcount : m.text.takeWhile isBlank = blanks ++ [b] := by
    rw [htext, List.append_cons, List.takeWhile_append_of_pos
      (List.forall_mem_append.mpr ⟨hblanks, by simpa using hb⟩),
      List.takeWhile_cons_of_neg (by decide), List.append_nil]
  have hsplit : source = (before ++ blanks) ++ b :: ('a' :: ['s', b'] ++ (v ++ m.after)) := by
    rw [hsource, htext]
    simp
  refine Bool.eq_false_iff.mpr fun hcode => ?_
  rw [Rule.startsInCode, Rule.firstMark, hstart, hcount, Bool.or_eq_true,
    decide_eq_true_eq] at hcode
  rcases hcode with hcode | hcode
  · rw [hsplit] at hcode
    simp at hcode
  · have hplace : before.length + (blanks ++ [b]).length = (before ++ blanks).length + 1 := by
      simp [Nat.add_assoc]
    rw [hplace] at hcode
    -- The blank before the word is code as well, since no comment or literal ends with it.
    obtain ⟨r, hr, hkind, hinfix⟩ := (inCode_of_isCodeAt hcode).exists_region_of_blank_run hsplit
      hb (by decide) (by simpa using ⟨by decide, by decide, hopen⟩)
    exact (hquiet r hr hkind).casts b b' hb hb' hinfix

theorem withoutDeclarations_of_quietCode (hquiet : QuietCode source) :
    withoutDeclarations true source = source := by
  refine applyAll_eq_self true ?_
  simp only [typeRules, List.forall_mem_cons, List.not_mem_nil, false_implies, implies_true,
    and_true]
  exact ⟨apply_of_lit hquiet [lineStart, spaces, opt (.seq (lit "declare") someBlanks)] _ rfl
      (by decide) rfl (by decide),
    apply_of_lit hquiet [lineStart, spaces, opt (.seq (lit "declare") someBlanks)] _ rfl
      (by decide) rfl (by decide),
    apply_of_lit hquiet [wordEdge, .capture 1 (words ["const", "let", "var"]),
      .capture 2 (.seq someBlanks identifier), blanks] _ rfl (by decide) rfl (by decide),
    apply_of_lit hquiet [wordEdge, .capture 1 (words ["let", "var"]),
      .capture 2 (.seq someBlanks identifier), blanks] _ rfl (by decide) rfl (by decide),
    apply_of_lit hquiet [wordEdge,
      .capture 1 (all [lit "function", blanks, opt (lit "*"), blanks, nameChars]), blanks] _ rfl
      (by decide) rfl (by decide)⟩

/-! ## Parameters -/

/-- Whether a parameter is a destructuring pattern. -/
def isDestructured : List Char → Bool
  | '.' :: '.' :: '.' :: c :: _ => c == '\x7b' || c == '['
  | c :: _ => c == '\x7b' || c == '['
  | [] => false

/-- A parameter as it stands in code: after a parenthesis or a comma of code, with only blanks
between. -/
def StandsInCode (source parameter : List Char) : Prop :=
  ∃ edge mark gap rest, ⟨edge, mark⟩ ∈ codeChars source ∧ mark ∈ ['(', ','] ∧
    (∀ c ∈ gap, isBlank c = true) ∧ source.drop edge = mark :: (gap ++ (parameter ++ rest))

/-- The start of a parameter that opens no comment and no literal is code, and so is what stands
before it. -/
theorem StandsInCode.exists_region {parameter w rest : List Char}
    (h : StandsInCode source parameter) (hparameter : parameter = w ++ rest)
    (hopen : ∀ c ∈ w, c ∉ Segment.openers) :
    ∃ r ∈ Region.ofSource source, r.kind = .code ∧
      ∃ u mark gap v, mark ∈ ['(', ','] ∧ (∀ c ∈ gap, isBlank c = true) ∧
        r.text source = u ++ mark :: gap ++ w ++ v := by
  obtain ⟨edge, mark, gap, after, hedge, hmark, hgap, hdrop⟩ := h
  have hmarkopen : mark ∉ Segment.openers := by
    have hall : ∀ c ∈ ['(', ','], c ∉ Segment.openers := by decide
    exact hall mark hmark
  have hrun : source.drop edge = (mark :: gap ++ w) ++ (rest ++ after) := by
    rw [hdrop, hparameter]
    simp
  obtain ⟨r, hr, hkind, u, v, htext⟩ :=
    (inCode_of_mem_codeChars hedge).1.exists_region_of_run hrun
      (List.forall_mem_append.mpr ⟨List.forall_mem_cons.mpr
        ⟨hmarkopen, fun c hc => Segment.not_mem_openers_of_isBlank (hgap c hc)⟩, hopen⟩)
  exact ⟨r, hr, hkind, u, mark, gap, v, hmark, hgap, by rw [← htext]; simp⟩

/-- Quiet code has no access modifiers before a parameter. -/
theorem withoutModifiers_of_quietCode (hquiet : QuietCode source) {parameter : List Char}
    (h : StandsInCode source parameter) : withoutModifiers parameter = parameter := by
  rw [withoutModifiers]
  split
  · next m hmatch =>
    exfalso
    obtain ⟨htakes, hrest, -⟩ := exists_of_matchAt? hmatch
    rw [accessModifiers, takes_all_cons] at htakes
    obtain ⟨_, others, htext, rfl, hothers⟩ := htakes
    obtain ⟨modifiers, others, rfl, ⟨first, more, rfl, ⟨word, gap', rfl, hword, hgap'⟩, -⟩, -⟩ :=
      takes_all_cons.mp hothers
    obtain ⟨modifier, hmodifier, rfl⟩ := (takes_words (by simp)).mp hword
    obtain ⟨hne, hgap'⟩ := takes_plus_char.mp hgap'
    obtain ⟨b, bs, rfl⟩ := List.exists_cons_of_ne_nil hne
    have hb : isBlank b = true := hgap' b (.head _)
    have hmodifieropen : ∀ s ∈ modifierWords, ∀ c ∈ s.toList, c ∉ Segment.openers := by decide
    obtain ⟨r, hr, hkind, u, mark, gap, v, hmark, hgap, hregion⟩ :=
      @StandsInCode.exists_region _ _ (modifier.toList ++ [b]) (bs ++ more ++ others ++ m.after) h
        (by rw [show parameter = m.text ++ m.after from hrest, htext]; simp)
        (List.forall_mem_append.mpr ⟨hmodifieropen modifier hmodifier, List.forall_mem_singleton.mpr
          (Segment.not_mem_openers_of_isBlank hb)⟩)
    -- Neither the character before the modifier nor the one after it belongs to a word.
    rcases (hquiet r hr hkind).modifiers modifier hmodifier (u ++ mark :: gap) (b :: v)
      (by rw [hregion]; simp) with hbefore | hafter
    · have hlast : ∀ c ∈ mark :: gap, isWordChar c = false := by
        have hall : ∀ c ∈ ['(', ','], isWordChar c = false := by decide
        exact List.forall_mem_cons.mpr
          ⟨hall mark hmark, fun c hc => Segment.isWordChar_of_isBlank (hgap c hc)⟩
      rw [List.getLast?_append_cons, List.getLast?_eq_some_getLast (List.cons_ne_nil mark gap),
        Option.any_some, hlast _ (List.getLast_mem _)] at hbefore
      cases hbefore
    · rw [List.head?_cons, Option.any_some, Segment.isWordChar_of_isBlank hb] at hafter
      cases hafter
  · rfl

theorem getElem?_of_topLevelFrom? {target : Char} {depth : Int} {index place : Nat}
    {text : List Char} (h : topLevelFrom? target depth index text = some place) :
    ∃ k, place = index + k ∧ text[k]? = some target := by
  fun_induction topLevelFrom? target depth index text with
  | case1 | case6 => cases h
  | case2 depth index rest ih =>
    obtain ⟨k, rfl, hk⟩ := ih h
    exact ⟨k + 2, by omega, hk⟩
  | case3 depth index c rest _ _ ih | case4 depth index c rest _ _ _ ih
  | case7 depth index c rest _ _ _ _ _ ih =>
    obtain ⟨k, rfl, hk⟩ := ih h
    exact ⟨k + 1, by omega, hk⟩
  | case5 depth index c rest _ _ _ hc =>
    obtain rfl := Option.some.inj h
    exact ⟨0, rfl, by simpa using (Bool.and_eq_true_iff.mp hc).2⟩

/-- A name or a destructuring pattern before an annotation. -/
theorem cases_of_takes_parameterName {name : List Char} {m : Found}
    (h : parameterName.matchAt? (.ofText name) = some m) :
    isDestructured name = true ∨ ∀ c ∈ name, c ∉ Segment.openers := by
  obtain ⟨htakes, hrest, -⟩ := exists_of_matchAt? h
  obtain ⟨-, hafter⟩ := @holds_of_matchAt? [textStart, opt (lit "..."),
    anyOf [identifier, all [lit "\x7b", star anyChar, lit "\x7d"],
      all [lit "[", star anyChar, lit "]"]], blanks, opt (lit "?")] _ _ _ h
  have hname : name = m.text ++ m.after := hrest
  rw [parameterName, takes_all_cons] at htakes
  obtain ⟨_, others, htext, rfl, hothers⟩ := htakes
  obtain ⟨dots, others, rfl, hdots, hothers⟩ := takes_all_cons.mp hothers
  obtain ⟨body, others, rfl, hbody, hothers⟩ := takes_all_cons.mp hothers
  have hdots : dots = "...".toList ∨ dots = [] := hdots.imp_left takes_lit.mp
  obtain ⟨shape, hshape, hbody⟩ := (takes_anyOf (by simp)).mp hbody
  have hbraces : ∀ {c : Char} {more : List Char}, body = c :: more → c = '\x7b' ∨ c = '[' →
      isDestructured name = true := by
    rintro c more rfl hc
    rw [hname, htext]
    rcases hdots with rfl | rfl
    · rcases hc with rfl | rfl
      · rfl
      · rfl
    · rcases hc with rfl | rfl
      · rfl
      · rfl
  simp only [List.mem_cons, List.not_mem_nil, or_false] at hshape
  rcases hshape with rfl | rfl | rfl
  · have hend : m.after = [] ∨ m.after = ['\n'] := by simpa using hafter
    have hdotsopen : ∀ c ∈ dots, c ∉ Segment.openers := by
      rcases hdots with rfl | rfl
      · decide
      · simp
    have hendopen : ∀ c ∈ m.after, c ∉ Segment.openers := by
      rcases hend with h | h
      · rw [h]; simp
      · rw [h]; decide
    rw [hname, htext, List.nil_append]
    exact .inr (List.forall_mem_append.mpr ⟨List.forall_mem_append.mpr ⟨hdotsopen,
      List.forall_mem_append.mpr ⟨not_mem_of_takesNone identifier (by decide) hbody,
        not_mem_of_takes_all (by decide) hothers⟩⟩, hendopen⟩)
  · obtain ⟨brace, more, rfl, hbrace, -⟩ := takes_all_cons.mp hbody
    obtain rfl := takes_lit.mp hbrace
    exact .inl (hbraces rfl (.inl rfl))
  · obtain ⟨brace, more, rfl, hbrace, -⟩ := takes_all_cons.mp hbody
    obtain rfl := takes_lit.mp hbrace
    exact .inl (hbraces rfl (.inr rfl))

theorem isDestructured_append {name : List Char} (h : isDestructured name = true)
    (rest : List Char) : isDestructured (name ++ rest) = true := by
  unfold isDestructured at h
  split at h
  · exact h
  · next c more _ =>
    have hbrace : c = '\x7b' ∨ c = '[' := by simpa using h
    rcases hbrace with rfl | rfl
    · rfl
    · rfl
  · cases h

/-- Quiet code has no annotation after the name of a parameter. -/
theorem stripParameter_of_quietCode (hquiet : QuietCode source) {parameter : List Char}
    (h : StandsInCode source parameter)
    (hdestructured : isDestructured parameter = true → topLevelIndex? parameter ':' 0 = none) :
    stripParameter parameter = parameter := by
  rw [stripParameter, withoutModifiers_of_quietCode hquiet h]
  dsimp only
  split
  · rfl
  next colon hcolon =>
  split
  · rfl
  next m hmatch =>
  exfalso
  obtain ⟨k, hk, hchar⟩ := getElem?_of_topLevelFrom? hcolon
  obtain rfl : colon = k := by omega
  rw [List.drop_zero] at hchar
  obtain ⟨hlt, hchar⟩ := List.getElem?_eq_some_iff.mp hchar
  obtain ⟨gap, hgap, hname⟩ := exists_append_dropEndWhile isBlank (parameter.take colon)
  have hparameter : parameter = parameter.take colon ++ [':'] ++ parameter.drop (colon + 1) := by
    rw [List.append_assoc, List.singleton_append, ← hchar, ← List.drop_eq_getElem_cons hlt,
      List.take_append_drop]
  rcases cases_of_takes_parameterName hmatch with hbraces | hopen
  · have hbraces' : isDestructured parameter = true := by
      rw [hparameter, hname, List.append_assoc, List.append_assoc]
      exact isDestructured_append hbraces _
    exact nomatch (hdestructured hbraces').symm.trans hcolon
  · obtain ⟨r, hr, hkind, u, mark, gap', v, -, -, hregion⟩ :=
      h.exists_region hparameter (List.forall_mem_append.mpr ⟨by
        rw [hname]
        exact List.forall_mem_append.mpr
          ⟨hopen, fun c hc => Segment.not_mem_openers_of_isBlank (hgap c hc)⟩, by decide⟩)
    refine (hquiet r hr hkind).words ":" (by decide)
      ⟨u ++ mark :: gap' ++ parameter.take colon, v, ?_⟩
    rw [hregion]
    simp

/-! ## Signatures -/

/-- No destructuring pattern among the parameters of the signatures of a snippet shows a colon
outside brackets, if the brackets of its comments and literals are counted along. -/
def PlainParameters (source : List Char) : Prop :=
  ∀ opening ∈ codeChars source, opening.char = '(' →
    ∀ signature ∈ signatureAt? source (codeChars source) opening.place,
      ∀ parameter ∈ signature.1.texts source, isDestructured parameter = true →
        topLevelIndex? parameter ':' 0 = none

theorem settled_of_quietCode (hquiet : QuietCode source) (hplain : PlainParameters source)
    {place : Nat} (hplace : ⟨place, '('⟩ ∈ codeChars source) : Settled source place := by
  intro arguments tail hsignature
  obtain ⟨harguments, htail⟩ := exists_of_signatureAt? hsignature
  constructor
  · refine List.filterMap_eq_nil_iff.mpr fun span hspan => ?_
    obtain ⟨edge, mark, gap, hedge, hmark, hgap, hdrop⟩ :=
      exists_of_mem_spans hplace harguments hspan
    have hstands : StandsInCode source (Region.slice source span.1 span.2) :=
      ⟨edge, mark, gap, (source.drop span.1).drop (span.2 - span.1), hedge, hmark, hgap, by
        rw [hdrop, Region.slice, List.take_append_drop]⟩
    have hstrip := stripParameter_of_quietCode hquiet hstands
      (hplain _ hplace rfl _ hsignature _ (List.mem_map_of_mem hspan))
    dsimp only
    rw [hstrip, if_pos (beq_self_eq_true _)]
  · by_contra hcaptured
    obtain ⟨gap, rest, htext, hgap⟩ := captured_of_signatureTail htail hcaptured
    obtain ⟨hclose, c, hc, hchar⟩ := inCode_close hplace harguments
    obtain ⟨hlt, hchar⟩ := List.getElem?_eq_some_iff.mp hchar
    have hcopen : c ∉ Segment.openers := by
      have hall : ∀ c ∈ Segment.openers, isClosing c = false := by decide
      exact fun hmem => Bool.false_ne_true ((hall c hmem).symm.trans hc)
    have hgap : ∀ c ∈ gap, c ∉ Segment.openers := fun c hc => by
      rcases hgap c hc with rfl | rfl <;> decide
    have hdrop : source.drop arguments.close = (c :: gap ++ [':']) ++ rest := by
      rw [List.drop_eq_getElem_cons hlt, hchar, htext]
      simp
    obtain ⟨r, hr, hkind, hinfix⟩ := hclose.exists_region_of_run hdrop
      (List.forall_mem_append.mpr ⟨List.forall_mem_cons.mpr ⟨hcopen, hgap⟩, by decide⟩)
    exact (hquiet r hr hkind).words ":" (by decide) ((List.suffix_append _ _).isInfix.trans hinfix)

theorem signatureEdits_of_quietCode (hquiet : QuietCode source) (hplain : PlainParameters source)
    (start : Nat) {openings : List Placed}
    (hopenings : ∀ p ∈ openings, p ∈ codeChars source ∧ p.char = '(') :
    signatureEdits source (codeChars source) start openings = [] := by
  have hsettled : ∀ p ∈ openings, Settled source p.place := fun p hp => by
    obtain ⟨hmem, hchar⟩ := hopenings p hp
    exact settled_of_quietCode hquiet hplain (by rw [← hchar]; exact hmem)
  obtain ⟨start', heq⟩ := exists_signatureEdits_append hsettled start []
  rw [List.append_nil] at heq
  exact heq

theorem stripSignatures_of_quietCode (hquiet : QuietCode source) (hplain : PlainParameters source) :
    stripSignatures source = source := by
  rw [stripSignatures, signatureEdits_of_quietCode hquiet hplain 0 fun p hp => by
    simpa using List.mem_filter.mp hp]
  rfl

theorem stripTypes_of_quietCode (hquiet : QuietCode source) (hplain : PlainParameters source) :
    stripTypes true source = source := by
  rw [stripTypes_eq, withoutDeclarations_of_quietCode hquiet,
    stripSignatures_of_quietCode hquiet hplain,
    apply_cast_of_quietCode hquiet]

/-! ## All rewritings -/

/-- What the rewritings leave alone, whatever comments and literals say: imports, exports and
synchronous calls are found in quiet code only where it starts, and there are none. A declaration is
removed if it starts in code and reaches a `require` call. Types are not touched, unless a
destructuring pattern shows a colon outside brackets when all brackets are counted. -/
theorem stages_of_quietCode (hquiet : QuietCode source) :
    removeImports true source = source ∧ normalizeExports true source = source ∧
      (removeRequires true source = source ↔ codeDeclarations source = []) ∧
      replaceSyncCalls true source = source ∧
      (PlainParameters source → stripTypes true source = source) :=
  ⟨removeImports_of_quietCode hquiet, normalizeExports_of_quietCode hquiet,
    removeRequires_eq_self_iff hquiet, replaceSyncCalls_of_quietCode hquiet,
    stripTypes_of_quietCode hquiet⟩

/-- A snippet that says all the words, and none of them in code. -/
theorem stages_of_quietCode_quoted :
    let source := ("f((a, \x7bb\x7d) => \x60export $\x7ba\x7d: type\x60, 'import x') " ++
      "/* const y = require('y') */ // b as c;").toList
    QuietCode source ∧ removeImports true source = source ∧ normalizeExports true source = source ∧
      removeRequires true source = source ∧ replaceSyncCalls true source = source ∧
      stripTypes true source = source := by
  intro source
  have hquiet : QuietCode source := quietCode_of_words (by decide +kernel)
  obtain ⟨himports, hexports, hrequires, hcalls, htypes⟩ := stages_of_quietCode hquiet
  have hnone : codeDeclarations source = [] := by decide +kernel
  have hplain : PlainParameters source := by
    unfold PlainParameters
    decide +kernel
  exact ⟨hquiet, himports, hexports, hrequires.mpr hnone, hcalls, htypes hplain⟩

/-- A declaration may find its call in a comment, and a parameter its colon. -/
theorem not_inert_comment :
    let declared := "const a /* = require('x'); */ = 5".toList
    let destructured := "(\x7ba /* \x7d : */ \x7d) => 1".toList
    QuietCode declared ∧ removeRequires true declared = "*/ = 5".toList ∧
      QuietCode destructured ∧ stripTypes true destructured = "(\x7ba /* \x7d) => 1".toList := by
  intro declared destructured
  exact ⟨quietCode_of_words (by decide +kernel), by decide +kernel,
    quietCode_of_words (by decide +kernel), by decide +kernel⟩

end GuestCode.Rewrite
