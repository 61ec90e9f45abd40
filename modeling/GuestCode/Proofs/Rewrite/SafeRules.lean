import GuestCode.Proofs.Json.Strings
import GuestCode.Proofs.Rewrite.Mark
import GuestCode.Proofs.Rewrite.Signatures

/-!
# Rules that make no mark

What the rules put in the place of a match has no slash. It stands at the start of a line, or it holds
a bracket, a semicolon or an equal sign, or such a character follows. So no rule makes a mark, and a
text that is marked only in its head, where no match starts, stays such a text.

## Main statements

* `Rewrite.Safe.under`: a safe rule leaves a text marked in its head only.
* `Rewrite.safe_removeImports`, ...: the rules of each rewriting are safe.
-/

namespace GuestCode.Rewrite

open Text Text.Pattern Grammar

/-- A text that starts with a head and is not marked after it. -/
def Under (head text : List Char) : Prop := ∃ body, text = head ++ body ∧ ¬Marked body

/-- No match starts in a head, whatever follows it. -/
def Unmatched (pattern : Pattern) (head : List Char) : Prop :=
  ∀ u v, head = u ++ v → v ≠ [] → ∀ body,
    pattern.matchAt? ⟨u.getLast?, v ++ body, u.length, []⟩ = none

/-- A rule whose replacements are harmless. -/
structure Safe (rule : Rule) : Prop where
  takesSome : rule.pattern.takesSome = true
  harmless : ∀ (b : List Char) (m : Found),
    rule.pattern.matchAt? ⟨b.getLast?, m.text ++ m.after, b.length, []⟩ = some m →
      Harmless b m (rule.replacement m)

theorem Safe.under {rule : Rule} (h : Safe rule) {head text : List Char}
    (hhead : Unmatched rule.pattern head) (codeOnly : Bool) (htext : Under head text) :
    Under head (rule.apply codeOnly text) := by
  obtain ⟨body, rfl, hbody⟩ := htext
  obtain ⟨others, hparts, hdivides⟩ := Divides.exists_of_append
    (fun u v hu hv => hhead u v hu hv body) (divides_parts h.takesSome (head ++ body))
  have hreplace : ∀ replacement : Found → List Char,
      (∀ (b : List Char) (m : Found),
        rule.pattern.matchAt? ⟨b.getLast?, m.text ++ m.after, b.length, []⟩ = some m →
          Harmless b m (replacement m)) →
      Under head (rule.pattern.replace replacement (head ++ body)) := by
    intro replacement hharmless
    refine ⟨_, ?_, not_marked_flatMap hdivides hharmless (s := []) (fun _ => closed_nil) hbody⟩
    rw [replace, hparts, List.flatMap_append, List.flatMap_map]
    exact congrArg (· ++ _) (List.flatMap_singleton' head)
  cases codeOnly with
  | false => exact hreplace _ h.harmless
  | true =>
    refine hreplace _ fun b m hm => ?_
    split
    · exact h.harmless b m hm
    · exact .same

theorem under_applyAll {rules : List Rule} {head : List Char}
    (hrules : ∀ rule ∈ rules, Safe rule ∧ Unmatched rule.pattern head) (codeOnly : Bool)
    {text : List Char} (htext : Under head text) :
    Under head (Rule.applyAll codeOnly rules text) := by
  rw [Rule.applyAll]
  induction rules generalizing text with
  | nil => exact htext
  | cons rule rules ih =>
    obtain ⟨⟨hsafe, hhead⟩, hothers⟩ := List.forall_mem_cons.mp hrules
    exact ih hothers (hsafe.under hhead codeOnly htext)

/-! ## Kinds of rules -/

/-- What starts at the start of a line may be removed. -/
theorem safe_remove_of_lineStart {pattern : Pattern} {others : List Pattern}
    (hpattern : pattern = all (lineStart :: others)) (hsome : pattern.takesSome = true) :
    Safe (.remove pattern) where
  takesSome := hsome
  harmless b m hm := by
    subst hpattern
    exact .atLineStart (holds_of_matchAt?_cons hm) (by simp [Rule.remove])

theorem slash_not_mem_captured {pattern : Pattern} {label : Nat}
    (h : pattern.capturesNone ['/'] label = true) {before : Option Char} {text : List Char}
    {offset : Nat} {m : Found} (hm : pattern.matchAt? ⟨before, text, offset, []⟩ = some m) :
    '/' ∉ m.captured label :=
  fun hmem => not_mem_captured h hm '/' hmem (.head _)

/-- What starts where a statement may start may be reduced to texts without slashes, if the mark
before it stays. -/
theorem safe_keep_of_statementMark {pattern : Pattern} {others : List Pattern} {labels : List Nat}
    (hpattern : pattern = all (statementMark :: others)) (hsome : pattern.takesSome = true)
    (hkeeps : (all others).keepsNone 1 = true)
    (hcaptures : ∀ label ∈ 1 :: labels, pattern.capturesNone ['/'] label = true) :
    Safe (.keep pattern (1 :: labels)) where
  takesSome := hsome
  harmless b m hm := by
    have hslash : '/' ∉ (1 :: labels).flatMap m.captured := fun hmem => by
      obtain ⟨label, hlabel, hmem⟩ := List.mem_flatMap.mp hmem
      exact slash_not_mem_captured (hcaptures label hlabel) hm hmem
    subst hpattern
    obtain ⟨q, hq, hcaptured⟩ := exists_of_matchAt?_capture hkeeps hm
    rcases List.mem_append.mp hq with hq | hq
    · rw [lineStart, ends] at hq
      split at hq
      · next hline => exact .atLineStart hline hslash
      · cases hq
    · -- The mark before the statement is in the replacement.
      rw [oneOf, ends] at hq
      split at hq
      · cases hq
      next c cs hrest =>
      split at hq
      · next hc =>
        obtain rfl := List.mem_singleton.mp hq
        have hone : m.captured 1 = [c] := by
          rw [hcaptured, Progress.next]
          simp only at hrest
          simp [hrest]
        have hmark : ∀ c ∈ ";\x7d".toList, c ∈ separators := by decide
        refine .apart hslash (c := c) ?_ (not_mem_mark (hmark c (List.contains_iff_mem.mp hc)))
        show c ∈ (1 :: labels).flatMap m.captured
        rw [List.flatMap_cons, hone]
        exact .head _
      · cases hq

/-- A match may become a text without slashes that holds a character which the mark does not hold. -/
theorem safe_of_separator {rule : Rule} (c : Char) (hsome : rule.pattern.takesSome = true)
    (hc : c ∈ separators)
    (hreplacement : ∀ {before : Option Char} {text : List Char} {offset : Nat} {m : Found},
      rule.pattern.matchAt? ⟨before, text, offset, []⟩ = some m →
        c ∈ rule.replacement m ∧ '/' ∉ rule.replacement m) : Safe rule where
  takesSome := hsome
  harmless _ _ hm := .apart (hreplacement hm).2 (hreplacement hm).1 (not_mem_mark hc)

/-! ## The rules of each rewriting -/

section Rules

theorem safe_imports : Safe (.remove importFrom) ∧ Safe (.remove importBare) :=
  ⟨safe_remove_of_lineStart rfl rfl, safe_remove_of_lineStart rfl rfl⟩

theorem safe_exports : Safe (.keep exportList [1]) ∧ Safe (.keep exportStar [1]) ∧
    Safe (.keep exportDefault [1, 2]) ∧ Safe (.keep exportDeclaration [1, 2]) :=
  ⟨safe_keep_of_statementMark rfl rfl rfl (by decide),
    safe_keep_of_statementMark rfl rfl rfl (by decide),
    safe_keep_of_statementMark rfl rfl rfl (by decide),
    safe_keep_of_statementMark rfl rfl rfl (by decide)⟩

theorem safe_requires : Safe (.remove requireDeclaration) ∧ Safe (.remove requireBare) :=
  ⟨safe_remove_of_lineStart rfl rfl, safe_remove_of_lineStart rfl rfl⟩

/-- Characters that stand in a string as they are, without the marks of comments. -/
def isBland (c : Char) : Bool :=
  c != '"' && c != '\\' && c != '/' && c != '*' && 0x20 ≤ c.toNat && c.toNat < 0x7F

/-- A property of the characters of a text that is written out. -/
theorem all_toList {p : Char → Bool} {s : String} {cs : List Char} (hs : s = String.ofList cs)
    (h : cs.all p = true) : s.toList.all p = true := by
  rw [hs, String.toList_ofList]
  exact h

theorem all_toList_append {p : Char → Bool} {s t : String} (hs : s.toList.all p = true)
    (ht : t.toList.all p = true) : (s ++ t).toList.all p = true := by
  rw [String.toList_append, List.all_append, hs, ht]
  rfl

theorem isBland_of_mem_syncGuidance : ∀ entry ∈ syncGuidance,
    entry.1.toList.all isBland = true ∧ entry.2.toList.all isBland = true := by
  have hread : readHint.toList.all isBland = true := all_toList rfl (by decide)
  have hwrite : writeHint.toList.all isBland = true := all_toList rfl (by decide)
  have hsearch : searchHint.toList.all isBland = true := all_toList rfl (by decide)
  have hparents : " (parent directories are created automatically)".toList.all isBland = true :=
    all_toList rfl (by decide)
  have hdeleting : " (deleting files is not supported)".toList.all isBland = true :=
    all_toList rfl (by decide)
  simp only [syncGuidance, List.forall_mem_cons, List.not_mem_nil, false_implies, implies_true,
    and_true]
  exact ⟨⟨all_toList rfl (by decide), hread⟩, ⟨all_toList rfl (by decide), hwrite⟩,
    ⟨all_toList rfl (by decide), hwrite⟩, ⟨all_toList rfl (by decide), hsearch⟩,
    ⟨all_toList rfl (by decide), hsearch⟩, ⟨all_toList rfl (by decide), hsearch⟩,
    ⟨all_toList rfl (by decide), all_toList_append hwrite hparents⟩,
    ⟨all_toList rfl (by decide), all_toList_append hwrite hdeleting⟩,
    ⟨all_toList rfl (by decide), all_toList_append hwrite hdeleting⟩⟩

/-- The error for a primitive is on one line and has no mark of a comment. -/
theorem not_mem_syncFailure {primitive : String} (h : primitive.toList.all isBland = true) {c : Char}
    (hc : c ∈ ['/', '*', '\n']) : c ∉ syncFailure primitive := by
  have hguidance : ((syncGuidance.lookup primitive).getD "").toList.all isBland = true := by
    cases hlookup : syncGuidance.lookup primitive with
    | none => rfl
    | some hint =>
      obtain ⟨before, after, heq, -⟩ := List.lookup_eq_some_iff.mp hlookup
      exact (isBland_of_mem_syncGuidance (primitive, hint) (by rw [heq]; simp)).2
  have hmessage : (syncMessage primitive).toList.all isBland = true := by
    unfold syncMessage
    exact all_toList_append (all_toList_append (all_toList_append (all_toList_append
      (all_toList rfl (by decide)) h) (all_toList rfl (by decide))) hguidance)
      (all_toList rfl (by decide))
  have hbland : ∀ d ∈ (syncMessage primitive).toList,
      d ≠ '"' ∧ d ≠ '\\' ∧ 0x20 ≤ d.toNat ∧ d.toNat < 0x7F := fun d hd => by
    have hd := List.all_eq_true.mp hmessage d hd
    simp only [isBland, Bool.and_eq_true, bne_iff_ne, decide_eq_true_eq] at hd
    exact ⟨hd.1.1.1.1.1, hd.1.1.1.1.2, hd.1.2, hd.2⟩
  have hmark : ∀ c ∈ ['/', '*', '\n'], isBland c = false ∧ c ≠ '"' ∧
      c ∉ "(() => \x7b throw new Error(".toList ∧ c ∉ "); \x7d)(".toList := by
    decide +kernel
  obtain ⟨hnot, hquote, hopening, hclosing⟩ := hmark c hc
  have hmem : c ∉ (syncMessage primitive).toList := fun hmem =>
    Bool.false_ne_true (hnot.symm.trans (List.all_eq_true.mp hmessage c hmem))
  unfold syncFailure
  rw [String.toList_append, String.toList_append, Json.toList_quote_of_plain hbland]
  exact List.not_mem_append (List.not_mem_append hopening (by simpa [hquote] using hmem)) hclosing

theorem parenthesis_mem_syncFailure (primitive : String) : '(' ∈ syncFailure primitive := by
  have hopening : '(' ∈ "(() => \x7b throw new Error(".toList := by decide +kernel
  unfold syncFailure
  rw [String.toList_append, String.toList_append]
  exact List.mem_append_left _ (List.mem_append_left _ hopening)

/-- What is captured as the name of a primitive is the name of one. -/
theorem isBland_of_captures_syncCall {w : List Char} (h : syncCall.Captures 2 w) :
    w.all isBland = true := by
  obtain ⟨p, hp, hw⟩ := captures_all.mp h
  by_cases hkeeps : p.keepsNone 2 = true
  · exact absurd hw (not_captures_of_keepsNone hkeeps w)
  have hname : p = .capture 2 (words (syncGuidance.map Prod.fst)) := by
    simp only [List.mem_cons, List.not_mem_nil, or_false] at hp
    rcases hp with rfl | rfl | rfl | rfl | rfl | rfl | rfl | rfl
    all_goals first | rfl | exact absurd rfl hkeeps
  subst hname
  rcases hw with ⟨-, hw⟩ | hw
  · obtain ⟨name, hname, rfl⟩ := (takes_words (by simp [syncGuidance])).mp hw
    obtain ⟨entry, hentry, rfl⟩ := List.mem_map.mp hname
    exact (isBland_of_mem_syncGuidance entry hentry).1
  · exact absurd hw (not_captures_of_keepsNone (by decide) w)

theorem isBland_captured_syncCall {before : Option Char} {text : List Char} {offset : Nat}
    {m : Found} (h : syncCall.matchAt? ⟨before, text, offset, []⟩ = some m) :
    (String.ofList (m.captured 2)).toList.all isBland = true := by
  rw [String.toList_ofList]
  rcases captured_of_matchAt? h 2 with hnil | hcaptures
  · rw [hnil]
    rfl
  · exact isBland_of_captures_syncCall hcaptures

theorem safe_syncCall :
    Safe ⟨syncCall, fun m => syncFailure (String.ofList (m.captured 2))⟩ := by
  refine safe_of_separator '(' rfl (by decide) fun {before text offset m} hm => ?_
  dsimp only at hm ⊢
  exact ⟨parenthesis_mem_syncFailure _,
    not_mem_syncFailure (isBland_captured_syncCall hm) (.head _)⟩

theorem safe_types : ∀ rule ∈ typeRules, Safe rule := by
  have hvariable : Safe ⟨annotatedVariable, fun m => m.captured 1 ++ m.captured 2 ++ " =".toList⟩ :=
    safe_of_separator '=' rfl (by decide) fun hm =>
      ⟨List.mem_append_right _ (by decide),
        List.not_mem_append (List.not_mem_append (slash_not_mem_captured (by decide) hm)
          (slash_not_mem_captured (by decide) hm)) (by decide)⟩
  have hdeclaration : Safe ⟨annotatedDeclaration, fun m => m.captured 1 ++ m.captured 2 ++ [';']⟩ :=
    safe_of_separator ';' rfl (by decide) fun hm =>
      ⟨List.mem_append_right _ (by decide),
        List.not_mem_append (List.not_mem_append (slash_not_mem_captured (by decide) hm)
          (slash_not_mem_captured (by decide) hm)) (by decide)⟩
  have hfunction : Safe ⟨genericFunction, fun m => m.captured 1 ++ ['(']⟩ :=
    safe_of_separator '(' rfl (by decide) fun hm =>
      ⟨List.mem_append_right _ (by decide),
        List.not_mem_append (slash_not_mem_captured (by decide) hm) (by decide)⟩
  simp only [typeRules, List.forall_mem_cons, List.not_mem_nil, false_implies, implies_true,
    and_true]
  exact ⟨safe_remove_of_lineStart rfl rfl, safe_remove_of_lineStart rfl rfl, hvariable,
    hdeclaration, hfunction⟩

/-- A cast ends where an expression does. -/
theorem safe_cast : Safe (.remove cast) where
  takesSome := rfl
  harmless b m hm := by
    have hnil : '/' ∉ (Rule.remove cast).replacement m := by simp [Rule.remove]
    have hline : '\n' ∉ m.text := fun hmem =>
      @not_mem_of_takesNone ['\n'] cast (by decide) _ (exists_of_matchAt? hm).1 _ hmem (.head _)
    obtain ⟨r, hr, hends⟩ := @exists_of_matchAt?_followedBy
      [afterOne fun c => isNameChar c || c == ')' || c == ']', plus (oneOf " \t"), lit "as",
        plus (oneOf " \t"), .either (lit "const")
          (all [.char isNameStart, star (.char fun c => isNameChar c || c == '.'),
            opt (all [lit "<", star (noneOf "<>\n"), lit ">"]), star (lit "[]")])] _ _ _ hm
    obtain ⟨q, hq⟩ := List.exists_mem_of_ne_nil _ hends
    rw [ends_all_cons] at hq
    obtain ⟨p, hp, hq⟩ := List.mem_flatMap.mp hq
    obtain ⟨gap, hgap, hover⟩ := exists_takes hp
    have hgap : '/' ∉ gap := fun hmem =>
      @not_mem_of_takesNone ['/'] spaces (by decide) _ hgap _ hmem (.head _)
    have hafter : m.after = gap ++ p.rest := hr.symm.trans hover.rest
    obtain ⟨before, text, offset, captures⟩ := p
    dsimp only at hafter
    cases text with
    | nil =>
      rw [List.append_nil] at hafter
      exact .beforeEnd hnil hline (hafter ▸ hgap)
    | cons c rest =>
      refine .beforeApart hnil hline hgap ?_ hafter
      rcases List.mem_append.mp hq with hq | hq
      · rw [oneOf, ends_char_cons] at hq
        split at hq
        · next hc =>
          have hclosing : ∀ c ∈ ");,]\x7d".toList, c ∈ separators := by decide
          exact not_mem_mark (hclosing c (List.contains_iff_mem.mp hc))
        · cases hq
      · rw [lineEnd, ends_condition] at hq
        split at hq
        · next hc =>
          obtain rfl : c = '\n' := by simpa using hc
          exact not_mem_mark (by decide)
        · cases hq

end Rules

end GuestCode.Rewrite
