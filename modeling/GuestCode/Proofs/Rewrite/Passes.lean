import GuestCode.Proofs.Snippet.Tokens
import GuestCode.Proofs.Text.Matching
import GuestCode.Rewrite.Runnable
import Mathlib.Logic.Function.Iterate

/-!
# How far the passes go

Passes are made until one changes nothing, but ten at most. A snippet that needs no more than ten is
brought to a text that a further pass leaves alone, and rewriting that text again does nothing. A
snippet that needs more is left half done. Such snippets exist for every number of passes: of casts
in a row, each pass removes only the last one, because only that one stands where an expression
ends.

## Main statements

* `Rewrite.text_toRunnable`: the outcome is what the most passes make of a snippet, also when the
  loop ends before.
* `Rewrite.pass_castChain`: a pass removes one cast of a chain.
* `Rewrite.toRunnable_twice_iff`: when rewriting twice is the same as rewriting once.
-/

namespace GuestCode

open Text Text.Pattern Grammar

namespace Rewrite

/-! ## The loop -/

section Loop

variable (settings : Settings)

/-- A loop that ends early has reached a text that the remaining passes do not change. -/
theorem text_passesFrom (made remaining : Nat) (source : List Char) :
    (passesFrom settings made remaining source).text = (pass settings)^[remaining] source := by
  induction remaining generalizing made source with
  | zero => rfl
  | succ remaining ih =>
    rw [passesFrom]
    split
    · -- The loop ends here, and the passes that it leaves out would change nothing.
      next h =>
      have hfixed : pass settings source = source := by simpa using h
      exact (Function.iterate_fixed hfixed (remaining + 1)).symm
    · rw [ih, Function.iterate_succ_apply]

theorem text_toRunnable (source : List Char) :
    (toRunnable settings source).text = (pass settings)^[maxPasses] source :=
  text_passesFrom settings 0 maxPasses source

/-- At least one pass is made. -/
theorem text_passesFrom_eq_iterate (made remaining : Nat) (source : List Char) :
    ∃ n, (passesFrom settings made (remaining + 1) source).passes = made + (n + 1) ∧
      (passesFrom settings made (remaining + 1) source).text =
        (pass settings)^[n + 1] source := by
  induction remaining generalizing made source with
  | zero =>
    rw [passesFrom]
    split
    · next h => exact ⟨0, rfl, (by simpa using h : pass settings source = source).symm⟩
    · exact ⟨0, rfl, rfl⟩
  | succ remaining ih =>
    rw [passesFrom]
    split
    · next h => exact ⟨0, rfl, (by simpa using h : pass settings source = source).symm⟩
    · obtain ⟨n, hpasses, htext⟩ := ih (made + 1) (pass settings source)
      exact ⟨n + 1, by rw [hpasses]; omega, htext.trans (Function.iterate_succ_apply _ _ _).symm⟩

/-- The outcome is what the passes that are made, one at least, make of a snippet. -/
theorem text_toRunnable_eq_iterate (source : List Char) :
    0 < (toRunnable settings source).passes ∧ (toRunnable settings source).text =
      (pass settings)^[(toRunnable settings source).passes] source := by
  obtain ⟨n, hpasses, htext⟩ := text_passesFrom_eq_iterate settings 0 9 source
  rw [Nat.zero_add] at hpasses
  rw [toRunnable, maxPasses, hpasses, htext]
  exact ⟨Nat.succ_pos n, rfl⟩

theorem text_toRunnable_twice (source : List Char) :
    (toRunnable settings (toRunnable settings source).text).text =
      (pass settings)^[maxPasses + maxPasses] source := by
  rw [text_toRunnable, text_toRunnable, Function.iterate_add_apply]

/-- A text that a pass leaves alone is left alone by any number of passes. -/
theorem text_toRunnable_of_pass_eq {source : List Char} (h : pass settings source = source) :
    (toRunnable settings source).text = source := by
  rw [text_toRunnable]
  exact Function.iterate_fixed h maxPasses

/-- A further pass changes nothing if and only if some pass, the eleventh at the latest, did not. -/
theorem pass_toRunnable_eq_iff (source : List Char) :
    pass settings (toRunnable settings source).text = (toRunnable settings source).text ↔
      ∃ k ≤ maxPasses, pass settings ((pass settings)^[k] source) = (pass settings)^[k] source := by
  rw [text_toRunnable]
  constructor
  · exact fun h => ⟨maxPasses, Nat.le_refl _, h⟩
  · rintro ⟨k, hk, h⟩
    have hlater : (pass settings)^[maxPasses] source = (pass settings)^[k] source := by
      rw [← Nat.sub_add_cancel hk, Function.iterate_add_apply]
      exact Function.iterate_fixed h (maxPasses - k)
    rw [hlater, h]

end Loop

/-! ## Texts that are all code -/

/-- A text without quotes and slashes is one region of code. -/
theorem split_of_plain {source : List Char} (hne : source ≠ [])
    (h : ∀ c ∈ source, c ∉ ['\'', '"', '\x60', '/']) :
    Segment.split source = [⟨.code, source⟩] := by
  have hformed : Segment.WellFormed [⟨.code, source⟩] :=
    ⟨by simpa using Segment.IsToken.code hne h, by simp⟩
  simpa [Segment.split, Segment.mergeCode] using Segment.splitAfter_flatMap_text hformed .start

theorem startsInCode_of_plain {source : List Char} (hne : source ≠ [])
    (h : ∀ c ∈ source, c ∉ ['\'', '"', '\x60', '/']) (m : Found) :
    Rule.startsInCode source (Region.ofSource source) m = true := by
  have hregions : Region.ofSource source = [⟨.code, 0, source.length⟩] := by
    simp [Region.ofSource, split_of_plain hne h, Region.ofSegments]
  rw [Rule.startsInCode, Bool.or_eq_true, decide_eq_true_eq]
  rcases Nat.lt_or_ge (Rule.firstMark m) source.length with hplace | hplace
  · refine .inr ?_
    have hstart : ¬ (Rule.firstMark m : Int) < 0 := by omega
    have hstop : ¬ (source.length : Int) ≤ Rule.firstMark m := by omega
    simp [hregions, isCodeAt, regionAt?, regionBetween?, hstart, hstop]
  · exact .inl hplace

/-- In a text that is all code it makes no difference whether only code is rewritten. -/
theorem apply_of_plain {source : List Char} (hne : source ≠ [])
    (h : ∀ c ∈ source, c ∉ ['\'', '"', '\x60', '/']) (codeOnly : Bool) (rule : Rule) :
    rule.apply codeOnly source = rule.pattern.replace rule.replacement source := by
  cases codeOnly <;> simp [Rule.apply, startsInCode_of_plain hne h]

/-! ## Stages that leave a text alone -/

section Avoids

variable {alphabet source : List Char} (codeOnly : Bool)

theorem apply_of_avoids (hsource : ∀ c ∈ source, c ∈ alphabet) {rule : Rule}
    (h : rule.pattern.avoids alphabet = true) : rule.apply codeOnly source = source := by
  rw [Rule.apply]
  split
  · exact replace_of_avoids h _ hsource
  · exact replace_of_avoids h _ hsource

theorem applyAll_eq_self {rules : List Rule}
    (h : ∀ rule ∈ rules, rule.apply codeOnly source = source) :
    Rule.applyAll codeOnly rules source = source := by
  rw [Rule.applyAll]
  induction rules with
  | nil => rfl
  | cons rule rules ih =>
    rw [List.foldl_cons, h rule List.mem_cons_self]
    exact ih fun r hr => h r (List.mem_cons_of_mem rule hr)

theorem applyAll_of_avoids (hsource : ∀ c ∈ source, c ∈ alphabet) {rules : List Rule}
    (h : ∀ rule ∈ rules, rule.pattern.avoids alphabet = true) :
    Rule.applyAll codeOnly rules source = source :=
  applyAll_eq_self codeOnly fun rule hrule => apply_of_avoids codeOnly hsource (h rule hrule)

theorem rewritePositionalCalls_of_avoids (hsource : ∀ c ∈ source, c ∈ alphabet)
    (h : fileCall.avoids alphabet = true) (root : String) :
    rewritePositionalCalls root source = source := by
  rw [rewritePositionalCalls, findAll_of_avoids h hsource]
  rfl

/-- A text without parentheses holds no signature. -/
theorem stripSignatures_of_plain (hne : source ≠ [])
    (hplain : ∀ c ∈ source, c ∉ ['\'', '"', '\x60', '/', '(']) :
    stripSignatures source = source := by
  have hcode : codeChars source = placedFrom 0 source := by
    have hsplit : Segment.split source = [⟨.code, source⟩] :=
      split_of_plain hne fun c hc => by simp_all
    simp [codeChars, codeOfSegments, hsplit]
  have hchars : ∀ (text : List Char) (start : Nat), ∀ p ∈ placedFrom start text, p.char ∈ text := by
    intro text
    induction text with
    | nil => simp [placedFrom]
    | cons c cs ih =>
      intro start p hp
      rcases List.mem_cons.mp hp with rfl | hp
      · exact List.mem_cons_self
      · exact List.mem_cons_of_mem c (ih _ p hp)
  have hopenings : (codeChars source).filter (fun p => p.char == '(') = [] := by
    rw [List.filter_eq_nil_iff, hcode]
    intro p hp
    have := hplain p.char (hchars source 0 p hp)
    simp_all
  simp [stripSignatures, hopenings, signatureEdits, Edit.applyAll, Edit.applyFrom]

theorem mem_of_mem_trim {c : Char} (h : c ∈ trim source) : c ∈ source := by
  rw [trim, trimEnd, dropEndWhile, List.mem_reverse] at h
  have hstart := List.mem_reverse.mp ((List.dropWhile_suffix _).subset h)
  exact (List.dropWhile_suffix _).subset hstart

theorem unwrap_of_avoids (hsource : ∀ c ∈ source, c ∈ alphabet)
    (h : wrapperHead.avoids alphabet = true) (hstart : ∃ c ∈ wrapperStart.toList, c ∉ alphabet) :
    unwrap source = source := by
  have hline : ¬ wrapperStart.toList.isPrefixOf source = true := by
    rw [List.isPrefixOf_iff_prefix]
    intro hpre
    obtain ⟨c, hc, hnot⟩ := hstart
    exact hnot (hsource c (hpre.subset hc))
  have hhead : wrapperHead.matchAt? (.ofText (trim source)) = none :=
    matchAt?_of_avoids h fun c hc => hsource c (mem_of_mem_trim hc)
  have honce : unwrapOnce? source = none := by
    simp [unwrapOnce?, hhead]
  rw [unwrap, if_neg hline]
  cases source.length <;> simp [unwrapUpTo, honce]

end Avoids

/-! ## Chains of casts -/

/-- A number of casts, one after the other. -/
def casts : Nat → List Char
  | 0 => []
  | n + 1 => ' ' :: 'a' :: 's' :: ' ' :: 'a' :: casts n

/-- A variable and a number of casts of it. -/
def castChain (n : Nat) : List Char := 'x' :: casts n

/-- The characters of chains of casts. -/
def castAlphabet : List Char := ['x', ' ', 'a', 's']

theorem mem_castAlphabet (n : Nat) : ∀ c ∈ castChain n, c ∈ castAlphabet := by
  have hcasts : ∀ c ∈ casts n, c ∈ castAlphabet := by
    induction n with
    | zero => simp [casts]
    | succ n ih => simpa [casts, castAlphabet] using ih
  simpa [castChain, castAlphabet] using hcasts

/-! ### Where a cast ends an expression -/

theorem cast_ends_last {b : Char} (hb : isNameChar b = true) (offset : Nat) :
    cast.ends ⟨some b, casts 1, offset, []⟩ = [⟨some 'a', [], offset + 5, []⟩] := by
  simp [cast, casts, all, afterOne, plus, Pattern.star, opt, lit, exactly, oneOf, noneOf, spaces,
    lineEnd, followedBy, ends_many_of_eq_nil, isNameStart, hb]

/-- After a cast that is not the last one stand a blank and a letter, so the expression goes on. -/
theorem cast_ends_inner (before : Option Char) (n offset : Nat) :
    cast.ends ⟨before, casts (n + 2), offset, []⟩ = [] := by
  have hspace : isNameChar ' ' = false := by decide
  simp [cast, casts, all, afterOne, plus, Pattern.star, opt, lit, exactly, oneOf, noneOf, spaces,
    lineEnd, followedBy, ends_many_of_eq_nil, isNameStart, hspace]

/-- No cast starts between the word and the type of one. -/
theorem cast_ends_gap (before : Option Char) (n offset : Nat) :
    cast.ends ⟨before, ' ' :: 'a' :: casts n, offset, []⟩ = [] := by
  cases n <;>
    simp [cast, casts, all, afterOne, plus, Pattern.star, lit, exactly, oneOf, spaces]

theorem cast_ends_of_ne (before : Option Char) {c : Char} (hspace : c ≠ ' ') (htab : c ≠ '\t')
    (cs : List Char) (offset : Nat) : cast.ends ⟨before, c :: cs, offset, []⟩ = [] := by
  simp [cast, all, afterOne, plus, oneOf, hspace, htab]

/-- Of casts in a row the last one is a match. -/
theorem partsFrom_casts (n : Nat) {b : Char} (hb : isNameChar b = true) (offset : Nat) :
    cast.partsFrom (some b) offset 0 (casts (n + 1)) =
      (casts n).map .plain ++ [.found ⟨offset + 5 * n, casts 1, [], []⟩] := by
  induction n generalizing b offset with
  | zero =>
    have hmatch : cast.matchAt? ⟨some b, casts 1, offset, []⟩ = some ⟨offset, casts 1, [], []⟩ := by
      rw [matchAt?, cast_ends_last hb]
      simp [Found.ofEnds, casts]
    simp only [casts] at hmatch
    simp [casts, partsFrom, hmatch]
  | succ n ih =>
    -- Nothing is found at the five characters of the first cast, and the others remain.
    have hinner : cast.matchAt? ⟨some b, ' ' :: 'a' :: 's' :: ' ' :: 'a' :: casts (n + 1), offset,
        []⟩ = none := by
      rw [matchAt?, ← casts, cast_ends_inner]
      rfl
    have hgap : ∀ place,
        cast.matchAt? ⟨some 's', ' ' :: 'a' :: casts (n + 1), place, []⟩ = none := by
      intro place
      rw [matchAt?, cast_ends_gap]
      rfl
    have hletter : ∀ (before : Option Char) (c : Char) (cs : List Char) (place : Nat),
        c ≠ ' ' → c ≠ '\t' → cast.matchAt? ⟨before, c :: cs, place, []⟩ = none := by
      intro before c cs place hspace htab
      rw [matchAt?, cast_ends_of_ne before hspace htab]
      rfl
    have hplace : offset + 5 + 5 * n = offset + 5 * (n + 1) := by omega
    rw [casts, partsFrom_cons_of_none hinner,
      partsFrom_cons_of_none (hletter _ _ _ _ (by decide) (by decide)),
      partsFrom_cons_of_none (hletter _ _ _ _ (by decide) (by decide)),
      partsFrom_cons_of_none (hgap _),
      partsFrom_cons_of_none (hletter _ _ _ _ (by decide) (by decide)),
      ih (by decide), hplace]
    rfl

theorem replace_cast_castChain (n : Nat) :
    cast.replace (fun _ => []) (castChain n) = castChain (n - 1) := by
  cases n with
  | zero => exact @replace_of_avoids ['x'] cast (by decide) _ _ (by simp [castChain, casts])
  | succ n =>
    have hfirst : cast.matchAt? ⟨none, castChain (n + 1), 0, []⟩ = none := by
      rw [castChain, matchAt?, cast_ends_of_ne none (by decide) (by decide)]
      rfl
    rw [castChain] at hfirst
    rw [replace, parts, castChain, partsFrom_cons_of_none hfirst, partsFrom_casts n (by decide)]
    simp [castChain, List.flatMap_map]

/-! ### What a pass does -/

section Stages

variable {source : List Char} (hmem : ∀ c ∈ source, c ∈ castAlphabet)
include hmem

theorem removeImports_eq_self (codeOnly : Bool) : removeImports codeOnly source = source :=
  applyAll_of_avoids codeOnly hmem (by decide)

theorem normalizeExports_eq_self (codeOnly : Bool) : normalizeExports codeOnly source = source :=
  applyAll_of_avoids codeOnly hmem (by decide)

theorem removeRequires_eq_self (codeOnly : Bool) : removeRequires codeOnly source = source :=
  applyAll_of_avoids codeOnly hmem (by decide)

theorem replaceSyncCalls_eq_self (codeOnly : Bool) : replaceSyncCalls codeOnly source = source :=
  @apply_of_avoids _ _ codeOnly hmem ⟨syncCall, _⟩ (by decide)

theorem rewritePositionalCalls_eq_self (root : String) :
    rewritePositionalCalls root source = source :=
  rewritePositionalCalls_of_avoids hmem (by decide) root

theorem unwrap_eq_self : unwrap source = source :=
  unwrap_of_avoids hmem (by decide) ⟨'c', by decide, by decide⟩

/-- Of the type syntax, only casts may be in the text. -/
theorem stripTypes_eq_replace (hne : source ≠ []) (codeOnly : Bool) :
    stripTypes codeOnly source = cast.replace (fun _ => []) source := by
  have hplain : ∀ c ∈ source, c ∉ ['\'', '"', '\x60', '/', '('] := by
    have halphabet : ∀ c ∈ castAlphabet, c ∉ ['\'', '"', '\x60', '/', '('] := by
      simp [castAlphabet]
    exact fun c hc => halphabet c (hmem c hc)
  rw [stripTypes, applyAll_of_avoids codeOnly hmem (by decide),
    stripSignatures_of_plain hne hplain]
  exact apply_of_plain hne (fun c hc hin => hplain c hc (List.mem_append_left ['('] hin)) codeOnly _

end Stages

theorem pass_eq (settings : Settings) (source : List Char) :
    pass settings source =
      unwrap (stripTypes settings.codeOnly (rewritePositionalCalls settings.root
        (replaceSyncCalls settings.codeOnly (removeRequires settings.codeOnly
          (normalizeExports settings.codeOnly (removeImports settings.codeOnly source)))))) := rfl

/-- All rewritings but that of casts look for characters that no chain of casts has. -/
theorem pass_castChain (settings : Settings) (n : Nat) :
    pass settings (castChain n) = castChain (n - 1) := by
  have hmem := mem_castAlphabet n
  have htypes : stripTypes settings.codeOnly (castChain n) = castChain (n - 1) := by
    rw [stripTypes_eq_replace hmem (List.cons_ne_nil _ _), replace_cast_castChain]
  rw [pass_eq, removeImports_eq_self hmem, normalizeExports_eq_self hmem,
    removeRequires_eq_self hmem, replaceSyncCalls_eq_self hmem, rewritePositionalCalls_eq_self hmem,
    htypes, unwrap_eq_self (mem_castAlphabet (n - 1))]

theorem iterate_pass_castChain (settings : Settings) (k n : Nat) :
    (pass settings)^[k] (castChain n) = castChain (n - k) := by
  induction k with
  | zero => rfl
  | succ k ih => rw [Function.iterate_succ_apply', ih, pass_castChain, Nat.sub_sub]

theorem length_casts (n : Nat) : (casts n).length = 5 * n := by
  induction n with
  | zero => rfl
  | succ n ih => simp only [casts, List.length_cons, ih]; omega

theorem castChain_inj {m n : Nat} : castChain m = castChain n ↔ m = n := by
  constructor
  · intro h
    have hlength := congrArg List.length h
    simp only [castChain, List.length_cons, length_casts] at hlength
    omega
  · rintro rfl
    rfl

/-! ## Rewriting twice -/

/-- A further pass leaves the outcome of a snippet alone if and only if ten passes bring it to a
text that a pass leaves alone; then rewriting the outcome changes nothing. Rewriting twice is the
same as rewriting once if and only if ten passes more make no difference. Neither is so for every
snippet: of chains of casts, it is so for those of at most ten. -/
theorem toRunnable_twice_iff (settings : Settings) :
    (∀ source : List Char,
      let outcome := (toRunnable settings source).text
      outcome = (pass settings)^[maxPasses] source ∧
      (pass settings outcome = outcome ↔ ∃ k ≤ maxPasses,
        pass settings ((pass settings)^[k] source) = (pass settings)^[k] source) ∧
      (pass settings outcome = outcome → (toRunnable settings outcome).text = outcome) ∧
      ((toRunnable settings outcome).text = outcome ↔
        (pass settings)^[maxPasses + maxPasses] source = (pass settings)^[maxPasses] source)) ∧
    ∀ n, (toRunnable settings (toRunnable settings (castChain n)).text).text =
      (toRunnable settings (castChain n)).text ↔ n ≤ maxPasses := by
  refine ⟨fun source => ⟨text_toRunnable settings source, pass_toRunnable_eq_iff settings source,
    text_toRunnable_of_pass_eq settings, ?_⟩, fun n => ?_⟩
  · rw [text_toRunnable_twice, text_toRunnable]
  · rw [text_toRunnable_twice, text_toRunnable, iterate_pass_castChain, iterate_pass_castChain,
      castChain_inj]
    have hpasses : maxPasses = 10 := rfl
    omega

/-- Eleven casts are not rewritten to the end. -/
theorem toRunnable_elevenCasts :
    ¬ ∀ (settings : Settings) (source : List Char),
      (toRunnable settings (toRunnable settings source).text).text =
        (toRunnable settings source).text := by
  intro h
  have hcasts := h default (castChain 11)
  rw [text_toRunnable_twice, text_toRunnable, iterate_pass_castChain, iterate_pass_castChain,
    castChain_inj] at hcasts
  exact absurd hcasts (by decide)

end Rewrite

end GuestCode
