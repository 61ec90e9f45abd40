import GuestCode.Proofs.Rewrite.FirstLine
import GuestCode.Proofs.Rewrite.Passes

/-!
# The mark stands in the first line only

A snippet without the mark gets it when a positional file call is rewritten, and only then: the line
that wraps the capability is put first. From then on every pass keeps the line as it is and makes no
mark after it.

A head is what a rewriting leaves alone, whatever follows it: nothing, or the line. The rewritings
keep a head and make no mark after it; this is shown once for any head.

## Main statements

* `Rewrite.Lasting`: a head that the rewritings leave alone.
* `Rewrite.under_beforeCalls`, `Rewrite.under_stripTypes`: what follows a head is not marked.
* `Rewrite.not_marked_pass`, `Rewrite.under_pass_of_rewritesCalls`, `Rewrite.under_pass`: what one
  pass makes of a text.
* `Rewrite.iterate_pass_cases`: what passes make of a text.
* `Rewrite.toRunnable_marked_once`: the mark of the outcome.
-/

namespace GuestCode.Rewrite

open Text Text.Pattern Grammar

/-! ## Heads that last -/

/-- A head that the rewritings leave alone, whatever follows it: no match of a rule starts in it, and
its signatures are settled. -/
structure Lasting (head : List Char) : Prop where
  unmatched : ∀ pattern ∈ rulePatterns, Unmatched pattern head
  settled : ∀ body, ∃ code others, codeChars (head ++ body) = code ++ others ∧
    (∀ p ∈ code, p.char = '(' → Settled (head ++ body) p.place) ∧
    ∀ p ∈ others, head.length ≤ p.place

theorem lasting_nil : Lasting [] where
  unmatched _ _ _ v h hv _ := absurd (List.append_eq_nil_iff.mp h.symm).2 hv
  settled body := ⟨[], codeChars body, rfl, by simp, fun _ _ => Nat.zero_le _⟩

theorem lasting_wrapperLine {root : String} (hroot : PlainRoot root) :
    Lasting (wrapperLine root) where
  unmatched := unmatched_wrapperLine hroot
  settled body := by
    obtain ⟨code, look, hcode, hsettled⟩ := settled_wrapperLine hroot
    exact ⟨code, _, hcode body, fun p hp hchar => hsettled p hp hchar body,
      fun p hp => Segment.le_place_of_mem_codeOfSegments hp⟩

theorem under_nil {text : List Char} : Under [] text ↔ ¬Marked text :=
  ⟨fun ⟨_, htext, hbody⟩ => htext ▸ hbody, fun h => ⟨text, rfl, h⟩⟩

/-- What a pass makes of a text before it looks at file calls. -/
def beforeCalls (codeOnly : Bool) (text : List Char) : List Char :=
  replaceSyncCalls codeOnly (removeRequires codeOnly (normalizeExports codeOnly
    (removeImports codeOnly text)))

section Stages

variable {head text : List Char} (hhead : Lasting head)
include hhead

theorem under_beforeCalls (codeOnly : Bool) (htext : Under head text) :
    Under head (beforeCalls codeOnly text) := by
  have hkeep : ∀ {rules : List Rule} {text : List Char},
      (∀ rule ∈ rules, Safe rule ∧ rule.pattern ∈ rulePatterns) → Under head text →
        Under head (Rule.applyAll codeOnly rules text) := fun hrules =>
    under_applyAll (fun rule hrule =>
      ⟨(hrules rule hrule).1, hhead.unmatched _ (hrules rule hrule).2⟩) codeOnly
  have himports := @hkeep [.remove importFrom, .remove importBare] text
    (by simpa [rulePatterns, Rule.remove] using safe_imports) htext
  have hexports := @hkeep [.keep exportList [1], .keep exportStar [1], .keep exportDefault [1, 2],
    .keep exportDeclaration [1, 2]] _ (by simpa [rulePatterns, Rule.keep] using safe_exports) himports
  have hrequires := @hkeep [.remove requireDeclaration, .remove requireBare] _
    (by simpa [rulePatterns, Rule.remove] using safe_requires) hexports
  exact safe_syncCall.under (hhead.unmatched syncCall (by simp [rulePatterns])) codeOnly hrequires

/-- The signatures of a head are passed over. -/
theorem under_stripSignatures (htext : Under head text) : Under head (stripSignatures text) := by
  obtain ⟨body, rfl, hbody⟩ := htext
  obtain ⟨code, others, hcode, hsettled, hplaces⟩ := hhead.settled body
  obtain ⟨start, hstart⟩ := @exists_signatureEdits_append _
    (code.filter fun p => p.char == '(')
    (fun p hp => hsettled p (List.mem_of_mem_filter hp) (by simpa using (List.mem_filter.mp hp).2))
    0 (others.filter fun p => p.char == '(')
  have hdrop : (head ++ body).drop head.length = body := List.drop_left
  have hspaced := @spaced_signatureEdits _ head.length start
    (others.filter fun p => p.char == '(') (fun p hp => by
      obtain ⟨hmem, hchar⟩ := List.mem_filter.mp hp
      exact ⟨hcode ▸ List.mem_append_right _ hmem, by simpa using hchar, hplaces p hmem⟩)
  have hcareful := (hspaced.mono (Nat.le_max_left _ _)).careful (hdrop.symm ▸ hbody)
  refine ⟨Edit.applyFrom (head ++ body) head.length (signatureEdits (head ++ body)
    (codeChars (head ++ body)) start (others.filter fun p => p.char == '(')), ?_,
    hcareful.not_marked (Nat.le_refl _) (hdrop.symm ▸ hbody)⟩
  have hfilter : (codeChars (head ++ body)).filter (fun p => p.char == '(') =
      (code.filter fun p => p.char == '(') ++ others.filter fun p => p.char == '(' := by
    rw [hcode, List.filter_append]
  rw [stripSignatures, hfilter]
  rw [hstart, Edit.applyAll, @applyFrom_append _ 0 head _ (by simp) fun e he => by
    have hlt := hcareful.lt_start e he
    omega, Nat.zero_add]

theorem under_stripTypes (codeOnly : Bool) (htext : Under head text) :
    Under head (stripTypes codeOnly text) := by
  have hrules := @under_applyAll typeRules head (fun rule hrule =>
      ⟨safe_types rule hrule, hhead.unmatched _ (by
        simp only [typeRules, List.mem_cons, List.not_mem_nil, or_false] at hrule
        rcases hrule with rfl | rfl | rfl | rfl | rfl <;> simp [rulePatterns, Rule.remove])⟩)
    codeOnly _ htext
  exact safe_cast.under (hhead.unmatched cast (by simp [rulePatterns])) codeOnly
    (under_stripSignatures hhead hrules)

end Stages

/-! ## File calls -/

theorem occursIn_iff {part text : List Char} : Text.occursIn part text = true ↔ part <:+: text := by
  induction text with
  | nil => rw [Text.occursIn, List.isEmpty_iff, List.infix_nil]
  | cons c cs ih =>
    rw [Text.occursIn, Bool.or_eq_true, List.isPrefixOf_iff_prefix, ih, List.infix_cons_iff]

/-- The edits that give the file calls of a text their object form. -/
def callEdits (text : List Char) : List Edit :=
  positionalEdits text (Region.ofSource text) (codeChars text) 0 (fileCall.findAll text)

theorem rewritePositionalCalls_eq (root : String) (text : List Char) :
    rewritePositionalCalls root text =
      if callEdits text = [] then text
      else if Text.occursIn wrapperMark.toList (Edit.applyAll (callEdits text) text) then
        Edit.applyAll (callEdits text) text
      else (pathWrapper root).toList ++ '\n' :: Edit.applyAll (callEdits text) text := by
  rw [rewritePositionalCalls]
  dsimp only
  split
  · next hcalls =>
    rw [callEdits, List.isEmpty_iff.mp hcalls, positionalEdits, if_pos rfl]
  · rw [← callEdits]
    split
    · next hnil => rw [if_pos hnil]
    · next hne => rw [if_neg hne]

/-- No call is found in a head, and the edits of calls after it make no mark. -/
theorem under_applyAll_callEdits {head text : List Char} (hhead : Lasting head)
    (htext : Under head text) : Under head (Edit.applyAll (callEdits text) text) := by
  obtain ⟨body, rfl, hbody⟩ := htext
  have hdrop : (head ++ body).drop head.length = body := List.drop_left
  have hunmatched := hhead.unmatched fileCall (by simp [rulePatterns])
  have hcalls : ∀ call ∈ fileCall.findAll (head ++ body),
      head.length ≤ call.start ∧ fileCall.Takes call.text ∧ ∃ before,
        head ++ body = before ++ (call.text ++ call.after) ∧ call.start = before.length := by
    intro call hcall
    obtain ⟨others, hparts, hdivides⟩ := Divides.exists_of_append
      (fun u v hu hv => hunmatched u v hu hv body)
      (@divides_parts fileCall rfl (head ++ body))
    have hfound : Part.found call ∈ others := by
      have hmem := mem_findAll.mp hcall
      rw [hparts] at hmem
      exact (List.mem_append.mp hmem).resolve_left (by simp)
    obtain ⟨before, hprefix, hmatch, -, heq⟩ := hdivides.exists_of_found hfound
    obtain ⟨htakes, -, hstart⟩ := exists_of_matchAt? hmatch
    rw [List.nil_append] at hprefix heq
    refine ⟨?_, htakes, before, heq, hstart⟩
    rw [hstart]
    exact hprefix.length_le
  have hedits := @forall_mem_positionalEdits _ head.length 0 _ hcalls (hdrop.symm ▸ hbody)
  refine ⟨Edit.applyFrom (head ++ body) head.length (callEdits (head ++ body)), ?_,
    not_marked_applyFrom (fun e he => (hedits e he).2) (hdrop.symm ▸ hbody) (Nat.le_refl _)⟩
  rw [Edit.applyAll, @applyFrom_append _ 0 head _ (by simp) fun e he => by
    have hle := (hedits e (List.mem_of_mem_head? he)).1
    omega, Nat.zero_add]

/-! ## One pass -/

section Line

variable {root : String} (hroot : PlainRoot root) {text : List Char}

theorem suffix_toList_append (s t : String) : t.toList <:+ (s ++ t).toList := by
  rw [String.toList_append]
  exact List.suffix_append _ _

theorem marked_of_wrapperStart (h : wrapperStart.toList <+: text) : Marked text :=
  (suffix_toList_append "const filesystem = " wrapperMark).isInfix.trans h.isInfix

theorem prefix_toList_append {cs : List Char} {s : String} (h : cs <+: s.toList) (t : String) :
    cs <+: (s ++ t).toList := by
  rw [String.toList_append]
  exact h.trans (List.prefix_append _ _)

/-- The line starts as `Rewrite.unwrap` looks for it. -/
theorem wrapperLine_starts (root : String) (body : List Char) :
    wrapperStart.toList <+: wrapperLine root ++ body := by
  have hlead : wrapperStart.toList <+: wrapperLead.toList := by
    unfold wrapperLead
    iterate 12 refine prefix_toList_append ?_ _
    exact List.prefix_rfl
  exact (prefix_toList_append (prefix_toList_append hlead _) _).trans
    ((List.prefix_append _ _).trans (List.prefix_append _ _))

theorem Under.marked (h : Under (wrapperLine root) text) : Marked text := by
  obtain ⟨body, heq, -⟩ := h
  rw [heq]
  exact marked_of_wrapperStart (wrapperLine_starts root body)

theorem isInfix_of_unwrapUpTo (fuel : Nat) (text : List Char) : unwrapUpTo fuel text <:+: text := by
  induction fuel generalizing text with
  | zero => exact List.infix_rfl
  | succ fuel ih =>
    rw [unwrapUpTo]
    split
    · exact List.infix_rfl
    · next body hbody =>
      refine (ih body).trans ?_
      rw [unwrapOnce?] at hbody
      split at hbody
      · cases hbody
      split at hbody
      · cases hbody
      split at hbody
      · cases hbody
      · rw [← Option.some.inj hbody, Region.slice]
        exact (List.take_prefix _ _).isInfix.trans
          ((List.drop_suffix _ _).isInfix.trans (trim_isInfix text))

/-- Only a marked text starts as the line does; of others a part stays. -/
theorem not_marked_unwrap (h : ¬Marked text) : ¬Marked (unwrap text) := by
  have hstart : ¬wrapperStart.toList.isPrefixOf text = true := fun hprefix =>
    h (marked_of_wrapperStart (List.isPrefixOf_iff_prefix.mp hprefix))
  rw [unwrap, if_neg hstart]
  exact fun hmarked => h (hmarked.trans (isInfix_of_unwrapUpTo _ text))

include hroot

/-- The line stays in front. -/
theorem under_unwrap (h : Under (wrapperLine root) text) :
    Under (wrapperLine root) (unwrap text) := by
  obtain ⟨body, heq, hbody⟩ := h
  rw [heq]
  have hstart : wrapperStart.toList.isPrefixOf (wrapperLine root ++ body) = true :=
    List.isPrefixOf_iff_prefix.mpr (wrapperLine_starts root body)
  have hnewline : ∀ c ∈ (pathWrapper (Json.quote true root)).toList, (c != '\n') = true :=
    fun c hc => bne_iff_ne.mpr fun heq => newline_not_mem_pathWrapper hroot (heq ▸ hc)
  have hsplit : wrapperLine root ++ body =
      (pathWrapper (Json.quote true root)).toList ++ '\n' :: body := by
    simp [wrapperLine]
  rw [unwrap, if_pos hstart, hsplit, List.dropWhile_append_of_pos hnewline,
    List.dropWhile_cons_of_neg (by decide)]
  dsimp only
  rw [List.takeWhile_append_of_pos hnewline, List.takeWhile_cons_of_neg (by decide),
    List.append_nil]
  exact ⟨unwrapUpTo body.length body, by simp [wrapperLine],
    fun hmarked => hbody (hmarked.trans (isInfix_of_unwrapUpTo _ body))⟩

/-- Of a text with the line, calls are rewritten and nothing is put first. -/
theorem under_rewritePositionalCalls (h : Under (wrapperLine root) text) :
    Under (wrapperLine root) (rewritePositionalCalls (Json.quote true root) text) := by
  have hedited := under_applyAll_callEdits (lasting_wrapperLine hroot) h
  rw [rewritePositionalCalls_eq]
  split
  · exact h
  · rw [if_pos (occursIn_iff.mpr hedited.marked)]
    exact hedited

end Line

/-! ## One pass -/

/-- Whether a pass over a text rewrites a positional file call. -/
def RewritesCalls (codeOnly : Bool) (text : List Char) : Prop :=
  callEdits (beforeCalls codeOnly text) ≠ []

section Pass

variable {root : String} (codeOnly : Bool) {text : List Char}

/-- A pass that rewrites no call makes no mark. -/
theorem not_marked_pass (h : ¬Marked text) (hcalls : ¬RewritesCalls codeOnly text) :
    ¬Marked (pass ⟨root, codeOnly⟩ text) := by
  have hbefore := under_beforeCalls lasting_nil codeOnly (under_nil.mpr h)
  have hcalls : callEdits (beforeCalls codeOnly text) = [] := by simpa [RewritesCalls] using hcalls
  have hsame : rewritePositionalCalls root (beforeCalls codeOnly text) =
      beforeCalls codeOnly text := by rw [rewritePositionalCalls_eq, if_pos hcalls]
  rw [pass_eq]
  refine not_marked_unwrap (under_nil.mp (under_stripTypes lasting_nil codeOnly ?_))
  rw [← beforeCalls, hsame]
  exact hbefore

variable (hroot : PlainRoot root)
include hroot

/-- A pass that rewrites a call of a text without the mark puts the line first. -/
theorem under_pass_of_rewritesCalls (h : ¬Marked text) (hcalls : RewritesCalls codeOnly text) :
    Under (wrapperLine root) (pass ⟨Json.quote true root, codeOnly⟩ text) := by
  have hedited := under_applyAll_callEdits lasting_nil
    (under_beforeCalls lasting_nil codeOnly (under_nil.mpr h))
  rw [pass_eq]
  refine under_unwrap hroot (under_stripTypes (lasting_wrapperLine hroot) codeOnly ?_)
  rw [← beforeCalls, rewritePositionalCalls_eq, if_neg hcalls,
    if_neg fun hmarked => under_nil.mp hedited (occursIn_iff.mp hmarked)]
  exact ⟨_, by simp [wrapperLine], under_nil.mp hedited⟩

/-- A pass over a text with the line keeps it and makes no mark after it. -/
theorem under_pass (h : Under (wrapperLine root) text) :
    Under (wrapperLine root) (pass ⟨Json.quote true root, codeOnly⟩ text) := by
  have hlasting := lasting_wrapperLine hroot
  rw [pass_eq]
  exact under_unwrap hroot (under_stripTypes hlasting codeOnly
    (under_rewritePositionalCalls hroot (under_beforeCalls hlasting codeOnly h)))

/-! ## All passes -/

/-- Passes leave a text without the mark as long as none of them rewrites a call, and then the mark
is in the first line only. -/
theorem iterate_pass_cases (h : ¬Marked text) (n : Nat) :
    let step := pass ⟨Json.quote true root, codeOnly⟩
    (¬Marked (step^[n] text) ∧ ¬∃ k < n, RewritesCalls codeOnly (step^[k] text)) ∨
      (Under (wrapperLine root) (step^[n] text) ∧ ∃ k < n, RewritesCalls codeOnly (step^[k] text)) := by
  intro step
  induction n with
  | zero => exact .inl ⟨h, by simp⟩
  | succ n ih =>
    rw [Function.iterate_succ_apply']
    rcases ih with ⟨hunmarked, hnone⟩ | ⟨hline, k, hk, hcalls⟩
    · by_cases hcalls : RewritesCalls codeOnly (step^[n] text)
      · exact .inr ⟨under_pass_of_rewritesCalls codeOnly hroot hunmarked hcalls,
          n, Nat.lt_succ_self n, hcalls⟩
      · refine .inl ⟨not_marked_pass codeOnly hunmarked hcalls, ?_⟩
        rintro ⟨k, hk, hrewrites⟩
        rcases Nat.lt_succ_iff_lt_or_eq.mp hk with hlt | rfl
        · exact hnone ⟨k, hlt, hrewrites⟩
        · exact hcalls hrewrites
    · exact .inr ⟨under_pass codeOnly hroot hline, k, Nat.lt_succ_of_lt hk, hcalls⟩

/-- A snippet without the words of the mark is marked in its first line only, which is the line that
wraps the capability, and it is marked if and only if some pass rewrites a positional file call. -/
theorem toRunnable_marked_once {source : List Char}
    (hsource : ¬"codemode:path-wrapper".toList <:+: source) :
    let settings : Settings := ⟨Json.quote true root, codeOnly⟩
    let outcome := toRunnable settings source
    (¬Marked outcome.text ∨ ∃ rest, ¬Marked rest ∧
      outcome.text = (pathWrapper settings.root).toList ++ '\n' :: rest) ∧
    (Marked outcome.text ↔
      ∃ k < outcome.passes, RewritesCalls codeOnly ((pass settings)^[k] source)) := by
  intro settings outcome
  have hwords : "codemode:path-wrapper".toList <:+: wrapperMark.toList := by decide +kernel
  have hunmarked : ¬Marked source := fun hmarked => hsource (hwords.trans hmarked)
  have htext : outcome.text = (pass settings)^[outcome.passes] source :=
    (text_toRunnable_eq_iterate settings source).2
  rw [htext]
  rcases iterate_pass_cases codeOnly hroot hunmarked outcome.passes with
    ⟨hnone, hcalls⟩ | ⟨hline, hcalls⟩
  · exact ⟨.inl hnone, fun hmarked => absurd hmarked hnone, fun h => absurd h hcalls⟩
  · refine ⟨.inr ?_, fun _ => hcalls, fun _ => hline.marked⟩
    obtain ⟨rest, heq, hrest⟩ := hline
    exact ⟨rest, hrest, by rw [heq]; simp [wrapperLine, settings]⟩

end Pass

/-- A snippet with one positional call gets the line. -/
theorem toRunnable_marked_once_readFile :
    Marked (toRunnable ⟨Json.quote true "/projects", true⟩ "filesystem.readFile(p)".toList).text := by
  have hroot : PlainRoot "/projects" := by
    unfold PlainRoot
    decide
  refine (toRunnable_marked_once true hroot (by decide +kernel)).2.mpr ⟨0, ?_, ?_⟩
  · exact (text_toRunnable_eq_iterate _ _).1
  · unfold RewritesCalls
    decide +kernel

end GuestCode.Rewrite
