import GuestCode.Proofs.Rewrite.SafeEdits
import GuestCode.Proofs.Snippet.Prefix
import GuestCode.Proofs.Text.Known
import Mathlib.Data.List.Infix

/-!
# The first line stays as it is

The line that wraps the file capability is known but for the projects root. At no place of it does a
rule find a match, and its own signatures have no annotations, so the rewritings leave it alone
whatever follows it.

## Main statements

* `Rewrite.unmatched_wrapperLine`: no match of a rule starts in the line.
* `Rewrite.exists_codeChars_wrapperLine`: which characters of the line are code.
* `Rewrite.settled_wrapperLine`: its signatures are settled.
-/

namespace GuestCode.Rewrite

open Text Text.Pattern Grammar

/-! ## The characters of the line -/

/-- A projects root that stands in a literal as it is. -/
def PlainRoot (root : String) : Prop :=
  ∀ c ∈ root.toList, c.isAlphanum = true ∨ c ∈ ['/', '.', '_', '-']

/-- The characters of such a root. -/
def rootAlphabet : List Char :=
  ((List.range 128).map Char.ofNat).filter fun c =>
    c.isAlphanum || ['/', '.', '_', '-'].contains c

/-- They are plain in a script literal and in a JSON text. -/
theorem plain_of_mem_rootAlphabet : ∀ c ∈ rootAlphabet,
    c ≠ '"' ∧ c ≠ '\\' ∧ c ≠ '\n' ∧ c ≠ ';' ∧ c ≠ '\x7d' ∧ 0x20 ≤ c.toNat ∧ c.toNat < 0x7F := by
  decide +kernel

/-- The line that wraps the file capability, with its end. -/
def wrapperLine (root : String) : List Char :=
  (pathWrapper (Json.quote true root)).toList ++ ['\n']

section Root

variable {root : String} (hroot : PlainRoot root)
include hroot

theorem mem_rootAlphabet : ∀ c ∈ root.toList, c ∈ rootAlphabet := by
  intro c hc
  have hmarks : ∀ c ∈ ['/', '.', '_', '-'], c ∈ rootAlphabet := by decide +kernel
  rcases hroot c hc with halpha | hmark
  · have hlt : c.toNat < 128 := Nat.lt_trans (toNat_lt_of_isAlphanum halpha) (by decide)
    refine List.mem_filter.mpr ⟨List.mem_map.mpr ⟨c.toNat, List.mem_range.mpr hlt,
      Char.ofNat_toNat c⟩, ?_⟩
    rw [halpha]
    rfl
  · exact hmarks c hmark

theorem toList_pathWrapper : (pathWrapper (Json.quote true root)).toList =
    wrapperLead.toList ++ '"' :: (root.toList ++ ['"', ')', ';']) := by
  have hclosing : ");".toList = [')', ';'] := rfl
  have hplain : ∀ c ∈ root.toList, c ≠ '"' ∧ c ≠ '\\' ∧ 0x20 ≤ c.toNat ∧ c.toNat < 0x7F := by
    intro c hc
    obtain ⟨hquote, hslash, -, -, -, hcode⟩ :=
      plain_of_mem_rootAlphabet c (mem_rootAlphabet hroot c hc)
    exact ⟨hquote, hslash, hcode⟩
  unfold pathWrapper
  rw [String.toList_append, String.toList_append, hclosing, Json.toList_quote_of_plain hplain]
  simp

theorem wrapperLine_append (body : List Char) : wrapperLine root ++ body =
    wrapperLead.toList ++ '"' :: (root.toList ++ '"' :: ')' :: ';' :: '\n' :: body) := by
  rw [wrapperLine, toList_pathWrapper hroot]
  simp

theorem length_wrapperLine :
    (wrapperLine root).length = wrapperLead.toList.length + (root.toList.length + 5) := by
  have h := congrArg List.length (wrapperLine_append hroot [])
  simp only [List.append_nil, List.length_append, List.length_cons, List.length_nil] at h
  omega

theorem newline_not_mem_pathWrapper : '\n' ∉ (pathWrapper (Json.quote true root)).toList := by
  have hlead : wrapperLead.toList.all (· != '\n') = true := by
    unfold wrapperLead wrapperStart wrapperMark
    iterate 13 apply all_toList_append
    all_goals exact all_toList rfl (by decide)
  rw [toList_pathWrapper hroot]
  intro hmem
  rcases List.mem_append.mp hmem with hmem | hmem
  · exact absurd (List.all_eq_true.mp hlead _ hmem) (by decide)
  rcases List.mem_append.mp ((List.mem_cons.mp hmem).resolve_left (by decide)) with hmem | hmem
  · exact (plain_of_mem_rootAlphabet _ (mem_rootAlphabet hroot _ hmem)).2.2.1 rfl
  · exact absurd hmem (by decide)

end Root

/-! ## No match starts in the line -/

/-- The patterns of all rules, and that of file calls. -/
def rulePatterns : List Pattern :=
  [importFrom, importBare, exportList, exportStar, exportDefault, exportDeclaration,
    requireDeclaration, requireBare, syncCall, fileCall, typeAlias, interfaceDeclaration,
    annotatedVariable, annotatedDeclaration, genericFunction, cast]

/-- No match starts at a character of a root, which stands in a literal. -/
def UnmatchedInRoot (pattern : Pattern) : Prop :=
  ∀ (b : Char) (c : Char) (cs body : List Char) (offset : Nat), b ≠ '\n' →
    (∀ d ∈ c :: cs, d ∈ rootAlphabet) →
      pattern.matchAt? ⟨some b, c :: cs ++ '"' :: body, offset, []⟩ = none

theorem unmatchedInRoot_of_lineStart {patterns : List Pattern} :
    UnmatchedInRoot (all (lineStart :: patterns)) := by
  intro b c cs body offset hb _
  refine Option.eq_none_iff_forall_ne_some.mpr fun m hm => hb ?_
  simpa using holds_of_matchAt?_cons hm

theorem unmatchedInRoot_of_statementMark {patterns : List Pattern} :
    UnmatchedInRoot (all (statementMark :: patterns)) := by
  intro b c cs body offset hb hcs
  have hmark : ∀ d ∈ c :: cs, d ∉ ";\x7d".toList := by
    intro d hd
    obtain ⟨-, -, -, hsemicolon, hbrace, -⟩ := plain_of_mem_rootAlphabet d (hcs d hd)
    simp [hsemicolon, hbrace]
  refine Option.eq_none_iff_forall_ne_some.mpr fun m hm => ?_
  obtain ⟨q, hq, -⟩ := Option.map_eq_some_iff.mp hm
  have hmem := List.mem_of_head? hq
  rw [ends_all_cons] at hmem
  obtain ⟨p, hp, -⟩ := List.mem_flatMap.mp hmem
  obtain ⟨r, hr, -⟩ := List.mem_map.mp hp
  rcases List.mem_append.mp hr with hline | hone
  · rw [lineStart, ends_condition] at hline
    split at hline
    · next h => exact hb (by simpa using h)
    · cases hline
  · rw [List.cons_append, oneOf, ends_char_cons] at hone
    split at hone
    · next h => exact hmark c (.head _) (List.contains_iff_mem.mp h)
    · cases hone

/-- A pattern that has to leave the alphabet, and cannot take the quote after the root. -/
theorem unmatchedInRoot_of_mayCross {pattern : Pattern}
    (htake : pattern.mayTake rootAlphabet = false)
    (hcross : pattern.mayCross rootAlphabet '"' = false) : UnmatchedInRoot pattern :=
  fun b _ _ _ offset _ hcs => matchAt?_eq_none_of_mayCross htake hcross hcs (some b) offset []

theorem unmatchedInRoot_rulePatterns : ∀ pattern ∈ rulePatterns, UnmatchedInRoot pattern := by
  have hothers : ∀ pattern ∈ [syncCall, fileCall, annotatedVariable, annotatedDeclaration,
      genericFunction, cast], pattern.mayTake rootAlphabet = false ∧
        pattern.mayCross rootAlphabet '"' = false := by
    simp only [List.forall_mem_cons, List.not_mem_nil, false_implies, implies_true, and_true]
    decide +kernel
  simp only [List.forall_mem_cons, List.not_mem_nil, false_implies, implies_true, and_true]
    at hothers
  obtain ⟨hsync, hfile, hvariable, hdeclaration, hfunction, hcast⟩ := hothers
  simp only [rulePatterns, List.forall_mem_cons, List.not_mem_nil, false_implies, implies_true,
    and_true]
  exact ⟨unmatchedInRoot_of_lineStart, unmatchedInRoot_of_lineStart,
    unmatchedInRoot_of_statementMark, unmatchedInRoot_of_statementMark,
    unmatchedInRoot_of_statementMark, unmatchedInRoot_of_statementMark,
    unmatchedInRoot_of_lineStart, unmatchedInRoot_of_lineStart,
    unmatchedInRoot_of_mayCross hsync.1 hsync.2, unmatchedInRoot_of_mayCross hfile.1 hfile.2,
    unmatchedInRoot_of_lineStart, unmatchedInRoot_of_lineStart,
    unmatchedInRoot_of_mayCross hvariable.1 hvariable.2,
    unmatchedInRoot_of_mayCross hdeclaration.1 hdeclaration.2,
    unmatchedInRoot_of_mayCross hfunction.1 hfunction.2,
    unmatchedInRoot_of_mayCross hcast.1 hcast.2⟩

/-- Whether no match of a rule starts in a text, whatever is before it and after it. At each place
only the rules are tried that may take the character there. -/
def isUnmatched : List Char → Bool
  | [] => true
  | c :: cs =>
    ((rulePatterns.filter (mayCross [] c)).all fun pattern => pattern.leaves (c :: cs) == some []) &&
      isUnmatched cs

/-- Each rule takes at least one character. -/
theorem mayTake_rulePatterns : ∀ pattern ∈ rulePatterns, pattern.mayTake [] = false := by
  decide +kernel

theorem matchAt?_of_isUnmatched {text u v : List Char} (h : isUnmatched text = true)
    (htext : text = u ++ v) (hv : v ≠ []) {pattern : Pattern} (hpattern : pattern ∈ rulePatterns)
    (before : Option Char) (body : List Char) (offset : Nat) :
    pattern.matchAt? ⟨before, v ++ body, offset, []⟩ = none := by
  subst htext
  induction u with
  | nil =>
    obtain ⟨c, cs, rfl⟩ := List.exists_cons_of_ne_nil hv
    have hknown := List.all_eq_true.mp (Bool.and_eq_true_iff.mp h).1 pattern
    cases hcross : pattern.mayCross [] c with
    | true =>
      exact matchAt?_eq_none_of_leaves
        (beq_iff_eq.mp (hknown (List.mem_filter.mpr ⟨hpattern, hcross⟩))) before offset []
    | false =>
      exact @matchAt?_eq_none_of_mayCross [] c pattern [] (cs ++ body)
        (mayTake_rulePatterns pattern hpattern) hcross (by simp) before offset []
  | cons c cs ih => exact ih (Bool.and_eq_true_iff.mp h).2

theorem toList_eq_of_eq {s : String} {cs : List Char} (h : s = String.ofList cs) : s.toList = cs :=
  h ▸ String.toList_ofList

theorem toList_append_eq {s t : String} {cs ds : List Char} (hs : s.toList = cs)
    (ht : t.toList = ds) : (s ++ t).toList = cs ++ ds := by
  rw [String.toList_append, hs, ht]

/-- No match starts in the end of the line. -/
theorem isUnmatched_end : isUnmatched ['"', ')', ';', '\n'] = true := by
  decide +kernel

/-- A call that is closed in a known start and has no annotations, or that only `)` and `;` after
the known start can close. -/
def settlesIn (text : List Char) (code : List Placed) (place : Nat) : Bool :=
  match argumentSpans? text code place with
  | some arguments =>
    arguments.spans.all (fun span => span.2 ≤ text.length) &&
      (parameterEdits text arguments.spans).isEmpty &&
      ((text.drop (arguments.close + 1)).dropWhile fun c => c == ' ' || c == '\t').head?.any
        (· != ':')
  | none => depthAfter? 0 (code.dropWhile fun p => decide ((p.place : Int) < place)) == some 1

/-- Whether no match starts in a text, also if a quote follows, and its signatures are settled. -/
def isKnownLead (lead : List Char) : Bool :=
  isUnmatched (lead ++ ['"']) &&
    (codeOfKnown lead.length .start 0 lead).any fun known => known.1.all fun p =>
      p.place < lead.length && (p.char != '(' || settlesIn lead known.1 p.place)

theorem isKnownLead_wrapperLead : isKnownLead wrapperLead.toList = true := by
  -- The characters are put together first, so that they are computed only once.
  suffices h : ∃ lead, wrapperLead.toList = lead ∧ isKnownLead lead = true by
    obtain ⟨_, rfl, h⟩ := h
    exact h
  apply Exists.intro
  apply And.intro
  · unfold wrapperLead wrapperStart wrapperMark
    iterate 13 apply toList_append_eq
    all_goals exact toList_eq_of_eq rfl
  · refine Bool.and_eq_true_iff.mpr ⟨?_, ?_⟩
    · decide +kernel
    · decide +kernel

theorem isUnmatched_lead : isUnmatched (wrapperLead.toList ++ ['"']) = true :=
  (Bool.and_eq_true_iff.mp isKnownLead_wrapperLead).1

theorem exists_codeOfKnown_lead : ∃ code look,
    codeOfKnown wrapperLead.toList.length .start 0 wrapperLead.toList = some (code, look) ∧
      ∀ p ∈ code, p.place < wrapperLead.toList.length ∧
        (p.char = '(' → settlesIn wrapperLead.toList code p.place = true) := by
  obtain ⟨⟨code, look⟩, hread, hcode⟩ :=
    (Option.any_eq_true _ _).mp (Bool.and_eq_true_iff.mp isKnownLead_wrapperLead).2
  refine ⟨code, look, hread, fun p hp => ?_⟩
  obtain ⟨hplace, hsettled⟩ := Bool.and_eq_true_iff.mp (List.all_eq_true.mp hcode p hp)
  exact ⟨of_decide_eq_true hplace, fun hchar => by simpa [hchar] using hsettled⟩

/-- No match of a rule starts in the line. -/
theorem unmatched_wrapperLine {root : String} (hroot : PlainRoot root) :
    ∀ pattern ∈ rulePatterns, Unmatched pattern (wrapperLine root) := by
  intro pattern hpattern u v hline hv body
  have hsplit : wrapperLead.toList ++ ['"'] ++ (root.toList ++ ['"', ')', ';', '\n']) = u ++ v := by
    have h := wrapperLine_append hroot []
    rw [List.append_nil, hline] at h
    rw [h]
    simp
  have hend : ∀ {u v : List Char}, ['"', ')', ';', '\n'] = u ++ v → v ≠ [] →
      ∀ before offset, pattern.matchAt? ⟨before, v ++ body, offset, []⟩ = none :=
    fun huv hv before offset =>
      matchAt?_of_isUnmatched isUnmatched_end huv hv hpattern before body offset
  have hlead := isUnmatched_lead
  generalize wrapperLead.toList = lead at hsplit hlead
  -- What is left of the root and the end, if the character before is known.
  have hroots : ∀ {x y : List Char}, root.toList = x ++ y →
      ∀ offset, pattern.matchAt? ⟨some ((x.getLast?).getD '"'),
        y ++ ['"', ')', ';', '\n'] ++ body, offset, []⟩ = none := by
    intro x y hxy offset
    cases y with
    | nil => exact @hend [] _ rfl (by simp) _ offset
    | cons c cs =>
      have hmem : ∀ d ∈ x ++ c :: cs, d ∈ rootAlphabet := hxy ▸ mem_rootAlphabet hroot
      have hbefore : (x.getLast?).getD '"' ≠ '\n' := by
        cases hlast : x.getLast? with
        | none => exact by decide
        | some d =>
          have hd := hmem d (List.mem_append_left _ (List.mem_of_getLast? hlast))
          exact (plain_of_mem_rootAlphabet d hd).2.2.1
      have h := unmatchedInRoot_rulePatterns pattern hpattern ((x.getLast?).getD '"') c cs
        (')' :: ';' :: '\n' :: body) offset hbefore fun d hd => hmem d (List.mem_append_right _ hd)
      simpa using h
  rcases List.append_eq_append_iff.mp hsplit with ⟨x, rfl, hlast⟩ | ⟨x, hquote, rfl⟩
  · have hbefore : (lead ++ ['"'] ++ x).getLast? = some ((x.getLast?).getD '"') := by
      rw [List.getLast?_append]
      cases x.getLast? <;> simp
    rcases List.append_eq_append_iff.mp hlast with ⟨y, rfl, htail⟩ | ⟨y, hy, rfl⟩
    · exact hend htail hv _ _
    · rw [hbefore]
      exact hroots hy _
  · cases x with
    | nil =>
      rw [List.append_nil] at hquote
      rw [← hquote, List.nil_append]
      have hbefore : (lead ++ ['"']).getLast? = some '"' := by simp
      rw [hbefore]
      exact @hroots [] root.toList rfl _
    | cons c cs =>
      have h := matchAt?_of_isUnmatched hlead hquote (by simp) hpattern u.getLast?
        (root.toList ++ ['"', ')', ';', '\n'] ++ body) u.length
      simpa using h

/-! ## The code of the line -/

theorem quotedBody_root {root : String} (hroot : PlainRoot root) :
    Segment.QuotedBody '"' root.toList := by
  have hmem := mem_rootAlphabet hroot
  generalize root.toList = cs at hmem
  induction cs with
  | nil => exact .nil
  | cons c cs ih =>
    obtain ⟨hc, hcs⟩ := List.forall_mem_cons.mp hmem
    obtain ⟨hquote, hslash, hline, -⟩ := plain_of_mem_rootAlphabet c hc
    exact .char hquote hslash hline (ih hcs)

/-- The characters of code of a text that is known up to the literal of a root, with `)` and `;` at
the end of the line: those known, these three, and those of the rest. -/
theorem codeChars_of_known {lead : List Char} {code : List Placed} {look : Segment.Lookback}
    (hread : codeOfKnown lead.length .start 0 lead = some (code, look)) {root : String}
    (hroot : PlainRoot root) (body : List Char) :
    codeChars (lead ++ '"' :: (root.toList ++ '"' :: ')' :: ';' :: '\n' :: body)) =
      code ++ ⟨lead.length + (root.toList.length + 2), ')'⟩ ::
        ⟨lead.length + (root.toList.length + 3), ';'⟩ ::
        ⟨lead.length + (root.toList.length + 4), '\n'⟩ ::
        codeOfSegments (lead.length + (root.toList.length + 5)) (Segment.splitAfter
          (((Segment.Lookback.literal.afterCode ')').afterCode ';').afterCode '\n') body) := by
  -- The root is a string, and what follows it holds no comment and no literal.
  have htoken : ∀ look : Segment.Lookback,
      Segment.splitAfter look ('"' :: (root.toList ++ '"' :: ')' :: ';' :: '\n' :: body)) =
        ⟨.string, '"' :: (root.toList ++ ['"'])⟩ ::
          Segment.splitAfter .literal (')' :: ';' :: '\n' :: body) := fun look => by
    have h := @Segment.splitAfter_isToken _ (.string (by decide) (quotedBody_root hroot)) nofun
      (')' :: ';' :: '\n' :: body) nofun look
    simpa [Segment.Lookback.afterToken, Segment.Kind.isLiteral] using h
  have hplain : ∀ c ∈ [')', ';', '\n'], c ∉ Segment.openers := by decide
  have hcode : ∀ (look : Segment.Lookback) (start : Nat), codeOfSegments start
      (Segment.splitAfter look (')' :: ';' :: '\n' :: body)) = ⟨start, ')'⟩ :: ⟨start + 1, ';'⟩ ::
        ⟨start + 2, '\n'⟩ :: codeOfSegments (start + 3) (Segment.splitAfter
          (((look.afterCode ')').afterCode ';').afterCode '\n') body) := fun look start => by
    rw [Segment.splitAfter_of_none (Segment.token?_eq_none (hplain _ (by decide)) _ _),
      Segment.splitAfter_of_none (Segment.token?_eq_none (hplain _ (by decide)) _ _),
      Segment.splitAfter_of_none (Segment.token?_eq_none (hplain _ (by decide)) _ _),
      Segment.codeOfSegments_consCode, Segment.codeOfSegments_consCode,
      Segment.codeOfSegments_consCode]
  rw [codeChars, Segment.split, codeOfSegments_of_known hread, htoken, codeOfSegments,
    if_neg (by simp), List.nil_append, hcode]
  simp [Nat.add_assoc]

/-- The characters of code of a snippet that starts with the line: those known up to the root, the
three at the end of the line, and those of the rest. -/
theorem exists_codeChars_wrapperLine {root : String} (hroot : PlainRoot root) :
    ∃ code look, (∀ p ∈ code, p.place < wrapperLead.toList.length ∧
        (p.char = '(' → settlesIn wrapperLead.toList code p.place = true)) ∧
      ∀ body, codeChars (wrapperLine root ++ body) =
        code ++ ⟨wrapperLead.toList.length + (root.toList.length + 2), ')'⟩ ::
          ⟨wrapperLead.toList.length + (root.toList.length + 3), ';'⟩ ::
          ⟨wrapperLead.toList.length + (root.toList.length + 4), '\n'⟩ ::
          codeOfSegments (wrapperLine root).length (Segment.splitAfter look body) := by
  obtain ⟨code, look, hread, hcode⟩ := exists_codeOfKnown_lead
  refine ⟨code, ((Segment.Lookback.literal.afterCode ')').afterCode ';').afterCode '\n', hcode,
    fun body => ?_⟩
  rw [length_wrapperLine hroot, wrapperLine_append hroot]
  exact codeChars_of_known hread hroot body

/-! ## The signatures of the line -/

/-- No signature has its body or its arrow after a semicolon. -/
theorem signatureTail_semicolon (before : Option Char) (rest : List Char) (offset : Nat) :
    signatureTail.matchAt? ⟨before, ';' :: rest, offset, []⟩ = none := by
  simp [signatureTail, matchAt?, all, spaces, Pattern.star, opt, lit, exactly, oneOf, words, anyOf,
    followedBy]

theorem parameterEdits_append {text : List Char} {spans : List (Nat × Nat)}
    (h : ∀ span ∈ spans, span.2 ≤ text.length) (after : List Char) :
    parameterEdits (text ++ after) spans = parameterEdits text spans :=
  List.filterMap_congr fun span hspan => by
    dsimp only
    rw [Region.slice_append (h span hspan)]

/-- What is settled in a known start is settled, if `)` and `;` come next. -/
theorem settled_of_settlesIn {text after : List Char} {code more : List Placed} {place close : Nat}
    (hcode : codeChars (text ++ after) = code ++ ⟨close, ')'⟩ :: more)
    (hplaces : ∀ p ∈ code, p.place < text.length)
    (hclose : ∃ rest, (text ++ after).drop (close + 1) = ';' :: rest)
    (h : settlesIn text code place = true) : Settled (text ++ after) place := by
  intro arguments tail hsignature
  obtain ⟨harguments, htail⟩ := exists_of_signatureAt? hsignature
  rw [hcode] at harguments
  unfold settlesIn at h
  split at h
  · next known hknown =>
    rw [argumentSpans?_append hplaces hknown] at harguments
    obtain rfl := Option.some.inj harguments
    simp only [Bool.and_eq_true, List.all_eq_true, decide_eq_true_eq, List.isEmpty_iff] at h
    obtain ⟨⟨hspans, hedits⟩, hnext⟩ := h
    refine ⟨by rw [parameterEdits_append hspans, hedits], ?_⟩
    by_contra hcaptured
    obtain ⟨gap, rest, htext, hgap⟩ := captured_of_signatureTail htail hcaptured
    -- The next character that is no space is known, and it is no colon.
    obtain ⟨c, hc, hcolon⟩ := Option.any_eq_true _ _ |>.mp hnext
    have hne : text.drop (known.close + 1) ≠ [] := by
      intro hnil
      rw [hnil] at hc
      cases hc
    have hlt : known.close + 1 < text.length := by simpa using hne
    rw [List.drop_append_of_le_length (Nat.le_of_lt hlt)] at htext
    have hdrop := congrArg (List.dropWhile fun c => c == ' ' || c == '\t') htext
    rw [List.dropWhile_append, if_neg (by
        intro hempty
        rw [List.isEmpty_iff.mp hempty] at hc
        cases hc),
      List.dropWhile_append_of_pos fun c hc => by simpa using hgap c hc,
      List.dropWhile_cons_of_neg (by decide)] at hdrop
    have hhead := congrArg List.head? hdrop
    rw [List.head?_append, hc] at hhead
    obtain rfl : c = ':' := by simpa using hhead
    simp at hcolon
  · next hunknown =>
    obtain ⟨commas, hcommas, -⟩ := exists_of_argumentSpans? harguments
    have hne : code.dropWhile (fun p => decide ((p.place : Int) < place)) ≠ [] := by
      intro hnil
      rw [hnil] at h
      cases h
    rw [List.dropWhile_append, if_neg (by simpa using hne)] at hcommas
    obtain ⟨others, hothers⟩ := exists_of_depthAfter? (beq_iff_eq.mp h) hcommas
    obtain rfl : close = arguments.close := by
      have h : commasIn? 1 (⟨close, ')'⟩ :: more) = some ([], close) := rfl
      rw [h] at hothers
      exact (Prod.mk.inj (Option.some.inj hothers)).2
    obtain ⟨rest, hrest⟩ := hclose
    rw [hrest, signatureTail_semicolon] at htail
    cases htail

/-- The characters of code of the line are known, and its signatures are settled. -/
theorem settled_wrapperLine {root : String} (hroot : PlainRoot root) :
    ∃ code look, (∀ body, codeChars (wrapperLine root ++ body) =
        code ++ codeOfSegments (wrapperLine root).length (Segment.splitAfter look body)) ∧
      ∀ p ∈ code, p.char = '(' → ∀ body, Settled (wrapperLine root ++ body) p.place := by
  obtain ⟨code, look, hcode, hread⟩ := exists_codeChars_wrapperLine hroot
  refine ⟨code ++ [⟨wrapperLead.toList.length + (root.toList.length + 2), ')'⟩,
    ⟨wrapperLead.toList.length + (root.toList.length + 3), ';'⟩,
    ⟨wrapperLead.toList.length + (root.toList.length + 4), '\n'⟩], look, fun body => ?_,
    fun p hp hchar body => ?_⟩
  · rw [hread, List.append_assoc]
    rfl
  have hmem : p ∈ code := by
    rcases List.mem_append.mp hp with hp | hp
    · exact hp
    · have hend : ∀ c ∈ [')', ';', '\n'], c ≠ '(' := by decide
      refine absurd hchar (hend p.char ?_)
      simp only [List.mem_cons, List.not_mem_nil, or_false] at hp ⊢
      rcases hp with rfl | rfl | rfl
      · exact .inl rfl
      · exact .inr (.inl rfl)
      · exact .inr (.inr rfl)
  obtain ⟨-, hsettled⟩ := hcode p hmem
  have hread := hread body
  have hclose : ((wrapperLine root ++ body).drop
      (wrapperLead.toList.length + (root.toList.length + 2) + 1)) = ';' :: '\n' :: body := by
    have hsplit : wrapperLine root ++ body =
        (wrapperLead.toList ++ '"' :: (root.toList ++ ['"', ')'])) ++ ';' :: '\n' :: body := by
      rw [wrapperLine_append hroot]
      simp
    rw [hsplit]
    exact List.drop_left' (by simp; omega)
  rw [wrapperLine_append hroot] at hread hclose ⊢
  exact settled_of_settlesIn hread (fun p hp => (hcode p hp).1) ⟨_, hclose⟩ (hsettled hchar)

end GuestCode.Rewrite
