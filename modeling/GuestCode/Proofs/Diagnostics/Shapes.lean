import GuestCode.Proofs.Diagnostics.Marks

/-!
# The rules between edges of words

Each of the six patterns that are masked is a pattern between edges of words. None of them finds
anything in a mark, and each is replaced by marks: what becomes of a match is known from what the
pattern takes. Where a match ends in a word, it is also known which characters cannot go on with
that word.

## Main statements

* `Masking.patterns_eq`: the six patterns, with their edges.
* `Masking.passesMarks_of_mem`: no rule finds anything in a mark.
* `Masking.marks_whole`, `Masking.marks_namedSecret`, `Masking.marks_bearerToken`: what becomes of a
  match.
* `Masking.stopsBefore_secret`, `Masking.stopsBefore_bearer`, `Masking.stopsBefore_web`: what cannot
  stand behind a match.
* `Masking.cases_of_mayStart_secret`: the first letters of named secrets.
-/

namespace GuestCode.Masking

open Text Text.Pattern

/-! ## The rules between edges of words -/

/-- Addresses. -/
def mailShape : Edged where
  opens := true
  core := [plus (alphanumericOr "._%+-"), lit "@", plus (alphanumericOr ".-"), lit ".",
    atLeast 2 (.char Char.isAlpha)]
  closes := true

/-- Named secrets. -/
def secretShape : Edged where
  opens := true
  core := .capture 1 secretName :: (secretSign ++ secretValue)
  closes := false

/-- Bearer tokens. -/
def bearerShape : Edged where
  opens := false
  core := [anyCase "bearer", someBlanks, plus secretChar]
  closes := false

/-- A part of a web token. -/
def webPart : Pattern := star (alphanumericOr "_-")

/-- Web tokens. -/
def webShape : Edged where
  opens := true
  core := [lit "eyJ", webPart, lit ".", webPart, lit ".", webPart]
  closes := false

/-- Card numbers. -/
def cardShape : Edged where
  opens := true
  core :=
    let group := times 4 (.char isDecimalDigit)
    let gap := opt (.char fun c => isBlank c || c == '-')
    [group, gap, group, gap, group, gap, group]
  closes := true

/-- National identity numbers. -/
def nationalShape : Edged where
  opens := true
  core := [times 6 (.char isDecimalDigit), opt (lit "-"), times 7 (.char isDecimalDigit)]
  closes := true

/-- The patterns of the rules, in their order. -/
def shapes : List Edged :=
  [mailShape, secretShape, bearerShape, webShape, cardShape, nationalShape]

/-- The rule for addresses. -/
def mailRule : MaskRule := ⟨email, emailMask⟩

/-- The rule for named secrets. -/
def secretRule : MaskRule := ⟨namedSecret, secretMask⟩

/-- The rule for bearer tokens. -/
def bearerRule : MaskRule := ⟨bearerToken, fun _ => "Bearer [TOKEN_MASKED]".toList⟩

/-- The rule for web tokens. -/
def webRule : MaskRule := ⟨webToken, fun _ => "[JWT_MASKED]".toList⟩

/-- The rule for card numbers. -/
def cardRule : MaskRule := ⟨cardNumber, fun _ => "[CARD_MASKED]".toList⟩

/-- The rule for national identity numbers. -/
def nationalRule : MaskRule := ⟨nationalId, fun _ => "[SSN_MASKED]".toList⟩

/-- The rules up to that for bearer tokens. -/
def firstRules : List MaskRule := [mailRule, secretRule, bearerRule]

/-- The rules from that for web tokens on. -/
def lastRules : List MaskRule := [webRule, cardRule, nationalRule]

theorem rules_eq_append : rules = firstRules ++ lastRules := rfl

theorem patterns_eq : rules.map MaskRule.pattern = shapes.map Edged.pattern := rfl

/-- No rule finds anything in a mark. -/
theorem passesMarks_of_mem : ∀ p ∈ shapes, PassesMarks p := by
  refine List.forall_mem_cons.mpr ⟨⟨⟨by decide, by decide⟩, by decide, by decide, 4, by decide⟩, ?_⟩
  refine List.forall_mem_cons.mpr ⟨⟨⟨by decide, by decide⟩, by decide, by decide, 5, by decide⟩, ?_⟩
  refine List.forall_mem_cons.mpr ⟨⟨⟨by decide, by decide⟩, by decide, by decide, 2, by decide⟩, ?_⟩
  refine List.forall_mem_cons.mpr ⟨⟨⟨by decide, by decide⟩, by decide, by decide, 4, by decide⟩, ?_⟩
  refine List.forall_mem_cons.mpr ⟨⟨⟨by decide, by decide⟩, by decide, by decide, 6, by decide⟩, ?_⟩
  exact List.forall_mem_singleton.mpr ⟨⟨by decide, by decide⟩, by decide, by decide, 2, by decide⟩

/-! ## Letters in any case -/

section Letters

variable {l c : Char} {w : String} {x : List Char}

theorem isAlpha_of_toLower (hl : l.isAlpha = true) (h : c.toLower = l) : c.isAlpha = true := by
  unfold Char.toLower at h
  split at h
  · next hupper =>
    unfold Char.isAlpha Char.isUpper
    rw [decide_eq_true hupper, Bool.true_or]
  · exact h ▸ hl

theorem cases_of_isLetterNamed (hl : l.isAlpha = true) (h : isLetterNamed l c = true) :
    c.isAlpha = true ∨ c ∈ oddLetters := by
  simp only [isLetterNamed, Bool.or_eq_true, Bool.and_eq_true, beq_iff_eq] at h
  rcases h with (((rfl | h) | ⟨-, rfl⟩) | ⟨-, rfl⟩) | ⟨-, rfl | rfl⟩
  · exact .inl hl
  · exact .inl (isAlpha_of_toLower hl h)
  all_goals exact .inr (by decide)

theorem isAlphanum_of_isAlpha (h : c.isAlpha = true) : c.isAlphanum = true := by
  rw [Char.isAlphanum, h, Bool.true_or]

theorem mem_markChars (h : c.isAlpha = true ∨ c ∈ oddLetters) : c ∈ markChars := by
  rcases h with h | h
  · exact List.mem_append_left _ (List.mem_append_left _
      (List.mem_filter.mpr ⟨mem_valueChars (isAlphanum_of_isAlpha h), h⟩))
  · exact List.mem_append_right _ h

theorem takes_anyCase : (anyCase w).Takes x ↔
    List.Forall₂ (fun l c => isLetterNamed l c = true) w.toList x := by
  rw [anyCase]
  induction w.toList generalizing x with
  | nil => exact List.forall₂_nil_left_iff.symm
  | cons l ls ih =>
    rw [List.map_cons, takes_all_cons, List.forall₂_cons_left_iff]
    simp only [ih]
    constructor
    · rintro ⟨_, v, rfl, ⟨c, hc, rfl⟩, hv⟩
      exact ⟨c, v, hc, hv, rfl⟩
    · rintro ⟨c, v, hc, hv, rfl⟩
      exact ⟨[c], v, rfl, ⟨c, hc, rfl⟩, hv⟩

theorem subset_of_takes_anyCase (hw : ∀ l ∈ w.toList, l.isAlpha = true) (h : (anyCase w).Takes x) :
    ∀ c ∈ x, c ∈ markChars := by
  have hforall := takes_anyCase.mp h
  clear h
  generalize w.toList = ls at hw hforall
  induction hforall with
  | nil => simp
  | cons hlc _ ih =>
    obtain ⟨hl, hls⟩ := List.forall_mem_cons.mp hw
    exact List.forall_mem_cons.mpr ⟨mem_markChars (cases_of_isLetterNamed hl hlc), ih hls⟩

/-- The name of a secret is a name. -/
theorem subset_of_takes_secretName (h : secretName.Takes x) : ∀ c ∈ x, c ∈ markChars := by
  have hsign : ∀ {v : List Char}, (opt (oneOf "_-")).Takes v → ∀ c ∈ v, c ∈ markChars := by
    rintro v (⟨c, hc, rfl⟩ | rfl)
    · have hc : c ∈ "_-".toList := List.contains_iff_mem.mp hc
      exact List.forall_mem_singleton.mpr
        (List.mem_append_left _ (List.mem_append_right _ hc))
    · simp
  rcases h with ⟨u, _, rfl, hu, v, z, rfl, hv, hz⟩ | h | h | h | h | h
  · exact List.forall_mem_append.mpr ⟨subset_of_takes_anyCase (by decide) hu,
      List.forall_mem_append.mpr ⟨hsign hv, subset_of_takes_anyCase (by decide) hz⟩⟩
  all_goals exact subset_of_takes_anyCase (by decide) h

end Letters

/-! ## What the rules make of their matches -/

section Marked

variable {q : Edged} {name : List Char}

theorem isProper_of_mem {p : Edged} (hp : p ∈ shapes) : p.IsProper :=
  (passesMarks_of_mem p hp).proper

/-- A match at the edge of a word becomes a name in brackets. -/
theorem marks_whole (name : List Char) (hq : q ∈ shapes) (hopens : q.opens = true)
    (hname : ∀ c ∈ name, c ∈ markChars) : Marks [] q fun _ => '[' :: (name ++ [']']) where
  proper := isProper_of_mem hq
  words := by simp [KeepsWords]
  marked hm := by
    obtain ⟨hrest, -, -, hedge, -⟩ := Edged.spec_of_matchAt? (isProper_of_mem hq) hm
    exact .whole (hrest ▸ hedge hopens) hname

theorem marks_email : Marks [] mailShape emailMask :=
  marks_whole "EMAIL_MASKED".toList (by simp [shapes]) rfl (by decide)

theorem marks_webToken : Marks [] webShape fun _ => "[JWT_MASKED]".toList :=
  marks_whole "JWT_MASKED".toList (by simp [shapes]) rfl (by decide)

theorem marks_cardNumber : Marks [] cardShape fun _ => "[CARD_MASKED]".toList :=
  marks_whole "CARD_MASKED".toList (by simp [shapes]) rfl (by decide)

theorem marks_nationalId : Marks [] nationalShape fun _ => "[SSN_MASKED]".toList :=
  marks_whole "SSN_MASKED".toList (by simp [shapes]) rfl (by decide)

/-- What follows the name of a secret starts with no character of a word. -/
theorem head?_of_takes_sign {v after : List Char} (hv : (all (secretSign ++ secretValue)).Takes v) :
    (v ++ after).head?.any isWordChar = false := by
  obtain ⟨c, cs, rfl⟩ := List.exists_cons_of_ne_nil (ne_nil_of_takesSome (by decide) hv)
  have hstart := mayStart_of_takes hv
  have hsign : mayPrecedeSign c = true ∨ c ∈ "=:".toList := by
    simpa [secretSign, all, Pattern.star, mayStart, takesSome, oneOf] using hstart
  have hsigns : ∀ c ∈ "'\":=".toList, isWordChar c = false := by decide
  rw [List.cons_append, List.head?_cons, Option.any_some]
  rcases hsign with hsign | hsign
  · simp only [mayPrecedeSign, Bool.or_eq_true, beq_iff_eq] at hsign
    rcases hsign with ((rfl | rfl) | rfl) | hblank
    · exact hsigns _ (by decide)
    · exact hsigns _ (by decide)
    · exact hsigns _ (by decide)
    · exact Segment.isWordChar_of_isBlank hblank
  · exact hsigns c ((by decide : "=:".toList ⊆ "'\":=".toList) hsign)

/-- A named secret becomes its name, a sign and a mark. -/
theorem marks_namedSecret : Marks [] secretShape secretMask where
  proper := isProper_of_mem (by simp [shapes])
  words := by simp [KeepsWords]
  marked hm := by
    obtain ⟨v, htext, hname, hv⟩ := Edged.captured_of_matchAt? rfl (by decide) hm
    have hmask : ∀ m, secretMask m =
        m.captured 1 ++ '=' :: '[' :: ("MASKED".toList ++ [']']) := fun _ => rfl
    rw [hmask]
    exact .behind htext (forall₂_kin_refl _) (head?_of_takes_sign hv)
      (subset_of_takes_secretName hname) (by decide) (by decide)

/-- The letters of the name before a bearer token, and how a mark spells them. -/
def bearerLetters : List (Char × Char) :=
  [('b', 'B'), ('e', 'e'), ('a', 'a'), ('r', 'r'), ('e', 'e'), ('r', 'r')]

/-- What the letters in a mark may stand for, apart from themselves. -/
def bearerPairs : List (Char × Char) := [('B', 'b'), ('e', 'E'), ('a', 'A'), ('r', 'R')]

theorem kin_of_isLetterNamed : ∀ pair ∈ bearerLetters, ∀ c,
    isLetterNamed pair.1 c = true → Kin bearerPairs pair.2 c := by
  intro pair hpair c hc
  have hall : ∀ pair ∈ bearerLetters, pair.1.isAlpha = true ∧
      ∀ c ∈ markChars, isLetterNamed pair.1 c = true →
        pair.2 = c ∨ (pair.2, c) ∈ bearerPairs := by
    decide
  obtain ⟨halpha, hpairs⟩ := hall pair hpair
  exact hpairs c (mem_markChars (cases_of_isLetterNamed halpha hc)) hc

theorem kin_of_takes_bearer {x : List Char} (h : (anyCase "bearer").Takes x) :
    List.Forall₂ (Kin bearerPairs) "Bearer".toList x := by
  have hletters : List.Forall₂ (fun l c => isLetterNamed l c = true)
      (bearerLetters.map Prod.fst) x := takes_anyCase.mp h
  rw [List.forall₂_map_left_iff] at hletters
  have hspelt : "Bearer".toList = bearerLetters.map Prod.snd := rfl
  have hkin := kin_of_isLetterNamed
  clear h
  rw [hspelt, List.forall₂_map_left_iff]
  generalize bearerLetters = letters at hletters hkin ⊢
  induction hletters with
  | nil => exact .nil
  | cons hletter _ ih =>
    obtain ⟨hfirst, hothers⟩ := List.forall_mem_cons.mp hkin
    exact .cons (hfirst _ hletter) (ih hothers)

/-- A bearer token becomes its name in one spelling, a blank and a mark. -/
theorem marks_bearerToken :
    Marks bearerPairs bearerShape fun _ => "Bearer [TOKEN_MASKED]".toList where
  proper := isProper_of_mem (by simp [shapes])
  words := by
    unfold KeepsWords
    decide
  marked hm := by
    obtain ⟨-, -, htakes, -⟩ := Edged.spec_of_matchAt? (isProper_of_mem (by simp [shapes])) hm
    obtain ⟨x, v, htext, hx, hv⟩ := takes_all_cons.mp htakes
    have hothers : ∀ after : List Char, (v ++ after).head?.any isWordChar = false := by
      intro after
      obtain ⟨c, cs, rfl⟩ := List.exists_cons_of_ne_nil (ne_nil_of_takesSome (by decide) hv)
      have hblank : isBlank c = true := by
        simpa [all, someBlanks, plus, blank, mayStart, takesSome] using mayStart_of_takes hv
      exact Segment.isWordChar_of_isBlank hblank
    have hmask : "Bearer [TOKEN_MASKED]".toList =
        "Bearer".toList ++ ' ' :: '[' :: ("TOKEN_MASKED".toList ++ [']']) := rfl
    rw [hmask]
    exact .behind htext (kin_of_takes_bearer hx) (hothers _) (by decide) (by decide) (by decide)

end Marked

/-! ## What may stand behind a match -/

section Stops

variable {pairs : List (Char × Char)} {p q : Edged} {mask : Found → List Char}
  {text : List Char} {accepts : Char → Bool}

/-- Whether behind a match that ends in a word no character of a class goes on with the word. -/
def StopsBefore (q : Edged) (accepts : Char → Bool) : Prop :=
  ∀ ⦃before rest offset m⦄, q.pattern.matchAt? ⟨before, rest, offset, []⟩ = some m →
    m.text.getLast?.any isWordChar = true → m.after.head?.any isWordChar = true →
      m.after.head?.any accepts = false

/-- Whether the matches that start with a character of a word start with one of a class. -/
def StartsIn (p : Edged) (accepts : Char → Bool) : Prop :=
  ∀ c, isWordChar c = true → (all p.core).mayStart c = true → accepts c = true

/-- A match that ends at the edge of a word stops before all words. -/
theorem stopsBefore_of_closes (hq : q.IsProper) (hcloses : q.closes = true) :
    StopsBefore q accepts := by
  intro before rest offset m hm hlast hhead
  obtain ⟨-, -, -, -, hedge⟩ := Edged.spec_of_matchAt? hq hm
  have hedge := hedge hcloses
  rw [isEdge, hlast, hhead] at hedge
  cases hedge

theorem stopsBefore_of_goesOn {closing : Char → Bool} (hq : q.IsProper) (hcloses : q.closes = false)
    (hgoes : (all q.core).GoesOn accepts closing)
    (hclosing : ∀ c, closing c = true → isWordChar c = false) : StopsBefore q accepts := by
  intro before rest offset m hm hlast _
  rcases Edged.any_after_eq_false hq hcloses hgoes hm with hafter | hclosed
  · exact hafter
  · obtain ⟨c, hc, hword⟩ := (Option.any_eq_true _ _).mp hlast
    rw [hc] at hclosed
    exact nomatch (hclosing c hclosed).symm.trans hword

theorem any_head?_of_startsAt {rest : List Char} (hp : p.IsProper) (hstarts : StartsIn p accepts)
    (hstart : p.StartsAt rest) (hhead : rest.head?.any isWordChar = true) :
    rest.head?.any accepts = true := by
  obtain ⟨w, after, rfl, hw, -⟩ := hstart
  obtain ⟨c, cs, rfl⟩ := List.exists_cons_of_ne_nil (ne_nil_of_takesSome hp.some hw)
  exact hstarts c hhead (mayStart_of_takes hw)

end Stops

section Classes

variable {c : Char}

/-- Whether a character is one of a web token. -/
def isWebChar (c : Char) : Bool := c.isAlphanum || "_-".toList.contains c

theorem stopsBefore_secret : StopsBefore secretShape isSecretChar := by
  have hgoes : (all secretShape.core).GoesOn isSecretChar isQuote :=
    GoesOn.all_drop (n := 5) (GoesOn.seq_opt (GoesOn.seq goesOn_star))
  have hquotes : ∀ c ∈ "'\"".toList, isWordChar c = false := by decide
  exact stopsBefore_of_goesOn (isProper_of_mem (by simp [shapes])) rfl hgoes
    fun c hc => hquotes c (List.contains_iff_mem.mp hc)

theorem stopsBefore_bearer : StopsBefore bearerShape isSecretChar := by
  have hgoes : (all bearerShape.core).GoesOn isSecretChar fun _ => false :=
    GoesOn.all_drop (n := 2) (GoesOn.seq goesOn_star)
  exact stopsBefore_of_goesOn (isProper_of_mem (by simp [shapes])) rfl hgoes (by simp)

theorem stopsBefore_web : StopsBefore webShape isWebChar := by
  have hgoes : (all webShape.core).GoesOn isWebChar fun _ => false :=
    GoesOn.all_drop (n := 5) goesOn_star
  exact stopsBefore_of_goesOn (isProper_of_mem (by simp [shapes])) rfl hgoes (by simp)

/-- Whether a character is a letter, a digit or a low line. -/
def isNameChar (c : Char) : Bool := c.isAlphanum || c == '_'

theorem classes_of_isNameChar (h : isNameChar c = true) :
    isSecretChar c = true ∧ isWebChar c = true := by
  rcases Bool.or_eq_true_iff.mp h with h | h
  · refine ⟨(classes_of_mem_secretChars (mem_secretChars (mem_valueChars h))).1, ?_⟩
    rw [isWebChar, h, Bool.true_or]
  · obtain rfl : c = '_' := beq_iff_eq.mp h
    exact ⟨by decide, by decide⟩

theorem isNameChar_of_isAlpha (h : c.isAlpha = true) : isNameChar c = true := by
  rw [isNameChar, isAlphanum_of_isAlpha h, Bool.true_or]

theorem startsIn_mail : StartsIn mailShape isNameChar := by
  intro c hword hstart
  have hmarks : ∀ c ∈ "._%+-".toList, isWordChar c = true → c = '_' := by decide
  have hc : c.isAlphanum = true ∨ c ∈ "._%+-".toList := by
    simpa [mailShape, all, plus, alphanumericOr, mayStart, takesSome] using hstart
  rcases hc with hc | hc
  · rw [isNameChar, hc, Bool.true_or]
  · rw [hmarks c hc hword]
    rfl

/-- Of the first letters of names, the s alone is also a letter beyond ASCII. -/
theorem cases_of_first {l : Char} (hl : l ∈ "abpst".toList) (h : isLetterNamed l c = true) :
    isNameChar c = true ∨ l = 's' ∧ c = '\u017F' := by
  have hall : ∀ l ∈ "abpst".toList, l.isAlpha = true ∧
      ∀ c ∈ oddLetters, isLetterNamed l c = true → l = 's' ∧ c = '\u017F' := by
    decide
  obtain ⟨halpha, hodd⟩ := hall l hl
  exact (cases_of_isLetterNamed halpha h).imp isNameChar_of_isAlpha fun hc => hodd c hc h

theorem startsIn_bearer : StartsIn bearerShape isNameChar := by
  intro c _ hstart
  have hc : isLetterNamed 'b' c = true := by
    simpa [bearerShape, all, anyCase, mayStart, takesSome] using hstart
  exact (cases_of_first (by decide) hc).resolve_right fun h => absurd h.1 (by decide)

theorem startsIn_web : StartsIn webShape isNameChar := by
  intro c _ hstart
  have hc : c = 'e' := by
    simpa [webShape, all, lit, exactly, mayStart, takesSome] using hstart
  rw [hc]
  rfl

/-- A named secret starts with a letter, which may be a long s. -/
theorem cases_of_mayStart_secret (hstart : (all secretShape.core).mayStart c = true) :
    isNameChar c = true ∨ c = '\u017F' := by
  have hc : isLetterNamed 'a' c = true ∨ isLetterNamed 't' c = true ∨
      isLetterNamed 's' c = true ∨ isLetterNamed 'p' c = true ∨ isLetterNamed 'a' c = true := by
    simpa [secretShape, secretName, secretSign, secretValue, anyOf, all, anyCase, mayStart,
      takesSome] using hstart
  rcases hc with hc | hc | hc | hc | hc
  all_goals exact (cases_of_first (by decide) hc).imp_right And.right

end Classes

end GuestCode.Masking
