import GuestCode.Proofs.Diagnostics.Remnants
import GuestCode.Proofs.Diagnostics.Shapes

/-!
# What masking leaves

The six rules are applied one after the other, and each of them could make what an earlier one looks
for: a mark stands where the edge of a word was not before, and it holds words. That does not
happen, with one exception. A web token ends where its characters end, which need not be the end of
a word: a long s may follow, which is the first letter of a secret's name.

## Main statements

* `Masking.spares_of_stopsBefore`: a rule makes no match of a pattern that cannot start behind its
  own matches.
* `Masking.occursIn_mask_of_mem`: the patterns that never occur in a masked text.
* `Masking.maskWith_eq_self_iff`: rules leave a text alone if their patterns do not occur in it.
* `Masking.mask_leaves_secret`: the texts in which masking leaves something.
-/

namespace GuestCode.Masking

open Text Text.Pattern

/-! ## What a rule spares -/

section Spares

variable {pairs : List (Char × Char)} {p q : Edged} {mask : Found → List Char}
  {text : List Char} {accepts : Char → Bool} {rule : MaskRule} {later : List MaskRule}

/-- Whether each match of a pattern in what a rule makes of a text was there before, where the rule
did not match. -/
def Spares (rule : MaskRule) (p : Edged) : Prop :=
  ∀ ⦃text u' v'⦄, rule.pattern.replace rule.mask text = u' ++ v' → p.FitsAt u'.getLast? v' →
    ∃ u v, text = u ++ v ∧ p.FitsAt u.getLast? v ∧
      rule.pattern.matchAt? ⟨u.getLast?, v, u.length, []⟩ = none ∧
      v' = rule.pattern.replaceFrom rule.mask u.getLast? u.length v

/-- A rule spares a pattern that cannot start behind its own matches. -/
theorem spares_of_stopsBefore (hp : p ∈ shapes) (hq : Marks pairs q mask)
    (hkin : respects pairs (all p.core) = true) (hstops : StopsBefore q accepts)
    (hstarts : StartsIn p accepts) : Spares ⟨q.pattern, mask⟩ p := by
  have hpasses := passesMarks_of_mem p hp
  intro text u' v' himage hfits
  cases source_of_fitsAt hpasses hq hkin himage hfits with
  | same htext hfits hnone hbecomes => exact ⟨_, _, htext, hfits, hnone, hbecomes⟩
  | behind _ hmatch _ _ hstart hlast hhead =>
    have hsame := any_head?_of_startsAt hpasses.proper hstarts hstart hhead
    exact nomatch (hstops hmatch hlast hhead).symm.trans hsame

theorem respects_nil (pattern : Pattern) : respects [] pattern = true := by
  induction pattern <;> simp_all [respects]

/-- A rule whose matches end at the edge of a word spares all patterns. -/
theorem spares_of_closes (hp : p ∈ shapes) (hq : Marks [] q mask) (hcloses : q.closes = true) :
    Spares ⟨q.pattern, mask⟩ p := by
  have hstarts : StartsIn p fun _ => true := fun _ _ _ => rfl
  exact spares_of_stopsBefore hp hq (respects_nil _) (stopsBefore_of_closes hq.proper hcloses)
    hstarts

/-- A rule that spares a pattern does not make it occur. -/
theorem Spares.occursIn_eq_false (h : Spares rule p) (hp : p ∈ shapes)
    (habsent : p.pattern.occursIn text = false) :
    p.pattern.occursIn (rule.pattern.replace rule.mask text) = false := by
  refine Bool.eq_false_iff.mpr fun hoccurs => ?_
  obtain ⟨u', v', himage, hfits⟩ :=
    (Edged.occursIn_iff_exists_fitsAt (isProper_of_mem hp)).mp hoccurs
  obtain ⟨u, v, htext, hfits, -⟩ := h himage hfits
  exact Bool.eq_false_iff.mp habsent
    ((Edged.occursIn_iff_exists_fitsAt (isProper_of_mem hp)).mpr ⟨u, v, htext, hfits⟩)

/-- A rule that spares its own pattern leaves nothing of it. -/
theorem Spares.clears (h : Spares rule p) (hp : p ∈ shapes) (hrule : rule.pattern = p.pattern) :
    p.pattern.occursIn (rule.pattern.replace rule.mask text) = false := by
  refine Bool.eq_false_iff.mpr fun hoccurs => ?_
  obtain ⟨u', v', himage, hfits⟩ :=
    (Edged.occursIn_iff_exists_fitsAt (isProper_of_mem hp)).mp hoccurs
  obtain ⟨u, v, -, hfits, hnone, -⟩ := h himage hfits
  rw [hrule] at hnone
  exact (Edged.matchAt?_ne_none_iff (isProper_of_mem hp)).mpr hfits hnone

end Spares

/-! ## The six rules -/

section Rules

variable {p : Edged} {text : List Char}

theorem spares_email : ∀ p ∈ shapes, Spares mailRule p :=
  fun _ hp => spares_of_closes hp marks_email rfl

theorem spares_cardNumber : ∀ p ∈ shapes, Spares cardRule p :=
  fun _ hp => spares_of_closes hp marks_cardNumber rfl

theorem spares_nationalId : ∀ p ∈ shapes, Spares nationalRule p :=
  fun _ hp => spares_of_closes hp marks_nationalId rfl

theorem StartsIn.isSecretChar (h : StartsIn p isNameChar) : StartsIn p isSecretChar :=
  fun c hword hstart => (classes_of_isNameChar (h c hword hstart)).1

theorem StartsIn.isWebChar (h : StartsIn p isNameChar) : StartsIn p isWebChar :=
  fun c hword hstart => (classes_of_isNameChar (h c hword hstart)).2

theorem startsIn_secret : StartsIn secretShape isSecretChar := by
  intro c _ hstart
  rcases cases_of_mayStart_secret hstart with hc | rfl
  · exact (classes_of_isNameChar hc).1
  · decide

theorem spares_namedSecret : ∀ p ∈ [mailShape, secretShape], Spares secretRule p := by
  have hspares : ∀ p ∈ shapes, StartsIn p isSecretChar → Spares secretRule p :=
    fun p hp hstarts =>
      spares_of_stopsBefore hp marks_namedSecret (respects_nil _) stopsBefore_secret hstarts
  refine List.forall_mem_cons.mpr ⟨hspares _ (by simp [shapes]) startsIn_mail.isSecretChar, ?_⟩
  exact List.forall_mem_singleton.mpr (hspares _ (by simp [shapes]) startsIn_secret)

theorem spares_bearerToken : ∀ p ∈ [mailShape, secretShape, bearerShape], Spares bearerRule p := by
  have hspares : ∀ p ∈ shapes, StartsIn p isSecretChar →
      respects bearerPairs (all p.core) = true → Spares bearerRule p :=
    fun p hp hstarts hkin =>
      spares_of_stopsBefore hp marks_bearerToken hkin stopsBefore_bearer hstarts
  refine List.forall_mem_cons.mpr
    ⟨hspares _ (by simp [shapes]) startsIn_mail.isSecretChar (by decide), ?_⟩
  refine List.forall_mem_cons.mpr ⟨hspares _ (by simp [shapes]) startsIn_secret (by decide), ?_⟩
  exact List.forall_mem_singleton.mpr
    (hspares _ (by simp [shapes]) startsIn_bearer.isSecretChar (by decide))

theorem spares_webToken : ∀ p ∈ [mailShape, bearerShape, webShape], Spares webRule p := by
  have hspares : ∀ p ∈ shapes, StartsIn p isNameChar → Spares webRule p :=
    fun p hp hstarts => spares_of_stopsBefore hp marks_webToken (respects_nil _) stopsBefore_web
      hstarts.isWebChar
  refine List.forall_mem_cons.mpr ⟨hspares _ (by simp [shapes]) startsIn_mail, ?_⟩
  refine List.forall_mem_cons.mpr ⟨hspares _ (by simp [shapes]) startsIn_bearer, ?_⟩
  exact List.forall_mem_singleton.mpr (hspares _ (by simp [shapes]) startsIn_web)

/-- What some of the rules make of a text. -/
def maskWith (rules : List MaskRule) (text : List Char) : List Char :=
  rules.foldl (fun text rule => rule.pattern.replace rule.mask text) text

@[simp] theorem maskWith_nil (text : List Char) : maskWith [] text = text := rfl

@[simp] theorem maskWith_cons (rule : MaskRule) (later : List MaskRule) (text : List Char) :
    maskWith (rule :: later) text = maskWith later (rule.pattern.replace rule.mask text) := rfl

theorem maskWith_append_rules (front later : List MaskRule) (text : List Char) :
    maskWith (front ++ later) text = maskWith later (maskWith front text) := List.foldl_append

theorem mask_eq_maskWith (text : List Char) :
    mask text = maskWith lastRules (maskWith firstRules text) :=
  maskWith_append_rules firstRules lastRules text

theorem occursIn_maskWith_eq_false {later : List MaskRule} (hp : p ∈ shapes)
    (hlater : ∀ rule ∈ later, Spares rule p) (habsent : p.pattern.occursIn text = false) :
    p.pattern.occursIn (maskWith later text) = false := by
  induction later generalizing text with
  | nil => exact habsent
  | cons rule later ih =>
    obtain ⟨hrule, hlater⟩ := List.forall_mem_cons.mp hlater
    exact ih hlater (hrule.occursIn_eq_false hp habsent)

/-- What a rule clears and the later rules spare does not occur in a masked text. -/
theorem occursIn_mask_eq_false {front later : List MaskRule} {rule : MaskRule} (hp : p ∈ shapes)
    (hrules : rules = front ++ rule :: later) (hrule : rule.pattern = p.pattern)
    (hspares : ∀ r ∈ rule :: later, Spares r p) : p.pattern.occursIn (mask text) = false := by
  obtain ⟨hself, hlater⟩ := List.forall_mem_cons.mp hspares
  have hmask : mask text = maskWith rules text := rfl
  rw [hmask, hrules, maskWith_append_rules, maskWith_cons]
  exact occursIn_maskWith_eq_false hp hlater (hself.clears hp hrule)

/-- Of the six patterns only that of named secrets may occur in a masked text. -/
theorem occursIn_mask_of_mem (text : List Char) :
    ∀ p ∈ [mailShape, bearerShape, webShape, cardShape, nationalShape],
      p.pattern.occursIn (mask text) = false := by
  have hnumbers : ∀ p ∈ shapes, ∀ rule ∈ rules.drop 4, Spares rule p := fun p hp =>
    List.forall_mem_cons.mpr
      ⟨spares_cardNumber p hp, List.forall_mem_singleton.mpr (spares_nationalId p hp)⟩
  refine List.forall_mem_cons.mpr ⟨?_, List.forall_mem_cons.mpr ⟨?_, List.forall_mem_cons.mpr
    ⟨?_, List.forall_mem_cons.mpr ⟨?_, List.forall_mem_singleton.mpr ?_⟩⟩⟩⟩
  · have hmail : mailShape ∈ shapes := by simp [shapes]
    refine @occursIn_mask_eq_false _ _ [] (rules.drop 1) _ hmail rfl rfl ?_
    exact List.forall_mem_cons.mpr ⟨spares_email _ hmail, List.forall_mem_cons.mpr
      ⟨spares_namedSecret _ (by simp), List.forall_mem_cons.mpr
        ⟨spares_bearerToken _ (by simp), List.forall_mem_cons.mpr
          ⟨spares_webToken _ (by simp), hnumbers _ hmail⟩⟩⟩⟩
  · have hbearer : bearerShape ∈ shapes := by simp [shapes]
    refine @occursIn_mask_eq_false _ _ (rules.take 2) (rules.drop 3) _ hbearer rfl rfl ?_
    exact List.forall_mem_cons.mpr ⟨spares_bearerToken _ (by simp), List.forall_mem_cons.mpr
      ⟨spares_webToken _ (by simp), hnumbers _ hbearer⟩⟩
  · have hweb : webShape ∈ shapes := by simp [shapes]
    refine @occursIn_mask_eq_false _ _ (rules.take 3) (rules.drop 4) _ hweb rfl rfl ?_
    exact List.forall_mem_cons.mpr ⟨spares_webToken _ (by simp), hnumbers _ hweb⟩
  · exact @occursIn_mask_eq_false _ _ (rules.take 4) (rules.drop 5) _ (by simp [shapes]) rfl rfl
      (hnumbers _ (by simp [shapes]))
  · exact @occursIn_mask_eq_false _ _ (rules.take 5) [] _ (by simp [shapes]) rfl rfl
      (List.forall_mem_singleton.mpr (spares_nationalId _ (by simp [shapes])))

end Rules

/-! ## Behind a web token -/

section LongS

variable {rule : MaskRule} {later : List MaskRule} {text front rest u' v' : List Char}

/-- Whether a rule divides a text at a closing bracket and leaves a long s alone. -/
structure LeavesLongS (rule : MaskRule) : Prop where
  looksNear : rule.pattern.LooksNear
  takesSome : rule.pattern.takesSome = true
  bracket : rule.pattern.takesNone [']'] = true
  longS : rule.pattern.takesNone ['\u017F'] = true
  mask : ∃ mark, rule.mask = fun _ => mark

theorem leavesLongS_of_mem : ∀ rule ∈ lastRules, LeavesLongS rule := by
  have hnear : ∀ rule ∈ lastRules, rule.pattern.LooksNear :=
    fun rule hrule => (stopsAtEquals_laterRules rule (List.mem_of_mem_tail hrule)).looksNear
  refine List.forall_mem_cons.mpr
    ⟨?_, List.forall_mem_cons.mpr ⟨?_, List.forall_mem_singleton.mpr ?_⟩⟩
  · exact ⟨hnear _ (by simp [lastRules]), by decide, by decide, by decide, _, rfl⟩
  · exact ⟨hnear _ (by simp [lastRules]), by decide, by decide, by decide, _, rfl⟩
  · exact ⟨hnear _ (by simp [lastRules]), by decide, by decide, by decide, _, rfl⟩

/-- A text that starts with a long s is masked in the same way wherever it stands. -/
theorem LeavesLongS.replaceFrom_eq (h : LeavesLongS rule) (hrest : rest.head? = some '\u017F')
    (before : Option Char) (offset : Nat) :
    rule.pattern.replaceFrom rule.mask before offset rest = rule.pattern.replace rule.mask rest ∧
      (rule.pattern.replace rule.mask rest).head? = some '\u017F' := by
  obtain ⟨mark, hmask⟩ := h.mask
  obtain ⟨cs, rfl⟩ := List.head?_eq_some_iff.mp hrest
  have hstart := matchAt?_eq_none_of_takesNone h.takesSome h.longS
  rw [replace_eq_replaceFrom, replaceFrom_cons_of_none (hstart _ _ _),
    replaceFrom_cons_of_none (hstart _ _ _), hmask,
    replaceFrom_shifted h.looksNear h.takesSome mark _ cs (offset + 1) (0 + 1)]
  exact ⟨rfl, rfl⟩

/-- What starts with a long s is masked apart from what stands before it, if that ends with a
bracket. -/
theorem LeavesLongS.replace_append (h : LeavesLongS rule) (hfront : front.getLast? = some ']')
    (hrest : rest.head? = some '\u017F') :
    rule.pattern.replace rule.mask (front ++ rest) =
        rule.pattern.replace rule.mask front ++ rule.pattern.replace rule.mask rest ∧
      (rule.pattern.replace rule.mask front).getLast? = some ']' := by
  obtain ⟨mark, hmask⟩ := h.mask
  have hsame : ∀ (m : Found) after, rule.mask { m with after := after } = rule.mask m := by
    intro m after
    rw [hmask]
  have hedge : ∀ c ∈ front.getLast?, rule.pattern.takesNone [c] = true := by
    rintro c hc
    obtain rfl : ']' = c := Option.some.inj (hfront.symm.trans hc)
    exact h.bracket
  have happend := replaceFrom_append h.looksNear h.takesSome hsame hedge none 0 rest
  rw [(h.replaceFrom_eq hrest _ _).1] at happend
  exact ⟨happend, (getLast?_replaceFrom h.looksNear h.takesSome hsame hedge none 0).trans hfront⟩

theorem head?_maskWith (hlater : ∀ rule ∈ later, LeavesLongS rule)
    (hrest : rest.head? = some '\u017F') : (maskWith later rest).head? = some '\u017F' := by
  induction later generalizing rest with
  | nil => exact hrest
  | cons rule later ih =>
    obtain ⟨hrule, hlater⟩ := List.forall_mem_cons.mp hlater
    exact ih hlater (hrule.replaceFrom_eq hrest none 0).2

theorem maskWith_append (hlater : ∀ rule ∈ later, LeavesLongS rule)
    (hfront : front.getLast? = some ']') (hrest : rest.head? = some '\u017F') :
    maskWith later (front ++ rest) = maskWith later front ++ maskWith later rest ∧
      (maskWith later front).getLast? = some ']' := by
  induction later generalizing front rest with
  | nil => exact ⟨rfl, hfront⟩
  | cons rule later ih =>
    obtain ⟨hrule, hlater⟩ := List.forall_mem_cons.mp hlater
    obtain ⟨happend, hlast⟩ := hrule.replace_append hfront hrest
    rw [maskWith_cons, happend]
    exact ih hlater hlast (hrule.replaceFrom_eq hrest none 0).2

/-- Where a match in a masked text comes from, and what was masked behind it. -/
theorem exists_fitsAt_of_maskWith {p : Edged}
    (hlater : ∀ rule ∈ later, LeavesLongS rule ∧ Spares rule p)
    (himage : maskWith later text = u' ++ v') (hfits : p.FitsAt u'.getLast? v') :
    ∃ u v, text = u ++ v ∧ p.FitsAt u.getLast? v ∧
      (v.head? = some '\u017F' → v' = maskWith later v) := by
  induction later generalizing text with
  | nil => exact ⟨u', v', himage, hfits, fun _ => rfl⟩
  | cons rule later ih =>
    obtain ⟨⟨hlong, hspares⟩, hlater⟩ := List.forall_mem_cons.mp hlater
    obtain ⟨u₁, v₁, himage₁, hfits₁, heq₁⟩ := ih hlater himage
    obtain ⟨u, v, htext, hfits, -, hbecomes⟩ := hspares himage₁ hfits₁
    refine ⟨u, v, htext, hfits, fun hhead => ?_⟩
    obtain ⟨heq, hlonghead⟩ := hlong.replaceFrom_eq hhead u.getLast? u.length
    rw [heq] at hbecomes
    subst hbecomes
    exact heq₁ hlonghead

/-- Whether a web token is followed by a long s that starts a named secret, once the rules for
tokens and numbers have been applied to what follows. -/
def LeavesSecret (text : List Char) : Prop :=
  ∃ m ∈ webToken.findAll (maskWith firstRules text),
    m.text.getLast?.any isWordChar = true ∧ m.after.head? = some '\u017F' ∧
      namedSecret.matchAt? (.ofText (maskWith lastRules m.after)) ≠ none

theorem mem_shapes_secret : secretShape ∈ shapes := by simp [shapes]

/-- The rule for secrets and the one for bearer tokens leave no named secret. -/
theorem occursIn_maskWith_firstRules (text : List Char) :
    secretShape.pattern.occursIn (maskWith firstRules text) = false := by
  rw [firstRules, maskWith_cons, maskWith_cons, maskWith_cons, maskWith_nil]
  exact (spares_bearerToken secretShape (by simp)).occursIn_eq_false mem_shapes_secret
    ((spares_namedSecret secretShape (by simp)).clears mem_shapes_secret rfl)

/-- A named secret starts at a long s, if it does not start with a character of web tokens. -/
theorem head?_of_startsAt_secret (hstart : secretShape.StartsAt rest)
    (hstops : rest.head?.any isWebChar = false) : rest.head? = some '\u017F' := by
  obtain ⟨w, after, rfl, hw, -⟩ := hstart
  obtain ⟨c, cs, rfl⟩ :=
    List.exists_cons_of_ne_nil (ne_nil_of_takesSome (isProper_of_mem mem_shapes_secret).some hw)
  rcases cases_of_mayStart_secret (mayStart_of_takes hw) with hc | rfl
  · exact nomatch hstops.symm.trans (classes_of_isNameChar hc).2
  · rfl

theorem isEdge_of_longS (hhead : rest.head? = some '\u017F') {before : Option Char}
    (hbefore : before.any isWordChar = false) : isEdge before rest = true := by
  have hlong : isWordChar '\u017F' = true := by decide
  rw [isEdge, hbefore, hhead, Option.any_some, hlong]
  rfl

theorem matchAt?_ofText_ne_none_iff (hhead : rest.head? = some '\u017F') :
    namedSecret.matchAt? (.ofText rest) ≠ none ↔ secretShape.StartsAt rest :=
  (Edged.matchAt?_ne_none_iff (isProper_of_mem mem_shapes_secret)).trans
    ⟨And.right, fun hstart => ⟨fun _ => isEdge_of_longS hhead rfl, hstart⟩⟩

/-- What is left of a named secret in a masked text starts behind a web token. -/
theorem leavesSecret_of_occursIn (hoccurs : namedSecret.occursIn (mask text) = true) :
    LeavesSecret text := by
  have hproper := isProper_of_mem mem_shapes_secret
  have habsent := occursIn_maskWith_firstRules text
  have hlater : ∀ rule ∈ [cardRule, nationalRule], LeavesLongS rule ∧ Spares rule secretShape :=
    List.forall_mem_cons.mpr
      ⟨⟨leavesLongS_of_mem _ (by simp [lastRules]), spares_cardNumber _ mem_shapes_secret⟩,
        List.forall_mem_singleton.mpr
          ⟨leavesLongS_of_mem _ (by simp [lastRules]), spares_nationalId _ mem_shapes_secret⟩⟩
  obtain ⟨u', v', himage, hfits'⟩ := (Edged.occursIn_iff_exists_fitsAt hproper).mp hoccurs
  rw [mask_eq_maskWith, lastRules, maskWith_cons] at himage
  rw [LeavesSecret]
  generalize maskWith firstRules text = text at habsent himage ⊢
  obtain ⟨u, v, himage, hfits, hlater⟩ := exists_fitsAt_of_maskWith hlater himage hfits'
  cases source_of_fitsAt (passesMarks_of_mem _ mem_shapes_secret) marks_webToken (respects_nil _)
    himage hfits with
  | same htext hfits _ _ =>
    have hbefore := (Edged.occursIn_iff_exists_fitsAt hproper).mpr ⟨_, _, htext, hfits⟩
    exact nomatch habsent.symm.trans hbefore
  | @behind b m _ hmatch hfound _ hstart hlast hhead hbecomes =>
    have hfirst := head?_of_startsAt_secret hstart (stopsBefore_web hmatch hlast hhead)
    have hweb : LeavesLongS webRule := leavesLongS_of_mem _ (by simp [lastRules])
    obtain ⟨heq, hlong⟩ := hweb.replaceFrom_eq hfirst m.text.getLast? (b.length + m.text.length)
    obtain rfl := hbecomes.trans heq
    obtain rfl := hlater hlong
    exact ⟨m, hfound, hlast, hfirst,
      (matchAt?_ofText_ne_none_iff (head?_maskWith leavesLongS_of_mem hfirst)).mpr hfits'.2⟩

/-- A named secret that starts behind a web token is left. -/
theorem occursIn_of_leavesSecret (h : LeavesSecret text) :
    namedSecret.occursIn (mask text) = true := by
  obtain ⟨m, hm, -, hhead, hmatch⟩ := h
  have hstart := (matchAt?_ofText_ne_none_iff (head?_maskWith leavesLongS_of_mem hhead)).mp hmatch
  obtain ⟨hweb, hnumbers⟩ := List.forall_mem_cons.mp leavesLongS_of_mem
  obtain ⟨front, before, offset, himage⟩ :=
    @exists_replace_of_mem_findAll webRule.mask _ webRule.pattern hweb.takesSome m hm
  obtain ⟨heq, hlong⟩ := hweb.replaceFrom_eq hhead before offset
  have hbracket : (front ++ webRule.mask m).getLast? = some ']' := by
    rw [List.getLast?_append]
    rfl
  -- What stands behind the mark of the token is masked apart.
  obtain ⟨happend, hlast⟩ := maskWith_append hnumbers hbracket hlong
  have hmask : mask text = maskWith [cardRule, nationalRule] (front ++ webRule.mask m) ++
      maskWith lastRules m.after := by
    rw [mask_eq_maskWith, lastRules, maskWith_cons, himage, heq, happend, maskWith_cons webRule]
  have hword : (some ']').any isWordChar = false := by decide
  have hedge := isEdge_of_longS (head?_maskWith leavesLongS_of_mem hhead) hword
  exact (Edged.occursIn_iff_exists_fitsAt (isProper_of_mem mem_shapes_secret)).mpr
    ⟨_, _, hmask, fun _ => hlast ▸ hedge, hstart⟩

/-- A text without a long s gets none. -/
theorem longS_not_mem_maskWith (h : '\u017F' ∉ text) : '\u017F' ∉ maskWith firstRules text := by
  have hconst : ∀ {q : Edged} {mark : List Char} {text : List Char}, q ∈ shapes →
      '\u017F' ∉ mark → '\u017F' ∉ text → '\u017F' ∉ q.pattern.replace (fun _ => mark) text :=
    fun hq hmark htext => not_mem_replace (isProper_of_mem hq).takesSome_pattern htext
      fun _ _ hc => absurd hc hmark
  have hmail : '\u017F' ∉ mailRule.pattern.replace mailRule.mask text :=
    @hconst mailShape "[EMAIL_MASKED]".toList text (by simp [shapes]) (by decide) h
  have hsecret : '\u017F' ∉ secretRule.pattern.replace secretRule.mask
      (mailRule.pattern.replace mailRule.mask text) := by
    have htake := (isProper_of_mem mem_shapes_secret).takesSome_pattern
    refine not_mem_replace htake hmail fun m hm hc => ?_
    obtain ⟨b, hmatch, -⟩ := exists_of_mem_findAll htake hm
    obtain ⟨v, htext, -⟩ := Edged.captured_of_matchAt? rfl (by decide) hmatch
    rw [htext]
    rcases List.mem_append.mp hc with hc | hc
    · exact List.mem_append_left _ hc
    · exact absurd hc (by decide)
  exact @hconst bearerShape "Bearer [TOKEN_MASKED]".toList _ (by simp [shapes]) (by decide) hsecret

theorem not_leavesSecret_of_not_mem (h : '\u017F' ∉ text) : ¬LeavesSecret text := by
  rintro ⟨m, hm, -, hhead, -⟩
  obtain ⟨b, -, -, htext⟩ :=
    exists_of_mem_findAll (isProper_of_mem (p := webShape) (by simp [shapes])).takesSome_pattern hm
  refine longS_not_mem_maskWith h ?_
  rw [htext]
  exact List.mem_append_right _ (List.mem_append_right _ (List.mem_of_mem_head? hhead))

end LongS

/-! ## Masking again -/

section Again

variable {rule : MaskRule} {later : List MaskRule} {text : List Char}

/-- Whether a rule adds a bracket for each of its matches. -/
structure AddsBrackets (rule : MaskRule) : Prop where
  takesSome : rule.pattern.takesSome = true
  count : ∀ text, (rule.pattern.replace rule.mask text).count '[' =
    text.count '[' + (rule.pattern.findAll text).length

theorem addsBrackets_of_marks {pairs : List (Char × Char)} {q : Edged} {mask : Found → List Char}
    (hq : q ∈ shapes) (hmarks : Marks pairs q mask) : AddsBrackets ⟨q.pattern, mask⟩ :=
  ⟨hmarks.proper.takesSome_pattern, count_replace (passesMarks_of_mem q hq) hmarks⟩

theorem addsBrackets_of_mem : ∀ rule ∈ rules, AddsBrackets rule := by
  refine List.forall_mem_cons.mpr ⟨addsBrackets_of_marks (by simp [shapes]) marks_email, ?_⟩
  refine List.forall_mem_cons.mpr ⟨addsBrackets_of_marks (by simp [shapes]) marks_namedSecret, ?_⟩
  refine List.forall_mem_cons.mpr ⟨addsBrackets_of_marks (by simp [shapes]) marks_bearerToken, ?_⟩
  refine List.forall_mem_cons.mpr ⟨addsBrackets_of_marks (by simp [shapes]) marks_webToken, ?_⟩
  refine List.forall_mem_cons.mpr ⟨addsBrackets_of_marks (by simp [shapes]) marks_cardNumber, ?_⟩
  exact List.forall_mem_singleton.mpr (addsBrackets_of_marks (by simp [shapes]) marks_nationalId)

theorem count_le_maskWith (hlater : ∀ rule ∈ later, AddsBrackets rule) :
    text.count '[' ≤ (maskWith later text).count '[' := by
  induction later generalizing text with
  | nil => exact Nat.le_refl _
  | cons rule later ih =>
    obtain ⟨hrule, hlater⟩ := List.forall_mem_cons.mp hlater
    have hle := @ih (rule.pattern.replace rule.mask text) hlater
    rw [hrule.count] at hle
    rw [maskWith_cons]
    omega

/-- Rules leave a text as it is if none of their patterns occurs in it. -/
theorem maskWith_eq_self_iff (hlater : ∀ rule ∈ later, AddsBrackets rule) :
    maskWith later text = text ↔ ∀ rule ∈ later, rule.pattern.occursIn text = false := by
  induction later with
  | nil => simp
  | cons rule later ih =>
    obtain ⟨hrule, hlater⟩ := List.forall_mem_cons.mp hlater
    rw [maskWith_cons, List.forall_mem_cons]
    constructor
    · intro h
      -- No rule takes a bracket away, so the first one has added none.
      have hle := @count_le_maskWith later (rule.pattern.replace rule.mask text) hlater
      rw [h, hrule.count] at hle
      have hnone : rule.pattern.occursIn text = false :=
        occursIn_eq_false_of_findAll hrule.takesSome (List.eq_nil_of_length_eq_zero (by omega))
      rw [replace_eq_self_of_occursIn hnone] at h
      exact ⟨hnone, (ih hlater).mp h⟩
    · rintro ⟨hnone, hothers⟩
      rw [replace_eq_self_of_occursIn hnone]
      exact (ih hlater).mpr hothers

/-- Of the six patterns, only that of named secrets may occur in a masked text: behind a web token
that a long s follows. Apart from these texts masking is complete in one go, and masking a text
again changes nothing. -/
theorem mask_leaves_secret (text : List Char) :
    (∀ rule ∈ rules, rule.pattern.occursIn (mask text) = true → rule.pattern = namedSecret) ∧
      (namedSecret.occursIn (mask text) = true ↔ LeavesSecret text) ∧
      (mask (mask text) = mask text ↔ ¬LeavesSecret text) ∧
      ('\u017F' ∉ text → ¬LeavesSecret text) := by
  have hothers := occursIn_mask_of_mem text
  have honly : ∀ rule ∈ rules, rule.pattern.occursIn (mask text) = true →
      rule.pattern = namedSecret := by
    intro rule hrule hoccurs
    have hmem : rule.pattern ∈ shapes.map Edged.pattern := patterns_eq ▸ List.mem_map_of_mem hrule
    obtain ⟨p, hp, hpattern⟩ := List.mem_map.mp hmem
    by_cases hsecret : p = secretShape
    · rw [← hpattern, hsecret]
      rfl
    · have hother : p ∈ [mailShape, bearerShape, webShape, cardShape, nationalShape] := by
        simpa [shapes, hsecret] using hp
      rw [← hpattern, hothers p hother] at hoccurs
      cases hoccurs
  have hsecret : namedSecret.occursIn (mask text) = true ↔ LeavesSecret text :=
    ⟨leavesSecret_of_occursIn, occursIn_of_leavesSecret⟩
  refine ⟨honly, hsecret, ?_, not_leavesSecret_of_not_mem⟩
  refine (maskWith_eq_self_iff addsBrackets_of_mem).trans ?_
  rw [← hsecret, Bool.not_eq_true]
  constructor
  · exact fun h => h secretRule (by simp [rules_eq_append, firstRules])
  · intro h rule hrule
    refine Bool.eq_false_iff.mpr fun hoccurs => ?_
    rw [honly rule hrule hoccurs, h] at hoccurs
    cases hoccurs

/-- A named secret is left behind a web token. -/
theorem mask_leaves_long_s :
    namedSecret.occursIn (mask "eyJ..x\u017Fecret=aaaaaaaaaaaaaaaaaaaa".toList) = true ∧
      mask (mask "eyJ..x\u017Fecret=aaaaaaaaaaaaaaaaaaaa".toList) ≠
        mask "eyJ..x\u017Fecret=aaaaaaaaaaaaaaaaaaaa".toList := by
  decide +kernel

end Again

end GuestCode.Masking
