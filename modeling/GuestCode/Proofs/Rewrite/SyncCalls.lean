import GuestCode.Proofs.Rewrite.SafeRules
import GuestCode.Proofs.Snippet.Gaps
import GuestCode.Proofs.Text.Edges
import GuestCode.Proofs.Text.Words

/-!
# Errors in place of file access

The start of a call of a synchronous primitive is replaced by a text that opens with a parenthesis,
and nothing is put before it. What is replaced and what takes its place end with a parenthesis and
hold no mark of a comment, so blanks and comments stay what they are, whatever is replaced in them.
If a token stands before the call, the parenthesis follows it behind a gap. No semicolon parts the
two, and where the token ends an expression the parenthesis goes on with it.

## Main statements

* `Rewrite.Exchanged.isGap`: a gap stays one when starts of calls in it are exchanged.
* `Rewrite.replaceSyncCalls_gap`: what stands between a token and the error that follows it.
-/

namespace GuestCode

open Text Text.Pattern

namespace Rule

/-- What a rule makes of a part of a snippet. -/
def becomes (rule : Rule) (codeOnly : Bool) (source : List Char) : Part → List Char
  | .plain c => [c]
  | .found m =>
    if codeOnly && !startsInCode source (Region.ofSource source) m then m.text
    else rule.replacement m

theorem apply_eq_flatMap (rule : Rule) (codeOnly : Bool) (source : List Char) :
    rule.apply codeOnly source =
      (rule.pattern.parts source).flatMap (rule.becomes codeOnly source) := by
  rw [apply]
  cases codeOnly with
  | false =>
    refine List.flatMap_congr fun part _ => ?_
    cases part <;> rfl
  | true =>
    refine List.flatMap_congr fun part _ => ?_
    cases part with
    | plain c => rfl
    | found m =>
      rw [becomes]
      by_cases hcode : startsInCode source (Region.ofSource source) m = true
      · simp [hcode]
      · simp [hcode]

end Rule

namespace Rewrite

open Grammar

/-! ## Exchanging the starts of calls -/

/-- The start of a call: it ends with a parenthesis, and it holds no mark of a comment. -/
structure IsCallStart (w : List Char) : Prop where
  exists_last : ∃ v, w = v ++ ['(']
  noMark : ∀ c ∈ w, c ∉ ['/', '*']

/-- A text becomes another one by exchanging starts of calls in it. No line end is brought in. -/
inductive Exchanged : List Char → List Char → Prop where
  | nil : Exchanged [] []
  | char (c : Char) {u u' : List Char} : Exchanged u u' → Exchanged (c :: u) (c :: u')
  | call {w w' u u' : List Char} :
      IsCallStart w → IsCallStart w' → ('\n' ∈ w' → '\n' ∈ w) → Exchanged u u' →
      Exchanged (w ++ u) (w' ++ u')

/-- Nothing that a text starts with is the end of the start of a call. -/
def EndsNoCall (text : List Char) : Prop :=
  ∀ y z, text = y ++ z → (∀ c ∈ y, c ∉ ['/', '*']) → '(' ∉ y

theorem endsNoCall_of_isGap {text : List Char} (h : IsGap text) : EndsNoCall text := by
  rintro y z rfl hmark hmem
  have hslash : '/' ∉ y := fun hslash => hmark '/' hslash (.head _)
  exact absurd (h.isBlank_of_mem hslash '(' hmem) (by decide)

theorem endsNoCall_of_mark {c : Char} (h : c ∈ ['/', '*']) (rest : List Char) :
    EndsNoCall (c :: rest) := by
  intro y z heq hmark hmem
  cases y with
  | nil => cases hmem
  | cons d y =>
    obtain ⟨rfl, -⟩ := List.cons.inj heq
    exact hmark c (.head y) h

section CallStart

variable {w u v text : List Char} {c : Char}

theorem IsCallStart.ne_nil (h : IsCallStart w) : w ≠ [] := by
  obtain ⟨front, rfl⟩ := h.exists_last
  exact List.append_ne_nil_of_right_ne_nil front (List.cons_ne_nil _ _)

/-- What ends the start of a call has the parenthesis. -/
theorem IsCallStart.not_endsNoCall (h : IsCallStart (u ++ v)) (hv : v ≠ []) (rest : List Char) :
    ¬EndsNoCall (v ++ rest) := by
  intro hends
  obtain ⟨front, heq⟩ := h.exists_last
  have hlast : v.getLast? = some '(' := by
    rw [← List.getLast?_append_of_ne_nil u hv, heq, List.getLast?_concat]
  exact hends v rest rfl (fun c hc => h.noMark c (List.mem_append_right u hc))
    (List.mem_of_getLast? hlast)

end CallStart

namespace Exchanged

variable {u u' v text other : List Char} {c : Char}

/-- A text is cut where what follows ends no call. -/
theorem exists_append (h : Exchanged (u ++ v) other) (hv : EndsNoCall v) :
    ∃ u' v', other = u' ++ v' ∧ Exchanged u u' ∧ Exchanged v v' := by
  generalize htext : u ++ v = text at h
  induction h generalizing u with
  | nil =>
    obtain ⟨rfl, rfl⟩ := List.append_eq_nil_iff.mp htext
    exact ⟨[], [], rfl, .nil, .nil⟩
  | char c hrest ih =>
    cases u with
    | nil =>
      obtain rfl : v = c :: _ := htext
      exact ⟨[], _, rfl, .nil, hrest.char c⟩
    | cons d u =>
      obtain ⟨rfl, hu⟩ := List.cons.inj htext
      obtain ⟨u', v', rfl, hu', hv'⟩ := ih hu
      exact ⟨d :: u', v', rfl, hu'.char d, hv'⟩
  | @call w w' rest rest' hw hw' hline hrest ih =>
    rcases List.append_eq_append_iff.mp htext.symm with ⟨z, rfl, hz⟩ | ⟨z, rfl, rfl⟩
    · obtain ⟨u', v', rfl, hu', hv'⟩ := ih hz.symm
      exact ⟨w' ++ u', v', (List.append_assoc _ _ _).symm, hu'.call hw hw' hline, hv'⟩
    · by_cases hz : z = []
      · subst hz
        rw [List.append_nil] at hw hline
        exact ⟨w', rest', rfl, by simpa using Exchanged.nil.call hw hw' hline, hrest⟩
      · exact absurd hv (hw.not_endsNoCall hz rest)

/-- A text that ends no call starts with a character that stays. -/
theorem exists_cons (h : Exchanged (c :: u) other) (hu : EndsNoCall (c :: u)) :
    ∃ u', other = c :: u' ∧ Exchanged u u' := by
  generalize htext : c :: u = text at h
  cases h with
  | nil => cases htext
  | char d hrest =>
    obtain ⟨rfl, rfl⟩ := List.cons.inj htext
    exact ⟨_, rfl, hrest⟩
  | call hw => exact absurd (htext ▸ hu) (@IsCallStart.not_endsNoCall [] _ hw hw.ne_nil _)

/-- The last character stays. -/
theorem getLast?_eq (h : Exchanged u u') : u.getLast? = u'.getLast? := by
  have hlast : ∀ {w : List Char}, IsCallStart w → ∀ rest,
      (w ++ rest).getLast? = rest.getLast?.or (some '(') := by
    intro w hw rest
    obtain ⟨front, rfl⟩ := hw.exists_last
    rw [List.getLast?_append, List.getLast?_concat]
  induction h with
  | nil => rfl
  | char c _ ih => rw [List.getLast?_cons, List.getLast?_cons, ih]
  | call hw hw' _ _ ih => rw [hlast hw, hlast hw', ih]

/-- No line end is brought in. -/
theorem not_mem (h : Exchanged u u') (hline : '\n' ∉ u) : '\n' ∉ u' := by
  induction h with
  | nil => exact hline
  | char c _ ih =>
    exact List.not_mem_cons_of_ne_of_not_mem (List.ne_of_not_mem_cons hline)
      (ih (List.not_mem_of_not_mem_cons hline))
  | call _ _ hkeeps _ ih =>
    rw [List.mem_append, not_or] at hline ⊢
    exact ⟨fun hmem => hline.1 (hkeeps hmem), ih hline.2⟩

/-- A slash comes first only if it did so before. -/
theorem head?_eq_slash (h : Exchanged u u') (hslash : u'.head? = some '/') :
    u.head? = some '/' := by
  cases h with
  | nil => exact hslash
  | char => exact hslash
  | call _ hw' =>
    rw [List.head?_append_of_ne_nil _ hw'.ne_nil] at hslash
    exact absurd (.head _) (hw'.noMark '/' (List.mem_of_head? hslash))

/-- No end of a block comment is brought in. -/
theorem blockBody (h : Exchanged u u') (hbody : Segment.BlockBody u) : Segment.BlockBody u' := by
  induction h with
  | nil => exact hbody
  | char c hrest ih =>
    rw [Segment.blockBody_cons_iff] at hbody ⊢
    exact ⟨fun hmark => hbody.1 ⟨hmark.1, hrest.head?_eq_slash hmark.2⟩, ih hbody.2⟩
  | call hw hw' _ _ ih =>
    have hstar : ∀ {w : List Char}, IsCallStart w → '*' ∉ w := fun hw hmem =>
      hw.noMark '*' hmem (.tail _ (.head _))
    rw [Segment.blockBody_append_iff (hstar hw)] at hbody
    rw [Segment.blockBody_append_iff (hstar hw')]
    exact ih hbody

theorem eq_nil (h : Exchanged [] other) : other = [] := by
  generalize htext : [] = text at h
  cases h with
  | nil => rfl
  | char => cases htext
  | call hw => exact absurd (List.append_eq_nil_iff.mp htext.symm).1 hw.ne_nil

/-- A gap stays one. It is cut as its grammar says, and no start of a call crosses a cut. -/
theorem isGap {gap : List Char} (h : Exchanged gap other) (hgap : IsGap gap) : IsGap other := by
  have hslash : ∀ rest, EndsNoCall ('/' :: rest) := endsNoCall_of_mark (.head _)
  have hstar : ∀ rest, EndsNoCall ('*' :: rest) := endsNoCall_of_mark (.tail _ (.head _))
  induction hgap generalizing other with
  | nil => exact h.eq_nil ▸ .nil
  | blank hc hrest ih =>
    obtain ⟨rest', rfl, hrest'⟩ := h.exists_cons (endsNoCall_of_isGap (.blank hc hrest))
    exact .blank hc (ih hrest')
  | line hbody hrest ih =>
    obtain ⟨_, rfl, hsecond⟩ := h.exists_cons (hslash _)
    obtain ⟨_, rfl, hinside⟩ := hsecond.exists_cons (hslash _)
    obtain ⟨body', _, rfl, hbody', hafter⟩ := hinside.exists_append (endsNoCall_of_isGap hrest)
    have hafterGap := ih hafter
    obtain ⟨rest', rfl, -⟩ := hafter.exists_cons (endsNoCall_of_isGap hrest)
    exact .line (hbody'.not_mem hbody) hafterGap
  | block hbody hrest ih =>
    obtain ⟨_, rfl, hsecond⟩ := h.exists_cons (hslash _)
    obtain ⟨_, rfl, hinside⟩ := hsecond.exists_cons (hstar _)
    obtain ⟨body', _, rfl, hbody', hmark⟩ := hinside.exists_append (hstar _)
    obtain ⟨_, rfl, hclose⟩ := hmark.exists_cons (hstar _)
    obtain ⟨rest', rfl, hrest'⟩ := hclose.exists_cons (hslash _)
    exact .block (hbody'.blockBody hbody) (ih hrest')

/-- Behind a character that is followed by a gap, a gap stays, and so does the character. -/
theorem exists_gap {gap : List Char} (h : Exchanged (u ++ c :: gap) other) (hgap : IsGap gap) :
    ∃ u' gap', other = u' ++ c :: gap' ∧ IsGap gap' := by
  rw [List.append_cons] at h
  obtain ⟨w, gap', rfl, hw, hgap'⟩ := h.exists_append (endsNoCall_of_isGap hgap)
  have hlast := hw.getLast?_eq
  rw [List.getLast?_concat] at hlast
  obtain ⟨u', rfl⟩ := List.getLast?_eq_some_iff.mp hlast.symm
  exact ⟨u', gap', (List.append_cons u' c gap').symm, hgap'.isGap hgap⟩

end Exchanged

/-! ## Calls of primitives -/

section Calls

variable {before : Option Char} {text : List Char} {offset : Nat} {m : Found}

theorem isCallStart_text (h : syncCall.matchAt? ⟨before, text, offset, []⟩ = some m) :
    IsCallStart m.text where
  exists_last := by
    obtain ⟨htakes, -⟩ := exists_of_matchAt? h
    obtain ⟨u, v, heq, -, hv⟩ :=
      (@takes_all_append m.text [freeNameEdge, _, _, _, _, _, _] [lit "("]).mp htakes
    exact ⟨u, heq.trans (congrArg (u ++ ·) (takes_lit.mp hv))⟩
  noMark := not_mem_text_of_bringsNone (by decide) h

theorem isCallStart_syncFailure (h : syncCall.matchAt? ⟨before, text, offset, []⟩ = some m) :
    IsCallStart (syncFailure (String.ofList (m.captured 2))) where
  exists_last := by
    rw [syncFailure, String.toList_append]
    exact ⟨_ ++ "); \x7d)".toList, by rw [List.append_assoc]; rfl⟩
  noMark c hc hmark := by
    refine not_mem_syncFailure (isBland_captured_syncCall h) ?_ hc
    exact List.mem_append_left ['\n'] hmark

/-- A call starts with no blank. -/
theorem exists_text_eq_cons (h : syncCall.matchAt? ⟨before, text, offset, []⟩ = some m) :
    ∃ c cs, m.text = c :: cs ∧ isBlank c = false := by
  obtain ⟨htakes, -⟩ := exists_of_matchAt? h
  obtain ⟨c, cs, heq⟩ := List.exists_cons_of_ne_nil (ne_nil_of_takesSome (by decide) htakes)
  rw [heq] at htakes
  refine ⟨c, cs, heq, Bool.eq_false_iff.mpr fun hc => ?_⟩
  have hnone : syncCall.mayStart c = false :=
    Segment.eq_false_of_isBlank (p := fun c => syncCall.mayStart c) (by decide +kernel) hc
  exact Bool.false_ne_true (hnone.symm.trans (mayStart_of_takes htakes))

end Calls

/-- The error opens with a parenthesis. -/
theorem exists_syncFailure_eq (primitive : String) :
    ∃ error, syncFailure primitive = '(' :: error := by
  rw [syncFailure, String.toList_append, String.toList_append]
  exact ⟨"() => \x7b throw new Error(".toList ++ _ ++ _, rfl⟩

/-- The rule for the calls of primitives. -/
def syncRule : Rule := ⟨syncCall, fun m => syncFailure (String.ofList (m.captured 2))⟩

theorem replacement_syncRule (m : Found) :
    syncRule.replacement m = syncFailure (String.ofList (m.captured 2)) := by
  simp only [syncRule]

theorem exchanged_flatMap (codeOnly : Bool) (source : List Char) {parts : List Part}
    (h : ∀ m, .found m ∈ parts → ∃ before text offset,
      syncCall.matchAt? ⟨before, text, offset, []⟩ = some m) :
    Exchanged (parts.flatMap Divides.textOf)
      (parts.flatMap (syncRule.becomes codeOnly source)) := by
  induction parts with
  | nil => exact .nil
  | cons part parts ih =>
    have hparts := ih fun m hm => h m (.tail _ hm)
    rw [List.flatMap_cons, List.flatMap_cons]
    cases part with
    | plain c => exact hparts.char c
    | found m =>
      obtain ⟨before, text, offset, hm⟩ := h m (.head _)
      have hstart := isCallStart_text hm
      show Exchanged (m.text ++ _) _
      rw [Rule.becomes, replacement_syncRule]
      split
      · exact hparts.call hstart hstart id
      · refine hparts.call hstart (isCallStart_syncFailure hm) fun hline => ?_
        have hnone := not_mem_syncFailure (isBland_captured_syncCall hm) (c := '\n') (by simp)
        exact absurd hline hnone

theorem replaceSyncCalls_eq (codeOnly : Bool) (source : List Char) :
    replaceSyncCalls codeOnly source =
      (syncCall.parts source).flatMap (syncRule.becomes codeOnly source) :=
  syncRule.apply_eq_flatMap codeOnly source

/-- A call that starts in code is replaced. -/
theorem becomes_of_isCodeAt (codeOnly : Bool) {source : List Char} {m : Found} {c : Char}
    {cs : List Char} (hcode : isCodeAt (Region.ofSource source) m.start = true)
    (htext : m.text = c :: cs) (hc : isBlank c = false) :
    syncRule.becomes codeOnly source (.found m) = syncFailure (String.ofList (m.captured 2)) := by
  have hfirst : Rule.firstMark m = m.start := by
    rw [Rule.firstMark, htext, List.takeWhile_cons_of_neg (by simp [hc])]
    rfl
  have hstart : Rule.startsInCode source (Region.ofSource source) m = true := by
    rw [Rule.startsInCode, hfirst]
    exact Bool.or_eq_true_iff.mpr (.inr hcode)
  rw [Rule.becomes, hstart, Bool.not_true, Bool.and_false, if_neg Bool.false_ne_true,
    replacement_syncRule]

/-- The error that takes the place of a call stands where the call stood: behind the last character
that is neither a blank nor in a comment there is a gap, and then the parenthesis that the error
opens with. -/
theorem replaceSyncCalls_gap {codeOnly : Bool} {source : List Char} {before later : List Part}
    {m : Found} {front gap : List Kinded} {k : Kinded}
    (hparts : syncCall.parts source = before ++ .found m :: later)
    (hcode : isCodeAt (Region.ofSource source) m.start = true)
    (hbefore : (kinded source).take m.start = front ++ k :: gap)
    (hk : k.isFiller = false) (hgap : ∀ k ∈ gap, k.isFiller = true) :
    ∃ front' gap' error, before.flatMap (syncRule.becomes codeOnly source) =
        front' ++ k.char :: gap' ∧ IsGap gap' ∧
      syncFailure (String.ofList (m.captured 2)) = '(' :: error ∧
      replaceSyncCalls codeOnly source = front' ++ k.char :: (gap' ++ '(' :: (error ++
        later.flatMap (syncRule.becomes codeOnly source))) := by
  have hdivides : Divides syncCall [] source (before ++ .found m :: later) :=
    hparts ▸ divides_parts (by decide) source
  obtain ⟨hsource, hm⟩ := hdivides.matched_behind
  have hstart : m.start = (before.flatMap Divides.textOf).length := (exists_of_matchAt? hm).2.2
  obtain ⟨c, cs, htext, hc⟩ := exists_text_eq_cons hm
  have hplace : source[m.start]? = some c := by
    rw [hsource, hstart, htext, List.getElem?_append_right (Nat.le_refl _), Nat.sub_self]
    rfl
  -- The text before the call is a character and a gap at its end, and so is what it becomes.
  have hgapText := isGap_of_kinded hbefore hk hgap hcode hplace hc
  have hfront : before.flatMap Divides.textOf =
      front.map Kinded.char ++ k.char :: gap.map Kinded.char := by
    have hchars := congrArg (List.map Kinded.char) hbefore
    rw [List.map_take, map_char_kinded, hsource, hstart, List.take_left] at hchars
    simpa using hchars
  have hexchanged : Exchanged (before.flatMap Divides.textOf)
      (before.flatMap (syncRule.becomes codeOnly source)) := by
    refine exchanged_flatMap codeOnly source fun m' hm' => ?_
    obtain ⟨b, -, hmatch, -⟩ := hdivides.exists_of_found (List.mem_append_left _ hm')
    exact ⟨_, _, _, hmatch⟩
  obtain ⟨front', gap', himage, hgap'⟩ := (hfront ▸ hexchanged).exists_gap hgapText
  obtain ⟨error, herror⟩ := exists_syncFailure_eq (String.ofList (m.captured 2))
  refine ⟨front', gap', error, himage, hgap', herror, ?_⟩
  rw [replaceSyncCalls_eq, hparts, List.flatMap_append, List.flatMap_cons, himage,
    becomes_of_isCodeAt codeOnly hcode htext hc, herror]
  simp

/-- A call on the line below a letter. -/
def callBelow : List Char := "y\nfs.readFileSync('a')\n".toList

/-- The start of the call in it. -/
def foundBelow : Found :=
  ⟨2, "fs.readFileSync(".toList, "'a')\n".toList, [⟨2, 5, "readFileSync".toList⟩]⟩

theorem parts_callBelow : syncCall.parts callBelow =
    "y\n".toList.map .plain ++ .found foundBelow :: "'a')\n".toList.map .plain := by
  decide +kernel

theorem isCodeAt_callBelow : isCodeAt (Region.ofSource callBelow) foundBelow.start = true := by
  decide +kernel

theorem replaceSyncCalls_gap_letter :
    (kinded callBelow).take foundBelow.start = [] ++ ⟨'y', .code⟩ :: [⟨'\n', .code⟩] ∧
      (⟨'y', .code⟩ : Kinded).isFiller = false ∧
      (∀ k ∈ [(⟨'\n', .code⟩ : Kinded)], k.isFiller = true) ∧
      ∃ front' gap' error,
        ("y\n".toList.map .plain).flatMap (syncRule.becomes true callBelow) =
          front' ++ 'y' :: gap' ∧ IsGap gap' ∧
        syncFailure (String.ofList (foundBelow.captured 2)) = '(' :: error ∧
        replaceSyncCalls true callBelow = front' ++ 'y' :: (gap' ++ '(' :: (error ++
          ("'a')\n".toList.map .plain).flatMap (syncRule.becomes true callBelow))) := by
  have hbefore : (kinded callBelow).take foundBelow.start =
      [] ++ ⟨'y', .code⟩ :: [⟨'\n', .code⟩] := by
    decide +kernel
  have hk : (⟨'y', .code⟩ : Kinded).isFiller = false := by decide
  have hgap : ∀ k ∈ [(⟨'\n', .code⟩ : Kinded)], k.isFiller = true := by decide
  exact ⟨hbefore, hk, hgap,
    replaceSyncCalls_gap parts_callBelow isCodeAt_callBelow hbefore hk hgap⟩

/-- Nothing but the line end comes to stand between the letter and the parenthesis. -/
theorem replaceSyncCalls_callBelow : ∃ error, syncFailure "readFileSync" = '(' :: error ∧
    replaceSyncCalls true callBelow = 'y' :: '\n' :: '(' :: (error ++ "'a')\n".toList) := by
  obtain ⟨error, herror⟩ := exists_syncFailure_eq "readFileSync"
  have hname : String.ofList (foundBelow.captured 2) = "readFileSync" := String.ofList_toList
  have hfound : syncRule.becomes true callBelow (.found foundBelow) = '(' :: error := by
    rw [becomes_of_isCodeAt true isCodeAt_callBelow (rfl : foundBelow.text = 'f' :: _) (by decide),
      hname, herror]
  have hplain : ∀ cs : List Char,
      (cs.map Part.plain).flatMap (syncRule.becomes true callBelow) = cs := fun cs => by
    rw [List.flatMap_map]
    exact List.flatMap_singleton' cs
  refine ⟨error, herror, ?_⟩
  rw [replaceSyncCalls_eq, parts_callBelow, List.flatMap_append, hplain,
    List.flatMap_cons, hfound, hplain]
  rfl

end Rewrite

end GuestCode
