import GuestCode.Proofs.Diagnostics.Secrets
import GuestCode.Proofs.Text.Edges
import GuestCode.Proofs.Text.Words

/-!
# Texts with marks

A rule replaces its matches by marks: a name in brackets, either in place of a match at the edge of
a word, or behind the start of the match and a sign. A pattern that takes no brackets, and that is
not found in what stands around them, finds nothing new in a text with such marks: what it finds
there it would have found in the text before, with one exception. Behind a mark in brackets a word
begins, where one may have gone on before.

## Main statements

* `Masking.exists_kin_of_append`: what a text with marks starts with, up to the first bracket, the
  text before starts with as well.
* `Masking.not_startsAt_mark`: no match starts in a mark.
* `Masking.source_of_fitsAt`: where a match in a text with marks comes from.
-/

namespace GuestCode.Masking

open Text Text.Pattern

/-! ## Lists in two parts -/

section Lists

variable {α : Type} {u after front back : List α}

/-- A text without a character ends before it. -/
theorem isPrefix_of_not_mem {c : α} (h : front ++ c :: back = u ++ after) (hc : c ∉ u) :
    u <+: front := by
  rcases List.append_eq_append_iff.mp h with ⟨z, rfl, hrest⟩ | ⟨z, rfl, -⟩
  · cases z with
    | nil => exact ⟨[], by simp⟩
    | cons d z =>
      obtain ⟨rfl, -⟩ := List.cons.inj hrest
      exact absurd (by simp) hc
  · exact List.prefix_append u z

end Lists

/-! ## Kin characters -/

section Kin

variable {pairs : List (Char × Char)} {u v w w' : List Char}

/-- Whether two characters are the same, or one of some pairs. -/
def Kin (pairs : List (Char × Char)) (c d : Char) : Prop := c = d ∨ (c, d) ∈ pairs

theorem forall₂_kin_refl (w : List Char) : List.Forall₂ (Kin pairs) w w :=
  List.forall₂_same.mpr fun _ _ => .inl rfl

theorem exists_of_forall₂_append {R : Char → Char → Prop} (h : List.Forall₂ R (u ++ v) w) :
    ∃ u' v', w = u' ++ v' ∧ List.Forall₂ R u u' ∧ List.Forall₂ R v v' :=
  ⟨w.take u.length, w.drop u.length, (List.take_append_drop _ w).symm,
    (List.forall₂_take_append w u v h.flip).flip, (List.forall₂_drop_append w u v h.flip).flip⟩

/-- Whether with a character a pattern takes its kin. -/
def respects (pairs : List (Char × Char)) : Pattern → Bool
  | .char accepts => pairs.all fun pair => !accepts pair.1 || accepts pair.2
  | .seq first second | .either first second => respects pairs first && respects pairs second
  | .many _ body | .capture _ body => respects pairs body
  | .empty | .again _ | .condition _ | .lookahead .. => true

theorem takes_of_kin {pattern : Pattern} (h : respects pairs pattern = true)
    (hw : pattern.Takes w) (hkin : List.Forall₂ (Kin pairs) w w') : pattern.Takes w' := by
  induction pattern generalizing w w' with
  | empty | condition | lookahead =>
    obtain rfl : w = [] := hw
    exact List.forall₂_nil_left_iff.mp hkin
  | again => trivial
  | char accepts =>
    obtain ⟨c, hc, rfl⟩ := hw
    obtain ⟨d, _, hcd, hnil, rfl⟩ := List.forall₂_cons_left_iff.mp hkin
    obtain rfl := List.forall₂_nil_left_iff.mp hnil
    rcases hcd with rfl | hpair
    · exact ⟨c, hc, rfl⟩
    · have hd := List.all_eq_true.mp h (c, d) hpair
      exact ⟨d, by simpa [hc] using hd, rfl⟩
  | seq first second ihfirst ihsecond =>
    obtain ⟨hfirst, hsecond⟩ := Bool.and_eq_true_iff.mp h
    obtain ⟨u, v, rfl, hu, hv⟩ := hw
    obtain ⟨u', v', rfl, hkinu, hkinv⟩ := exists_of_forall₂_append hkin
    exact ⟨u', v', rfl, ihfirst hfirst hu hkinu, ihsecond hsecond hv hkinv⟩
  | either first second ihfirst ihsecond =>
    obtain ⟨hfirst, hsecond⟩ := Bool.and_eq_true_iff.mp h
    exact hw.imp (fun hw => ihfirst hfirst hw hkin) fun hw => ihsecond hsecond hw hkin
  | many greedy body ih =>
    obtain ⟨parts, rfl, hparts⟩ := hw
    induction parts generalizing w' with
    | nil =>
      obtain rfl := List.forall₂_nil_left_iff.mp hkin
      exact ⟨[], rfl, by simp⟩
    | cons part parts ihparts =>
      obtain ⟨hpart, hothers⟩ := List.forall_mem_cons.mp hparts
      obtain ⟨u', v', rfl, hkinu, hkinv⟩ := exists_of_forall₂_append hkin
      obtain ⟨parts', rfl, hparts'⟩ := ihparts hothers hkinv
      exact ⟨u' :: parts', rfl, List.forall_mem_cons.mpr ⟨ih h hpart hkinu, hparts'⟩⟩
  | capture label body ih => exact ih h hw hkin

/-- Kin characters are both of words or both not. -/
def KeepsWords (pairs : List (Char × Char)) : Prop :=
  ∀ pair ∈ pairs, isWordChar pair.1 = isWordChar pair.2

theorem Kin.isWordChar_eq (hpairs : KeepsWords pairs) {c d : Char} (h : Kin pairs c d) :
    isWordChar c = isWordChar d := by
  rcases h with rfl | hpair
  · rfl
  · exact hpairs (c, d) hpair

theorem any_head?_of_kin (hpairs : KeepsWords pairs) (h : List.Forall₂ (Kin pairs) w w') :
    w.head?.any isWordChar = w'.head?.any isWordChar := by
  cases h with
  | nil => rfl
  | cons hcd _ => exact hcd.isWordChar_eq hpairs

theorem any_getLast?_of_kin (hpairs : KeepsWords pairs) (h : List.Forall₂ (Kin pairs) w w') :
    w.getLast?.any isWordChar = w'.getLast?.any isWordChar := by
  rw [← List.head?_reverse, ← List.head?_reverse]
  exact any_head?_of_kin hpairs (List.forall₂_reverse_iff.mpr h)

end Kin

/-! ## Marks -/

/-- The letters beyond ASCII that are taken for ASCII letters in some case. -/
def oddLetters : List Char := ['\u0130', '\u0131', '\u017F', '\u212A']

/-- The characters of names: of those in brackets, and of those before a sign. -/
def markChars : List Char := valueChars.filter Char.isAlpha ++ "_-".toList ++ oddLetters

/-- The signs between a name and a bracket. -/
def markSigns : List Char := ['=', ' ']

/-- What a match becomes. -/
inductive Marked (pairs : List (Char × Char)) (before : Option Char) (m : Found) :
    List Char → Prop where
  /-- A match at the edge of a word becomes a name in brackets. -/
  | whole {name : List Char} (hedge : isEdge before (m.text ++ m.after) = true)
      (hname : ∀ c ∈ name, c ∈ markChars) : Marked pairs before m ('[' :: (name ++ [']']))
  /-- The start of a match stays, or becomes kin; behind it come a sign and a name in brackets. -/
  | behind {lead start others name : List Char} {sign : Char}
      (htext : m.text = start ++ others) (hkin : List.Forall₂ (Kin pairs) lead start)
      (hothers : (others ++ m.after).head?.any isWordChar = false)
      (hlead : ∀ c ∈ lead, c ∈ markChars) (hsign : sign ∈ markSigns)
      (hname : ∀ c ∈ name, c ∈ markChars) :
      Marked pairs before m (lead ++ sign :: '[' :: (name ++ [']']))

/-- Whether a pattern between edges of words is replaced by marks. -/
structure Marks (pairs : List (Char × Char)) (q : Edged) (mask : Found → List Char) : Prop where
  proper : q.IsProper
  words : KeepsWords pairs
  marked : ∀ {before rest offset m},
    q.pattern.matchAt? ⟨before, rest, offset, []⟩ = some m → Marked pairs before m (mask m)

/-- Whether a pattern is not found in marks: it takes no brackets, has to take more than the letters
of names, and does not end with a sign. -/
structure PassesMarks (p : Edged) : Prop where
  proper : p.IsProper
  brackets : (all p.core).takesNone ['[', ']'] = true
  letters : (all p.core).mayTake markChars = false
  signs : ∃ n, (all (p.core.drop n)).takesSome = true ∧
    (all (p.core.drop n)).takesNone markSigns = true

theorem not_isWordChar_sign {c : Char} (hc : c ∈ markSigns) : isWordChar c = false := by
  have hall : ∀ c ∈ markSigns, isWordChar c = false := by decide
  exact hall c hc

section Taken

variable {p : Edged} {w : List Char}

theorem PassesMarks.not_mem (hp : PassesMarks p) (hw : (all p.core).Takes w) :
    '[' ∉ w ∧ ']' ∉ w :=
  ⟨fun hmem => not_mem_of_takesNone _ hp.brackets hw _ hmem (.head _),
    fun hmem => not_mem_of_takesNone _ hp.brackets hw _ hmem (.tail _ (.head _))⟩

theorem PassesMarks.not_subset (hp : PassesMarks p) (hw : (all p.core).Takes w) :
    ¬ ∀ c ∈ w, c ∈ markChars :=
  fun hsubset => nomatch hp.letters.symm.trans (mayTake_of_takes hw hsubset)

theorem PassesMarks.getLast?_not_mem (hp : PassesMarks p) (hw : (all p.core).Takes w) :
    ∀ c ∈ w.getLast?, c ∉ markSigns := by
  obtain ⟨n, hsome, hnone⟩ := hp.signs
  exact getLast?_not_mem_of_takes hsome hnone hw

end Taken

/-- What stands before a bracket in a mark, without a sign at its end, is of the letters of
names. -/
theorem subset_of_isPrefix {lead u x z : List Char} {sign : Char}
    (hlead : ∀ c ∈ lead, c ∈ markChars) (hsign : sign ∈ markSigns)
    (hlast : ∀ c ∈ u.getLast?, c ∉ markSigns) (h : lead ++ [sign] = x ++ z) (hu : u <+: z) :
    ∀ c ∈ u, c ∈ markChars := by
  rcases List.eq_nil_or_concat' z with rfl | ⟨t, c, rfl⟩
  · obtain rfl := List.prefix_nil.mp hu
    simp
  · rw [← List.append_assoc] at h
    obtain ⟨rfl, rfl⟩ := List.append_singleton_inj.mp h
    rcases List.prefix_concat_iff.mp hu with rfl | hu
    · exact absurd hsign (hlast sign (by simp))
    · exact fun c hc => hlead c (List.mem_append_right x (hu.subset hc))

section Marked

variable {pairs : List (Char × Char)} {p q : Edged} {mask : Found → List Char}
  {before : Option Char} {m : Found} {mark rest x y : List Char}

theorem Marked.getLast? (h : Marked pairs before m mark) : mark.getLast? = some ']' := by
  cases h with
  | whole => rw [← List.cons_append, List.getLast?_concat]
  | behind => rw [← List.cons_append, ← List.cons_append, ← List.append_assoc, List.getLast?_concat]

/-- A mark holds one bracket. -/
theorem Marked.count_eq (h : Marked pairs before m mark) : mark.count '[' = 1 := by
  have hletters : '[' ∉ markChars := by decide
  have hsigns : '[' ∉ markSigns := by decide
  have hnone : ∀ {w : List Char}, (∀ c ∈ w, c ∈ markChars) → w.count '[' = 0 :=
    fun hw => List.count_eq_zero_of_not_mem fun hmem => hletters (hw _ hmem)
  cases h with
  | whole _ hname => simp [hnone hname]
  | @behind _ _ _ _ sign _ _ _ hlead hsign hname =>
    have hne : sign ≠ '[' := fun heq => hsigns (heq ▸ hsign)
    simp [hnone hlead, hnone hname, hne]

/-- No match starts in a mark. -/
theorem not_startsAt_mark (hp : PassesMarks p) (hmark : Marked pairs before m mark)
    (hxy : mark = x ++ y) (hy : y ≠ []) : ¬ p.StartsAt (y ++ rest) := by
  rintro ⟨u, after, htext, hu, -⟩
  obtain ⟨hopening, hclosing⟩ := hp.not_mem hu
  -- A mark is what stands before its bracket, and a name in brackets.
  obtain ⟨front, name, rfl, hname, hfront⟩ : ∃ front name, mark = front ++ '[' :: (name ++ [']']) ∧
      (∀ c ∈ name, c ∈ markChars) ∧
      ∀ x z, front = x ++ z → u <+: z → ∀ c ∈ u, c ∈ markChars := by
    cases hmark with
    | @whole name _ hname =>
      refine ⟨[], name, rfl, hname, fun x z hz hu => ?_⟩
      obtain ⟨-, rfl⟩ := List.nil_eq_append_iff.mp hz
      obtain rfl := List.prefix_nil.mp hu
      simp
    | @behind lead _ _ name sign _ _ _ hlead hsign hname =>
      exact ⟨lead ++ [sign], name, by simp, hname, fun x z hz hu =>
        subset_of_isPrefix hlead hsign (hp.getLast?_not_mem ‹_›) hz hu⟩
  refine hp.not_subset hu ?_
  rcases List.append_eq_append_iff.mp hxy with ⟨z, rfl, hrest⟩ | ⟨z, hz, rfl⟩
  · cases z with
    | nil =>
      obtain rfl : '[' :: (name ++ [']']) = y := hrest
      exact hfront front [] (by simp) (isPrefix_of_not_mem htext hopening)
    | cons c z =>
      obtain ⟨-, hrest : name ++ [']'] = z ++ y⟩ := List.cons.inj hrest
      rcases List.eq_nil_or_concat' y with rfl | ⟨t, d, rfl⟩
      · exact absurd rfl hy
      · rw [← List.append_assoc] at hrest
        obtain ⟨rfl, rfl⟩ := List.append_singleton_inj.mp hrest
        rw [List.append_assoc] at htext
        have hstart := isPrefix_of_not_mem htext hclosing
        exact fun c hc => hname c (List.mem_append_right z (hstart.subset hc))
  · rw [List.append_assoc] at htext
    exact hfront x z hz (isPrefix_of_not_mem htext hopening)

end Marked

/-! ## Texts with marks -/

/-- What a rule makes of a part of a text. -/
def imageOf (mask : Found → List Char) : Part → List Char
  | .plain c => [c]
  | .found m => mask m

section Images

variable {pairs : List (Char × Char)} {p q : Edged} {mask : Found → List Char}
  {before text u' v' w : List Char} {parts : List Part}

theorem flatMap_imageOf {pattern : Pattern} (h : Divides pattern before text parts) :
    parts.flatMap (imageOf mask) =
      pattern.replaceFrom mask before.getLast? before.length text := by
  rw [replaceFrom, ← h.eq_partsFrom]
  rfl

/-- What a text with marks starts with, up to the first bracket, the text before starts with as
well. -/
theorem exists_kin_of_append (hq : Marks pairs q mask)
    (hdivides : Divides q.pattern before text parts)
    (himage : parts.flatMap (imageOf mask) = w ++ v') (hw : '[' ∉ w)
    (hlast : ∀ c ∈ w.getLast?, c ∉ markSigns) :
    ∃ w' rest, text = w' ++ rest ∧ List.Forall₂ (Kin pairs) w w' ∧
      (v'.head?.any isWordChar = rest.head?.any isWordChar ∨
        isEdge (before ++ w').getLast? rest = true) := by
  induction hdivides generalizing w with
  | nil =>
    obtain ⟨rfl, rfl⟩ := List.nil_eq_append_iff.mp himage
    exact ⟨[], [], rfl, .nil, .inl rfl⟩
  | @plain before cs c parts _ _ ih =>
    cases w with
    | nil =>
      obtain rfl : c :: parts.flatMap (imageOf mask) = v' := himage
      exact ⟨[], c :: cs, rfl, .nil, .inl rfl⟩
    | cons d w =>
      obtain ⟨rfl, hrest : parts.flatMap (imageOf mask) = w ++ v'⟩ := List.cons.inj himage
      have hlater : ∀ e ∈ w.getLast?, e ∉ markSigns := fun e he =>
        hlast e (by rw [List.getLast?_cons, Option.mem_def.mp he]; rfl)
      obtain ⟨w', rest, rfl, hkin, hedge⟩ := ih hrest (fun h => hw (.tail _ h)) hlater
      rw [List.append_assoc] at hedge
      exact ⟨c :: w', rest, rfl, .cons (.inl rfl) hkin, hedge⟩
  | @found before m parts hmatch _ _ _ =>
    have hmarked := hq.marked hmatch
    rw [List.flatMap_cons, imageOf] at himage
    generalize mask m = mark at hmarked himage
    cases hmarked with
    | whole hedge _ =>
      have hstart : w <+: [] := isPrefix_of_not_mem himage hw
      obtain rfl := List.prefix_nil.mp hstart
      exact ⟨[], m.text ++ m.after, rfl, .nil, .inr (by rwa [List.append_nil])⟩
    | @behind lead start others name sign htext hkin hothers hlead hsign hname =>
      have hfront : (lead ++ [sign]) ++ '[' :: ((name ++ [']']) ++ parts.flatMap (imageOf mask)) =
          w ++ v' := by
        rw [← himage]
        simp
      have hstart : w <+: lead := by
        rcases List.prefix_concat_iff.mp (isPrefix_of_not_mem hfront hw) with rfl | hstart
        · exact absurd hsign (hlast sign (by simp))
        · exact hstart
      obtain ⟨y, rfl⟩ := hstart
      obtain ⟨w', y', rfl, hkinw, hkiny⟩ := exists_of_forall₂_append hkin
      refine ⟨w', y' ++ (others ++ m.after), by rw [htext]; simp, hkinw, .inl ?_⟩
      have hv' : v' = y ++ sign :: '[' :: ((name ++ [']']) ++ parts.flatMap (imageOf mask)) := by
        refine List.append_cancel_left (hfront.symm.trans ?_)
        simp
      rw [hv', List.head?_append, List.head?_append]
      cases hkiny with
      | nil => exact (not_isWordChar_sign hsign).trans hothers.symm
      | cons hcd _ => exact hcd.isWordChar_eq hq.words

/-- Where a match starts in a text with marks, one starts in the text before. -/
theorem startsAt_of_image (hp : PassesMarks p) (hq : Marks pairs q mask)
    (hkin : respects pairs (all p.core) = true) (hdivides : Divides q.pattern before text parts)
    (hstart : p.StartsAt (parts.flatMap (imageOf mask))) : p.StartsAt text := by
  obtain ⟨w, after, himage, hw, hcloses⟩ := hstart
  obtain ⟨w', rest, rfl, hkinw, hedge⟩ :=
    exists_kin_of_append hq hdivides himage (hp.not_mem hw).1 (hp.getLast?_not_mem hw)
  have hw' := takes_of_kin hkin hw hkinw
  refine ⟨w', rest, rfl, hw', fun hasked => ?_⟩
  rcases hedge with hhead | hedge
  · rw [isEdge, ← any_getLast?_of_kin hq.words hkinw, ← hhead]
    exact hcloses hasked
  · rwa [List.getLast?_append_of_ne_nil _ (ne_nil_of_takesSome hp.proper.some hw')] at hedge

/-- A match in a text with marks starts at a character of the text before. -/
theorem exists_plain_of_startsAt (hp : PassesMarks p) (hq : Marks pairs q mask)
    (hdivides : Divides q.pattern before text parts)
    (himage : parts.flatMap (imageOf mask) = u' ++ v') (hstart : p.StartsAt v') :
    ∃ front c back, parts = front ++ .plain c :: back ∧ u' = front.flatMap (imageOf mask) ∧
      v' = c :: back.flatMap (imageOf mask) := by
  have hne : v' ≠ [] := by
    obtain ⟨w, after, rfl, hw, -⟩ := hstart
    exact List.append_ne_nil_of_left_ne_nil (ne_nil_of_takesSome hp.proper.some hw) after
  obtain ⟨front, part, back, x, y, rfl, hpart, hy, rfl, rfl⟩ :=
    exists_of_flatMap_eq_append himage hne
  cases part with
  | plain c =>
    have hx : x = [] := by
      have hlength := congrArg List.length hpart
      have hpos := List.length_pos_iff.mpr hy
      rw [imageOf, List.length_singleton, List.length_append] at hlength
      exact List.eq_nil_of_length_eq_zero (by omega)
    subst hx
    obtain rfl : [c] = y := hpart
    exact ⟨front, c, back, rfl, List.append_nil _, rfl⟩
  | found m =>
    obtain ⟨b, -, hmatch, -⟩ := hdivides.exists_of_found (m := m) (by simp)
    exact absurd hstart (not_startsAt_mark hp (hq.marked hmatch) hpart hy)

/-- Where a match in a text with marks comes from. -/
inductive Source (q p : Edged) (mask : Found → List Char) (text v' : List Char) : Prop where
  /-- It was there before, where the other pattern did not match. -/
  | same {u v : List Char} (htext : text = u ++ v) (hfits : p.FitsAt u.getLast? v)
      (hnone : q.pattern.matchAt? ⟨u.getLast?, v, u.length, []⟩ = none)
      (hbecomes : v' = q.pattern.replaceFrom mask u.getLast? u.length v)
  /-- It starts behind a match of the other pattern, where a word went on before. -/
  | behind {u : List Char} {m : Found} (htext : text = u ++ (m.text ++ m.after))
      (hmatch : q.pattern.matchAt? ⟨u.getLast?, m.text ++ m.after, u.length, []⟩ = some m)
      (hfound : m ∈ q.pattern.findAll text) (hopens : p.opens = true)
      (hstart : p.StartsAt m.after) (hlast : m.text.getLast?.any isWordChar = true)
      (hhead : m.after.head?.any isWordChar = true)
      (hbecomes : v' = q.pattern.replaceFrom mask m.text.getLast? (u.length + m.text.length)
        m.after)

section Plain

variable {b u v : List Char} {c : Char} {back : List Part} {m : Found}

theorem head?_of_divides_plain {pattern : Pattern} (h : Divides pattern b v (.plain c :: back)) :
    v.head? = some c := by
  cases h
  rfl

/-- A match that starts at a character was there before, if it is at the edge of a word there as
well. -/
theorem source_of_plain (hp : PassesMarks p) (hq : Marks pairs q mask)
    (hkin : respects pairs (all p.core) = true) (htext : text = b ++ v)
    (hdivides : Divides q.pattern b v (.plain c :: back))
    (hstart : p.StartsAt (c :: back.flatMap (imageOf mask)))
    (hedge : p.opens = true → isEdge b.getLast? [c] = true) :
    Source q p mask text (c :: back.flatMap (imageOf mask)) := by
  have hbefore := startsAt_of_image hp hq hkin hdivides hstart
  have hbecomes := @flatMap_imageOf mask b v _ _ hdivides
  cases hdivides with
  | plain hnone _ => exact .same htext ⟨hedge, hbefore⟩ hnone hbecomes

/-- A match that starts behind a mark was there before, unless a word goes on there. -/
theorem source_of_found (hp : PassesMarks p) (hq : Marks pairs q mask)
    (hkin : respects pairs (all p.core) = true) (htext : text = u ++ (m.text ++ m.after))
    (hmatch : q.pattern.matchAt? ⟨u.getLast?, m.text ++ m.after, u.length, []⟩ = some m)
    (hfound : m ∈ q.pattern.findAll text)
    (hdivides : Divides q.pattern (u ++ m.text) m.after (.plain c :: back))
    (hstart : p.StartsAt (c :: back.flatMap (imageOf mask)))
    (hedge : p.opens = true → isEdge (mask m).getLast? [c] = true) :
    Source q p mask text (c :: back.flatMap (imageOf mask)) := by
  have hbracket : isWordChar ']' = false := by decide
  obtain ⟨-, hsome, -⟩ := Edged.spec_of_matchAt? hq.proper hmatch
  have hlast : (u ++ m.text).getLast? = m.text.getLast? := List.getLast?_append_of_ne_nil u hsome
  have hword : p.opens = true → isWordChar c = true := by
    intro hasked
    have hedge := hedge hasked
    rw [(hq.marked hmatch).getLast?] at hedge
    simpa [isEdge, hbracket] using hedge
  by_cases hcase : p.opens = true ∧ m.text.getLast?.any isWordChar = true
  · obtain ⟨hopens, hgoes⟩ := hcase
    have hbecomes := @flatMap_imageOf mask _ _ _ _ hdivides
    rw [hlast, List.length_append] at hbecomes
    refine .behind htext hmatch hfound hopens (startsAt_of_image hp hq hkin hdivides hstart) hgoes
      ?_ hbecomes
    rw [head?_of_divides_plain hdivides]
    exact hword hopens
  · rw [← List.append_assoc] at htext
    refine source_of_plain hp hq hkin htext hdivides hstart fun hasked => ?_
    have hstops : m.text.getLast?.any isWordChar = false :=
      Bool.eq_false_iff.mpr fun hgoes => hcase ⟨hasked, hgoes⟩
    rw [hlast, isEdge, hstops]
    simp [hword hasked]

end Plain

/-- Each match in a text with marks comes from somewhere. -/
theorem source_of_fitsAt (hp : PassesMarks p) (hq : Marks pairs q mask)
    (hkin : respects pairs (all p.core) = true)
    (himage : q.pattern.replace mask text = u' ++ v') (hfits : p.FitsAt u'.getLast? v') :
    Source q p mask text v' := by
  obtain ⟨hopens, hstart⟩ := hfits
  have hdivides := divides_parts hq.proper.takesSome_pattern text
  obtain ⟨front, c, back, hparts, rfl, rfl⟩ := exists_plain_of_startsAt hp hq hdivides himage hstart
  rw [hparts] at hdivides
  -- What stands before the match tells whether it is at the edge of a word.
  rcases List.eq_nil_or_concat' front with rfl | ⟨front, part, rfl⟩
  · exact source_of_plain hp hq hkin rfl hdivides hstart hopens
  rw [List.append_assoc, List.singleton_append] at hdivides
  rw [List.flatMap_append, List.flatMap_singleton] at hopens
  obtain ⟨u, v, htext, hrest⟩ := hdivides.exists_of_append_parts
  rw [List.nil_append] at hrest
  cases hrest with
  | @plain _ _ d _ _ hback =>
    rw [List.append_cons] at htext
    refine source_of_plain hp hq hkin htext hback hstart fun hasked => ?_
    have hedge := hopens hasked
    rw [imageOf, List.getLast?_concat] at hedge
    rw [List.getLast?_concat]
    exact hedge
  | @found _ m _ hmatch hsome hback =>
    have hfound : m ∈ q.pattern.findAll text := mem_findAll.mpr (by rw [hparts]; simp)
    refine source_of_found hp hq hkin htext hmatch hfound hback hstart fun hasked => ?_
    have hedge := hopens hasked
    rwa [imageOf, List.getLast?_append, (hq.marked hmatch).getLast?, Option.some_or,
      ← (hq.marked hmatch).getLast?] at hedge

/-- What a text with marks is around one of them. -/
theorem exists_replace_of_mem_findAll {pattern : Pattern} (htake : pattern.takesSome = true)
    {m : Found} (hm : m ∈ pattern.findAll text) : ∃ front before offset,
      pattern.replace mask text =
        front ++ mask m ++ pattern.replaceFrom mask before offset m.after := by
  have hdivides := divides_parts htake text
  obtain ⟨front, back, hparts⟩ := List.append_of_mem (mem_findAll.mp hm)
  have himage : pattern.replace mask text = (pattern.parts text).flatMap (imageOf mask) := rfl
  rw [hparts] at hdivides himage
  obtain ⟨u, v, -, hrest⟩ := hdivides.exists_of_append_parts
  rw [List.flatMap_append, List.flatMap_cons, imageOf, ← List.append_assoc] at himage
  cases hrest with
  | found _ _ hback =>
    rw [flatMap_imageOf hback] at himage
    exact ⟨_, _, _, himage⟩

/-- What stood in no text and in no mark stands in no text with marks. -/
theorem not_mem_replace {pattern : Pattern} (htake : pattern.takesSome = true) {c : Char}
    (htext : c ∉ text) (hmask : ∀ m ∈ pattern.findAll text, c ∈ mask m → c ∈ m.text) :
    c ∉ pattern.replace mask text := by
  intro hmem
  obtain ⟨part, hpart, hc⟩ := List.mem_flatMap.mp hmem
  refine htext ?_
  rw [← (divides_parts htake text).flatMap_textOf]
  refine List.mem_flatMap.mpr ⟨part, hpart, ?_⟩
  cases part with
  | plain d => exact hc
  | found m => exact hmask m (mem_findAll.mpr hpart) hc

/-- A text with marks holds one bracket more for each of them. -/
theorem count_replace (hp : PassesMarks q) (hq : Marks pairs q mask) (text : List Char) :
    (q.pattern.replace mask text).count '[' =
      text.count '[' + (q.pattern.findAll text).length := by
  have hparts : ∀ {before text : List Char} {parts : List Part},
      Divides q.pattern before text parts → (parts.flatMap (imageOf mask)).count '[' =
        text.count '[' + (parts.filterMap fun | .plain _ => none | .found m => some m).length := by
    intro before text parts h
    induction h with
    | nil => rfl
    | plain _ _ ih =>
      simp only [List.flatMap_cons, List.filterMap_cons, imageOf, List.singleton_append,
        List.count_cons, ih]
      omega
    | @found _ m _ hmatch _ _ ih =>
      obtain ⟨-, -, htakes, -⟩ := Edged.spec_of_matchAt? hq.proper hmatch
      have htext : m.text.count '[' = 0 := List.count_eq_zero_of_not_mem (hp.not_mem htakes).1
      simp only [List.flatMap_cons, List.filterMap_cons, List.count_append, List.length_cons,
        imageOf, ih, (hq.marked hmatch).count_eq, htext]
      omega
  exact hparts (divides_parts hq.proper.takesSome_pattern text)

end Images

end GuestCode.Masking
