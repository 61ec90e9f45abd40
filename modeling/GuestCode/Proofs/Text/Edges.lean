import GuestCode.Proofs.Text.Replacing

/-!
# The edges of matches

What a match starts with, what it ends with and what stands around it. Many patterns start or end at
the edge of a word; apart from that they look at nothing but the text they take, so where they match
can be said by the language of the rest. What follows a match is known if the pattern ends with a
repetition, which goes on as long as it can.

## Main statements

* `Pattern.occursIn_iff`: a pattern occurs in a text if it matches at one of its places.
* `Pattern.mayStart_of_takes`: the characters that a match starts with.
* `Pattern.Edged.matchAt?_ne_none_iff`: where a pattern between edges of words matches.
* `Pattern.any_after_eq_false`: a last repetition goes on as long as it can.
* `Pattern.forall₂_shifted`: how far from the start of a text a place is makes no difference.
-/

namespace GuestCode.Text.Pattern

/-! ## Occurrences -/

section Occurrences

variable {pattern : Pattern} {text : List Char}

/-- A pattern occurs in a text if it matches at one of its places. -/
theorem occursIn_iff : pattern.occursIn text = true ↔ ∃ u v, text = u ++ v ∧
    pattern.matchAt? ⟨u.getLast?, v, u.length, []⟩ ≠ none := by
  -- The induction goes over ends of the text, before which something may stand.
  have hfrom : ∀ (text : List Char) (before : Option Char) (offset : Nat),
      (pattern.searchFrom? before offset text).isSome = true ↔ ∃ u v, text = u ++ v ∧
        pattern.matchAt? ⟨u.getLast?.or before, v, offset + u.length, []⟩ ≠ none := by
    intro text
    induction text with
    | nil =>
      intro before offset
      rw [searchFrom?, Option.isSome_iff_ne_none]
      constructor
      · exact fun h => ⟨[], [], rfl, h⟩
      · rintro ⟨u, v, huv, h⟩
        obtain ⟨rfl, rfl⟩ := List.nil_eq_append_iff.mp huv
        exact h
    | cons c cs ih =>
      intro before offset
      rw [searchFrom?, Option.isSome_or, Bool.or_eq_true, ih, Option.isSome_iff_ne_none]
      constructor
      · rintro (h | ⟨u, v, rfl, h⟩)
        · exact ⟨[], c :: cs, rfl, h⟩
        · refine ⟨c :: u, v, rfl, ?_⟩
          rwa [getLast?_cons_or, List.length_cons, Nat.add_comm u.length, ← Nat.add_assoc]
      · rintro ⟨u, v, huv, h⟩
        cases u with
        | nil =>
          obtain rfl : c :: cs = v := huv
          exact .inl h
        | cons d u =>
          obtain ⟨rfl, rfl⟩ := List.cons.inj huv
          rw [getLast?_cons_or, List.length_cons, Nat.add_comm u.length, ← Nat.add_assoc] at h
          exact .inr ⟨u, v, rfl, h⟩
  rw [occursIn, search?, hfrom]
  simp only [Option.or_none, Nat.zero_add]

theorem replace_eq_self_of_occursIn (h : pattern.occursIn text = false)
    (replacement : Found → List Char) : pattern.replace replacement text = text :=
  replace_eq_self_of_search?_eq_none pattern replacement (Option.isSome_eq_false_iff.mp h |>
    Option.isNone_iff_eq_none.mp)

/-- Where no match is found, the pattern does not occur. -/
theorem occursIn_eq_false_of_findAll (htake : pattern.takesSome = true)
    (h : pattern.findAll text = []) : pattern.occursIn text = false := by
  have hfrom : ∀ (text : List Char) (before : Option Char) (offset : Nat),
      (∀ m, .found m ∉ pattern.partsFrom before offset 0 text) →
        pattern.searchFrom? before offset text = none := by
    intro text
    induction text with
    | nil =>
      intro before offset _
      refine Option.eq_none_iff_forall_ne_some.mpr fun m hm => ?_
      obtain ⟨htakes, htext, -⟩ := exists_of_matchAt? hm
      exact ne_nil_of_takesSome htake htakes (List.nil_eq_append_iff.mp htext).1
    | cons c cs ih =>
      intro before offset hnone
      cases hmatch : pattern.matchAt? ⟨before, c :: cs, offset, []⟩ with
      | none =>
        rw [partsFrom_cons_of_none hmatch] at hnone
        rw [searchFrom?, hmatch, Option.none_or]
        exact ih _ _ fun m hm => hnone m (.tail _ hm)
      | some m =>
        refine absurd ?_ (hnone m)
        rw [partsFrom, hmatch]
        exact .head _
  refine Option.isSome_eq_false_iff.mpr (Option.isNone_iff_eq_none.mpr (hfrom text none 0 ?_))
  intro m hm
  exact List.not_mem_nil (h ▸ mem_findAll.mpr hm)

end Occurrences

/-! ## First and last characters -/

section FirstLast

variable {pattern : Pattern} {c : Char} {w : List Char}

/-- Whether a text that a pattern takes may start with a character. -/
def mayStart (c : Char) : Pattern → Bool
  | .char accepts => accepts c
  | .seq first second => first.mayStart c || !first.takesSome && second.mayStart c
  | .either first second => first.mayStart c || second.mayStart c
  | .many _ body | .capture _ body => body.mayStart c
  | .again _ => true
  | .empty | .condition _ | .lookahead .. => false

theorem mayStart_of_takes (hw : pattern.Takes (c :: w)) : pattern.mayStart c = true := by
  induction pattern generalizing w with
  | empty | condition | lookahead => cases hw
  | char accepts =>
    obtain ⟨d, hd, heq⟩ := hw
    obtain ⟨rfl, -⟩ := List.cons.inj heq
    exact hd
  | seq first second ihfirst ihsecond =>
    obtain ⟨u, v, heq, hu, hv⟩ := hw
    rw [mayStart, Bool.or_eq_true, Bool.and_eq_true, Bool.not_eq_true']
    cases u with
    | nil =>
      obtain rfl : c :: w = v := heq
      have hsome : first.takesSome = false :=
        Bool.eq_false_iff.mpr fun hsome => ne_nil_of_takesSome hsome hu rfl
      exact .inr ⟨hsome, ihsecond hv⟩
    | cons d u =>
      obtain ⟨rfl, -⟩ := List.cons.inj heq
      exact .inl (ihfirst hu)
  | either first second ihfirst ihsecond =>
    exact Bool.or_eq_true_iff.mpr (hw.imp ihfirst ihsecond)
  | many greedy body ih =>
    obtain ⟨parts, heq, hparts⟩ := hw
    obtain ⟨x, y, hmem, hx⟩ := @exists_mem_of_flatten_eq c [] w parts heq.symm
    obtain rfl := List.subset_nil.mp hx
    exact ih (hparts _ hmem)
  | capture label body ih => exact ih hw
  | again => rfl

theorem takesSome_all_append (patterns others : List Pattern) :
    (all (patterns ++ others)).takesSome =
      ((all patterns).takesSome || (all others).takesSome) := by
  have hcons : ∀ (pattern : Pattern) (patterns : List Pattern),
      (all (pattern :: patterns)).takesSome =
        (pattern.takesSome || (all patterns).takesSome) := by
    intro pattern patterns
    cases patterns with
    | nil => exact (Bool.or_false _).symm
    | cons => rfl
  induction patterns with
  | nil => rfl
  | cons pattern patterns ih => rw [List.cons_append, hcons, hcons, ih, Bool.or_assoc]

/-- What ends with a text of some length ends with none of the characters that it never holds. -/
theorem getLast?_not_mem_of_takes {chars : List Char} {patterns : List Pattern} {n : Nat}
    (hsome : (all (patterns.drop n)).takesSome = true)
    (hnone : (all (patterns.drop n)).takesNone chars = true) (hw : (all patterns).Takes w) :
    ∀ d ∈ w.getLast?, d ∉ chars := by
  rw [← List.take_append_drop n patterns] at hw
  obtain ⟨u, v, rfl, -, hv⟩ := takes_all_append.mp hw
  have hne := ne_nil_of_takesSome hsome hv
  intro d hd
  rw [List.getLast?_append_of_ne_nil u hne] at hd
  exact not_mem_of_takesNone _ hnone hv d (List.mem_of_getLast? hd)

end FirstLast

/-! ## Repetitions at the end -/

section Repetitions

variable {accepts closing : Char → Bool} {first second : Pattern} {patterns : List Pattern}

/-- Whether a pattern prefers to go on over the characters of a class, unless it has ended with a
character of another class. -/
def GoesOn (accepts closing : Char → Bool) (pattern : Pattern) : Prop :=
  ∀ s q, (pattern.ends s).head? = some q →
    q.rest.head?.any accepts = false ∨ q.before.any closing = true

theorem goesOn_star : (star (.char accepts)).GoesOn accepts closing := by
  intro s q hq
  have hfind : (repeatEnds true (Pattern.char accepts).ends s.rest.length s).find?
      (fun _ => true) = some q := by
    rw [star, ends] at hq
    rw [← hq]
    cases repeatEnds true (Pattern.char accepts).ends s.rest.length s <;> rfl
  have hstep : ∀ p, ∀ q ∈ (Pattern.char accepts).ends p, ∃ w, Over p w q := by
    intro p q hq
    obtain ⟨w, -, hover⟩ := exists_takes hq
    exact ⟨w, hover⟩
  have hstuck := eq_false_of_find?_repeatEnds hstep (Nat.le_refl _) hfind
  refine .inl (Bool.eq_false_iff.mpr fun hany => ?_)
  obtain ⟨before, rest, offset, captures⟩ := q
  obtain ⟨c, hc, haccepts⟩ := (Option.any_eq_true _ _).mp hany
  obtain ⟨cs, rfl⟩ := List.head?_eq_some_iff.mp hc
  have hmem : ⟨some c, cs, offset + 1, captures⟩ ∈
      (Pattern.char accepts).ends ⟨before, c :: cs, offset, captures⟩ := by
    rw [ends_char_cons, if_pos haccepts]
    exact List.mem_singleton_self _
  cases hstuck _ hmem (Nat.lt_succ_self offset)

theorem GoesOn.seq (h : second.GoesOn accepts closing) :
    (Pattern.seq first second).GoesOn accepts closing := by
  intro s q hq
  rw [ends_seq, List.head?_flatMap] at hq
  obtain ⟨r, -, hr⟩ := List.exists_of_findSome?_eq_some hq
  exact h r q hr

/-- A closing character may follow. -/
theorem GoesOn.seq_opt (h : first.GoesOn accepts closing) :
    (Pattern.seq first (opt (.char closing))).GoesOn accepts closing := by
  intro s q hq
  rw [ends_seq] at hq
  cases hfirst : first.ends s with
  | nil =>
    rw [hfirst] at hq
    cases hq
  | cons r others =>
    obtain ⟨before, rest, offset, captures⟩ := r
    have hr := h s ⟨before, rest, offset, captures⟩ (by rw [hfirst]; rfl)
    rw [hfirst, List.flatMap_cons, List.head?_append, opt, ends_either] at hq
    cases rest with
    | nil =>
      obtain rfl := Option.some.inj hq
      exact hr
    | cons c cs =>
      rw [ends_char_cons] at hq
      split at hq
      · next hc =>
        obtain rfl := Option.some.inj hq
        exact .inr hc
      · obtain rfl := Option.some.inj hq
        exact hr

theorem GoesOn.all_append (h : (all patterns).GoesOn accepts closing) (front : List Pattern) :
    (all (front ++ patterns)).GoesOn accepts closing := by
  intro s q hq
  rw [ends_all_append, List.head?_flatMap] at hq
  obtain ⟨r, -, hr⟩ := List.exists_of_findSome?_eq_some hq
  exact h r q hr

theorem GoesOn.all_drop {n : Nat} (h : (all (patterns.drop n)).GoesOn accepts closing) :
    (all patterns).GoesOn accepts closing := by
  rw [← List.take_append_drop n patterns]
  exact h.all_append _

end Repetitions

/-! ## Patterns between edges of words -/

/-- Whether a word begins or ends between a character and a text. -/
def isEdge (before : Option Char) (rest : List Char) : Bool :=
  before.any isWordChar != rest.head?.any isWordChar

theorem wordEdge_eq : wordEdge = .condition isEdge := rfl

/-- A pattern that may have to start, or to end, at the edge of a word. -/
structure Edged where
  opens : Bool
  core : List Pattern
  closes : Bool

namespace Edged

/-- The edge of a word, if it is asked for. -/
def edgeIf (asked : Bool) : List Pattern := if asked then [wordEdge] else []

/-- The pattern as a whole. -/
def pattern (p : Edged) : Pattern := all (edgeIf p.opens ++ (p.core ++ edgeIf p.closes))

/-- Whether a pattern looks at nothing but edges and the text that it takes, which is of some
length. -/
structure IsProper (p : Edged) : Prop where
  plain : (all p.core).isPlain = true
  some : (all p.core).takesSome = true

/-- Whether a match, its first edge apart, can start where a text is left. -/
def StartsAt (p : Edged) (rest : List Char) : Prop :=
  ∃ w after, rest = w ++ after ∧ (all p.core).Takes w ∧
    (p.closes = true → isEdge w.getLast? after = true)

/-- Whether a match can start between a character and a text. -/
def FitsAt (p : Edged) (before : Option Char) (rest : List Char) : Prop :=
  (p.opens = true → isEdge before rest = true) ∧ p.StartsAt rest

theorem IsProper.takesSome_pattern {p : Edged} (hp : p.IsProper) : p.pattern.takesSome = true := by
  rw [pattern, takesSome_all_append, takesSome_all_append, hp.some, Bool.true_or, Bool.or_true]

section Edged

variable {p : Edged} {before : Option Char} {rest text : List Char} {offset : Nat}

theorem mem_ends_edgeIf {asked : Bool} {s q : Progress} :
    q ∈ (all (edgeIf asked)).ends s ↔ q = s ∧ (asked = true → isEdge s.before s.rest = true) := by
  cases asked with
  | false => simp [edgeIf, all]
  | true =>
    rw [edgeIf, if_pos rfl, all, wordEdge_eq, ends_condition]
    split <;> simp_all

theorem mem_ends_pattern {s q : Progress} : q ∈ p.pattern.ends s ↔
    (p.opens = true → isEdge s.before s.rest = true) ∧ q ∈ (all p.core).ends s ∧
      (p.closes = true → isEdge q.before q.rest = true) := by
  rw [pattern, ends_all_append, List.mem_flatMap]
  simp only [ends_all_append, List.mem_flatMap, mem_ends_edgeIf]
  constructor
  · rintro ⟨_, ⟨rfl, hopens⟩, _, hcore, rfl, hcloses⟩
    exact ⟨hopens, hcore, hcloses⟩
  · rintro ⟨hopens, hcore, hcloses⟩
    exact ⟨s, ⟨rfl, hopens⟩, q, hcore, rfl, hcloses⟩

/-- What is known of a match between edges of words. -/
theorem spec_of_matchAt? (hp : p.IsProper) {m : Found}
    (hm : p.pattern.matchAt? ⟨before, rest, offset, []⟩ = some m) :
    rest = m.text ++ m.after ∧ m.text ≠ [] ∧ (all p.core).Takes m.text ∧
      (p.opens = true → isEdge before rest = true) ∧
      (p.closes = true → isEdge m.text.getLast? m.after = true) := by
  obtain ⟨q, hq, rfl⟩ := Option.map_eq_some_iff.mp hm
  obtain ⟨hopens, hcore, hcloses⟩ := mem_ends_pattern.mp (List.mem_of_head? hq)
  obtain ⟨w, hw, hover⟩ := exists_takes hcore
  have htext : (Found.ofEnds ⟨before, rest, offset, []⟩ q).text = w := hover.take_eq
  have hne := ne_nil_of_takesSome hp.some hw
  have hbefore : q.before = w.getLast? := by
    rw [hover.before, List.getLast?_eq_some_getLast hne, Option.some_or]
  rw [hbefore] at hcloses
  rw [htext]
  exact ⟨hover.rest, hne, hw, hopens, hcloses⟩

/-- What a match has captured at its start, and what it has taken after that. -/
theorem captured_of_matchAt? {label : Nat} {body : Pattern} {patterns : List Pattern} {m : Found}
    (hcore : p.core = .capture label body :: patterns)
    (hkeeps : (all patterns).keepsNone label = true)
    (hm : p.pattern.matchAt? ⟨before, rest, offset, []⟩ = some m) :
    ∃ v, m.text = m.captured label ++ v ∧ body.Takes (m.captured label) ∧
      (all patterns).Takes v := by
  obtain ⟨q, hq, rfl⟩ := Option.map_eq_some_iff.mp hm
  obtain ⟨-, hends, -⟩ := mem_ends_pattern.mp (List.mem_of_head? hq)
  rw [hcore] at hends
  obtain ⟨-, -, u, v, -, hover, hu, hv, hcaptured⟩ := exists_of_mem_ends_capture hkeeps hends
  have htext : (Found.ofEnds ⟨before, rest, offset, []⟩ q).text = u ++ v := hover.take_eq
  rw [hcaptured, htext]
  exact ⟨v, rfl, hu, hv⟩

/-- What follows a match that goes on as long as it can. -/
theorem any_after_eq_false {accepts closing : Char → Bool} (hp : p.IsProper)
    (hcloses : p.closes = false) (hgoes : (all p.core).GoesOn accepts closing) {m : Found}
    (hm : p.pattern.matchAt? ⟨before, rest, offset, []⟩ = some m) :
    m.after.head?.any accepts = false ∨ m.text.getLast?.any closing = true := by
  have hwhole : p.pattern.GoesOn accepts closing := by
    rw [pattern, hcloses, edgeIf, edgeIf, if_neg Bool.false_ne_true, List.append_nil]
    exact hgoes.all_append _
  obtain ⟨hrest, hne, -⟩ := spec_of_matchAt? hp hm
  obtain ⟨q, hq, rfl⟩ := Option.map_eq_some_iff.mp hm
  obtain ⟨w, -, hover⟩ := exists_takes (List.mem_of_head? hq)
  obtain rfl : w = (Found.ofEnds ⟨before, rest, offset, []⟩ q).text :=
    List.append_cancel_right (hover.rest.symm.trans hrest)
  have hafter := hwhole _ q hq
  rwa [hover.before, List.getLast?_eq_some_getLast hne, Option.some_or,
    ← List.getLast?_eq_some_getLast hne] at hafter

/-- Where a pattern between edges of words matches. -/
theorem matchAt?_ne_none_iff (hp : p.IsProper) :
    p.pattern.matchAt? ⟨before, rest, offset, []⟩ ≠ none ↔ p.FitsAt before rest := by
  constructor
  · intro h
    obtain ⟨m, hm⟩ := Option.ne_none_iff_exists'.mp h
    obtain ⟨hrest, -, htakes, hopens, hcloses⟩ := spec_of_matchAt? hp hm
    exact ⟨hopens, m.text, m.after, hrest, htakes, hcloses⟩
  · rintro ⟨hopens, w, after, rfl, hw, hcloses⟩
    obtain ⟨q, hq, hover⟩ := exists_mem_ends_of_takes hp.plain hw
      (p := ⟨before, w ++ after, offset, []⟩) rfl
    have hafter : q.rest = after := (List.append_cancel_left hover.rest).symm
    have hbefore : q.before = w.getLast? := by
      rw [hover.before, List.getLast?_eq_some_getLast (ne_nil_of_takesSome hp.some hw),
        Option.some_or]
    rw [← hbefore, ← hafter] at hcloses
    exact matchAt?_ne_none (mem_ends_pattern.mpr ⟨hopens, hq, hcloses⟩)

theorem occursIn_iff_exists_fitsAt (hp : p.IsProper) : p.pattern.occursIn text = true ↔
    ∃ u v, text = u ++ v ∧ p.FitsAt u.getLast? v := by
  simp only [occursIn_iff, matchAt?_ne_none_iff hp]

end Edged

end Edged

end GuestCode.Text.Pattern
