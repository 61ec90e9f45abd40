import GuestCode.Proofs.Text.Matching

/-!
# The language of a pattern

The texts that a pattern can take, apart from the conditions on what is around them. Each match
takes a text of this language, so what is known of the language is known of all matches, wherever
they are.

Matches are looked for from left to right; `Pattern.Divides` is how a text is divided so, with the
text before each place.

## Main statements

* `Pattern.exists_takes`: a match takes a text of the language of its pattern.
* `Pattern.exists_mem_ends_of_takes`: patterns without conditions take all texts of their language.
* `Pattern.captures_of_mem_ends`: a captured text is one of the language of a captured pattern.
* `Pattern.not_mem_of_takesNone`: the characters that a pattern never takes.
* `Pattern.divides_parts`: how a text is divided into matches and the characters between them.
* `Pattern.replace_eq_self`: a text whose matches are put back is left as it is.
-/

namespace GuestCode.Text.Pattern

/-! ## Languages -/

/-- The texts that a pattern can take. What has been captured may be any text here. -/
def Takes : Pattern → List Char → Prop
  | .empty, w => w = []
  | .char accepts, w => ∃ c, accepts c = true ∧ w = [c]
  | .seq first second, w => ∃ u v, w = u ++ v ∧ first.Takes u ∧ second.Takes v
  | .either first second, w => first.Takes w ∨ second.Takes w
  | .many _ body, w => ∃ parts : List (List Char), w = parts.flatten ∧ ∀ u ∈ parts, body.Takes u
  | .capture _ body, w => body.Takes w
  | .again _, _ => True
  | .condition _, w => w = []
  | .lookahead _ _, w => w = []

/-- One place of a text is reached from another one over some characters. -/
structure Over (p : Progress) (w : List Char) (q : Progress) : Prop where
  rest : p.rest = w ++ q.rest
  offset : q.offset = p.offset + w.length
  before : q.before = w.getLast?.or p.before

namespace Over

variable {p q r : Progress} {u v w : List Char}

theorem refl (p : Progress) : Over p [] p := ⟨rfl, rfl, rfl⟩

theorem trans (h : Over p u q) (h' : Over q v r) : Over p (u ++ v) r where
  rest := by rw [h.rest, h'.rest, List.append_assoc]
  offset := by rw [h'.offset, h.offset, List.length_append, Nat.add_assoc]
  before := by rw [h'.before, h.before, List.getLast?_append, Option.or_assoc]

theorem next {c : Char} {cs : List Char} (h : p.rest = c :: cs) : Over p [c] p.next where
  rest := by rw [Progress.next, h]; rfl
  offset := by rw [Progress.next, h]; rfl
  before := by rw [Progress.next, h]; rfl

theorem advance (h : w <+: p.rest) : Over p w (p.advance w.length) := by
  induction w generalizing p with
  | nil => exact refl p
  | cons c cs ih =>
    obtain ⟨after, hafter⟩ := h
    have hnext := next hafter.symm
    have hcs : cs <+: p.next.rest := ⟨after, by
      have hrest := hnext.rest
      rw [← hafter] at hrest
      exact (List.cons.inj hrest).2⟩
    exact hnext.trans (ih hcs)

/-- What is taken of the remaining text. -/
theorem take_eq (h : Over p w q) : p.rest.take (q.offset - p.offset) = w := by
  rw [h.rest, h.offset, Nat.add_sub_cancel_left, List.take_left]

theorem captures (h : Over p w q) (captures : List Capture) :
    Over p w { q with captures := captures } :=
  ⟨h.rest, h.offset, h.before⟩

end Over

theorem exists_over_of_mem_repeatEnds {greedy : Bool} {step : Progress → List Progress}
    {language : List Char → Prop}
    (hstep : ∀ p, ∀ q ∈ step p, ∃ w, language w ∧ Over p w q) (fuel : Nat) (p : Progress) :
    ∀ q ∈ repeatEnds greedy step fuel p,
      ∃ parts : List (List Char), (∀ u ∈ parts, language u) ∧ Over p parts.flatten q := by
  induction fuel generalizing p with
  | zero =>
    intro q hq
    obtain rfl := List.mem_singleton.mp hq
    exact ⟨[], by simp, .refl q⟩
  | succ fuel ih =>
    have hfurther : ∀ q ∈ ((step p).filter fun q => p.offset < q.offset).flatMap
        (repeatEnds greedy step fuel),
        ∃ parts : List (List Char), (∀ u ∈ parts, language u) ∧ Over p parts.flatten q := by
      intro q hq
      obtain ⟨middle, hmiddle, hq⟩ := List.mem_flatMap.mp hq
      obtain ⟨w, hw, hfirst⟩ := hstep p middle (List.mem_filter.mp hmiddle).1
      obtain ⟨parts, hparts, hothers⟩ := ih middle q hq
      exact ⟨w :: parts, List.forall_mem_cons.mpr ⟨hw, hparts⟩, hfirst.trans hothers⟩
    have hstop : ∃ parts : List (List Char), (∀ u ∈ parts, language u) ∧ Over p parts.flatten p :=
      ⟨[], by simp, .refl p⟩
    intro q hq
    rw [repeatEnds] at hq
    cases greedy with
    | true =>
      rcases List.mem_append.mp hq with hq | hq
      · exact hfurther q hq
      · obtain rfl := List.mem_singleton.mp hq
        exact hstop
    | false =>
      rcases List.mem_cons.mp hq with rfl | hq
      · exact hstop
      · exact hfurther q hq

/-- A match takes a text of the language of its pattern. -/
theorem exists_takes {pattern : Pattern} {p q : Progress} (h : q ∈ pattern.ends p) :
    ∃ w, pattern.Takes w ∧ Over p w q := by
  induction pattern generalizing p q with
  | empty =>
    obtain rfl := List.mem_singleton.mp h
    exact ⟨[], rfl, .refl q⟩
  | char accepts =>
    rw [ends] at h
    split at h
    · cases h
    · next c cs hrest =>
      split at h
      · next hc =>
        obtain rfl := List.mem_singleton.mp h
        exact ⟨[c], ⟨c, hc, rfl⟩, .next hrest⟩
      · cases h
  | seq first second ihfirst ihsecond =>
    obtain ⟨middle, hmiddle, hq⟩ := List.mem_flatMap.mp h
    obtain ⟨u, hu, hfirst⟩ := ihfirst hmiddle
    obtain ⟨v, hv, hsecond⟩ := ihsecond hq
    exact ⟨u ++ v, ⟨u, v, rfl, hu, hv⟩, hfirst.trans hsecond⟩
  | either first second ihfirst ihsecond =>
    rcases List.mem_append.mp h with h | h
    · obtain ⟨w, hw, hover⟩ := ihfirst h
      exact ⟨w, .inl hw, hover⟩
    · obtain ⟨w, hw, hover⟩ := ihsecond h
      exact ⟨w, .inr hw, hover⟩
  | many greedy body ih =>
    obtain ⟨parts, hparts, hover⟩ := exists_over_of_mem_repeatEnds (fun _ _ => ih) _ p q h
    exact ⟨parts.flatten, ⟨parts, rfl, hparts⟩, hover⟩
  | capture label body ih =>
    obtain ⟨r, hr, rfl⟩ := List.mem_map.mp h
    obtain ⟨w, hw, hover⟩ := ih hr
    exact ⟨w, hw, hover.captures _⟩
  | again label =>
    rw [ends] at h
    split at h
    · cases h
    · next c hc =>
      split at h
      · next hprefix =>
        obtain rfl := List.mem_singleton.mp h
        exact ⟨c.text, trivial, .advance (List.isPrefixOf_iff_prefix.mp hprefix)⟩
      · cases h
  | condition holds =>
    rw [ends] at h
    split at h
    · obtain rfl := List.mem_singleton.mp h
      exact ⟨[], rfl, .refl q⟩
    · cases h
  | lookahead expected body _ =>
    rw [ends] at h
    split at h
    · cases h
    · obtain rfl := List.mem_singleton.mp h
      exact ⟨[], rfl, .refl q⟩

/-- Whether a pattern looks at nothing but the text that it takes. -/
def isPlain : Pattern → Bool
  | .empty | .char _ => true
  | .seq first second | .either first second => isPlain first && isPlain second
  | .many _ body | .capture _ body => isPlain body
  | .again _ | .condition _ | .lookahead _ _ => false

theorem self_mem_repeatEnds (greedy : Bool) (step : Progress → List Progress) (fuel : Nat)
    (p : Progress) : p ∈ repeatEnds greedy step fuel p := by
  cases fuel with
  | zero => exact List.mem_singleton_self p
  | succ fuel =>
    rw [repeatEnds]
    cases greedy with
    | true => exact List.mem_append_right _ (List.mem_singleton_self p)
    | false => exact List.mem_cons_self

/-- With as many rounds as characters are left, a repetition takes parts one after the other. -/
theorem exists_mem_repeatEnds {greedy : Bool} {step : Progress → List Progress}
    {language : List Char → Prop}
    (hstep : ∀ {w : List Char} {p : Progress} {after : List Char}, language w →
      p.rest = w ++ after → ∃ q ∈ step p, Over p w q)
    {parts : List (List Char)} (hparts : ∀ u ∈ parts, language u) {fuel : Nat} {p : Progress}
    {after : List Char} (hfuel : p.rest.length ≤ fuel) (hp : p.rest = parts.flatten ++ after) :
    ∃ q ∈ repeatEnds greedy step fuel p, Over p parts.flatten q := by
  induction parts generalizing fuel p with
  | nil => exact ⟨p, self_mem_repeatEnds greedy step fuel p, .refl p⟩
  | cons u parts ih =>
    obtain ⟨hu, hothers⟩ := List.forall_mem_cons.mp hparts
    rw [List.flatten_cons, List.append_assoc] at hp
    by_cases hnil : u = []
    · subst hnil
      exact ih hothers hfuel hp
    · obtain ⟨middle, hmiddle, hover⟩ := hstep hu hp
      have hlength := congrArg List.length hover.rest
      rw [List.length_append] at hlength
      have hpositive := List.length_pos_iff.mpr hnil
      obtain ⟨fuel, rfl⟩ := Nat.exists_eq_succ_of_ne_zero (n := fuel) (by omega)
      obtain ⟨q, hq, hover'⟩ := @ih hothers fuel middle (by omega)
        (List.append_cancel_left (hover.rest.symm.trans hp))
      refine ⟨q, ?_, hover.trans hover'⟩
      have hfurther : q ∈ ((step p).filter fun q => p.offset < q.offset).flatMap
          (repeatEnds greedy step fuel) := by
        refine List.mem_flatMap.mpr ⟨middle, List.mem_filter.mpr ⟨hmiddle, ?_⟩, hq⟩
        rw [hover.offset]
        exact decide_eq_true (Nat.lt_add_of_pos_right hpositive)
      rw [repeatEnds]
      cases greedy with
      | true => exact List.mem_append_left _ hfurther
      | false => exact List.mem_cons_of_mem _ hfurther

/-- A greedy repetition that has to stop at a place of some kind cannot go on to another such place
in one step. -/
theorem eq_false_of_find?_repeatEnds {step : Progress → List Progress} {ok : Progress → Bool}
    (hstep : ∀ p, ∀ q ∈ step p, ∃ w, Over p w q) {fuel : Nat} {p q : Progress}
    (hfuel : p.rest.length ≤ fuel) (h : (repeatEnds true step fuel p).find? ok = some q) :
    ∀ r ∈ step q, q.offset < r.offset → ok r = false := by
  intro r hr hlt
  induction fuel generalizing p with
  | zero =>
    obtain rfl : p = q := by
      rw [repeatEnds, List.find?_singleton] at h
      split at h
      · exact Option.some.inj h
      · cases h
    obtain ⟨w, hover⟩ := hstep p r hr
    have hlength := congrArg List.length hover.rest
    have hoffset := hover.offset
    rw [List.length_append] at hlength
    omega
  | succ fuel ih =>
    rw [repeatEnds, if_pos rfl, List.find?_append] at h
    rcases Option.or_eq_some_iff.mp h with hfurther | ⟨hnone, hstop⟩
    · rw [List.find?_flatMap] at hfurther
      obtain ⟨middle, hmiddle, hfurther⟩ := List.exists_of_findSome?_eq_some hfurther
      obtain ⟨hmem, hprogress⟩ := List.mem_filter.mp hmiddle
      obtain ⟨w, hover⟩ := hstep p middle hmem
      have hlength := congrArg List.length hover.rest
      have hoffset := hover.offset
      rw [List.length_append] at hlength
      rw [decide_eq_true_eq] at hprogress
      exact ih (by omega) hfurther
    · obtain rfl : p = q := by
        rw [List.find?_singleton] at hstop
        split at hstop
        · exact Option.some.inj hstop
        · cases hstop
      refine Bool.eq_false_iff.mpr (List.find?_eq_none.mp hnone r ?_)
      exact List.mem_flatMap.mpr ⟨r, List.mem_filter.mpr ⟨hr, decide_eq_true hlt⟩,
        self_mem_repeatEnds true step fuel r⟩

/-- What a plain pattern can take it takes wherever that stands. -/
theorem exists_mem_ends_of_takes {pattern : Pattern} (hplain : pattern.isPlain = true)
    {w : List Char} (hw : pattern.Takes w) {p : Progress} {after : List Char}
    (hp : p.rest = w ++ after) : ∃ q ∈ pattern.ends p, Over p w q := by
  induction pattern generalizing w p after with
  | empty =>
    obtain rfl : w = [] := hw
    exact ⟨p, List.mem_singleton_self p, .refl p⟩
  | char accepts =>
    obtain ⟨c, hc, rfl⟩ := hw
    refine ⟨p.next, ?_, .next hp⟩
    rw [ends, hp]
    simp [hc]
  | seq first second ihfirst ihsecond =>
    obtain ⟨hfirst, hsecond⟩ := Bool.and_eq_true_iff.mp hplain
    obtain ⟨u, v, rfl, hu, hv⟩ := hw
    rw [List.append_assoc] at hp
    obtain ⟨middle, hmiddle, hover⟩ := ihfirst hfirst hu hp
    obtain ⟨q, hq, hover'⟩ :=
      ihsecond hsecond hv (List.append_cancel_left (hover.rest.symm.trans hp))
    exact ⟨q, List.mem_flatMap.mpr ⟨middle, hmiddle, hq⟩, hover.trans hover'⟩
  | either first second ihfirst ihsecond =>
    obtain ⟨hfirst, hsecond⟩ := Bool.and_eq_true_iff.mp hplain
    rcases hw with hw | hw
    · obtain ⟨q, hq, hover⟩ := ihfirst hfirst hw hp
      exact ⟨q, List.mem_append_left _ hq, hover⟩
    · obtain ⟨q, hq, hover⟩ := ihsecond hsecond hw hp
      exact ⟨q, List.mem_append_right _ hq, hover⟩
  | many greedy body ih =>
    obtain ⟨parts, rfl, hparts⟩ := hw
    exact exists_mem_repeatEnds (fun hw hp => ih hplain hw hp) hparts (Nat.le_refl _) hp
  | capture label body ih =>
    obtain ⟨q, hq, hover⟩ := ih hplain hw hp
    exact ⟨_, List.mem_map_of_mem hq, hover.captures _⟩
  | again | condition | lookahead => cases hplain

/-- A match takes its text, from where it starts. -/
theorem exists_of_matchAt? {pattern : Pattern} {p : Progress} {m : Found}
    (h : pattern.matchAt? p = some m) :
    pattern.Takes m.text ∧ p.rest = m.text ++ m.after ∧ m.start = p.offset := by
  obtain ⟨q, hq, rfl⟩ := Option.map_eq_some_iff.mp h
  obtain ⟨w, hw, hover⟩ := exists_takes (List.mem_of_head? hq)
  have htext : (Found.ofEnds p q).text = w := hover.take_eq
  exact ⟨htext ▸ hw, by rw [htext]; exact hover.rest, rfl⟩

/-- A pattern of characters alone matches all of a remaining text if it takes it. -/
theorem exists_matchAll?_iff {pattern : Pattern} (hplain : pattern.isPlain = true) {p : Progress} :
    (∃ m, pattern.matchAll? p = some m) ↔ pattern.Takes p.rest := by
  constructor
  · rintro ⟨m, hm⟩
    obtain ⟨q, hq, -⟩ := Option.map_eq_some_iff.mp hm
    obtain ⟨w, hw, hover⟩ := exists_takes (List.mem_of_find?_eq_some hq)
    obtain ⟨hend, -⟩ := List.find?_eq_some_iff_append.mp hq
    rwa [hover.rest, List.isEmpty_iff.mp hend, List.append_nil]
  · intro h
    obtain ⟨q, hq, hover⟩ := exists_mem_ends_of_takes hplain h (List.append_nil p.rest).symm
    have hend : q.rest.isEmpty = true := by simpa using hover.rest
    have hfind : ((pattern.ends p).find? fun q => q.rest.isEmpty).isSome :=
      List.find?_isSome.mpr ⟨q, hq, hend⟩
    obtain ⟨r, hr⟩ := Option.isSome_iff_exists.mp hfind
    exact ⟨_, Option.map_eq_some_iff.mpr ⟨r, hr, rfl⟩⟩

/-! ## The vocabulary -/

section Vocabulary

variable {w : List Char} {pattern : Pattern} {patterns others : List Pattern}

theorem takes_all_cons : (all (pattern :: patterns)).Takes w ↔
    ∃ u v, w = u ++ v ∧ pattern.Takes u ∧ (all patterns).Takes v := by
  cases patterns with
  | nil =>
    constructor
    · exact fun h => ⟨w, [], (List.append_nil w).symm, h, rfl⟩
    · rintro ⟨u, v, rfl, hu, rfl⟩
      rwa [List.append_nil]
  | cons => exact .rfl

theorem takes_all_append : (all (patterns ++ others)).Takes w ↔
    ∃ u v, w = u ++ v ∧ (all patterns).Takes u ∧ (all others).Takes v := by
  induction patterns generalizing w with
  | nil =>
    constructor
    · exact fun h => ⟨[], w, rfl, rfl, h⟩
    · rintro ⟨u, v, rfl, rfl, hv⟩
      exact hv
  | cons pattern patterns ih =>
    rw [List.cons_append, takes_all_cons]
    simp only [takes_all_cons, ih]
    constructor
    · rintro ⟨u, v, rfl, hu, u', v', rfl, hu', hv'⟩
      exact ⟨u ++ u', v', by rw [List.append_assoc], ⟨u, u', rfl, hu, hu'⟩, hv'⟩
    · rintro ⟨u, v, rfl, ⟨u', v', rfl, hu', hv'⟩, hv⟩
      exact ⟨u', v' ++ v, by rw [List.append_assoc], hu', v', v, rfl, hv', hv⟩

theorem ends_all_cons (p : Progress) :
    (all (pattern :: patterns)).ends p = (pattern.ends p).flatMap (all patterns).ends := by
  cases patterns with
  | nil => exact (List.flatMap_singleton' _).symm
  | cons => rfl

theorem ends_all_append (p : Progress) :
    (all (patterns ++ others)).ends p = ((all patterns).ends p).flatMap (all others).ends := by
  induction patterns generalizing p with
  | nil => exact (List.append_nil _).symm
  | cons pattern patterns ih =>
    rw [List.cons_append, ends_all_cons, ends_all_cons, List.flatMap_assoc, funext ih]

/-- The condition that a pattern ends with holds behind a match. -/
theorem holds_behind_matchAt? {holds : Option Char → List Char → Bool} {p : Progress} {m : Found}
    (h : (all (patterns ++ [.condition holds])).matchAt? p = some m) :
    holds (m.text.getLast?.or p.before) m.after = true := by
  obtain ⟨q, hq, rfl⟩ := Option.map_eq_some_iff.mp h
  have hmem := List.mem_of_head? hq
  obtain ⟨w, -, hover⟩ := exists_takes hmem
  have htext : (Found.ofEnds p q).text = w := hover.take_eq
  rw [ends_all_append] at hmem
  obtain ⟨r, -, hr⟩ := List.mem_flatMap.mp hmem
  rw [all, ends] at hr
  split at hr
  · next hholds =>
    obtain rfl := List.mem_singleton.mp hr
    rw [htext, ← hover.before]
    exact hholds
  · cases hr

/-- The condition that a pattern ends with holds where a match ends. -/
theorem holds_of_matchAt? {holds : Option Char → List Char → Bool} {p : Progress} {m : Found}
    (h : (all (patterns ++ [.condition holds])).matchAt? p = some m) :
    ∃ before, holds before m.after = true :=
  ⟨_, holds_behind_matchAt? h⟩

/-- Where a pattern ends, it is found. -/
theorem matchAt?_ne_none {pattern : Pattern} {p q : Progress} (h : q ∈ pattern.ends p) :
    pattern.matchAt? p ≠ none := by
  rw [matchAt?, ne_eq, Option.map_eq_none_iff, List.head?_eq_none_iff]
  exact List.ne_nil_of_mem h

/-- What follows may be looked ahead to. -/
theorem mem_ends_followedBy {body : Pattern} {p : Progress} (h : body.ends p ≠ []) :
    p ∈ (followedBy body).ends p := by
  have hends : ((body.ends p).isEmpty == true) = false := by simp [h]
  rw [followedBy, ends, hends]
  exact List.mem_singleton_self p

/-- What a pattern looks ahead to at its end stands after a match. -/
theorem exists_of_matchAt?_followedBy {body : Pattern} {p : Progress} {m : Found}
    (h : (all (patterns ++ [followedBy body])).matchAt? p = some m) :
    ∃ r : Progress, r.rest = m.after ∧ body.ends r ≠ [] := by
  obtain ⟨q, hq, rfl⟩ := Option.map_eq_some_iff.mp h
  have hmem := List.mem_of_head? hq
  rw [ends_all_append] at hmem
  obtain ⟨r, -, hr⟩ := List.mem_flatMap.mp hmem
  rw [all, followedBy, ends] at hr
  split at hr
  · cases hr
  · next hsome =>
    obtain rfl := List.mem_singleton.mp hr
    refine ⟨q, rfl, fun hnil => hsome ?_⟩
    rw [hnil]
    rfl

/-- A match that something has to follow is the first one that it follows. -/
theorem find?_of_matchAt?_followedBy {patterns : List Pattern} {body : Pattern} {p : Progress}
    {m : Found} (h : (all (patterns ++ [followedBy body])).matchAt? p = some m) :
    ∃ q, ((all patterns).ends p).find? (fun r => !(body.ends r).isEmpty) = some q ∧
      m = .ofEnds p q := by
  obtain ⟨q, hq, rfl⟩ := Option.map_eq_some_iff.mp h
  have hguard : ∀ r : Progress, ((followedBy body).ends r).head? =
      Option.guard (fun r => !(body.ends r).isEmpty) r := by
    intro r
    rw [followedBy, ends, Option.guard]
    cases (body.ends r).isEmpty <;> simp
  rw [ends_all_append, List.head?_flatMap, all, funext hguard, List.findSome?_guard] at hq
  exact ⟨q, hq, rfl⟩

/-- The condition that a pattern starts with holds where a match starts. -/
theorem holds_of_matchAt?_cons {holds : Option Char → List Char → Bool} {p : Progress} {m : Found}
    (h : (all (.condition holds :: patterns)).matchAt? p = some m) :
    holds p.before p.rest = true := by
  obtain ⟨q, hq, -⟩ := Option.map_eq_some_iff.mp h
  have hmem := List.mem_of_head? hq
  rw [ends_all_cons] at hmem
  obtain ⟨r, hr, -⟩ := List.mem_flatMap.mp hmem
  rw [ends] at hr
  split at hr
  · assumption
  · cases hr

theorem takes_exactly {c : Char} : (exactly c).Takes w ↔ w = [c] := by
  simp [exactly, Takes]

theorem takes_all_exactly {chars : List Char} :
    (all (chars.map exactly)).Takes w ↔ w = chars := by
  induction chars generalizing w with
  | nil => exact .rfl
  | cons c cs ih =>
    rw [List.map_cons, takes_all_cons]
    simp only [ih, takes_exactly]
    constructor
    · rintro ⟨u, v, rfl, rfl, rfl⟩
      rfl
    · rintro rfl
      exact ⟨[c], cs, rfl, rfl, rfl⟩

theorem takes_lit {s : String} : (lit s).Takes w ↔ w = s.toList := takes_all_exactly

/-- A pattern that has a fixed text among its parts takes only texts that hold it. -/
theorem infix_of_takes {patterns others : List Pattern} {s : String} {w : List Char}
    (hw : (all (patterns ++ lit s :: others)).Takes w) : s.toList <:+: w := by
  obtain ⟨u, rest, rfl, -, hrest⟩ := takes_all_append.mp hw
  obtain ⟨text, v, rfl, htext, -⟩ := takes_all_cons.mp hrest
  obtain rfl := takes_lit.mp htext
  exact ⟨u, v, List.append_assoc u s.toList v⟩

theorem takes_opt : (opt pattern).Takes w ↔ pattern.Takes w ∨ w = [] := .rfl

theorem takes_anyOf (h : patterns ≠ []) :
    (anyOf patterns).Takes w ↔ ∃ p ∈ patterns, p.Takes w := by
  induction patterns with
  | nil => exact absurd rfl h
  | cons pattern patterns ih =>
    cases patterns with
    | nil => simp [anyOf]
    | cons next others =>
      rw [anyOf.eq_3 _ _ (by simp), Takes, ih (by simp)]
      simp

theorem takes_words {ws : List String} (h : ws ≠ []) :
    (words ws).Takes w ↔ ∃ s ∈ ws, w = s.toList := by
  rw [words, takes_anyOf (by simpa using h)]
  constructor
  · rintro ⟨p, hp, hw⟩
    obtain ⟨s, hs, rfl⟩ := List.mem_map.mp hp
    exact ⟨s, hs, takes_lit.mp hw⟩
  · rintro ⟨s, hs, rfl⟩
    exact ⟨lit s, List.mem_map_of_mem hs, takes_lit.mpr rfl⟩

theorem takes_many_char {greedy : Bool} {accepts : Char → Bool} :
    (many greedy (char accepts)).Takes w ↔ ∀ c ∈ w, accepts c = true := by
  constructor
  · rintro ⟨parts, rfl, hparts⟩ c hc
    obtain ⟨u, hu, hc⟩ := List.mem_flatten.mp hc
    obtain ⟨d, hd, rfl⟩ := hparts u hu
    exact List.mem_singleton.mp hc ▸ hd
  · intro h
    refine ⟨w.map fun c => [c], (List.flatMap_singleton' w).symm, fun u hu => ?_⟩
    obtain ⟨c, hc, rfl⟩ := List.mem_map.mp hu
    exact ⟨c, h c hc, rfl⟩

theorem takes_blanks : blanks.Takes w ↔ ∀ c ∈ w, isBlank c = true := takes_many_char

/-- The blanks of one kind are taken one or more times. -/
theorem takes_plus_char {accepts : Char → Bool} :
    (plus (char accepts)).Takes w ↔ w ≠ [] ∧ ∀ c ∈ w, accepts c = true := by
  rw [plus, Takes]
  simp only [takes_many_char]
  constructor
  · rintro ⟨u, v, rfl, ⟨c, hc, rfl⟩, hv⟩
    exact ⟨by simp, List.forall_mem_cons.mpr ⟨hc, hv⟩⟩
  · rintro ⟨hne, hall⟩
    obtain ⟨c, cs, rfl⟩ := List.exists_cons_of_ne_nil hne
    obtain ⟨hc, hcs⟩ := List.forall_mem_cons.mp hall
    exact ⟨[c], cs, rfl, ⟨c, hc, rfl⟩, hcs⟩

theorem isPlain_all (h : ∀ p ∈ patterns, p.isPlain = true) : (all patterns).isPlain = true := by
  induction patterns with
  | nil => rfl
  | cons pattern patterns ih =>
    obtain ⟨hpattern, hpatterns⟩ := List.forall_mem_cons.mp h
    cases patterns with
    | nil => exact hpattern
    | cons => exact Bool.and_eq_true_iff.mpr ⟨hpattern, ih hpatterns⟩

theorem isPlain_anyOf (hsome : patterns ≠ []) (h : ∀ p ∈ patterns, p.isPlain = true) :
    (anyOf patterns).isPlain = true := by
  induction patterns with
  | nil => exact absurd rfl hsome
  | cons pattern patterns ih =>
    obtain ⟨hpattern, hpatterns⟩ := List.forall_mem_cons.mp h
    cases patterns with
    | nil => exact hpattern
    | cons next others =>
      rw [anyOf.eq_3 _ _ (List.cons_ne_nil next others)]
      exact Bool.and_eq_true_iff.mpr ⟨hpattern, ih (List.cons_ne_nil next others) hpatterns⟩

end Vocabulary

/-! ## Characters that are never taken -/

/-- Whether a pattern never takes any of some characters. -/
def takesNone (chars : List Char) : Pattern → Bool
  | .char accepts => chars.all fun c => !accepts c
  | .seq first second | .either first second => takesNone chars first && takesNone chars second
  | .many _ body | .capture _ body => takesNone chars body
  | .again _ => false
  | .empty | .condition _ | .lookahead .. => true

theorem not_mem_of_takesNone {chars : List Char} (pattern : Pattern)
    (h : pattern.takesNone chars = true) {w : List Char} (hw : pattern.Takes w) :
    ∀ c ∈ w, c ∉ chars := by
  induction pattern generalizing w with
  | empty | condition | lookahead =>
    obtain rfl : w = [] := hw
    simp
  | char accepts =>
    obtain ⟨d, hd, rfl⟩ := hw
    intro c hc hmem
    obtain rfl := List.mem_singleton.mp hc
    rw [takesNone, List.all_eq_true] at h
    exact Bool.eq_false_iff.mp ((Bool.not_eq_true' _).mp (h c hmem)) hd
  | seq first second ihfirst ihsecond =>
    obtain ⟨u, v, rfl, hu, hv⟩ := hw
    obtain ⟨hfirst, hsecond⟩ := Bool.and_eq_true_iff.mp h
    exact List.forall_mem_append.mpr ⟨ihfirst hfirst hu, ihsecond hsecond hv⟩
  | either first second ihfirst ihsecond =>
    obtain ⟨hfirst, hsecond⟩ := Bool.and_eq_true_iff.mp h
    exact hw.elim (ihfirst hfirst) (ihsecond hsecond)
  | many greedy body ih =>
    obtain ⟨parts, rfl, hparts⟩ := hw
    intro c hc
    obtain ⟨u, hu, hc⟩ := List.mem_flatten.mp hc
    exact ih h (hparts u hu) c hc
  | capture label body ih => exact ih h hw
  | again label => cases h

theorem not_mem_of_takes_all {chars : List Char} {patterns : List Pattern}
    (h : ∀ p ∈ patterns, p.takesNone chars = true) {w : List Char}
    (hw : (all patterns).Takes w) : ∀ c ∈ w, c ∉ chars := by
  induction patterns generalizing w with
  | nil =>
    obtain rfl : w = [] := hw
    simp
  | cons pattern patterns ih =>
    obtain ⟨u, v, rfl, hu, hv⟩ := takes_all_cons.mp hw
    obtain ⟨hpattern, hpatterns⟩ := List.forall_mem_cons.mp h
    exact List.forall_mem_append.mpr ⟨not_mem_of_takesNone pattern hpattern hu, ih hpatterns hv⟩

/-- Whether a pattern takes one character at least. -/
def takesSome : Pattern → Bool
  | .char _ => true
  | .seq first second => takesSome first || takesSome second
  | .either first second => takesSome first && takesSome second
  | .capture _ body => takesSome body
  | .empty | .many .. | .again _ | .condition _ | .lookahead .. => false

theorem ne_nil_of_takesSome {pattern : Pattern} (h : pattern.takesSome = true) {w : List Char}
    (hw : pattern.Takes w) : w ≠ [] := by
  induction pattern generalizing w with
  | char accepts =>
    obtain ⟨c, -, rfl⟩ := hw
    exact List.cons_ne_nil c []
  | seq first second ihfirst ihsecond =>
    obtain ⟨u, v, rfl, hu, hv⟩ := hw
    rcases Bool.or_eq_true_iff.mp h with h | h
    · exact List.append_ne_nil_of_left_ne_nil (ihfirst h hu) v
    · exact List.append_ne_nil_of_right_ne_nil u (ihsecond h hv)
  | either first second ihfirst ihsecond =>
    obtain ⟨hfirst, hsecond⟩ := Bool.and_eq_true_iff.mp h
    exact hw.elim (ihfirst hfirst) (ihsecond hsecond)
  | capture label body ih => exact ih h hw
  | empty | many | again | condition | lookahead => cases h

/-! ## Captures -/

/-- What a pattern can capture under a label. -/
def Captures : Pattern → Nat → List Char → Prop
  | .seq first second, label, w | .either first second, label, w =>
    first.Captures label w ∨ second.Captures label w
  | .many _ body, label, w => body.Captures label w
  | .capture l body, label, w => l = label ∧ body.Takes w ∨ body.Captures label w
  | .empty, _, _ | .char _, _, _ | .again _, _, _ | .condition _, _, _ | .lookahead .., _, _ =>
    False

theorem captures_advance (n : Nat) (p : Progress) : (p.advance n).captures = p.captures := by
  induction n generalizing p with
  | zero => rfl
  | succ n ih =>
    rw [Progress.advance, ih, Progress.next]
    split
    · rfl
    · rfl

/-- A captured text is one of the language of a captured pattern. -/
theorem captures_of_mem_ends {pattern : Pattern} {p q : Progress} (h : q ∈ pattern.ends p) :
    ∀ c ∈ q.captures, c ∈ p.captures ∨ pattern.Captures c.label c.text := by
  induction pattern generalizing p q with
  | empty =>
    obtain rfl := List.mem_singleton.mp h
    exact fun c hc => .inl hc
  | char accepts =>
    rw [ends] at h
    split at h
    · cases h
    · next d cs hrest =>
      split at h
      · obtain rfl := List.mem_singleton.mp h
        intro c hc
        rw [Progress.next, hrest] at hc
        exact .inl hc
      · cases h
  | seq first second ihfirst ihsecond =>
    obtain ⟨middle, hmiddle, hq⟩ := List.mem_flatMap.mp h
    intro c hc
    rcases ihsecond hq c hc with hc | hc
    · exact (ihfirst hmiddle c hc).imp_right .inl
    · exact .inr (.inr hc)
  | either first second ihfirst ihsecond =>
    intro c hc
    rcases List.mem_append.mp h with h | h
    · exact (ihfirst h c hc).imp_right .inl
    · exact (ihsecond h c hc).imp_right .inr
  | many greedy body ih =>
    exact @rel_of_mem_repeatEnds _ _
      (fun p q => ∀ c ∈ q.captures, c ∈ p.captures ∨ body.Captures c.label c.text)
      (fun _ _ => .inl) (fun h h' c hc => (h' c hc).elim (h c) .inr) (fun _ _ => ih) _ p q h
  | capture label body ih =>
    obtain ⟨r, hr, rfl⟩ := List.mem_map.mp h
    intro c hc
    rcases List.mem_cons.mp hc with rfl | hc
    · obtain ⟨w, hw, hover⟩ := exists_takes hr
      exact .inr (.inl ⟨rfl, hover.take_eq ▸ hw⟩)
    · exact (ih hr c hc).imp_right .inr
  | again label =>
    rw [ends] at h
    split at h
    · cases h
    · split at h
      · obtain rfl := List.mem_singleton.mp h
        intro c hc
        rw [captures_advance] at hc
        exact .inl hc
      · cases h
  | condition holds =>
    rw [ends] at h
    split at h
    · obtain rfl := List.mem_singleton.mp h
      exact fun c hc => .inl hc
    · cases h
  | lookahead expected body _ =>
    rw [ends] at h
    split at h
    · cases h
    · obtain rfl := List.mem_singleton.mp h
      exact fun c hc => .inl hc

/-- What a match has captured under a label is nothing, or a text that its pattern captures. -/
theorem captured_of_matchAt? {pattern : Pattern} {before : Option Char} {text : List Char}
    {offset : Nat} {m : Found} (h : pattern.matchAt? ⟨before, text, offset, []⟩ = some m)
    (label : Nat) : m.captured label = [] ∨ pattern.Captures label (m.captured label) := by
  obtain ⟨q, hq, rfl⟩ := Option.map_eq_some_iff.mp h
  rw [Found.captured]
  cases hfind : (Found.ofEnds ⟨before, text, offset, []⟩ q).capture? label with
  | none => exact .inl rfl
  | some c =>
    have hlabel : c.label = label := by simpa using List.find?_some hfind
    rcases captures_of_mem_ends (List.mem_of_head? hq) c (List.mem_of_find?_eq_some hfind) with
      hc | hc
    · cases hc
    · exact .inr (hlabel ▸ hc)

/-- Whether what a pattern captures under a label never holds any of some characters. -/
def capturesNone (chars : List Char) (label : Nat) : Pattern → Bool
  | .seq first second | .either first second =>
    capturesNone chars label first && capturesNone chars label second
  | .many _ body => capturesNone chars label body
  | .capture l body => (l != label || body.takesNone chars) && capturesNone chars label body
  | .empty | .char _ | .again _ | .condition _ | .lookahead .. => true

theorem not_mem_of_captures {chars : List Char} {label : Nat} {pattern : Pattern}
    (h : pattern.capturesNone chars label = true) {w : List Char}
    (hw : pattern.Captures label w) : ∀ c ∈ w, c ∉ chars := by
  induction pattern with
  | seq first second ihfirst ihsecond | either first second ihfirst ihsecond =>
    obtain ⟨hfirst, hsecond⟩ := Bool.and_eq_true_iff.mp h
    exact hw.elim (ihfirst hfirst) (ihsecond hsecond)
  | many greedy body ih => exact ih h hw
  | capture l body ih =>
    obtain ⟨hown, hbody⟩ := Bool.and_eq_true_iff.mp h
    rcases hw with ⟨rfl, hw⟩ | hw
    · exact not_mem_of_takesNone body (by simpa using hown) hw
    · exact ih hbody hw
  | empty | char | again | condition | lookahead => cases hw

theorem not_mem_captured {chars : List Char} {label : Nat} {pattern : Pattern}
    (h : pattern.capturesNone chars label = true) {before : Option Char} {text : List Char}
    {offset : Nat} {m : Found} (hm : pattern.matchAt? ⟨before, text, offset, []⟩ = some m) :
    ∀ c ∈ m.captured label, c ∉ chars := by
  rcases captured_of_matchAt? hm label with hnil | hcaptures
  · simp [hnil]
  · exact not_mem_of_captures h hcaptures

/-- Whether a pattern takes none of some characters unless it takes once more what was captured. -/
def bringsNone (chars : List Char) : Pattern → Bool
  | .char accepts => chars.all fun c => !accepts c
  | .seq first second | .either first second => bringsNone chars first && bringsNone chars second
  | .many _ body | .capture _ body => bringsNone chars body
  | .empty | .again _ | .condition _ | .lookahead .. => true

/-- As long as what was captured holds none of some characters, neither does what is taken. -/
theorem free_of_mem_ends {chars : List Char} {pattern : Pattern}
    (h : pattern.bringsNone chars = true) {p q : Progress} (hq : q ∈ pattern.ends p)
    (hp : ∀ c ∈ p.captures, ∀ d ∈ c.text, d ∉ chars) :
    (∃ w, Over p w q ∧ ∀ d ∈ w, d ∉ chars) ∧ ∀ c ∈ q.captures, ∀ d ∈ c.text, d ∉ chars := by
  induction pattern generalizing p q with
  | empty =>
    obtain rfl := List.mem_singleton.mp hq
    exact ⟨⟨[], .refl q, by simp⟩, hp⟩
  | char accepts =>
    rw [ends] at hq
    split at hq
    · cases hq
    next d cs hrest =>
    split at hq
    · next hd =>
      obtain rfl := List.mem_singleton.mp hq
      refine ⟨⟨[d], .next hrest, fun e he hmem => ?_⟩, by rwa [Progress.next, hrest]⟩
      obtain rfl := List.mem_singleton.mp he
      rw [bringsNone, List.all_eq_true] at h
      exact Bool.eq_false_iff.mp ((Bool.not_eq_true' _).mp (h e hmem)) hd
    · cases hq
  | seq first second ihfirst ihsecond =>
    obtain ⟨hfirst, hsecond⟩ := Bool.and_eq_true_iff.mp h
    obtain ⟨middle, hmiddle, hq⟩ := List.mem_flatMap.mp hq
    obtain ⟨⟨u, hover, hu⟩, hmiddleFree⟩ := ihfirst hfirst hmiddle hp
    obtain ⟨⟨v, hover', hv⟩, hfree⟩ := ihsecond hsecond hq hmiddleFree
    exact ⟨⟨u ++ v, hover.trans hover', List.forall_mem_append.mpr ⟨hu, hv⟩⟩, hfree⟩
  | either first second ihfirst ihsecond =>
    obtain ⟨hfirst, hsecond⟩ := Bool.and_eq_true_iff.mp h
    rcases List.mem_append.mp hq with hq | hq
    · exact ihfirst hfirst hq hp
    · exact ihsecond hsecond hq hp
  | many greedy body ih =>
    refine @rel_of_mem_repeatEnds _ _
      (fun p q => (∀ c ∈ p.captures, ∀ d ∈ c.text, d ∉ chars) →
        (∃ w, Over p w q ∧ ∀ d ∈ w, d ∉ chars) ∧ ∀ c ∈ q.captures, ∀ d ∈ c.text, d ∉ chars)
      (fun p hp => ⟨⟨[], .refl p, by simp⟩, hp⟩) ?_ (fun _ _ hq hp => ih h hq hp) _ p q hq hp
    intro p q r hfirst hsecond hp
    obtain ⟨⟨u, hover, hu⟩, hmiddleFree⟩ := hfirst hp
    obtain ⟨⟨v, hover', hv⟩, hfree⟩ := hsecond hmiddleFree
    exact ⟨⟨u ++ v, hover.trans hover', List.forall_mem_append.mpr ⟨hu, hv⟩⟩, hfree⟩
  | capture label body ih =>
    obtain ⟨r, hr, rfl⟩ := List.mem_map.mp hq
    obtain ⟨⟨w, hover, hw⟩, hfree⟩ := ih h hr hp
    refine ⟨⟨w, hover.captures _, hw⟩, List.forall_mem_cons.mpr ⟨?_, hfree⟩⟩
    rwa [hover.take_eq]
  | again label =>
    rw [ends] at hq
    split at hq
    · cases hq
    next c hc =>
    split at hq
    · next hprefix =>
      obtain rfl := List.mem_singleton.mp hq
      exact ⟨⟨c.text, .advance (List.isPrefixOf_iff_prefix.mp hprefix),
        hp c (List.mem_of_find?_eq_some hc)⟩, by rwa [captures_advance]⟩
    · cases hq
  | condition holds =>
    rw [ends] at hq
    split at hq
    · obtain rfl := List.mem_singleton.mp hq
      exact ⟨⟨[], .refl q, by simp⟩, hp⟩
    · cases hq
  | lookahead expected body _ =>
    rw [ends] at hq
    split at hq
    · cases hq
    · obtain rfl := List.mem_singleton.mp hq
      exact ⟨⟨[], .refl q, by simp⟩, hp⟩

theorem not_mem_text_of_bringsNone {chars : List Char} {pattern : Pattern}
    (h : pattern.bringsNone chars = true) {before : Option Char} {text : List Char} {offset : Nat}
    {m : Found} (hm : pattern.matchAt? ⟨before, text, offset, []⟩ = some m) :
    ∀ c ∈ m.text, c ∉ chars := by
  obtain ⟨q, hq, rfl⟩ := Option.map_eq_some_iff.mp hm
  obtain ⟨⟨w, hover, hw⟩, -⟩ := free_of_mem_ends h (List.mem_of_head? hq) (by simp)
  rwa [Found.ofEnds, hover.take_eq]

/-- Whether a pattern keeps nothing under a label. -/
def keepsNone (label : Nat) : Pattern → Bool
  | .seq first second | .either first second => keepsNone label first && keepsNone label second
  | .many _ body => keepsNone label body
  | .capture l body => l != label && keepsNone label body
  | .empty | .char _ | .again _ | .condition _ | .lookahead .. => true

theorem not_captures_of_keepsNone {label : Nat} {pattern : Pattern}
    (h : pattern.keepsNone label = true) (w : List Char) : ¬pattern.Captures label w := by
  induction pattern with
  | seq first second ihfirst ihsecond | either first second ihfirst ihsecond =>
    obtain ⟨hfirst, hsecond⟩ := Bool.and_eq_true_iff.mp h
    exact fun hw => hw.elim (ihfirst hfirst) (ihsecond hsecond)
  | many greedy body ih => exact ih h
  | capture l body ih =>
    obtain ⟨hl, hbody⟩ := Bool.and_eq_true_iff.mp h
    rintro (⟨rfl, -⟩ | hw)
    · simp at hl
    · exact ih hbody hw
  | empty | char | again | condition | lookahead => exact id

theorem captures_all {patterns : List Pattern} {label : Nat} {w : List Char} :
    (all patterns).Captures label w ↔ ∃ p ∈ patterns, p.Captures label w := by
  induction patterns with
  | nil => simp [all, Captures]
  | cons pattern patterns ih =>
    cases patterns with
    | nil => simp [all]
    | cons next others =>
      have hcons : (all (pattern :: next :: others)).Captures label w ↔
          pattern.Captures label w ∨ (all (next :: others)).Captures label w := .rfl
      rw [hcons, ih]
      simp

/-- What has been captured under a label is left alone by a pattern that keeps nothing under it. -/
theorem captured?_of_mem_ends {label : Nat} {pattern : Pattern}
    (hkeeps : pattern.keepsNone label = true) {p q : Progress} (h : q ∈ pattern.ends p) :
    q.captured? label = p.captured? label := by
  induction pattern generalizing p q with
  | empty =>
    obtain rfl := List.mem_singleton.mp h
    rfl
  | char accepts =>
    rw [ends] at h
    split at h
    · cases h
    · next d cs hrest =>
      split at h
      · obtain rfl := List.mem_singleton.mp h
        rw [Progress.next, hrest]
        rfl
      · cases h
  | seq first second ihfirst ihsecond =>
    obtain ⟨hfirst, hsecond⟩ := Bool.and_eq_true_iff.mp hkeeps
    obtain ⟨middle, hmiddle, hq⟩ := List.mem_flatMap.mp h
    exact (ihsecond hsecond hq).trans (ihfirst hfirst hmiddle)
  | either first second ihfirst ihsecond =>
    obtain ⟨hfirst, hsecond⟩ := Bool.and_eq_true_iff.mp hkeeps
    rcases List.mem_append.mp h with h | h
    · exact ihfirst hfirst h
    · exact ihsecond hsecond h
  | many greedy body ih =>
    exact @rel_of_mem_repeatEnds _ _ (fun p q => q.captured? label = p.captured? label)
      (fun _ => rfl) (fun h h' => h'.trans h) (fun _ _ => ih hkeeps) _ p q h
  | capture l body ih =>
    obtain ⟨hl, hbody⟩ := Bool.and_eq_true_iff.mp hkeeps
    obtain ⟨r, hr, rfl⟩ := List.mem_map.mp h
    rw [← ih hbody hr, Progress.captured?, Progress.captured?,
      List.find?_cons_of_neg (by simpa using hl)]
  | again l =>
    rw [ends] at h
    split at h
    · cases h
    · split at h
      · obtain rfl := List.mem_singleton.mp h
        rw [Progress.captured?, captures_advance]
        rfl
      · cases h
  | condition holds =>
    rw [ends] at h
    split at h
    · obtain rfl := List.mem_singleton.mp h
      rfl
    · cases h
  | lookahead expected body _ =>
    rw [ends] at h
    split at h
    · cases h
    · obtain rfl := List.mem_singleton.mp h
      rfl

/-- What the first of several patterns captures stays if the others keep nothing under its label. The
others go on from behind it. -/
theorem exists_step_of_mem_ends_capture {label : Nat} {body : Pattern} {patterns : List Pattern}
    (hkeeps : (all patterns).keepsNone label = true) {p q : Progress}
    (h : q ∈ (all (.capture label body :: patterns)).ends p) :
    ∃ r ∈ body.ends p, ∃ u, Over p u r ∧ body.Takes u ∧
      (∃ captures, q ∈ (all patterns).ends { r with captures := captures }) ∧
      (Found.ofEnds p q).captured label = u := by
  rw [ends_all_cons] at h
  obtain ⟨middle, hmiddle, hothers⟩ := List.mem_flatMap.mp h
  obtain ⟨r, hr, rfl⟩ := List.mem_map.mp hmiddle
  obtain ⟨u, hu, hover⟩ := exists_takes hr
  refine ⟨r, hr, u, hover, hu, ⟨_, hothers⟩, ?_⟩
  have hcaptured := captured?_of_mem_ends hkeeps hothers
  rw [Progress.captured?, Progress.captured?, List.find?_cons_of_pos (by simp)] at hcaptured
  rw [Found.captured, Found.capture?, Found.ofEnds, hcaptured]
  exact hover.take_eq

theorem exists_of_mem_ends_capture {label : Nat} {body : Pattern} {patterns : List Pattern}
    (hkeeps : (all patterns).keepsNone label = true) {p q : Progress}
    (h : q ∈ (all (.capture label body :: patterns)).ends p) :
    ∃ r ∈ body.ends p, ∃ u v, Over p u r ∧ Over p (u ++ v) q ∧ body.Takes u ∧
      (all patterns).Takes v ∧ (Found.ofEnds p q).captured label = u := by
  obtain ⟨r, hr, u, hover, hu, ⟨_, hothers⟩, hcaptured⟩ := exists_step_of_mem_ends_capture hkeeps h
  obtain ⟨v, hv, hover'⟩ := exists_takes hothers
  exact ⟨r, hr, u, v, hover, (hover.captures _).trans hover', hu, hv, hcaptured⟩

theorem exists_of_matchAt?_capture {label : Nat} {body : Pattern} {patterns : List Pattern}
    (hkeeps : (all patterns).keepsNone label = true) {p : Progress} {m : Found}
    (h : (all (.capture label body :: patterns)).matchAt? p = some m) :
    ∃ q ∈ body.ends p, m.captured label = p.rest.take (q.offset - p.offset) := by
  obtain ⟨last, hlast, rfl⟩ := Option.map_eq_some_iff.mp h
  obtain ⟨q, hq, u, v, hover, -, -, -, hcaptured⟩ :=
    exists_of_mem_ends_capture hkeeps (List.mem_of_head? hlast)
  exact ⟨q, hq, hcaptured.trans hover.take_eq.symm⟩

/-! ## Matches in a whole text -/

/-- The parts that the text after `before` is divided into. A match is of some length. -/
inductive Divides (pattern : Pattern) : List Char → List Char → List Part → Prop where
  | nil {before : List Char} : Divides pattern before [] []
  | plain {before cs : List Char} {c : Char} {parts : List Part}
      (none : pattern.matchAt? ⟨before.getLast?, c :: cs, before.length, []⟩ = none)
      (others : Divides pattern (before ++ [c]) cs parts) :
      Divides pattern before (c :: cs) (.plain c :: parts)
  | found {before : List Char} {m : Found} {parts : List Part}
      (matched : pattern.matchAt? ⟨before.getLast?, m.text ++ m.after, before.length, []⟩ = some m)
      (some : m.text ≠ [])
      (others : Divides pattern (before ++ m.text) m.after parts) :
      Divides pattern before (m.text ++ m.after) (.found m :: parts)

/-- What stands before a place behind a text, if it is known what stands before the text. -/
theorem getLast?_cons_or (c : Char) (cs : List Char) (before : Option Char) :
    (c :: cs).getLast?.or before = cs.getLast?.or (some c) := by
  rw [List.getLast?_cons]
  cases cs.getLast? <;> rfl

/-- What is skipped is not divided. -/
theorem partsFrom_skip (pattern : Pattern) (before : Option Char) (offset : Nat)
    (w after : List Char) : pattern.partsFrom before offset w.length (w ++ after) =
      pattern.partsFrom (w.getLast?.or before) (offset + w.length) 0 after := by
  induction w generalizing before offset with
  | nil => rfl
  | cons c cs ih =>
    rw [List.length_cons, List.cons_append, partsFrom, ih, getLast?_cons_or, Nat.add_assoc,
      Nat.add_comm 1]

/-- A match at the start of a text is the first of its parts. -/
theorem partsFrom_of_match {pattern : Pattern} {before : Option Char} {offset : Nat} {m : Found}
    {w after : List Char} (hne : w ≠ [])
    (h : pattern.matchAt? ⟨before, w ++ after, offset, []⟩ = some m) (hw : m.text = w) :
    pattern.partsFrom before offset 0 (w ++ after) =
      .found m :: pattern.partsFrom (w.getLast?.or before) (offset + w.length) 0 after := by
  obtain ⟨c, cs, rfl⟩ := List.exists_cons_of_ne_nil hne
  rw [List.cons_append] at h ⊢
  rw [partsFrom, h]
  dsimp only
  rw [hw, List.length_cons, Nat.add_sub_cancel, partsFrom_skip, getLast?_cons_or, Nat.add_assoc,
    Nat.add_comm 1]

theorem divides_partsFrom {pattern : Pattern} (h : pattern.takesSome = true)
    (before text : List Char) : Divides pattern before text
      (pattern.partsFrom before.getLast? before.length 0 text) := by
  match text with
  | [] => exact .nil
  | c :: cs =>
    cases hmatch : pattern.matchAt? ⟨before.getLast?, c :: cs, before.length, []⟩ with
    | none =>
      rw [partsFrom_cons_of_none hmatch]
      have hothers := divides_partsFrom h (before ++ [c]) cs
      rw [List.getLast?_concat, List.length_append] at hothers
      exact .plain hmatch hothers
    | some m =>
      obtain ⟨htakes, hrest, -⟩ := exists_of_matchAt? hmatch
      have hrest : c :: cs = m.text ++ m.after := hrest
      have hsome := ne_nil_of_takesSome h htakes
      have hpos := List.length_pos_iff.mpr hsome
      have hshorter : m.after.length ≤ cs.length := by
        have hlength := congrArg List.length hrest
        rw [List.length_cons, List.length_append] at hlength
        omega
      have hothers := divides_partsFrom h (before ++ m.text) m.after
      rw [List.getLast?_append, List.length_append] at hothers
      rw [hrest] at hmatch ⊢
      rw [partsFrom_of_match hsome hmatch rfl]
      exact .found hmatch hsome hothers
termination_by text.length

/-- How a whole text is divided. -/
theorem divides_parts {pattern : Pattern} (h : pattern.takesSome = true) (text : List Char) :
    Divides pattern [] text (pattern.parts text) :=
  divides_partsFrom h [] text

namespace Divides

variable {pattern : Pattern} {before text : List Char} {parts : List Part}

/-- The text of a part. -/
def textOf : Part → List Char
  | .plain c => [c]
  | .found m => m.text

/-- Nothing is lost. -/
theorem flatMap_textOf (h : Divides pattern before text parts) : parts.flatMap textOf = text := by
  induction h with
  | nil => rfl
  | plain _ _ ih => rw [List.flatMap_cons, ih]; rfl
  | found _ _ _ ih => rw [List.flatMap_cons, ih]; rfl

/-- Each match stands somewhere in the text. -/
theorem exists_of_found (h : Divides pattern before text parts) {m : Found}
    (hm : .found m ∈ parts) : ∃ b : List Char, before <+: b ∧
      pattern.matchAt? ⟨b.getLast?, m.text ++ m.after, b.length, []⟩ = some m ∧ m.text ≠ [] ∧
      before ++ text = b ++ (m.text ++ m.after) := by
  induction h with
  | nil => cases hm
  | plain _ _ ih =>
    rcases List.mem_cons.mp hm with heq | hm
    · cases heq
    · obtain ⟨b, hb, hmatch, hsome, heq⟩ := ih hm
      exact ⟨b, (List.prefix_append _ _).trans hb, hmatch, hsome, by rw [← heq]; simp⟩
  | found hmatch hsome _ ih =>
    rcases List.mem_cons.mp hm with heq | hm
    · cases heq
      exact ⟨_, List.prefix_rfl, hmatch, hsome, rfl⟩
    · obtain ⟨b, hb, hmatch, hsome, heq⟩ := ih hm
      exact ⟨b, (List.prefix_append _ _).trans hb, hmatch, hsome, by rw [← heq]; simp⟩

/-- A text is divided in one way only. -/
theorem eq_partsFrom (h : Divides pattern before text parts) :
    parts = pattern.partsFrom before.getLast? before.length 0 text := by
  induction h with
  | nil => rfl
  | plain hnone _ ih =>
    rw [partsFrom_cons_of_none hnone, ih, List.getLast?_concat, List.length_append]
    rfl
  | found hmatch hsome _ ih =>
    rw [partsFrom_of_match hsome hmatch rfl, ih, List.getLast?_append, List.length_append]

/-- What some of the parts are divided from is the end of the text. -/
theorem exists_of_append_parts {front back : List Part}
    (h : Divides pattern before text (front ++ back)) :
    ∃ u v, text = u ++ v ∧ Divides pattern (before ++ u) v back := by
  induction front generalizing before text with
  | nil => exact ⟨[], text, rfl, by rwa [List.append_nil]⟩
  | cons part front ih =>
    rw [List.cons_append] at h
    cases h with
    | plain _ hothers =>
      obtain ⟨u, v, rfl, hback⟩ := ih hothers
      exact ⟨_ :: u, v, rfl, by rwa [List.append_assoc] at hback⟩
    | found _ _ hothers =>
      obtain ⟨u, v, hafter, hback⟩ := ih hothers
      exact ⟨_ ++ u, v, by rw [hafter, List.append_assoc], by rwa [List.append_assoc] at hback⟩

/-- Before a match stands the text of the parts before it. -/
theorem matched_behind {front back : List Part} {m : Found}
    (h : Divides pattern before text (front ++ .found m :: back)) :
    text = front.flatMap textOf ++ (m.text ++ m.after) ∧
      pattern.matchAt? ⟨(before ++ front.flatMap textOf).getLast?, m.text ++ m.after,
        (before ++ front.flatMap textOf).length, []⟩ = some m := by
  have htext := h.flatMap_textOf
  obtain ⟨u, v, rfl, hback⟩ := h.exists_of_append_parts
  have hv := hback.flatMap_textOf
  rw [List.flatMap_append, hv] at htext
  obtain rfl := List.append_cancel_right htext
  cases hback with
  | found matched => exact ⟨rfl, matched⟩

/-- A text that no match starts in is divided into its characters. -/
theorem exists_of_append {head body : List Char}
    (hnone : ∀ u v, head = u ++ v → v ≠ [] → pattern.matchAt?
      ⟨(before ++ u).getLast?, v ++ body, (before ++ u).length, []⟩ = none)
    (h : Divides pattern before (head ++ body) parts) :
    ∃ others, parts = head.map .plain ++ others ∧ Divides pattern (before ++ head) body others := by
  induction head generalizing before parts with
  | nil => exact ⟨parts, rfl, by rwa [List.append_nil]⟩
  | cons c cs ih =>
    have hfirst := hnone [] (c :: cs) rfl (List.cons_ne_nil c cs)
    rw [List.append_nil] at hfirst
    rw [List.cons_append] at h hfirst
    generalize htext : c :: (cs ++ body) = text at h
    cases h with
    | nil => cases htext
    | plain _ hothers =>
      obtain ⟨rfl, rfl⟩ := List.cons.inj htext
      obtain ⟨others, rfl, hbody⟩ := ih (fun u v hu hv => by
        have hlater := hnone (c :: u) v (by rw [hu]; rfl) hv
        rwa [List.append_cons] at hlater) hothers
      exact ⟨others, rfl, by rwa [List.append_assoc] at hbody⟩
    | found hmatch _ _ =>
      rw [← htext] at hmatch
      exact nomatch hfirst.symm.trans hmatch

/-- A match is found at each place where there is one, unless the place is inside an earlier match. -/
theorem exists_of_place (h : Divides pattern before text parts) {u v : List Char}
    (htext : text = u ++ v) (hv : v ≠ [])
    (hmatch : pattern.matchAt? ⟨(before ++ u).getLast?, v, (before ++ u).length, []⟩ ≠ none) :
    ∃ b x y m, .found m ∈ parts ∧
      pattern.matchAt? ⟨b.getLast?, m.text ++ m.after, b.length, []⟩ = some m ∧
      before ++ u = b ++ x ∧ m.text = x ++ y ∧ v = y ++ m.after ∧ y ≠ [] := by
  induction h generalizing u with
  | nil => exact absurd (List.nil_eq_append_iff.mp htext).2 hv
  | plain hnone _ ih =>
    cases u with
    | nil =>
      rw [List.nil_append] at htext
      rw [List.append_nil, ← htext] at hmatch
      exact absurd hnone hmatch
    | cons d u =>
      obtain ⟨rfl, hcs⟩ := List.cons.inj htext
      rw [List.append_cons] at hmatch
      obtain ⟨b, x, y, m, hm, hrest⟩ := ih hcs hmatch
      rw [← List.append_cons] at hrest
      exact ⟨b, x, y, m, .tail _ hm, hrest⟩
  | @found before m parts hfound _ _ ih =>
    -- The place is inside this match, or behind it.
    have hbehind : ∀ z, u = m.text ++ z → m.after = z ++ v →
        ∃ b x y m', .found m' ∈ Part.found m :: parts ∧
          pattern.matchAt? ⟨b.getLast?, m'.text ++ m'.after, b.length, []⟩ = some m' ∧
          before ++ u = b ++ x ∧ m'.text = x ++ y ∧ v = y ++ m'.after ∧ y ≠ [] := by
      rintro z rfl hz
      rw [← List.append_assoc] at hmatch ⊢
      obtain ⟨b, x, y, m', hm', hrest⟩ := ih hz hmatch
      exact ⟨b, x, y, m', .tail _ hm', hrest⟩
    rcases List.append_eq_append_iff.mp htext with ⟨z, hu, hz⟩ | ⟨z, hz, hv'⟩
    · exact hbehind z hu hz
    · by_cases hnil : z = []
      · subst hnil
        exact hbehind [] (by simpa using hz.symm) (by simpa using hv'.symm)
      · exact ⟨before, u, z, m, .head _, hfound, rfl, hz, hv', hnil⟩

theorem pairwise_start (h : Divides pattern before text parts) :
    parts.Pairwise fun part part' =>
      ∀ m m', part = .found m → part' = .found m' → m.start < m'.start := by
  induction h with
  | nil => exact .nil
  | plain _ _ ih =>
    refine List.pairwise_cons.mpr ⟨?_, ih⟩
    intro _ _ m m' hm
    cases hm
  | @found before m parts hmatch hsome hothers ih =>
    refine List.pairwise_cons.mpr ⟨?_, ih⟩
    rintro _ hpart m m' ⟨⟩ rfl
    obtain ⟨b, hb, hmatch', -⟩ := hothers.exists_of_found hpart
    have hlength := hb.length_le
    rw [List.length_append] at hlength
    have hpositive := List.length_pos_iff.mpr hsome
    rw [(exists_of_matchAt? hmatch).2.2, (exists_of_matchAt? hmatch').2.2]
    dsimp only
    omega

end Divides

theorem mem_findAll {pattern : Pattern} {text : List Char} {m : Found} :
    m ∈ pattern.findAll text ↔ .found m ∈ pattern.parts text := by
  rw [findAll, List.mem_filterMap]
  constructor
  · rintro ⟨part, hpart, heq⟩
    cases part with
    | plain c => cases heq
    | found m' => exact Option.some.inj heq ▸ hpart
  · exact fun h => ⟨.found m, h, rfl⟩

/-- Each match stands somewhere in the text. -/
theorem exists_of_mem_findAll {pattern : Pattern} (h : pattern.takesSome = true)
    {text : List Char} {m : Found} (hm : m ∈ pattern.findAll text) : ∃ b : List Char,
      pattern.matchAt? ⟨b.getLast?, m.text ++ m.after, b.length, []⟩ = some m ∧ m.text ≠ [] ∧
      text = b ++ (m.text ++ m.after) :=
  let ⟨b, _, hb⟩ := (divides_parts h text).exists_of_found (mem_findAll.mp hm)
  ⟨b, hb⟩

/-- Matches are found from left to right. -/
theorem pairwise_findAll {pattern : Pattern} (h : pattern.takesSome = true) (text : List Char) :
    (pattern.findAll text).Pairwise fun m m' => m.start < m'.start := by
  rw [findAll, List.pairwise_filterMap]
  refine (divides_parts h text).pairwise_start.imp ?_
  intro part part' hstart m hm m' hm'
  cases part with
  | plain c => cases hm
  | found k =>
    cases part' with
    | plain c => cases hm'
    | found k' =>
      obtain rfl := Option.some.inj hm
      obtain rfl := Option.some.inj hm'
      exact hstart k k' rfl rfl

/-- A text whose matches are all put back is left as it is. -/
theorem replace_eq_self {pattern : Pattern} (h : pattern.takesSome = true)
    {replacement : Found → List Char} {text : List Char}
    (hback : ∀ m ∈ pattern.findAll text, replacement m = m.text) :
    pattern.replace replacement text = text := by
  refine .trans ?_ (divides_parts h text).flatMap_textOf
  rw [replace, List.flatMap_def, List.flatMap_def]
  refine congrArg List.flatten (List.map_congr_left fun part hpart => ?_)
  cases part with
  | plain c => rfl
  | found m => exact hback m (mem_findAll.mpr hpart)

theorem length_flatMap_le {α β : Type} {f g : α → List β} {xs : List α}
    (h : ∀ x ∈ xs, (f x).length ≤ (g x).length) :
    (xs.flatMap f).length ≤ (xs.flatMap g).length ∧
      ((xs.flatMap f).length = (xs.flatMap g).length → ∀ x ∈ xs, (f x).length = (g x).length) := by
  induction xs with
  | nil => simp
  | cons x xs ih =>
    obtain ⟨hx, hxs⟩ := List.forall_mem_cons.mp h
    obtain ⟨hle, heq⟩ := ih hxs
    simp only [List.flatMap_cons, List.length_append, List.forall_mem_cons]
    refine ⟨by omega, fun hsum => ⟨by omega, heq (by omega)⟩⟩

/-- Replacements that are no longer than the matches do not make a text longer, and it keeps its
length only if they all have the length of the matches. -/
theorem length_replace_le {pattern : Pattern} (h : pattern.takesSome = true)
    {replacement : Found → List Char} {text : List Char}
    (hshort : ∀ m ∈ pattern.findAll text, (replacement m).length ≤ m.text.length) :
    (pattern.replace replacement text).length ≤ text.length ∧
      ((pattern.replace replacement text).length = text.length →
        ∀ m ∈ pattern.findAll text, (replacement m).length = m.text.length) := by
  have hparts : ∀ part ∈ pattern.parts text,
      ((fun | .plain c => [c] | .found m => replacement m : Part → List Char) part).length ≤
        (Divides.textOf part).length := by
    intro part hpart
    cases part with
    | plain c => exact Nat.le_refl _
    | found m => exact hshort m (mem_findAll.mpr hpart)
  obtain ⟨hle, heq⟩ := length_flatMap_le hparts
  rw [(divides_parts h text).flatMap_textOf] at hle heq
  exact ⟨hle, fun hlength m hm => heq hlength _ (mem_findAll.mp hm)⟩

end GuestCode.Text.Pattern
