import GuestCode.Text.Pattern

/-!
# Matches of patterns

How a pattern matches is computed one constructor and one character at a time, also where the text
goes on in an unknown way.

That a pattern does not match can often be told without computing: many patterns have to take some
character that a text does not hold, such as a letter of a keyword. Whether a pattern has to take a
character outside of an alphabet is read off the pattern itself; if it has to, it matches nowhere in
a text over that alphabet.

## Main statements

* `Pattern.ends_many_char_cons`: a repetition of characters takes the next one or stops before it.
* `Pattern.ends_suffix`: a match goes forward.
* `Pattern.parts_of_avoids`: a text over an alphabet holds no match of a pattern that has to leave
  it.
-/

namespace GuestCode.Text.Pattern

/-! ## Matching step by step -/

section Steps

variable {accepts : Char → Bool} {before : Option Char} {offset : Nat} {captures : List Capture}

@[simp] theorem ends_empty (p : Progress) : empty.ends p = [p] := rfl

@[simp] theorem ends_seq (first second : Pattern) (p : Progress) :
    (seq first second).ends p = (first.ends p).flatMap second.ends := rfl

@[simp] theorem ends_either (first second : Pattern) (p : Progress) :
    (either first second).ends p = first.ends p ++ second.ends p := rfl

@[simp] theorem ends_condition (holds : Option Char → List Char → Bool) (p : Progress) :
    (condition holds).ends p = if holds p.before p.rest then [p] else [] := rfl

@[simp] theorem ends_lookahead (expected : Bool) (body : Pattern) (p : Progress) :
    (lookahead expected body).ends p = if (body.ends p).isEmpty == expected then [] else [p] := rfl

@[simp] theorem ends_char_nil : (char accepts).ends ⟨before, [], offset, captures⟩ = [] := rfl

@[simp] theorem ends_char_cons (c : Char) (cs : List Char) :
    (char accepts).ends ⟨before, c :: cs, offset, captures⟩ =
      if accepts c then [⟨some c, cs, offset + 1, captures⟩] else [] := rfl

@[simp] theorem ends_many_char_nil :
    (many true (char accepts)).ends ⟨before, [], offset, captures⟩ =
      [⟨before, [], offset, captures⟩] := rfl

/-- A repetition of characters takes the next one or stops before it. -/
@[simp] theorem ends_many_char_cons (c : Char) (cs : List Char) :
    (many true (char accepts)).ends ⟨before, c :: cs, offset, captures⟩ =
      (if accepts c then (many true (char accepts)).ends ⟨some c, cs, offset + 1, captures⟩
        else []) ++ [⟨before, c :: cs, offset, captures⟩] := by
  cases h : accepts c <;> simp [ends, repeatEnds, Progress.next, h]

/-- A repetition stops at once where its body does not match. -/
theorem ends_many_of_eq_nil {body : Pattern} {p : Progress} (h : body.ends p = []) :
    (many true body).ends p = [p] := by
  rw [ends]
  cases p.rest.length <;> simp [repeatEnds, h]

end Steps

/-! ## Matches go forward -/

theorem next_rest_suffix (p : Progress) : p.next.rest <:+ p.rest := by
  unfold Progress.next
  split
  · exact List.suffix_rfl
  · next c cs h =>
    rw [h]
    exact List.suffix_cons c cs

theorem advance_rest_suffix (n : Nat) (p : Progress) : (p.advance n).rest <:+ p.rest := by
  induction n generalizing p with
  | zero => exact List.suffix_rfl
  | succ n ih => exact (ih p.next).trans (next_rest_suffix p)

/-- What each round of a repetition keeps is kept by all of it. -/
theorem rel_of_mem_repeatEnds {greedy : Bool} {step : Progress → List Progress}
    {rel : Progress → Progress → Prop} (refl : ∀ p, rel p p)
    (trans : ∀ {p q r}, rel p q → rel q r → rel p r) (hstep : ∀ p, ∀ q ∈ step p, rel p q)
    (fuel : Nat) (p : Progress) : ∀ q ∈ repeatEnds greedy step fuel p, rel p q := by
  induction fuel generalizing p with
  | zero => simpa [repeatEnds] using refl p
  | succ fuel ih =>
    have hfurther : ∀ q ∈ ((step p).filter fun q => p.offset < q.offset).flatMap
        (repeatEnds greedy step fuel), rel p q := by
      intro q hq
      obtain ⟨middle, hmiddle, hq⟩ := List.mem_flatMap.mp hq
      exact trans (hstep p middle (List.mem_filter.mp hmiddle).1) (ih middle q hq)
    intro q hq
    rw [repeatEnds] at hq
    cases greedy with
    | true =>
      rcases List.mem_append.mp hq with hq | hq
      · exact hfurther q hq
      · obtain rfl := List.mem_singleton.mp hq
        exact refl q
    | false =>
      rcases List.mem_cons.mp hq with rfl | hq
      · exact refl q
      · exact hfurther q hq

/-- What a match leaves is an end of the text. -/
theorem ends_suffix (pattern : Pattern) (p : Progress) :
    ∀ q ∈ pattern.ends p, q.rest <:+ p.rest := by
  induction pattern generalizing p with
  | empty => simp [ends]
  | char accepts =>
    intro q hq
    rw [ends] at hq
    split at hq
    · cases hq
    · split at hq
      · rw [List.mem_singleton.mp hq]
        exact next_rest_suffix p
      · cases hq
  | seq first second ihfirst ihsecond =>
    intro q hq
    rw [ends] at hq
    obtain ⟨middle, hmiddle, hq⟩ := List.mem_flatMap.mp hq
    exact (ihsecond middle q hq).trans (ihfirst p middle hmiddle)
  | either first second ihfirst ihsecond =>
    intro q hq
    rw [ends] at hq
    rcases List.mem_append.mp hq with hq | hq
    · exact ihfirst p q hq
    · exact ihsecond p q hq
  | many greedy body ih =>
    rw [ends]
    exact rel_of_mem_repeatEnds (fun _ => List.suffix_rfl) (fun h h' => h'.trans h) ih _ p
  | capture label body ih =>
    intro q hq
    rw [ends] at hq
    obtain ⟨r, hr, rfl⟩ := List.mem_map.mp hq
    exact ih p r hr
  | again label =>
    intro q hq
    rw [ends] at hq
    split at hq
    · cases hq
    · split at hq
      · rw [List.mem_singleton.mp hq]
        exact advance_rest_suffix _ p
      · cases hq
  | condition holds =>
    intro q hq
    rw [ends] at hq
    split at hq
    · obtain rfl := List.mem_singleton.mp hq
      exact List.suffix_rfl
    · cases hq
  | lookahead expected body _ =>
    intro q hq
    rw [ends] at hq
    split at hq
    · cases hq
    · obtain rfl := List.mem_singleton.mp hq
      exact List.suffix_rfl

/-! ## Characters that a pattern has to take -/

/-- Whether a pattern has to take a character that is not in an alphabet. -/
def avoids (alphabet : List Char) : Pattern → Bool
  | .char accepts => alphabet.all fun c => !accepts c
  | .seq first second => avoids alphabet first || avoids alphabet second
  | .either first second => avoids alphabet first && avoids alphabet second
  | .capture _ body => avoids alphabet body
  | .lookahead expected body => expected && avoids alphabet body
  | .empty | .many .. | .again _ | .condition _ => false

/-- A pattern that has to take another character does not match in a text over an alphabet. -/
theorem ends_eq_nil_of_avoids {alphabet : List Char} {pattern : Pattern}
    (h : pattern.avoids alphabet = true) {p : Progress} (hp : ∀ c ∈ p.rest, c ∈ alphabet) :
    pattern.ends p = [] := by
  induction pattern generalizing p with
  | char accepts =>
    rw [avoids, List.all_eq_true] at h
    rw [ends]
    split
    · rfl
    · next c cs hrest =>
      have hc := h c (hp c (by simp [hrest]))
      rw [if_neg (by simpa using hc)]
  | seq first second ihfirst ihsecond =>
    -- What the first pattern leaves is an end of the text, so it is over the alphabet as well.
    rw [avoids, Bool.or_eq_true] at h
    rw [ends, List.flatMap_eq_nil_iff]
    intro q hq
    rcases h with h | h
    · simp [ihfirst h hp] at hq
    · exact ihsecond h fun c hc => hp c ((ends_suffix first p q hq).subset hc)
  | either first second ihfirst ihsecond =>
    rw [avoids, Bool.and_eq_true] at h
    rw [ends, ihfirst h.1 hp, ihsecond h.2 hp, List.append_nil]
  | capture label body ih =>
    rw [avoids] at h
    rw [ends, ih h hp, List.map_nil]
  | lookahead expected body ih =>
    rw [avoids, Bool.and_eq_true] at h
    rw [ends, ih h.2 hp, h.1]
    rfl
  | empty => cases h
  | many greedy body => cases h
  | again label => cases h
  | condition holds => cases h

/-! ## Texts without a match -/

variable {alphabet : List Char} {pattern : Pattern}

theorem matchAt?_of_avoids (h : pattern.avoids alphabet = true) {p : Progress}
    (hp : ∀ c ∈ p.rest, c ∈ alphabet) : pattern.matchAt? p = none := by
  rw [matchAt?, ends_eq_nil_of_avoids h hp]
  rfl

theorem partsFrom_cons_of_none {before : Option Char} {c : Char} {cs : List Char} {offset : Nat}
    (h : pattern.matchAt? ⟨before, c :: cs, offset, []⟩ = none) :
    pattern.partsFrom before offset 0 (c :: cs) =
      .plain c :: pattern.partsFrom (some c) (offset + 1) 0 cs := by
  rw [partsFrom, h]

/-- A text over an alphabet holds no match of a pattern that has to take another character. -/
theorem parts_of_avoids (h : pattern.avoids alphabet = true) {text : List Char}
    (htext : ∀ c ∈ text, c ∈ alphabet) : pattern.parts text = text.map .plain := by
  -- The induction goes over ends of the text, before which something may stand.
  have hfrom : ∀ (text : List Char) (before : Option Char) (offset : Nat),
      (∀ c ∈ text, c ∈ alphabet) → pattern.partsFrom before offset 0 text = text.map .plain := by
    intro text
    induction text with
    | nil => exact fun _ _ _ => rfl
    | cons c cs ih =>
      intro before offset hall
      have hnone : pattern.matchAt? ⟨before, c :: cs, offset, []⟩ = none :=
        matchAt?_of_avoids h hall
      rw [partsFrom_cons_of_none hnone, List.map_cons, ih _ _ (List.forall_mem_cons.mp hall).2]
  exact hfrom text none 0 htext

theorem replace_of_avoids (h : pattern.avoids alphabet = true) (replacement : Found → List Char)
    {text : List Char} (htext : ∀ c ∈ text, c ∈ alphabet) :
    pattern.replace replacement text = text := by
  rw [replace, parts_of_avoids h htext, List.flatMap_map]
  exact List.flatMap_singleton' text

theorem findAll_of_avoids (h : pattern.avoids alphabet = true) {text : List Char}
    (htext : ∀ c ∈ text, c ∈ alphabet) : pattern.findAll text = [] := by
  rw [findAll, parts_of_avoids h htext, List.filterMap_map]
  exact List.filterMap_eq_nil_iff.mpr fun _ _ => rfl

end GuestCode.Text.Pattern
