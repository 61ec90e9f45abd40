import GuestCode.Proofs.Text.Language

/-!
# Texts that are known in part

That a pattern does not match at a place can be told from the start of the text there, if the match
breaks off before the end of what is known. Of a text that starts with characters of an alphabet it
is enough to know the character after these.

## Main statements

* `Pattern.matchAt?_eq_none_of_leaves`: no match at a known start of a text.
* `Pattern.matchAt?_eq_none_of_mayCross`: no match that starts among characters of an alphabet.
-/

namespace GuestCode.Text.Pattern

/-! ## A known start -/

/-- What a step leaves of each of several texts, `none` if it may need more than is known of one. -/
def leavesOfAll (step : List Char → Option (List (List Char))) :
    List (List Char) → Option (List (List Char))
  | [] => some []
  | known :: others => do
    let first ← step known
    let rest ← leavesOfAll step others
    return first ++ rest

/-- What repeating a step leaves, `none` if it may need more than is known. -/
def leavesOfMany (step : List Char → Option (List (List Char))) :
    Nat → List Char → Option (List (List Char))
  | 0, _ => none
  | fuel + 1, known => do
    let next ← step known
    let further ← leavesOfAll (leavesOfMany step fuel)
      (next.filter fun left => left.length < known.length)
    return known :: further

/-- What a pattern can leave of the known start of a text, `none` if it may need more than is known.
Conditions are taken to hold. -/
def leaves : Pattern → List Char → Option (List (List Char))
  | .empty, known | .condition _, known | .lookahead .., known => some [known]
  | .char _, [] => none
  | .char accepts, c :: cs => some (if accepts c then [cs] else [])
  | .seq first second, known => (first.leaves known).bind (leavesOfAll second.leaves)
  | .either first second, known => do
    let lefts ← first.leaves known
    let others ← second.leaves known
    return lefts ++ others
  | .many _ body, known => leavesOfMany body.leaves (known.length + 1) known
  | .capture _ body, known => body.leaves known
  | .again _, _ => none

theorem exists_of_leavesOfAll {step : List Char → Option (List (List Char))}
    {texts lefts : List (List Char)} (h : leavesOfAll step texts = some lefts) :
    ∀ known ∈ texts, ∃ own, step known = some own ∧ own ⊆ lefts := by
  induction texts generalizing lefts with
  | nil => simp
  | cons known others ih =>
    obtain ⟨first, hfirst, h⟩ := Option.bind_eq_some_iff.mp h
    obtain ⟨rest, hrest, h⟩ := Option.bind_eq_some_iff.mp h
    obtain rfl := Option.some.inj h
    refine List.forall_mem_cons.mpr ⟨⟨first, hfirst, List.subset_append_left _ _⟩, ?_⟩
    intro other hother
    obtain ⟨own, hown, hsubset⟩ := ih hrest other hother
    exact ⟨own, hown, List.Subset.trans hsubset (List.subset_append_right _ _)⟩

theorem exists_left_of_leavesOfMany {step : List Char → Option (List (List Char))}
    {language : List Char → Prop} {after : List Char}
    (hstep : ∀ {known lefts w rest}, step known = some lefts → language w →
      known ++ after = w ++ rest → ∃ left ∈ lefts, rest = left ++ after)
    {parts : List (List Char)} (hparts : ∀ w ∈ parts, language w) {fuel : Nat}
    {known rest : List Char} {lefts : List (List Char)}
    (h : leavesOfMany step fuel known = some lefts)
    (htext : known ++ after = parts.flatten ++ rest) : ∃ left ∈ lefts, rest = left ++ after := by
  induction parts generalizing fuel known lefts with
  | nil =>
    cases fuel with
    | zero => cases h
    | succ fuel =>
      obtain ⟨next, hnext, h⟩ := Option.bind_eq_some_iff.mp h
      obtain ⟨further, hfurther, h⟩ := Option.bind_eq_some_iff.mp h
      obtain rfl := Option.some.inj h
      exact ⟨known, .head _, htext.symm⟩
  | cons w parts ih =>
    obtain ⟨hw, hparts⟩ := List.forall_mem_cons.mp hparts
    by_cases hne : w = []
    · -- A round that takes nothing counts for nothing.
      exact ih hparts h (by rw [htext, hne]; rfl)
    cases fuel with
    | zero => cases h
    | succ fuel =>
      obtain ⟨next, hnext, h⟩ := Option.bind_eq_some_iff.mp h
      obtain ⟨further, hfurther, h⟩ := Option.bind_eq_some_iff.mp h
      obtain rfl := Option.some.inj h
      rw [List.flatten_cons, List.append_assoc] at htext
      obtain ⟨left, hleft, hrest⟩ := hstep hnext hw htext
      have hshorter : left.length < known.length := by
        have hlength := congrArg List.length htext
        have hpos := List.length_pos_iff.mpr hne
        rw [hrest] at hlength
        simp only [List.length_append] at hlength
        omega
      obtain ⟨own, hown, hsubset⟩ := exists_of_leavesOfAll hfurther left
        (List.mem_filter.mpr ⟨hleft, by simpa using hshorter⟩)
      obtain ⟨last, hlast, heq⟩ := ih hparts hown hrest.symm
      exact ⟨last, .tail _ (hsubset hlast), heq⟩

/-- What a pattern leaves of a text with a known start is known as well. -/
theorem exists_left_of_leaves {pattern : Pattern} {known w rest after : List Char}
    {lefts : List (List Char)} (h : pattern.leaves known = some lefts) (hw : pattern.Takes w)
    (htext : known ++ after = w ++ rest) : ∃ left ∈ lefts, rest = left ++ after := by
  induction pattern generalizing known w rest lefts with
  | empty | condition | lookahead =>
    obtain rfl := Option.some.inj h
    obtain rfl : w = [] := hw
    exact ⟨known, .head _, htext.symm⟩
  | char accepts =>
    obtain ⟨c, hc, rfl⟩ := hw
    cases known with
    | nil => cases h
    | cons d cs =>
      obtain ⟨rfl, hrest⟩ := List.cons.inj htext
      rw [leaves, if_pos hc] at h
      obtain rfl := Option.some.inj h
      exact ⟨cs, .head _, hrest.symm⟩
  | seq first second ihfirst ihsecond =>
    obtain ⟨u, v, rfl, hu, hv⟩ := hw
    rw [List.append_assoc] at htext
    obtain ⟨middles, hmiddles, h⟩ := Option.bind_eq_some_iff.mp h
    obtain ⟨middle, hmiddle, hrest⟩ := ihfirst hmiddles hu htext
    obtain ⟨own, hown, hsubset⟩ := exists_of_leavesOfAll h middle hmiddle
    obtain ⟨left, hleft, heq⟩ := ihsecond hown hv hrest.symm
    exact ⟨left, hsubset hleft, heq⟩
  | either first second ihfirst ihsecond =>
    obtain ⟨lefts, hlefts, h⟩ := Option.bind_eq_some_iff.mp h
    obtain ⟨others, hothers, h⟩ := Option.bind_eq_some_iff.mp h
    obtain rfl := Option.some.inj h
    rcases hw with hw | hw
    · obtain ⟨left, hleft, heq⟩ := ihfirst hlefts hw htext
      exact ⟨left, List.mem_append_left _ hleft, heq⟩
    · obtain ⟨left, hleft, heq⟩ := ihsecond hothers hw htext
      exact ⟨left, List.mem_append_right _ hleft, heq⟩
  | many greedy body ih =>
    obtain ⟨parts, rfl, hparts⟩ := hw
    exact exists_left_of_leavesOfMany (fun h hw htext => ih h hw htext) hparts h htext
  | capture label body ih => exact ih h hw htext
  | again label => cases h

/-- A pattern does not match where it leaves nothing of what is known. -/
theorem matchAt?_eq_none_of_leaves {pattern : Pattern} {known after : List Char}
    (h : pattern.leaves known = some []) (before : Option Char) (offset : Nat)
    (captures : List Capture) :
    pattern.matchAt? ⟨before, known ++ after, offset, captures⟩ = none := by
  refine Option.eq_none_iff_forall_ne_some.mpr fun m hm => ?_
  obtain ⟨htakes, htext, -⟩ := exists_of_matchAt? hm
  obtain ⟨left, hleft, -⟩ := exists_left_of_leaves h htakes htext
  cases hleft

/-! ## A start over an alphabet -/

/-- Whether a pattern may take a text over an alphabet. -/
def mayTake (alphabet : List Char) : Pattern → Bool
  | .char accepts => alphabet.any accepts
  | .seq first second => mayTake alphabet first && mayTake alphabet second
  | .either first second => mayTake alphabet first || mayTake alphabet second
  | .capture _ body => mayTake alphabet body
  | .empty | .many .. | .again _ | .condition _ | .lookahead .. => true

/-- Whether a pattern may take a certain character with only characters of an alphabet before. -/
def mayCross (alphabet : List Char) (edge : Char) : Pattern → Bool
  | .char accepts => accepts edge
  | .seq first second =>
    mayCross alphabet edge first || mayTake alphabet first && mayCross alphabet edge second
  | .either first second => mayCross alphabet edge first || mayCross alphabet edge second
  | .many _ body | .capture _ body => mayCross alphabet edge body
  | .again _ => true
  | .empty | .condition _ | .lookahead .. => false

section Alphabet

variable {alphabet : List Char} {edge : Char} {pattern : Pattern} {u v w : List Char}

theorem mayTake_of_takes (hw : pattern.Takes w) (halphabet : ∀ c ∈ w, c ∈ alphabet) :
    pattern.mayTake alphabet = true := by
  induction pattern generalizing w with
  | empty | many | again | condition | lookahead => rfl
  | char accepts =>
    obtain ⟨c, hc, rfl⟩ := hw
    exact List.any_eq_true.mpr ⟨c, halphabet c (.head _), hc⟩
  | seq first second ihfirst ihsecond =>
    obtain ⟨u, v, rfl, hu, hv⟩ := hw
    obtain ⟨hleft, hright⟩ := List.forall_mem_append.mp halphabet
    exact Bool.and_eq_true_iff.mpr ⟨ihfirst hu hleft, ihsecond hv hright⟩
  | either first second ihfirst ihsecond =>
    exact Bool.or_eq_true_iff.mpr
      (hw.imp (fun hw => ihfirst hw halphabet) (fun hw => ihsecond hw halphabet))
  | capture label body ih => exact ih hw halphabet

/-- A character of joined texts is in one of them, and what is before it there is before it. -/
theorem exists_mem_of_flatten_eq {parts : List (List Char)} (h : parts.flatten = u ++ edge :: v) :
    ∃ x y, x ++ edge :: y ∈ parts ∧ x ⊆ u := by
  induction parts generalizing u with
  | nil => simp at h
  | cons w parts ih =>
    rw [List.flatten_cons] at h
    rcases List.append_eq_append_iff.mp h with ⟨x, rfl, hlater⟩ | ⟨x, rfl, hedge⟩
    · obtain ⟨x', y, hmem, hx'⟩ := ih hlater
      exact ⟨x', y, .tail _ hmem, List.Subset.trans hx' (List.subset_append_right _ _)⟩
    · cases x with
      | nil =>
        obtain ⟨x', y, hmem, hx'⟩ := @ih [] hedge.symm
        exact ⟨x', y, .tail _ hmem, List.Subset.trans hx' (List.nil_subset u)⟩
      | cons c x =>
        obtain ⟨rfl, -⟩ := List.cons.inj hedge
        exact ⟨u, x, .head _, List.Subset.refl u⟩

theorem mayCross_of_takes (hw : pattern.Takes (u ++ edge :: v))
    (halphabet : ∀ c ∈ u, c ∈ alphabet) : pattern.mayCross alphabet edge = true := by
  induction pattern generalizing u v with
  | empty | condition | lookahead =>
    have hnil : u ++ edge :: v = [] := hw
    simp at hnil
  | again => rfl
  | char accepts =>
    obtain ⟨c, hc, heq⟩ := hw
    obtain ⟨rfl, rfl, rfl⟩ : u = [] ∧ edge = c ∧ v = [] := by
      cases u with
      | nil => simpa using heq
      | cons => simp at heq
    exact hc
  | seq first second ihfirst ihsecond =>
    obtain ⟨left, right, heq, hleft, hright⟩ := hw
    rw [mayCross, Bool.or_eq_true, Bool.and_eq_true]
    rcases List.append_eq_append_iff.mp heq with ⟨x, rfl, hedge⟩ | ⟨x, rfl, rfl⟩
    · cases x with
      | nil =>
        obtain rfl : edge :: v = right := hedge
        rw [List.append_nil] at hleft
        exact .inr ⟨mayTake_of_takes hleft halphabet, @ihsecond [] v hright (by simp)⟩
      | cons c x =>
        obtain ⟨rfl, -⟩ := List.cons.inj hedge
        exact .inl (ihfirst hleft halphabet)
    · obtain ⟨hin, hinx⟩ := List.forall_mem_append.mp halphabet
      exact .inr ⟨mayTake_of_takes hleft hin, ihsecond hright hinx⟩
  | either first second ihfirst ihsecond =>
    exact Bool.or_eq_true_iff.mpr
      (hw.imp (fun hw => ihfirst hw halphabet) (fun hw => ihsecond hw halphabet))
  | many greedy body ih =>
    obtain ⟨parts, heq, hparts⟩ := hw
    obtain ⟨x, y, hmem, hx⟩ := exists_mem_of_flatten_eq heq.symm
    exact ih (hparts _ hmem) fun c hc => halphabet c (hx hc)
  | capture label body ih => exact ih hw halphabet

/-- A pattern that has to leave an alphabet, and cannot take the character that comes next, does not
match. -/
theorem matchAt?_eq_none_of_mayCross (htake : pattern.mayTake alphabet = false)
    (hcross : pattern.mayCross alphabet edge = false) (hu : ∀ c ∈ u, c ∈ alphabet)
    (before : Option Char) (offset : Nat) (captures : List Capture) :
    pattern.matchAt? ⟨before, u ++ edge :: v, offset, captures⟩ = none := by
  refine Option.eq_none_iff_forall_ne_some.mpr fun m hm => ?_
  obtain ⟨htakes, htext, -⟩ := exists_of_matchAt? hm
  rcases List.append_eq_append_iff.mp htext with ⟨x, hx, hedge⟩ | ⟨x, rfl, -⟩
  · cases x with
    | nil =>
      rw [List.append_nil] at hx
      exact nomatch htake.symm.trans (mayTake_of_takes htakes (hx ▸ hu))
    | cons c x =>
      obtain ⟨rfl, -⟩ := List.cons.inj hedge
      exact nomatch hcross.symm.trans (mayCross_of_takes (hx ▸ htakes) hu)
  · exact nomatch htake.symm.trans
      (mayTake_of_takes htakes (List.forall_mem_append.mp hu).1)

end Alphabet

end GuestCode.Text.Pattern
