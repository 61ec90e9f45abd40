import GuestCode.Proofs.Text.Known
import Mathlib.Data.List.Forall2

/-!
# Replacing in one part of a text

Most patterns look no further than one character ahead, and no match of a pattern goes over a
character that it does not take. So such a character divides a text: what is replaced before it is
the same whatever stands behind it.

This is shown by matching twice: wherever the same is left of two texts up to the character, a
pattern goes the same ways in both, in the same order.

## Main statements

* `Pattern.replaceFrom`: replacing in a text that stands behind another one.
* `Pattern.ends_alike`: a pattern goes the same ways in two texts that differ behind a character
  that it does not take.
* `Pattern.exists_replaceFrom_append`: what is replaced in the common start of two texts.
* `Pattern.replaceFrom_append`: such a character divides a text.
-/

namespace GuestCode.Text.Pattern

/-! ## Replacing from a place on -/

/-- Replaces every match in a text, of which the first character is at a place behind another
character. -/
def replaceFrom (pattern : Pattern) (replacement : Found → List Char) (before : Option Char)
    (offset : Nat) (text : List Char) : List Char :=
  (pattern.partsFrom before offset 0 text).flatMap fun
    | .plain c => [c]
    | .found m => replacement m

section ReplaceFrom

variable {pattern : Pattern} {replacement : Found → List Char} {before : Option Char}
  {offset : Nat} {text rest w : List Char}

theorem replace_eq_replaceFrom (pattern : Pattern) (replacement : Found → List Char)
    (text : List Char) :
    pattern.replace replacement text = pattern.replaceFrom replacement none 0 text := rfl

@[simp] theorem replaceFrom_nil : pattern.replaceFrom replacement before offset [] = [] := rfl

theorem replaceFrom_cons_of_none {c : Char} {cs : List Char}
    (h : pattern.matchAt? ⟨before, c :: cs, offset, []⟩ = none) :
    pattern.replaceFrom replacement before offset (c :: cs) =
      c :: pattern.replaceFrom replacement (some c) (offset + 1) cs := by
  rw [replaceFrom, partsFrom_cons_of_none h]
  rfl

/-- A text in which no match starts is divided into its characters. -/
theorem partsFrom_append_of_none
    (h : ∀ u v, text = u ++ v → v ≠ [] →
      pattern.matchAt? ⟨u.getLast?.or before, v ++ rest, offset + u.length, []⟩ = none) :
    pattern.partsFrom before offset 0 (text ++ rest) =
      text.map .plain ++ pattern.partsFrom (text.getLast?.or before) (offset + text.length) 0
        rest := by
  induction text generalizing before offset with
  | nil => rfl
  | cons c cs ih =>
    have hnone : pattern.matchAt? ⟨before, c :: (cs ++ rest), offset, []⟩ = none :=
      h [] (c :: cs) rfl (List.cons_ne_nil c cs)
    have hlater := @ih (some c) (offset + 1) fun u v huv hv => by
      have hmatch := h (c :: u) v (by rw [huv]; rfl) hv
      rwa [getLast?_cons_or, List.length_cons, Nat.add_comm u.length, ← Nat.add_assoc] at hmatch
    rw [List.cons_append, partsFrom_cons_of_none hnone, hlater, getLast?_cons_or,
      List.length_cons, Nat.add_assoc, Nat.add_comm 1]
    rfl

/-- A text in which no match starts stays as it is. -/
theorem replaceFrom_append_of_none
    (h : ∀ u v, text = u ++ v → v ≠ [] →
      pattern.matchAt? ⟨u.getLast?.or before, v ++ rest, offset + u.length, []⟩ = none) :
    pattern.replaceFrom replacement before offset (text ++ rest) =
      text ++ pattern.replaceFrom replacement (text.getLast?.or before) (offset + text.length)
        rest := by
  rw [replaceFrom, partsFrom_append_of_none h, List.flatMap_append, List.flatMap_map]
  congr 1
  exact List.flatMap_singleton' text

/-- The match that leads to the preferred place. -/
theorem matchAt?_of_head?_ends {behind : Option Char} {captures : List Capture}
    (h : (pattern.ends ⟨before, w ++ rest, offset, []⟩).head? =
      some ⟨behind, rest, offset + w.length, captures⟩) :
    pattern.matchAt? ⟨before, w ++ rest, offset, []⟩ = some ⟨offset, w, rest, captures⟩ := by
  rw [matchAt?, h, Option.map_some, Found.ofEnds]
  dsimp only
  rw [Nat.add_sub_cancel_left, List.take_left]

/-- A match at the start of a text. -/
theorem replaceFrom_append_of_match {m : Found} (hne : w ≠ [])
    (h : pattern.matchAt? ⟨before, w ++ rest, offset, []⟩ = some m) (hw : m.text = w) :
    pattern.replaceFrom replacement before offset (w ++ rest) =
      replacement m ++ pattern.replaceFrom replacement (w.getLast?.or before) (offset + w.length)
        rest := by
  rw [replaceFrom, partsFrom_of_match hne h hw]
  rfl

/-- A text over an alphabet stays as it is, if a match would have to leave the alphabet. -/
theorem replaceFrom_of_avoids {alphabet : List Char} (h : pattern.avoids alphabet = true)
    (htext : ∀ c ∈ text, c ∈ alphabet) :
    pattern.replaceFrom replacement before offset text = text := by
  have hnone := @replaceFrom_append_of_none pattern replacement before offset text []
    fun u v huv _ => matchAt?_of_avoids h fun c hc => by
      rw [List.append_nil] at hc
      exact htext c (huv ▸ List.mem_append_right u hc)
  rwa [List.append_nil, replaceFrom_nil, List.append_nil] at hnone

/-- A text over an alphabet stays as it is before a character, if a match would have to leave the
alphabet and cannot take the character. -/
theorem replaceFrom_of_mayCross {alphabet : List Char} {edge : Char}
    (htake : pattern.mayTake alphabet = false) (hcross : pattern.mayCross alphabet edge = false)
    (htext : ∀ c ∈ text, c ∈ alphabet) :
    pattern.replaceFrom replacement before offset (text ++ edge :: rest) =
      text ++ edge ::
        pattern.replaceFrom replacement (some edge) (offset + text.length + 1) rest := by
  have hinside : ∀ u v, text = u ++ v → v ≠ [] →
      pattern.matchAt? ⟨u.getLast?.or before, v ++ edge :: rest, offset + u.length, []⟩ = none :=
    fun u v huv _ => matchAt?_eq_none_of_mayCross htake hcross
      (fun c hc => htext c (huv ▸ List.mem_append_right u hc)) _ _ []
  have hnil : ∀ c ∈ ([] : List Char), c ∈ alphabet := by simp
  have hedge : pattern.matchAt? ⟨text.getLast?.or before, edge :: rest, offset + text.length, []⟩ =
      none := matchAt?_eq_none_of_mayCross htake hcross hnil _ _ []
  rw [replaceFrom_append_of_none hinside, replaceFrom_cons_of_none hedge]

/-- Inside a word no match starts that has to start where one begins or ends. -/
theorem replaceFrom_of_word {patterns : List Pattern} (hbefore : before.any isWordChar = true)
    (hword : ∀ c ∈ text, isWordChar c = true) :
    (all (wordEdge :: patterns)).replaceFrom replacement before offset (text ++ rest) =
      text ++ (all (wordEdge :: patterns)).replaceFrom replacement (text.getLast?.or before)
        (offset + text.length) rest := by
  refine replaceFrom_append_of_none fun u v huv hv => ?_
  refine Option.eq_none_iff_forall_ne_some.mpr fun m hm => ?_
  have hedge := holds_of_matchAt?_cons hm
  obtain ⟨c, cs, rfl⟩ := List.exists_cons_of_ne_nil hv
  have hc : isWordChar c = true := hword c (huv ▸ List.mem_append_right u (.head cs))
  have hlast : (u.getLast?.or before).any isWordChar = true := by
    cases hu : u.getLast? with
    | none => exact hbefore
    | some d => exact hword d (huv ▸ List.mem_append_left _ (List.mem_of_getLast? hu))
  simp [hlast, hc] at hedge

end ReplaceFrom

/-! ## Runs of characters -/

section Runs

variable {accepts : Char → Bool} {before : Option Char} {offset n : Nat} {captures : List Capture}
  {run rest w : List Char}

theorem takes_times_char (h : (times n (char accepts)).Takes w) :
    w.length = n ∧ ∀ c ∈ w, accepts c = true := by
  induction n generalizing w with
  | zero =>
    obtain rfl : w = [] := h
    simp
  | succ n ih =>
    rw [times, List.replicate_succ] at h
    obtain ⟨u, v, rfl, ⟨c, hc, rfl⟩, hv⟩ := takes_all_cons.mp h
    obtain ⟨hlength, hall⟩ := ih hv
    exact ⟨by simp [hlength], List.forall_mem_cons.mpr ⟨hc, hall⟩⟩

/-- A run of characters that is too short is not taken. -/
theorem ends_atLeast_eq_nil (hshort : run.length < n) (hend : rest.head?.any accepts = false) :
    (atLeast n (char accepts)).ends ⟨before, run ++ rest, offset, captures⟩ = [] := by
  refine List.eq_nil_iff_forall_not_mem.mpr fun q hq => ?_
  obtain ⟨w, ⟨u, v, rfl, hu, hv⟩, hover⟩ := exists_takes hq
  obtain ⟨hlength, hu⟩ := takes_times_char hu
  have htext : run ++ rest = (u ++ v) ++ q.rest := hover.rest
  rcases List.append_eq_append_iff.mp htext with ⟨x, hx, hrest⟩ | ⟨x, hx, -⟩
  · cases x with
    | nil =>
      have hle := congrArg List.length hx
      simp only [List.length_append, List.length_nil] at hle
      omega
    | cons c x =>
      have hall := List.forall_mem_append.mpr ⟨hu, takes_many_char.mp hv⟩
      have hc : accepts c = true := hall c (by simp [hx])
      rw [hrest] at hend
      exact nomatch hc.symm.trans hend
  · have hle := congrArg List.length hx
    simp only [List.length_append] at hle
    omega

theorem ends_times_char (h : ∀ c ∈ run, accepts c = true) :
    (times run.length (char accepts)).ends ⟨before, run ++ rest, offset, captures⟩ =
      [⟨run.getLast?.or before, rest, offset + run.length, captures⟩] := by
  induction run generalizing before offset with
  | nil => rfl
  | cons c cs ih =>
    obtain ⟨hc, hcs⟩ := List.forall_mem_cons.mp h
    have hlater := @ih (some c) (offset + 1) hcs
    rw [times] at hlater
    rw [times, List.length_cons, List.replicate_succ, ends_all_cons, List.cons_append,
      ends_char_cons, if_pos hc, List.flatMap_singleton, hlater, getLast?_cons_or, Nat.add_assoc,
      Nat.add_comm 1]

/-- A repetition prefers to take all of a run of characters. -/
theorem head?_ends_many_char (h : ∀ c ∈ run, accepts c = true)
    (hend : rest.head?.any accepts = false) :
    ((many true (char accepts)).ends ⟨before, run ++ rest, offset, captures⟩).head? =
      some ⟨run.getLast?.or before, rest, offset + run.length, captures⟩ := by
  induction run generalizing before offset with
  | nil =>
    cases rest with
    | nil => rfl
    | cons c cs =>
      have hc : ¬ accepts c = true := by simpa using hend
      rw [List.nil_append, ends_many_char_cons, if_neg hc]
      rfl
  | cons c cs ih =>
    obtain ⟨hc, hcs⟩ := List.forall_mem_cons.mp h
    rw [List.cons_append, ends_many_char_cons, if_pos hc, List.head?_append, ih hcs,
      getLast?_cons_or, List.length_cons, Nat.add_assoc, Nat.add_comm 1]
    rfl

theorem head?_ends_atLeast_char (hlong : n ≤ run.length) (h : ∀ c ∈ run, accepts c = true)
    (hend : rest.head?.any accepts = false) :
    ((atLeast n (char accepts)).ends ⟨before, run ++ rest, offset, captures⟩).head? =
      some ⟨run.getLast?.or before, rest, offset + run.length, captures⟩ := by
  obtain ⟨first, last, rfl, rfl⟩ : ∃ first last, run = first ++ last ∧ first.length = n :=
    ⟨run.take n, run.drop n, (List.take_append_drop n run).symm, List.length_take_of_le hlong⟩
  obtain ⟨hfirst, hlast⟩ := List.forall_mem_append.mp h
  rw [atLeast, ends_seq, List.append_assoc, ends_times_char hfirst, List.flatMap_singleton,
    head?_ends_many_char hlast hend, List.getLast?_append, Option.or_assoc, List.length_append,
    Nat.add_assoc]

end Runs

/-! ## Looking ahead -/

/-- Whether a pattern looks back and ahead by one character only. -/
def LooksNear : Pattern → Prop
  | .empty | .char _ => True
  | .seq first second | .either first second => LooksNear first ∧ LooksNear second
  | .many _ body | .capture _ body => LooksNear body
  | .condition holds => ∀ before rest other, rest.head? = other.head? →
      holds before rest = holds before other
  | .again _ | .lookahead .. => False

theorem looksNear_wordEdge : wordEdge.LooksNear := by
  intro before rest other hhead
  dsimp only
  rw [hhead]

theorem looksNear_all {patterns : List Pattern} (h : ∀ p ∈ patterns, p.LooksNear) :
    (all patterns).LooksNear := by
  induction patterns with
  | nil => trivial
  | cons p ps ih =>
    obtain ⟨hp, hps⟩ := List.forall_mem_cons.mp h
    cases ps with
    | nil => exact hp
    | cons => exact ⟨hp, ih hps⟩

theorem looksNear_times_char (n : Nat) (accepts : Char → Bool) :
    (times n (char accepts)).LooksNear :=
  looksNear_all fun p hp => by
    rw [List.eq_of_mem_replicate hp]
    trivial

/-! ## Repetitions -/

/-- A repetition has the same ends with more rounds than it needs. -/
theorem repeatEnds_congr {greedy : Bool} {step : Progress → List Progress}
    (hstep : ∀ p, ∀ q ∈ step p, ∃ w, Over p w q) {fuel fuel' : Nat} {p : Progress}
    (hfuel : p.rest.length ≤ fuel) (hfuel' : p.rest.length ≤ fuel') :
    repeatEnds greedy step fuel p = repeatEnds greedy step fuel' p := by
  have hshorter : ∀ {p q : Progress}, q ∈ (step p).filter (fun q => p.offset < q.offset) →
      q.rest.length < p.rest.length := by
    intro p q hq
    obtain ⟨hmem, hlt⟩ := List.mem_filter.mp hq
    obtain ⟨w, hover⟩ := hstep p q hmem
    rw [hover.offset, decide_eq_true_eq] at hlt
    rw [hover.rest, List.length_append]
    omega
  -- At the end of the text no round goes further.
  have hdone : ∀ {p : Progress} (fuel : Nat), p.rest.length = 0 →
      repeatEnds greedy step fuel p = [p] := by
    intro p fuel hend
    have hnone : (step p).filter (fun q => p.offset < q.offset) = [] :=
      List.eq_nil_iff_forall_not_mem.mpr fun q hq => by
        have hlt := hshorter hq
        omega
    cases fuel with
    | zero => rfl
    | succ fuel =>
      rw [repeatEnds, hnone]
      cases greedy <;> rfl
  induction fuel generalizing fuel' p with
  | zero => rw [hdone 0 (by omega), hdone fuel' (by omega)]
  | succ fuel ih =>
    cases fuel' with
    | zero => rw [hdone 0 (by omega), hdone (fuel + 1) (by omega)]
    | succ fuel' =>
      have hfurther : ((step p).filter fun q => p.offset < q.offset).map
          (repeatEnds greedy step fuel) = ((step p).filter fun q => p.offset < q.offset).map
            (repeatEnds greedy step fuel') := by
        refine List.map_congr_left fun q hq => ?_
        have hlt := hshorter hq
        exact ih (by omega) (by omega)
      rw [repeatEnds, repeatEnds, List.flatMap_def, List.flatMap_def, hfurther]

/-- Rounds that go the same ways lead to the same ends. -/
theorem forall₂_repeatEnds {greedy : Bool} {step : Progress → List Progress}
    {rel : Progress → Progress → Prop}
    (hoffset : ∀ {p p' q q'}, rel p p' → rel q q' → (p.offset < q.offset ↔ p'.offset < q'.offset))
    (hstep : ∀ {p p'}, rel p p' → List.Forall₂ rel (step p) (step p')) (fuel : Nat)
    {p p' : Progress} (h : rel p p') :
    List.Forall₂ rel (repeatEnds greedy step fuel p) (repeatEnds greedy step fuel p') := by
  induction fuel generalizing p p' with
  | zero => exact .cons h .nil
  | succ fuel ih =>
    have hfurther : List.Forall₂ rel
        (((step p).filter fun q => p.offset < q.offset).flatMap (repeatEnds greedy step fuel))
        (((step p').filter fun q => p'.offset < q.offset).flatMap
          (repeatEnds greedy step fuel)) := by
      refine List.rel_flatMap (List.rel_filter (fun q q' hq => ?_) (hstep h)) fun q q' => ih
      exact decide_eq_true_iff.trans ((hoffset h hq).trans decide_eq_true_iff.symm)
    rw [repeatEnds, repeatEnds]
    split
    · exact List.rel_append hfurther (.cons h .nil)
    · exact .cons h hfurther

/-! ## Places further on -/

/-- The same place of the same text, with more characters before. -/
structure Shifted (n : Nat) (p p' : Progress) : Prop where
  before : p.before = p'.before
  rest : p.rest = p'.rest
  offset : p.offset + n = p'.offset

theorem Shifted.next {n : Nat} {p p' : Progress} (h : Shifted n p p') :
    Shifted n p.next p'.next := by
  obtain ⟨hbefore, hrest, hoffset⟩ := h
  rw [Progress.next, Progress.next, ← hrest]
  cases p.rest with
  | nil => exact ⟨hbefore, hrest, hoffset⟩
  | cons c cs => exact ⟨rfl, rfl, by dsimp only; omega⟩

/-- A pattern goes the same ways wherever the text stands. -/
theorem ends_shifted {n : Nat} {pattern : Pattern} (hnear : pattern.LooksNear) {p p' : Progress}
    (h : Shifted n p p') : List.Forall₂ (Shifted n) (pattern.ends p) (pattern.ends p') := by
  induction pattern generalizing p p' with
  | empty => exact .cons h .nil
  | char accepts =>
    rw [ends, ends, ← h.rest]
    cases p.rest with
    | nil => exact .nil
    | cons c cs =>
      dsimp only
      split
      · exact .cons h.next .nil
      · exact .nil
  | seq first second ihfirst ihsecond =>
    exact List.rel_flatMap (ihfirst hnear.1 h) fun q q' hq => ihsecond hnear.2 hq
  | either first second ihfirst ihsecond =>
    exact List.rel_append (ihfirst hnear.1 h) (ihsecond hnear.2 h)
  | many greedy body ih =>
    rw [ends, ends, ← h.rest]
    have hoffset : ∀ {p p' q q' : Progress}, Shifted n p p' → Shifted n q q' →
        (p.offset < q.offset ↔ p'.offset < q'.offset) := by
      intro p p' q q' h h'
      rw [← h.offset, ← h'.offset]
      exact Nat.add_lt_add_iff_right.symm
    exact forall₂_repeatEnds hoffset (ih hnear) _ h
  | capture label body ih =>
    exact List.rel_map (fun q q' hq => ⟨hq.before, hq.rest, hq.offset⟩) (ih hnear h)
  | condition holds =>
    rw [ends, ends, ← h.before, ← h.rest]
    split
    · exact .cons h .nil
    · exact .nil
  | again | lookahead => exact absurd hnear id

/-- What a pattern finds does not depend on how much stands before. -/
theorem matchAt?_shifted {pattern : Pattern} (hnear : pattern.LooksNear) (before : Option Char)
    (text : List Char) (offset offset' : Nat) :
    (pattern.matchAt? ⟨before, text, offset, []⟩).map (fun m => (m.text, m.after)) =
      (pattern.matchAt? ⟨before, text, offset', []⟩).map fun m => (m.text, m.after) := by
  have hzero : ∀ offset, (pattern.matchAt? ⟨before, text, offset, []⟩).map
      (fun m => (m.text, m.after)) =
        (pattern.matchAt? ⟨before, text, 0, []⟩).map fun m => (m.text, m.after) := by
    intro offset
    have hends := @ends_shifted offset pattern hnear ⟨before, text, 0, []⟩
      ⟨before, text, offset, []⟩ ⟨rfl, rfl, Nat.zero_add offset⟩
    rw [matchAt?, matchAt?]
    generalize pattern.ends ⟨before, text, 0, []⟩ = ways at hends ⊢
    generalize pattern.ends ⟨before, text, offset, []⟩ = ways' at hends ⊢
    cases hends with
    | nil => rfl
    | @cons q q' _ _ hq _ =>
      obtain ⟨-, hrest, hoffset⟩ := hq
      have htext : text.take (q'.offset - offset) = text.take (q.offset - 0) := by
        rw [← hoffset, Nat.add_sub_cancel, Nat.sub_zero]
      exact congrArg some (Prod.ext htext hrest.symm)
  rw [hzero offset, hzero offset']

/-- What a text becomes does not depend on how much stands before. -/
theorem replaceFrom_shifted {pattern : Pattern} (hnear : pattern.LooksNear)
    (htake : pattern.takesSome = true) (mask : List Char) (before : Option Char)
    (text : List Char) (offset offset' : Nat) :
    pattern.replaceFrom (fun _ => mask) before offset text =
      pattern.replaceFrom (fun _ => mask) before offset' text := by
  induction hlength : text.length using Nat.strongRecOn generalizing text before offset offset' with
  | ind n ih =>
    subst hlength
    cases text with
    | nil => rfl
    | cons c cs =>
      have hsame := matchAt?_shifted hnear before (c :: cs) offset offset'
      cases hmatch : pattern.matchAt? ⟨before, c :: cs, offset, []⟩ with
      | none =>
        rw [hmatch] at hsame
        have hnone := Option.map_eq_none_iff.mp hsame.symm
        rw [replaceFrom_cons_of_none hmatch, replaceFrom_cons_of_none hnone,
          ih _ (by simp) _ _ _ (offset' + 1) rfl]
      | some m =>
        rw [hmatch] at hsame
        obtain ⟨m', hmatch', heq⟩ := Option.map_eq_some_iff.mp hsame.symm
        obtain ⟨htext, -⟩ := Prod.mk.inj heq
        obtain ⟨htakes, hrest, -⟩ := exists_of_matchAt? hmatch
        have hrest : c :: cs = m.text ++ m.after := hrest
        have hne := ne_nil_of_takesSome htake htakes
        have hshorter : m.after.length < (c :: cs).length := by
          have hpos := List.length_pos_iff.mpr hne
          rw [hrest, List.length_append]
          omega
        rw [hrest] at hmatch hmatch' ⊢
        rw [replaceFrom_append_of_match hne hmatch rfl,
          replaceFrom_append_of_match hne hmatch' htext,
          ih _ hshorter _ _ _ (offset' + m.text.length) rfl]

/-! ## Two texts that start alike -/

/-- Two places at which the same is left of a text, which ends at a given place of both texts: one
of two other texts is behind it. -/
structure Alike (edge : Nat) (text ending ending' : List Char) (p p' : Progress) : Prop where
  left : ∃ r, r <:+ text ∧ p.rest = r ++ ending ∧ p'.rest = r ++ ending' ∧
    p.offset + r.length = edge
  before : p.before = p'.before
  offset : p.offset = p'.offset
  captures : p.captures = p'.captures

theorem Alike.start (before : Option Char) (offset : Nat) (text ending ending' : List Char) :
    Alike (offset + text.length) text ending ending' ⟨before, text ++ ending, offset, []⟩
      ⟨before, text ++ ending', offset, []⟩ :=
  ⟨⟨text, List.suffix_rfl, rfl, rfl, rfl⟩, rfl, rfl, rfl⟩

section Alike

variable {edge : Nat} {text : List Char} {c : Char} {cs cs' : List Char} {p p' : Progress}

/-- The next character counts to what is the same of both texts. -/
theorem Alike.concat (h : Alike edge text (c :: cs) (c :: cs') p p') :
    Alike (edge + 1) (text ++ [c]) cs cs' p p' := by
  obtain ⟨⟨r, hr, hp, hp', hedge⟩, hbefore, hoffset, hcaptures⟩ := h
  refine ⟨⟨r ++ [c], ?_, ?_, ?_, ?_⟩, hbefore, hoffset, hcaptures⟩
  · obtain ⟨w, rfl⟩ := hr
    exact ⟨w, (List.append_assoc _ _ _).symm⟩
  · rw [hp, List.append_assoc, List.singleton_append]
  · rw [hp', List.append_assoc, List.singleton_append]
  · rw [List.length_append, List.length_singleton, ← Nat.add_assoc, hedge]

/-- What is the same of both texts may be taken to end before its last character, unless it is left
behind. -/
theorem Alike.of_concat (h : Alike (edge + 1) (text ++ [c]) cs cs' p p') :
    (p.rest = cs ∧ p'.rest = cs') ∨ Alike edge text (c :: cs) (c :: cs') p p' := by
  obtain ⟨⟨r, hr, hp, hp', hedge⟩, hbefore, hoffset, hcaptures⟩ := h
  rcases List.suffix_concat_iff.mp hr with rfl | ⟨t, rfl, ht⟩
  · exact .inl ⟨hp, hp'⟩
  · refine .inr ⟨⟨t, ht, ?_, ?_, ?_⟩, hbefore, hoffset, hcaptures⟩
    · rw [hp, List.append_assoc, List.singleton_append]
    · rw [hp', List.append_assoc, List.singleton_append]
    · rw [List.length_append, List.length_singleton, ← Nat.add_assoc] at hedge
      exact Nat.add_right_cancel hedge

/-- A pattern goes the same ways in two texts that differ behind a character that it does not
take. -/
theorem ends_alike {pattern : Pattern} (hnear : pattern.LooksNear)
    (hnone : pattern.takesNone [c] = true) (h : Alike edge text (c :: cs) (c :: cs') p p') :
    List.Forall₂ (Alike edge text (c :: cs) (c :: cs')) (pattern.ends p) (pattern.ends p') := by
  induction pattern generalizing p p' with
  | empty => exact .cons h .nil
  | char accepts =>
    obtain ⟨⟨r, hr, hp, hp', hedge⟩, hbefore, hoffset, hcaptures⟩ := h
    have hc : accepts c = false := by simpa [takesNone] using hnone
    rw [ends, ends, hp, hp']
    cases r with
    | nil => simp [hc]
    | cons d r =>
      dsimp only [List.cons_append]
      split
      · refine .cons ⟨⟨r, (List.suffix_cons d r).trans hr, ?_, ?_, ?_⟩, ?_, ?_, ?_⟩ .nil
        · rw [Progress.next, hp]; rfl
        · rw [Progress.next, hp']; rfl
        · rw [Progress.next, hp]
          dsimp only [List.cons_append]
          rw [List.length_cons] at hedge
          omega
        · rw [Progress.next, Progress.next, hp, hp']; rfl
        · rw [Progress.next, Progress.next, hp, hp']; simp [hoffset]
        · rw [Progress.next, Progress.next, hp, hp']; simp [hcaptures]
      · exact .nil
  | seq first second ihfirst ihsecond =>
    obtain ⟨hfirst, hsecond⟩ := Bool.and_eq_true_iff.mp hnone
    exact List.rel_flatMap (ihfirst hnear.1 hfirst h) fun q q' hq => ihsecond hnear.2 hsecond hq
  | either first second ihfirst ihsecond =>
    obtain ⟨hfirst, hsecond⟩ := Bool.and_eq_true_iff.mp hnone
    exact List.rel_append (ihfirst hnear.1 hfirst h) (ihsecond hnear.2 hsecond h)
  | many greedy body ih =>
    have hover : ∀ p, ∀ q ∈ body.ends p, ∃ w, Over p w q := by
      intro p q hq
      obtain ⟨w, -, hw⟩ := exists_takes hq
      exact ⟨w, hw⟩
    -- The rounds are counted by what is left, which differs; enough of them are enough for both.
    rw [ends, ends, repeatEnds_congr hover (Nat.le_refl _) (Nat.le_max_left _ p'.rest.length),
      repeatEnds_congr hover (Nat.le_refl _) (Nat.le_max_right p.rest.length _)]
    exact forall₂_repeatEnds (fun h h' => by rw [h.offset, h'.offset]) (ih hnear hnone) _ h
  | capture label body ih =>
    refine List.rel_map (fun q q' hq => ?_) (ih hnear hnone h)
    obtain ⟨⟨r, hr, hp, hp', hedge⟩, hbefore, hoffset, hcaptures⟩ := h
    obtain ⟨⟨r₁, hr₁, hq₁, hq₁', hedge₁⟩, hbefore₁, hoffset₁, hcaptures₁⟩ := hq
    refine ⟨⟨r₁, hr₁, hq₁, hq₁', hedge₁⟩, hbefore₁, hoffset₁, ?_⟩
    have hle : q.offset - p.offset ≤ r.length := by omega
    rw [← hoffset₁, ← hoffset, hp, hp', List.take_append_of_le_length hle,
      List.take_append_of_le_length hle, hcaptures₁]
  | condition holds =>
    obtain ⟨⟨r, hr, hp, hp', hedge⟩, hbefore, hoffset, hcaptures⟩ := h
    have hhead : p.rest.head? = p'.rest.head? := by
      rw [hp, hp']
      cases r <;> rfl
    have hsame : holds p.before p.rest = holds p'.before p'.rest :=
      (hnear _ _ _ hhead).trans (by rw [hbefore])
    rw [ends, ends, hsame]
    split
    · exact .cons ⟨⟨r, hr, hp, hp', hedge⟩, hbefore, hoffset, hcaptures⟩ .nil
    · exact .nil
  | again | lookahead => exact absurd hnear id

end Alike

/-! ## The common start of two texts -/

section Start

variable {pattern : Pattern} {replacement : Found → List Char} {before : Option Char}
  {offset : Nat} {text ending ending' : List Char}

/-- The preferred ways are the same, if all ways are. -/
theorem matchAt?_of_alike
    (h : List.Forall₂ (Alike (offset + text.length) text ending ending')
      (pattern.ends ⟨before, text ++ ending, offset, []⟩)
      (pattern.ends ⟨before, text ++ ending', offset, []⟩)) :
    (pattern.matchAt? ⟨before, text ++ ending, offset, []⟩ = none ∧
        pattern.matchAt? ⟨before, text ++ ending', offset, []⟩ = none) ∨
      ∃ m w r, text = w ++ r ∧ m.text = w ∧
        pattern.matchAt? ⟨before, text ++ ending, offset, []⟩ = some m ∧
        pattern.matchAt? ⟨before, text ++ ending', offset, []⟩ =
          some { m with after := r ++ ending' } := by
  rw [matchAt?, matchAt?]
  generalize pattern.ends ⟨before, text ++ ending, offset, []⟩ = ways at h ⊢
  generalize pattern.ends ⟨before, text ++ ending', offset, []⟩ = ways' at h ⊢
  cases h with
  | nil => exact .inl ⟨rfl, rfl⟩
  | @cons q q' _ _ hq _ =>
    obtain ⟨⟨r, ⟨w, hw⟩, hq, hq', hedge⟩, -, hoffset, hcaptures⟩ := hq
    have hlength : q.offset - offset = w.length := by
      rw [← hw, List.length_append] at hedge
      omega
    have htake : ∀ ending : List Char, (text ++ ending).take (q.offset - offset) = w := by
      intro ending
      rw [hlength, ← hw, List.append_assoc, List.take_left]
    refine .inr ⟨.ofEnds ⟨before, text ++ ending, offset, []⟩ q, w, r, hw.symm, htake ending, rfl,
      ?_⟩
    rw [List.head?_cons, Option.map_some, Found.ofEnds, Found.ofEnds, ← hoffset, ← hcaptures, hq']
    dsimp only
    rw [htake, htake]

/-- What is replaced in the common start of two texts, if all ways in it are the same. -/
theorem exists_replaceFrom_append (htake : pattern.takesSome = true)
    (hreplacement : ∀ m after, replacement { m with after := after } = replacement m)
    (h : ∀ u v, text = u ++ v → v ≠ [] →
      List.Forall₂ (Alike (offset + u.length + v.length) v ending ending')
        (pattern.ends ⟨u.getLast?.or before, v ++ ending, offset + u.length, []⟩)
        (pattern.ends ⟨u.getLast?.or before, v ++ ending', offset + u.length, []⟩)) :
    ∃ front,
      pattern.replaceFrom replacement before offset (text ++ ending) = front ++
        pattern.replaceFrom replacement (text.getLast?.or before) (offset + text.length) ending ∧
      pattern.replaceFrom replacement before offset (text ++ ending') = front ++
        pattern.replaceFrom replacement (text.getLast?.or before) (offset + text.length)
          ending' := by
  induction hlength : text.length using Nat.strongRecOn generalizing text before offset with
  | ind n ih =>
    subst hlength
    cases text with
    | nil => exact ⟨[], rfl, rfl⟩
    | cons c cs =>
      rcases matchAt?_of_alike (h [] (c :: cs) rfl (List.cons_ne_nil c cs)) with
        ⟨hnone, hnone'⟩ | ⟨m, w, r, htext, hw, hmatch, hmatch'⟩
      · -- No match starts here in either text.
        have hlater : ∀ u v, cs = u ++ v → v ≠ [] →
            List.Forall₂ (Alike (offset + 1 + u.length + v.length) v ending ending')
              (pattern.ends ⟨u.getLast?.or (some c), v ++ ending, offset + 1 + u.length, []⟩)
              (pattern.ends ⟨u.getLast?.or (some c), v ++ ending', offset + 1 + u.length, []⟩) := by
          intro u v huv hv
          have hends := h (c :: u) v (by rw [huv]; rfl) hv
          rwa [getLast?_cons_or, List.length_cons, Nat.add_comm u.length, ← Nat.add_assoc] at hends
        obtain ⟨front, hfront, hfront'⟩ := ih _ (by simp) hlater rfl
        have hnone : pattern.matchAt? ⟨before, c :: (cs ++ ending), offset, []⟩ = none := hnone
        have hnone' : pattern.matchAt? ⟨before, c :: (cs ++ ending'), offset, []⟩ = none := hnone'
        have hplace : offset + 1 + cs.length = offset + (c :: cs).length := by
          rw [List.length_cons]
          omega
        refine ⟨c :: front, ?_, ?_⟩
        · rw [List.cons_append, replaceFrom_cons_of_none hnone, hfront, getLast?_cons_or, hplace]
          rfl
        · rw [List.cons_append, replaceFrom_cons_of_none hnone', hfront', getLast?_cons_or, hplace]
          rfl
      · -- The same match starts here in both texts, and it ends before they differ.
        have hne : w ≠ [] := hw ▸ ne_nil_of_takesSome htake (exists_of_matchAt? hmatch).1
        have hbehind : ∀ u : List Char, (w ++ u).getLast?.or before =
            u.getLast?.or (w.getLast?.or before) := by
          intro u
          rw [List.getLast?_append, Option.or_assoc]
        rw [htext, List.append_assoc] at hmatch hmatch'
        have hmatch : pattern.matchAt? ⟨before, w ++ (r ++ ending), offset, []⟩ = some m := hmatch
        have hmatch' : pattern.matchAt? ⟨before, w ++ (r ++ ending'), offset, []⟩ =
            some { m with after := r ++ ending' } := hmatch'
        rw [htext]
        have hlater : ∀ u v, r = u ++ v → v ≠ [] →
            List.Forall₂ (Alike (offset + w.length + u.length + v.length) v ending ending')
              (pattern.ends ⟨u.getLast?.or (w.getLast?.or before), v ++ ending,
                offset + w.length + u.length, []⟩)
              (pattern.ends ⟨u.getLast?.or (w.getLast?.or before), v ++ ending',
                offset + w.length + u.length, []⟩) := by
          intro u v huv hv
          have hends := h (w ++ u) v (by rw [htext, huv, List.append_assoc]) hv
          rwa [hbehind, List.length_append, ← Nat.add_assoc] at hends
        have hshorter : r.length < (c :: cs).length := by
          rw [htext, List.length_append]
          have hpos := List.length_pos_iff.mpr hne
          omega
        obtain ⟨front, hfront, hfront'⟩ := ih _ hshorter hlater rfl
        refine ⟨replacement m ++ front, ?_, ?_⟩
        · rw [List.append_assoc, replaceFrom_append_of_match hne hmatch hw, hfront, hbehind,
            List.length_append, ← Nat.add_assoc, List.append_assoc]
        · rw [List.append_assoc, replaceFrom_append_of_match hne hmatch' hw, hfront', hbehind,
            List.length_append, ← Nat.add_assoc, List.append_assoc, hreplacement]

/-- No match starts at a character that the pattern does not take. -/
theorem matchAt?_eq_none_of_takesNone (htake : pattern.takesSome = true) {c : Char}
    (hnone : pattern.takesNone [c] = true) (before : Option Char) (rest : List Char)
    (offset : Nat) : pattern.matchAt? ⟨before, c :: rest, offset, []⟩ = none := by
  refine Option.eq_none_iff_forall_ne_some.mpr fun m hm => ?_
  obtain ⟨htakes, htext, -⟩ := exists_of_matchAt? hm
  obtain ⟨d, ds, hds⟩ := List.exists_cons_of_ne_nil (ne_nil_of_takesSome htake htakes)
  rw [hds] at htext
  obtain ⟨rfl, -⟩ := List.cons.inj htext
  exact not_mem_of_takesNone pattern hnone htakes c (hds ▸ .head _) (.head _)

/-- Where no match starts it does not matter what stands before. -/
theorem replaceFrom_congr_before
    (hstart : ∀ c cs before, text = c :: cs →
      pattern.matchAt? ⟨before, c :: cs, offset, []⟩ = none) (before other : Option Char) :
    pattern.replaceFrom replacement before offset text =
      pattern.replaceFrom replacement other offset text := by
  cases text with
  | nil => rfl
  | cons c cs =>
    rw [replaceFrom_cons_of_none (hstart c cs before rfl),
      replaceFrom_cons_of_none (hstart c cs other rfl)]

/-- What is replaced up to a character that the pattern does not take does not depend on what stands
behind it, and the character stays. -/
theorem exists_replaceFrom_barrier (hnear : pattern.LooksNear) (htake : pattern.takesSome = true)
    (hreplacement : ∀ m after, replacement { m with after := after } = replacement m) {c : Char}
    (hnone : pattern.takesNone [c] = true) (before : Option Char) (offset : Nat)
    (text cs cs' : List Char) :
    ∃ front,
      pattern.replaceFrom replacement before offset (text ++ c :: cs) = front ++
        c :: pattern.replaceFrom replacement (some c) (offset + text.length + 1) cs ∧
      pattern.replaceFrom replacement before offset (text ++ c :: cs') = front ++
        c :: pattern.replaceFrom replacement (some c) (offset + text.length + 1) cs' := by
  have hends : ∀ u v, text = u ++ v → v ≠ [] →
      List.Forall₂ (Alike (offset + u.length + v.length) v (c :: cs) (c :: cs'))
        (pattern.ends ⟨u.getLast?.or before, v ++ c :: cs, offset + u.length, []⟩)
        (pattern.ends ⟨u.getLast?.or before, v ++ c :: cs', offset + u.length, []⟩) :=
    fun u v _ _ => ends_alike hnear hnone (.start _ _ v _ _)
  have hstop := matchAt?_eq_none_of_takesNone htake hnone
  obtain ⟨front, hfront, hfront'⟩ := exists_replaceFrom_append htake hreplacement hends
  refine ⟨front, ?_, ?_⟩
  · rw [hfront, replaceFrom_cons_of_none (hstop _ _ _)]
  · rw [hfront', replaceFrom_cons_of_none (hstop _ _ _)]

/-- A character that the pattern does not take divides a text. -/
theorem replaceFrom_append (hnear : pattern.LooksNear) (htake : pattern.takesSome = true)
    (hreplacement : ∀ m after, replacement { m with after := after } = replacement m)
    (hlast : ∀ c ∈ text.getLast?, pattern.takesNone [c] = true) (before : Option Char)
    (offset : Nat) (rest : List Char) :
    pattern.replaceFrom replacement before offset (text ++ rest) =
      pattern.replaceFrom replacement before offset text ++
        pattern.replaceFrom replacement (text.getLast?.or before) (offset + text.length) rest := by
  rcases List.eq_nil_or_concat' text with rfl | ⟨t, c, rfl⟩
  · rfl
  · have hnone : pattern.takesNone [c] = true := hlast c (by simp)
    obtain ⟨front, hfront, hfront'⟩ :=
      exists_replaceFrom_barrier hnear htake hreplacement hnone before offset t rest []
    rw [List.append_assoc, List.singleton_append, hfront, hfront', List.getLast?_concat,
      List.length_append, replaceFrom_nil, List.append_assoc]
    rfl

/-- The last character of a text stays if the pattern does not take it. -/
theorem getLast?_replaceFrom (hnear : pattern.LooksNear) (htake : pattern.takesSome = true)
    (hreplacement : ∀ m after, replacement { m with after := after } = replacement m)
    (hlast : ∀ c ∈ text.getLast?, pattern.takesNone [c] = true) (before : Option Char)
    (offset : Nat) :
    (pattern.replaceFrom replacement before offset text).getLast? = text.getLast? := by
  rcases List.eq_nil_or_concat' text with rfl | ⟨t, c, rfl⟩
  · rfl
  · have hnone : pattern.takesNone [c] = true := hlast c (by simp)
    obtain ⟨front, hfront, -⟩ :=
      exists_replaceFrom_barrier hnear htake hreplacement hnone before offset t [] []
    rw [hfront, replaceFrom_nil, List.getLast?_concat, List.getLast?_concat]

end Start

end GuestCode.Text.Pattern
