import GuestCode.Proofs.Text.Replacing

/-!
# The preferred way through a text

The match at a place is the first of all the ways in which a pattern matches there. A pattern of
several parts goes the preferred way of each part if the parts after it match from there on; a
repetition that prefers to stop goes on just as long as the parts after it do not match.

## Main statements

* `Pattern.Prefers`: where the preferred way of a pattern leads.
* `Pattern.prefers_all_cons`: the preferred ways of the parts of a pattern, one after the other.
* `Pattern.prefers_lazy`: a repetition that prefers to stop.
* `Pattern.matchAt?_of_prefers`: the match at a place.
* `Pattern.Leads`, `Pattern.Leads.cons`: over which text a pattern and its parts lead.
-/

namespace GuestCode.Text.Pattern

variable {pattern body : Pattern} {patterns others : List Pattern} {p q r : Progress}
  {accepts : Char → Bool} {before : Option Char} {offset label : Nat} {captures : List Capture}
  {run rest w : List Char}

/-- The preferred way of a pattern leads from one place to another. -/
def Prefers (pattern : Pattern) (p q : Progress) : Prop := (pattern.ends p).head? = some q

/-- The first result of a list whose first element has one. -/
theorem head?_flatMap_of_head? {α β : Type} {xs : List α} {f : α → List β} {x : α} {y : β}
    (hx : xs.head? = some x) (hy : (f x).head? = some y) : (xs.flatMap f).head? = some y := by
  obtain ⟨ys, rfl⟩ := List.head?_eq_some_iff.mp hx
  rw [List.flatMap_cons, List.head?_append, hy, Option.some_or]

theorem prefers_all_nil (p : Progress) : (all []).Prefers p p := rfl

theorem prefers_all_cons (h : pattern.Prefers p q) (hrest : (all patterns).Prefers q r) :
    (all (pattern :: patterns)).Prefers p r := by
  rw [Prefers, ends_all_cons]
  exact head?_flatMap_of_head? h hrest

theorem prefers_all_append (h : (all patterns).Prefers p q) (hrest : (all others).Prefers q r) :
    (all (patterns ++ others)).Prefers p r := by
  rw [Prefers, ends_all_append]
  exact head?_flatMap_of_head? h hrest

theorem prefers_condition {holds : Option Char → List Char → Bool}
    (h : holds p.before p.rest = true) : (condition holds).Prefers p p := by
  rw [Prefers, ends_condition, if_pos h]
  rfl

theorem prefers_either (h : pattern.Prefers p q) (other : Pattern) :
    (either pattern other).Prefers p q := by
  rw [Prefers, ends_either, List.head?_append, show (pattern.ends p).head? = some q from h,
    Option.some_or]

theorem prefers_either_of_nil {other : Pattern} (h : pattern.ends p = [])
    (hother : other.Prefers p q) : (either pattern other).Prefers p q := by
  rw [Prefers, ends_either, h, List.nil_append]
  exact hother

/-- A part that may be left out is taken if it matches. -/
theorem prefers_opt (h : pattern.Prefers p q) : (opt pattern).Prefers p q := prefers_either h _

/-- A part that may be left out is if it does not match. -/
theorem prefers_opt_of_nil (h : pattern.ends p = []) : (opt pattern).Prefers p p :=
  prefers_either_of_nil h rfl

theorem prefers_capture (label : Nat) (h : body.Prefers p q) : (capture label body).Prefers p
    { q with captures := ⟨label, p.offset, p.rest.take (q.offset - p.offset)⟩ :: q.captures } := by
  rw [Prefers, ends, List.head?_map, show (body.ends p).head? = some q from h]
  rfl

/-! ## Characters -/

theorem prefers_char {c : Char} (h : accepts c = true) :
    (char accepts).Prefers ⟨before, c :: rest, offset, captures⟩
      ⟨some c, rest, offset + 1, captures⟩ := by
  rw [Prefers, ends_char_cons, if_pos h]
  rfl

theorem prefers_all_exactly {chars : List Char} :
    (all (chars.map exactly)).Prefers ⟨before, chars ++ rest, offset, captures⟩
      ⟨chars.getLast?.or before, rest, offset + chars.length, captures⟩ := by
  induction chars generalizing before offset with
  | nil => rfl
  | cons c cs ih =>
    have hlater := @ih (some c) (offset + 1)
    rw [Nat.add_assoc, Nat.add_comm 1, ← getLast?_cons_or] at hlater
    exact prefers_all_cons (prefers_char (beq_self_eq_true c)) hlater

theorem prefers_lit (s : String) :
    (lit s).Prefers ⟨before, s.toList ++ rest, offset, captures⟩
      ⟨s.toList.getLast?.or before, rest, offset + s.toList.length, captures⟩ :=
  prefers_all_exactly

/-- A repetition prefers to take all of a run of characters. -/
theorem prefers_star_char (h : ∀ c ∈ run, accepts c = true)
    (hend : rest.head?.any accepts = false) :
    (star (char accepts)).Prefers ⟨before, run ++ rest, offset, captures⟩
      ⟨run.getLast?.or before, rest, offset + run.length, captures⟩ :=
  head?_ends_many_char h hend

theorem prefers_plus_char (hne : run ≠ []) (h : ∀ c ∈ run, accepts c = true)
    (hend : rest.head?.any accepts = false) :
    (plus (char accepts)).Prefers ⟨before, run ++ rest, offset, captures⟩
      ⟨run.getLast?.or before, rest, offset + run.length, captures⟩ := by
  obtain ⟨c, cs, rfl⟩ := List.exists_cons_of_ne_nil hne
  obtain ⟨hc, hcs⟩ := List.forall_mem_cons.mp h
  have hlater := @prefers_star_char accepts (some c) (offset + 1) captures cs rest hcs hend
  rw [Nat.add_assoc, Nat.add_comm 1, ← getLast?_cons_or] at hlater
  exact head?_flatMap_of_head? (prefers_char hc) hlater

theorem prefers_capture_star_char (h : ∀ c ∈ run, accepts c = true)
    (hend : rest.head?.any accepts = false) :
    (capture label (star (char accepts))).Prefers ⟨before, run ++ rest, offset, captures⟩
      ⟨run.getLast?.or before, rest, offset + run.length, ⟨label, offset, run⟩ :: captures⟩ := by
  have hstar := @prefers_star_char accepts before offset captures run rest h hend
  have hcapture := prefers_capture label hstar
  dsimp only at hcapture
  rwa [Nat.add_sub_cancel_left, List.take_left] at hcapture

theorem prefers_capture_char {c : Char} (label : Nat) (h : accepts c = true) :
    (capture label (char accepts)).Prefers ⟨before, c :: rest, offset, captures⟩
      ⟨some c, rest, offset + 1, ⟨label, offset, [c]⟩ :: captures⟩ := by
  have hcapture := prefers_capture label (@prefers_char accepts before offset captures rest c h)
  dsimp only at hcapture
  rwa [Nat.add_sub_cancel_left] at hcapture

/-- A character that has just been captured once more. -/
theorem prefers_again_char {c : Char} {start : Nat} :
    (again label).Prefers ⟨before, c :: rest, offset, ⟨label, start, [c]⟩ :: captures⟩
      ⟨some c, rest, offset + 1, ⟨label, start, [c]⟩ :: captures⟩ := by
  simp [Prefers, ends, Progress.captured?, Progress.advance, Progress.next]

/-! ## Repetitions that prefer to stop -/

theorem ends_lazyStar_char_cons (c : Char) (cs : List Char) :
    (lazyStar (char accepts)).ends ⟨before, c :: cs, offset, captures⟩ =
      ⟨before, c :: cs, offset, captures⟩ ::
        if accepts c then (lazyStar (char accepts)).ends ⟨some c, cs, offset + 1, captures⟩
        else [] := by
  cases h : accepts c <;> simp [lazyStar, ends, repeatEnds, Progress.next, h]

/-- A repetition that prefers to stop goes on as long as what comes after it does not match. -/
theorem head?_flatMap_ends_lazyStar {next : Progress → List Progress}
    (hrun : ∀ c ∈ run, accepts c = true)
    (hnot : ∀ u v, run = u ++ v → v ≠ [] →
      next ⟨u.getLast?.or before, v ++ rest, offset + u.length, captures⟩ = [])
    (h : (next ⟨run.getLast?.or before, rest, offset + run.length, captures⟩).head? = some r) :
    (((lazyStar (char accepts)).ends ⟨before, run ++ rest, offset, captures⟩).flatMap next).head? =
      some r := by
  induction run generalizing before offset with
  | nil =>
    have hfirst : ((lazyStar (char accepts)).ends ⟨before, rest, offset, captures⟩).head? =
        some ⟨before, rest, offset, captures⟩ := by
      cases rest with
      | nil => rfl
      | cons c cs =>
        rw [ends_lazyStar_char_cons]
        rfl
    exact head?_flatMap_of_head? hfirst h
  | cons c cs ih =>
    obtain ⟨hc, hcs⟩ := List.forall_mem_cons.mp hrun
    have hstop := hnot [] (c :: cs) rfl (List.cons_ne_nil c cs)
    rw [List.cons_append, ends_lazyStar_char_cons, List.flatMap_cons,
      show next ⟨before, c :: (cs ++ rest), offset, captures⟩ = [] from hstop, List.nil_append,
      if_pos hc]
    apply ih hcs
    · intro u v huv hv
      have hlater := hnot (c :: u) v (by rw [huv]; rfl) hv
      rwa [getLast?_cons_or, List.length_cons, Nat.add_comm u.length, ← Nat.add_assoc] at hlater
    · rwa [getLast?_cons_or, List.length_cons, Nat.add_comm cs.length, ← Nat.add_assoc] at h

/-- A repetition that prefers to stop, and what comes after it. -/
theorem prefers_lazy (hrun : ∀ c ∈ run, accepts c = true)
    (hnot : ∀ u v, run = u ++ v → v ≠ [] → ∀ q : Progress, q.rest = v ++ rest →
      (all patterns).ends q = [])
    (h : (all patterns).Prefers
      ⟨run.getLast?.or before, rest, offset + run.length, captures⟩ r) :
    (all (lazyStar (char accepts) :: patterns)).Prefers
      ⟨before, run ++ rest, offset, captures⟩ r := by
  rw [Prefers, ends_all_cons]
  exact head?_flatMap_ends_lazyStar hrun (fun u v huv hv => hnot u v huv hv _ rfl) h

/-- The same, if the repetition is captured. -/
theorem prefers_capture_lazy (label : Nat) (hrun : ∀ c ∈ run, accepts c = true)
    (hnot : ∀ u v, run = u ++ v → v ≠ [] → ∀ q : Progress, q.rest = v ++ rest →
      (all patterns).ends q = [])
    (h : (all patterns).Prefers ⟨run.getLast?.or before, rest, offset + run.length,
      ⟨label, offset, run⟩ :: captures⟩ r) :
    (all (capture label (lazyStar (char accepts)) :: patterns)).Prefers
      ⟨before, run ++ rest, offset, captures⟩ r := by
  rw [Prefers, ends_all_cons, ends, List.flatMap_map]
  apply head?_flatMap_ends_lazyStar hrun
  · exact fun u v huv hv => hnot u v huv hv _ rfl
  · rw [Nat.add_sub_cancel_left, List.take_left]
    exact h

/-! ## The match at a place -/

/-- The match at a place is the preferred way from there. -/
theorem matchAt?_of_prefers (h : pattern.Prefers ⟨before, w ++ rest, offset, []⟩ q)
    (hrest : q.rest = rest) :
    pattern.matchAt? ⟨before, w ++ rest, offset, []⟩ = some ⟨offset, w, rest, q.captures⟩ := by
  obtain ⟨u, -, hover⟩ := exists_takes (List.mem_of_head? h)
  obtain rfl : w = u := List.append_cancel_right (hover.rest.trans (by rw [hrest]))
  rw [matchAt?, show (pattern.ends ⟨before, w ++ rest, offset, []⟩).head? = some q from h,
    Option.map_some, Found.ofEnds, hover.take_eq, hrest]

/-- What no match starts in is passed over. -/
theorem searchFrom?_append_of_none {text : List Char}
    (h : ∀ u v, text = u ++ v → v ≠ [] →
      pattern.matchAt? ⟨u.getLast?.or before, v ++ rest, offset + u.length, []⟩ = none) :
    pattern.searchFrom? before offset (text ++ rest) =
      pattern.searchFrom? (text.getLast?.or before) (offset + text.length) rest := by
  induction text generalizing before offset with
  | nil => rfl
  | cons c cs ih =>
    have hnone : pattern.matchAt? ⟨before, c :: (cs ++ rest), offset, []⟩ = none :=
      h [] (c :: cs) rfl (List.cons_ne_nil c cs)
    have hlater := @ih (some c) (offset + 1) fun u v huv hv => by
      have hmatch := h (c :: u) v (by rw [huv]; rfl) hv
      rwa [getLast?_cons_or, List.length_cons, Nat.add_comm u.length, ← Nat.add_assoc] at hmatch
    rw [List.cons_append, searchFrom?, hnone, Option.none_or, hlater, getLast?_cons_or,
      List.length_cons, Nat.add_assoc, Nat.add_comm 1]

theorem searchFrom?_of_match {m : Found}
    (h : pattern.matchAt? ⟨before, rest, offset, []⟩ = some m) :
    pattern.searchFrom? before offset rest = some m := by
  cases rest with
  | nil => exact h
  | cons c cs => rw [searchFrom?, h, Option.some_or]

/-- Where nothing that a pattern takes can stand, it does not match. -/
theorem ends_eq_nil_of_not_takes
    (h : ∀ u v, p.rest = u ++ v → ¬pattern.Takes u) : pattern.ends p = [] := by
  apply List.eq_nil_iff_forall_not_mem.mpr
  intro q hq
  obtain ⟨u, hu, hover⟩ := exists_takes hq
  exact h u q.rest hover.rest hu

theorem matchAt?_eq_none_of_not_takes
    (h : ∀ u v, p.rest = u ++ v → ¬pattern.Takes u) : pattern.matchAt? p = none := by
  rw [matchAt?, ends_eq_nil_of_not_takes h]
  rfl

/-! ## Where a pattern leads -/

/-- The preferred way of a pattern behind a character leads over a text to another one, whatever has
been captured before. -/
def Leads (pattern : Pattern) (before : Option Char) (w rest : List Char) : Prop :=
  ∀ offset captures, ∃ q : Progress,
    pattern.Prefers ⟨before, w ++ rest, offset, captures⟩ q ∧ q.rest = rest

/-- The parts of a pattern lead one after the other. -/
theorem Leads.cons {u v : List Char} (h : pattern.Leads before u (v ++ rest))
    (hrest : (all patterns).Leads (u.getLast?.or before) v rest) :
    (all (pattern :: patterns)).Leads before (u ++ v) rest := by
  intro offset captures
  obtain ⟨q, hprefers, hq⟩ := h offset captures
  obtain ⟨w, -, hover⟩ := exists_takes (List.mem_of_head? hprefers)
  obtain ⟨before', _, offset', captures'⟩ := q
  dsimp only at hq
  subst hq
  obtain rfl : u = w := List.append_cancel_right hover.rest
  obtain rfl : before' = u.getLast?.or before := hover.before
  obtain ⟨r, hlater, hr⟩ := hrest offset' captures'
  rw [List.append_assoc]
  exact ⟨r, prefers_all_cons hprefers hlater, hr⟩

/-- A part that takes nothing. -/
theorem Leads.cons_nil (h : pattern.Leads before [] (w ++ rest))
    (hrest : (all patterns).Leads before w rest) :
    (all (pattern :: patterns)).Leads before w rest :=
  Leads.cons h hrest

theorem leads_condition {holds : Option Char → List Char → Bool} (h : holds before rest = true) :
    (condition holds).Leads before [] rest :=
  fun _ _ => ⟨_, prefers_condition h, rfl⟩

theorem leads_lit (s : String) (before : Option Char) (rest : List Char) :
    (lit s).Leads before s.toList rest :=
  fun _ _ => ⟨_, prefers_lit s, rfl⟩

theorem leads_star_char (h : ∀ c ∈ run, accepts c = true)
    (hend : rest.head?.any accepts = false) : (star (char accepts)).Leads before run rest :=
  fun _ _ => ⟨_, prefers_star_char h hend, rfl⟩

theorem leads_plus_char (hne : run ≠ []) (h : ∀ c ∈ run, accepts c = true)
    (hend : rest.head?.any accepts = false) : (plus (char accepts)).Leads before run rest :=
  fun _ _ => ⟨_, prefers_plus_char hne h hend, rfl⟩

theorem leads_opt (h : pattern.Leads before w rest) : (opt pattern).Leads before w rest := by
  intro offset captures
  obtain ⟨q, hprefers, hq⟩ := h offset captures
  exact ⟨q, prefers_opt hprefers, hq⟩

/-- A part that may be left out is if it does not match. -/
theorem leads_opt_of_nil
    (h : ∀ offset captures, pattern.ends ⟨before, rest, offset, captures⟩ = []) :
    (opt pattern).Leads before [] rest :=
  fun offset captures => ⟨_, prefers_opt_of_nil (h offset captures), rfl⟩

/-- A part that may be left out is if nothing that it takes stands there. -/
theorem leads_opt_of_not_takes (h : ∀ u v, rest = u ++ v → ¬pattern.Takes u) :
    (opt pattern).Leads before [] rest :=
  leads_opt_of_nil fun _ _ => ends_eq_nil_of_not_takes h

theorem leads_followedBy (h : ∀ offset captures, body.ends ⟨before, rest, offset, captures⟩ ≠ []) :
    (followedBy body).Leads before [] rest := by
  intro offset captures
  have hends : ((body.ends ⟨before, rest, offset, captures⟩).isEmpty == true) = false := by
    simp [h offset captures]
  refine ⟨⟨before, rest, offset, captures⟩, ?_, rfl⟩
  rw [Prefers, followedBy, ends, List.nil_append, hends]
  rfl

/-- A repetition that prefers to stop, and what comes after it. -/
theorem leads_lazy (hrun : ∀ c ∈ run, accepts c = true)
    (hnot : ∀ u v, run = u ++ v → v ≠ [] → ∀ x y, v ++ (w ++ rest) = x ++ y →
      ¬(all patterns).Takes x)
    (h : (all patterns).Leads (run.getLast?.or before) w rest) :
    (all (lazyStar (char accepts) :: patterns)).Leads before (run ++ w) rest := by
  intro offset captures
  obtain ⟨q, hprefers, hq⟩ := h (offset + run.length) captures
  rw [List.append_assoc]
  refine ⟨q, prefers_lazy hrun (fun u v huv hv p hp => ?_) hprefers, hq⟩
  apply ends_eq_nil_of_not_takes
  intro x y hxy
  exact hnot u v huv hv x y (hp.symm.trans hxy)

/-- Where a pattern leads from the start of a match, the match is what it leads over. -/
theorem exists_matchAt?_of_leads (h : pattern.Leads before w rest) (offset : Nat) :
    ∃ m, pattern.matchAt? ⟨before, w ++ rest, offset, []⟩ = some m ∧ m.text = w := by
  obtain ⟨q, hprefers, hq⟩ := h offset []
  exact ⟨_, matchAt?_of_prefers hprefers hq, rfl⟩

end GuestCode.Text.Pattern
