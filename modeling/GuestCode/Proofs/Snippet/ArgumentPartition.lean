import GuestCode.Proofs.Snippet.ArgumentLists
import GuestCode.Proofs.Snippet.Lookup
import Mathlib.Data.List.Sort

/-!
# The arguments of a call divide its list

The depth of brackets at a place is what code has opened less what it has closed, counted from the
parenthesis of a call. The first place at which it is back at zero closes the call, and the commas
at depth one separate the arguments: what stands between two of them is one argument, with blanks
around it. Brackets and commas that are no code do not count.

## Main statements

* `Closes`, `Separates`: the marks of a call, by depth.
* `closingIn?_eq_some_iff`: the search for the closing bracket finds the first return to zero.
* `mem_commas_iff`: the commas found are all the commas at depth one.
* `argumentSpans?_partitions`: the arguments of a call divide its list.
-/

namespace GuestCode

open Text Region

variable {source : List Char} {code rest : List Placed} {p : Placed} {depth depth' : Int}
  {start stop close : Nat} {commas : List Nat}

/-! ## The marks of a call, by depth -/

/-- What a text opens less what it closes. -/
def balance (text : List Char) : Int := (text.countP isOpening : Int) - text.countP isClosing

/-- The depth of the brackets of code at a place, counted from a bracket on. -/
def bracketDepth (source : List Char) (start stop : Nat) : Int :=
  balance (codeBetween source start (stop + 1))

/-- The first place after a bracket at which the depth is back at zero. -/
structure Closes (source : List Char) (start stop : Nat) : Prop where
  lt : start < stop
  code : isCodeAt (ofSource source) stop = true
  depth_eq : bracketDepth source start stop = 0
  depth_ne : ∀ place, start < place → place < stop → isCodeAt (ofSource source) place = true →
    bracketDepth source start place ≠ 0

/-- A comma of code at depth one. -/
def Separates (source : List Char) (start place : Nat) : Prop :=
  source[place]? = some ',' ∧ isCodeAt (ofSource source) place = true ∧
    bracketDepth source start place = 1

instance (source : List Char) (start : Nat) : DecidablePred (Separates source start) :=
  fun _ => inferInstanceAs (Decidable (_ ∧ _ ∧ _))

/-- The commas between the arguments of a call. -/
def separators (source : List Char) (start close : Nat) : List Nat :=
  (List.range close).filter fun place => decide (start < place ∧ Separates source start place)

theorem mem_separators {place : Nat} :
    place ∈ separators source start close ↔
      start < place ∧ place < close ∧ Separates source start place := by
  rw [separators, List.mem_filter, List.mem_range, decide_eq_true_iff]
  constructor
  · rintro ⟨hhigh, hlow, hseparates⟩
    exact ⟨hlow, hhigh, hseparates⟩
  · rintro ⟨hlow, hhigh, hseparates⟩
    exact ⟨hhigh, hlow, hseparates⟩

/-- The arguments of a call divide its list: what they leave are blanks and the commas between them,
and there is one argument more than commas, except that a blank list has none. -/
structure Partitions (source : List Char) (start : Nat) (arguments : Arguments) : Prop where
  increasing : arguments.spans.Pairwise fun span next => span.2 < next.1
  inside : ∀ span ∈ arguments.spans,
    start < span.1 ∧ span.1 ≤ span.2 ∧ span.2 ≤ arguments.close
  trimmed : ∀ span ∈ arguments.spans, span.1 < span.2 → ∀ c,
    source[span.1]? = some c ∨ source[span.2 - 1]? = some c → isBlank c = false
  outside : ∀ place c, start < place → place < arguments.close → source[place]? = some c →
    (∀ span ∈ arguments.spans, ¬(span.1 ≤ place ∧ place < span.2)) →
    isBlank c = true ∨ Separates source start place
  separated : ∀ place ∈ separators source start arguments.close,
    ∀ span ∈ arguments.spans, ¬(span.1 ≤ place ∧ place < span.2)
  length_eq : arguments.spans.length =
    if (slice source (start + 1) arguments.close).all isBlank then 0
    else (separators source start arguments.close).length + 1

/-! ## Depth, character by character -/

theorem balance_append (u v : List Char) : balance (u ++ v) = balance u + balance v := by
  simp only [balance, List.countP_append, Int.natCast_add]
  omega

theorem balance_of_isOpening {c : Char} (h : isOpening c = true) : balance [c] = 1 := by
  have hclosing : isClosing c = false := by
    apply Bool.eq_false_iff.mpr
    intro hclosing
    exact nomatch h.symm.trans (isOpening_of_isClosing hclosing)
  simp [balance, h, hclosing]

theorem balance_of_isClosing {c : Char} (h : isClosing c = true) : balance [c] = -1 := by
  simp [balance, h, isOpening_of_isClosing h]

theorem balance_of_no_bracket {c : Char} (hopening : ¬isOpening c = true)
    (hclosing : ¬isClosing c = true) : balance [c] = 0 := by
  simp [balance, hopening, hclosing]

/-- The code up to a place. -/
def codeUpTo (code : List Placed) (stop : Nat) : List Char :=
  (code.filter fun p => decide (p.place ≤ stop)).map Placed.char

theorem balance_codeUpTo_cons (h : p.place ≤ stop) (rest : List Placed) :
    balance (codeUpTo (p :: rest) stop) = balance [p.char] + balance (codeUpTo rest stop) := by
  rw [codeUpTo, List.filter_cons_of_pos (by simpa using h), List.map_cons]
  exact balance_append [p.char] _

/-- Up to the first character of code there is no other. -/
theorem balance_codeUpTo_self (h : ∀ q ∈ rest, p.place < q.place) :
    balance (codeUpTo (p :: rest) p.place) = balance [p.char] := by
  have hnone : rest.filter (fun q => decide (q.place ≤ p.place)) = [] := by
    apply List.filter_eq_nil_iff.mpr
    intro q hq
    simpa using h q hq
  rw [balance_codeUpTo_cons (Nat.le_refl _), codeUpTo, hnone]
  exact Int.add_zero _

/-! ## The closing bracket -/

/-- The first return of the depth to zero, in code that starts at a depth. -/
structure ClosesIn (depth : Int) (code : List Placed) (close : Nat) : Prop where
  exists_mem : ∃ p ∈ code, p.place = close
  depth_eq : depth + balance (codeUpTo code close) = 0
  depth_ne : ∀ p ∈ code, p.place < close → depth + balance (codeUpTo code p.place) ≠ 0

/-- A character that does not bring the depth to zero is passed over. -/
theorem closesIn_cons (hfirst : ∀ q ∈ rest, p.place < q.place)
    (hdepth : depth + balance [p.char] = depth') (hne : depth' ≠ 0) :
    ClosesIn depth (p :: rest) close ↔ ClosesIn depth' rest close := by
  have hlater : ∀ q ∈ rest, depth + balance (codeUpTo (p :: rest) q.place) =
      depth' + balance (codeUpTo rest q.place) := by
    intro q hq
    rw [balance_codeUpTo_cons (Nat.le_of_lt (hfirst q hq)), ← hdepth, Int.add_assoc]
  constructor
  · intro h
    obtain ⟨q, hq, rfl⟩ := h.exists_mem
    rcases List.mem_cons.mp hq with rfl | hq
    · -- At the first character the depth is not yet zero.
      have hzero := h.depth_eq
      rw [balance_codeUpTo_self hfirst, hdepth] at hzero
      exact absurd hzero hne
    · refine ⟨⟨q, hq, rfl⟩, ?_, fun r hr hlt => ?_⟩
      · rw [← hlater q hq]
        exact h.depth_eq
      · rw [← hlater r hr]
        exact h.depth_ne r (.tail _ hr) hlt
  · intro h
    obtain ⟨q, hq, rfl⟩ := h.exists_mem
    refine ⟨⟨q, .tail _ hq, rfl⟩, ?_, fun r hr hlt => ?_⟩
    · rw [hlater q hq]
      exact h.depth_eq
    · rcases List.mem_cons.mp hr with rfl | hr
      · rw [balance_codeUpTo_self hfirst, hdepth]
        exact hne
      · rw [hlater r hr]
        exact h.depth_ne r hr hlt

/-- A character that brings the depth to zero closes. -/
theorem closesIn_cons_of_eq_zero (hfirst : ∀ q ∈ rest, p.place < q.place)
    (hdepth : depth + balance [p.char] = 0) :
    ClosesIn depth (p :: rest) close ↔ p.place = close := by
  have hself : depth + balance (codeUpTo (p :: rest) p.place) = 0 := by
    rw [balance_codeUpTo_self hfirst, hdepth]
  constructor
  · intro h
    obtain ⟨q, hq, rfl⟩ := h.exists_mem
    rcases List.mem_cons.mp hq with rfl | hq
    · rfl
    · exact absurd hself (h.depth_ne p (.head _) (hfirst q hq))
  · rintro rfl
    refine ⟨⟨p, .head _, rfl⟩, hself, fun q hq hlt => ?_⟩
    rcases List.mem_cons.mp hq with rfl | hq
    · exact absurd hlt (Nat.lt_irrefl _)
    · exact absurd (hfirst q hq) (Nat.lt_asymm hlt)

/-- The search for the closing bracket finds the first return of the depth to zero. -/
theorem closingIn?_eq_some_iff (hordered : code.Pairwise fun p q => p.place < q.place)
    (hdepth : 1 ≤ depth) : closingIn? depth code = some close ↔ ClosesIn depth code close := by
  induction code generalizing depth with
  | nil =>
    constructor
    · intro h
      cases h
    · intro h
      obtain ⟨q, hq, -⟩ := h.exists_mem
      cases hq
  | cons p rest ih =>
    obtain ⟨hfirst, hrest⟩ := List.pairwise_cons.mp hordered
    rw [closingIn?]
    split
    · next hopening =>
      have hstep := balance_of_isOpening hopening
      rw [closesIn_cons hfirst (by rw [hstep]) (by omega)]
      exact ih hrest (by omega)
    next hopening =>
    split
    · next hclosing =>
      have hstep := balance_of_isClosing hclosing
      split
      · next hzero =>
        rw [closesIn_cons_of_eq_zero hfirst (by omega)]
        exact Option.some_inj
      · next hne =>
        rw [closesIn_cons hfirst (by rw [hstep]; rfl) hne]
        exact ih hrest (by omega)
    · next hclosing =>
      have hstep := balance_of_no_bracket hopening hclosing
      rw [closesIn_cons hfirst (by rw [hstep, Int.add_zero]) (by omega)]
      exact ih hrest hdepth

/-- The search for the commas ends at the closing bracket. -/
theorem map_commasIn? (depth : Int) (code : List Placed) :
    (commasIn? depth code).map Prod.snd = closingIn? depth code := by
  fun_induction commasIn? depth code with
  | case1 => rfl
  | case2 depth p rest hopening ih => rw [ih, closingIn?, if_pos hopening]
  | case3 depth p rest hopening hclosing hzero =>
    rw [closingIn?, if_neg hopening, if_pos hclosing, if_pos hzero]
    rfl
  | case4 depth p rest hopening hclosing hne ih =>
    rw [ih, closingIn?, if_neg hopening, if_pos hclosing, if_neg hne]
  | case5 depth p rest hopening hclosing hcomma ih =>
    rw [closingIn?, if_neg hopening, if_neg hclosing, ← ih, Option.map_map]
    rfl
  | case6 depth p rest hopening hclosing hcomma ih =>
    rw [ih, closingIn?, if_neg hopening, if_neg hclosing]

/-! ## The commas -/

/-- What is found of a list is in the code that is searched. -/
theorem exists_mem_of_commasIn? (h : commasIn? depth code = some (commas, close)) {place : Nat}
    (hplace : place ∈ commas ∨ place = close) : ∃ q ∈ code, q.place = place := by
  obtain ⟨c, -, hsublist⟩ := commasIn?_sublist h
  rcases hplace with hplace | rfl
  · exact ⟨⟨place, ','⟩, hsublist.subset (List.mem_append_left _ (List.mem_map_of_mem hplace)), rfl⟩
  · exact ⟨⟨place, c⟩, hsublist.subset (by simp), rfl⟩

/-- If a character is passed over that is no comma of the list, the commas are those behind it. -/
theorem mem_commas_cons (hfirst : ∀ q ∈ rest, p.place < q.place)
    (hdepth : depth + balance [p.char] = depth') (hne : ¬(p.char = ',' ∧ depth' = 1))
    (h : commasIn? depth' rest = some (commas, close))
    (ih : ∀ q ∈ rest, q.place ∈ commas ↔
      q.char = ',' ∧ q.place < close ∧ depth' + balance (codeUpTo rest q.place) = 1) :
    ∀ q ∈ p :: rest, q.place ∈ commas ↔
      q.char = ',' ∧ q.place < close ∧ depth + balance (codeUpTo (p :: rest) q.place) = 1 := by
  intro q hq
  rcases List.mem_cons.mp hq with rfl | hq
  · constructor
    · intro hmem
      obtain ⟨r, hr, hplace⟩ := exists_mem_of_commasIn? h (.inl hmem)
      exact absurd hplace (Nat.ne_of_gt (hfirst r hr))
    · rintro ⟨hchar, -, hone⟩
      rw [balance_codeUpTo_self hfirst, hdepth] at hone
      exact absurd ⟨hchar, hone⟩ hne
  · rw [ih q hq, balance_codeUpTo_cons (Nat.le_of_lt (hfirst q hq)), ← hdepth, Int.add_assoc]

/-- The commas that are found are all the commas at depth one before the closing bracket. -/
theorem mem_commas_iff (hordered : code.Pairwise fun p q => p.place < q.place)
    (h : commasIn? depth code = some (commas, close)) :
    ∀ p ∈ code, p.place ∈ commas ↔
      p.char = ',' ∧ p.place < close ∧ depth + balance (codeUpTo code p.place) = 1 := by
  fun_induction commasIn? depth code generalizing commas with
  | case1 => cases h
  | case2 depth p rest hopening ih =>
    obtain ⟨hfirst, hrest⟩ := List.pairwise_cons.mp hordered
    apply mem_commas_cons hfirst (by rw [balance_of_isOpening hopening]) _ h (ih hrest h)
    rintro ⟨hchar, -⟩
    rw [hchar] at hopening
    cases hopening
  | case3 depth p rest hopening hclosing hzero =>
    obtain ⟨hfirst, -⟩ := List.pairwise_cons.mp hordered
    obtain ⟨rfl, rfl⟩ := Prod.mk.inj (Option.some.inj h)
    intro q hq
    -- The bracket closes the call at once, and nothing comes before it.
    have hle : p.place ≤ q.place := by
      rcases List.mem_cons.mp hq with rfl | hq
      · exact Nat.le_refl _
      · exact Nat.le_of_lt (hfirst q hq)
    constructor
    · intro hmem
      cases hmem
    · rintro ⟨-, hlt, -⟩
      exact absurd hle (Nat.not_le_of_lt hlt)
  | case4 depth p rest hopening hclosing hne ih =>
    obtain ⟨hfirst, hrest⟩ := List.pairwise_cons.mp hordered
    apply mem_commas_cons hfirst (by rw [balance_of_isClosing hclosing]; rfl) _ h (ih hrest h)
    rintro ⟨hchar, -⟩
    rw [hchar] at hclosing
    cases hclosing
  | case5 depth p rest hopening hclosing hcomma ih =>
    obtain ⟨hfirst, hrest⟩ := List.pairwise_cons.mp hordered
    obtain ⟨⟨others, close'⟩, hothers, heq⟩ := Option.map_eq_some_iff.mp h
    obtain ⟨rfl, rfl⟩ := Prod.mk.inj heq
    obtain ⟨hchar, hone⟩ := Bool.and_eq_true_iff.mp hcomma
    have hstep := balance_of_no_bracket hopening hclosing
    obtain ⟨last, hlast, hclose⟩ := exists_mem_of_commasIn? hothers (.inr rfl)
    intro q hq
    rcases List.mem_cons.mp hq with rfl | hq
    · rw [balance_codeUpTo_self hfirst, hstep, Int.add_zero, ← hclose]
      simp [beq_iff_eq.mp hchar, beq_iff_eq.mp hone, hfirst last hlast]
    · have hlt := hfirst q hq
      rw [List.mem_cons, ih hrest hothers q hq, balance_codeUpTo_cons (Nat.le_of_lt hlt), hstep,
        Int.zero_add]
      exact or_iff_right (Nat.ne_of_gt hlt)
  | case6 depth p rest hopening hclosing hcomma ih =>
    obtain ⟨hfirst, hrest⟩ := List.pairwise_cons.mp hordered
    have hstep := balance_of_no_bracket hopening hclosing
    apply mem_commas_cons hfirst (by rw [hstep, Int.add_zero]) _ h (ih hrest h)
    rintro ⟨hchar, hone⟩
    apply hcomma
    simp [hchar, hone]

/-! ## Depth in a snippet -/

/-- Behind a bracket the depth is one, and the code behind it counts from there. -/
theorem bracketDepth_eq (hstart : ⟨start, '('⟩ ∈ codeChars source) (h : start ≤ stop) :
    bracketDepth source start stop = 1 + balance (codeUpTo (codeFrom source (start + 1)) stop) := by
  obtain ⟨before, after, hcode⟩ := List.append_of_mem hstart
  have hordered := pairwise_codeChars source
  rw [hcode] at hordered
  obtain ⟨-, hfrom, hbefore⟩ := List.pairwise_append.mp hordered
  have hafter := (List.pairwise_cons.mp hfrom).1
  have hfirst : codeBetween source start (start + 1) = ['('] := by
    have hcode' : codeChars source = before ++ ([⟨start, '('⟩] ++ after) := hcode
    apply codeBetween_of_eq hcode'
    · intro p hp
      exact hbefore p hp _ (.head _)
    · intro p hp
      rw [List.mem_singleton.mp hp]
      exact ⟨Nat.le_refl _, Nat.lt_succ_self _⟩
    · exact hafter
  have hrest : codeBetween source (start + 1) (stop + 1) =
      codeUpTo (codeFrom source (start + 1)) stop := by
    rw [codeBetween, codeUpTo, codeFrom, List.filter_filter]
    simp only [Nat.lt_succ_iff, Bool.and_comm]
  rw [bracketDepth, codeBetween_append (Nat.le_succ start) (Nat.succ_le_succ h), hfirst, hrest]
  exact balance_append ['('] _

theorem mem_codeFrom {place : Nat} :
    p ∈ codeFrom source place ↔ p ∈ codeChars source ∧ place ≤ p.place := by
  rw [codeFrom, List.mem_filter, decide_eq_true_iff]

/-- The places of code behind a place. -/
theorem exists_mem_codeFrom_iff {place : Nat} :
    (∃ p ∈ codeFrom source (start + 1), p.place = place) ↔
      start < place ∧ isCodeAt (ofSource source) place = true := by
  constructor
  · rintro ⟨p, hp, rfl⟩
    obtain ⟨hp, hlt⟩ := mem_codeFrom.mp hp
    exact ⟨hlt, inCode_iff_isCodeAt.mp (inCode_of_mem_codeChars hp).1⟩
  · rintro ⟨hlt, hcode⟩
    have hin := inCode_iff_isCodeAt.mpr hcode
    obtain ⟨c, hc⟩ : ∃ c, source[place]? = some c := by
      obtain ⟨r, hr, -, -, hhigh⟩ := isCodeAt_natCast_iff.mp hcode
      have hlength := ((tiles_ofSource source).bounds_of_mem hr).2.2
      exact ⟨_, List.getElem?_eq_getElem (by omega)⟩
    exact ⟨⟨place, c⟩, mem_codeFrom.mpr ⟨mem_codeChars hin hc, hlt⟩, rfl⟩

theorem pairwise_codeFrom (source : List Char) (start : Nat) :
    (codeFrom source start).Pairwise fun p q => p.place < q.place :=
  (pairwise_codeChars source).filter _

/-- The first return to zero is the same in the code behind the parenthesis. -/
theorem closes_iff (hstart : ⟨start, '('⟩ ∈ codeChars source) :
    Closes source start stop ↔ ClosesIn 1 (codeFrom source (start + 1)) stop := by
  constructor
  · intro h
    refine ⟨exists_mem_codeFrom_iff.mpr ⟨h.lt, h.code⟩, ?_, fun p hp hlt => ?_⟩
    · rw [← bracketDepth_eq hstart (Nat.le_of_lt h.lt)]
      exact h.depth_eq
    · obtain ⟨hlow, hcode⟩ := exists_mem_codeFrom_iff.mp ⟨p, hp, rfl⟩
      rw [← bracketDepth_eq hstart (Nat.le_of_lt hlow)]
      exact h.depth_ne p.place hlow hlt hcode
  · intro h
    obtain ⟨hlt, hcode⟩ := exists_mem_codeFrom_iff.mp h.exists_mem
    refine ⟨hlt, hcode, ?_, fun place hlow hhigh hplace => ?_⟩
    · rw [bracketDepth_eq hstart (Nat.le_of_lt hlt)]
      exact h.depth_eq
    · obtain ⟨p, hp, rfl⟩ := exists_mem_codeFrom_iff.mpr ⟨hlow, hplace⟩
      rw [bracketDepth_eq hstart (Nat.le_of_lt hlow)]
      exact h.depth_ne p hp hhigh

/-- The bracket that closes a parenthesis is the first return of the depth to zero. -/
theorem closing?_eq_some_iff (hstart : ⟨start, '('⟩ ∈ codeChars source) :
    closing? (codeChars source) start = some stop ↔ Closes source start stop := by
  have hone : closing? (codeChars source) start = closingIn? 1 (codeFrom source (start + 1)) := by
    rw [closing?, ← map_commasIn?, commasIn?_dropWhile hstart, map_commasIn?]
  rw [hone, closingIn?_eq_some_iff (pairwise_codeFrom source _) (Int.le_refl 1), closes_iff hstart]

/-- The commas that are found are those that separate the arguments. -/
theorem commas_eq_separators (hstart : ⟨start, '('⟩ ∈ codeChars source)
    (h : commasIn? 1 (codeFrom source (start + 1)) = some (commas, close)) :
    commas = separators source start close := by
  have hordered := pairwise_codeFrom source (start + 1)
  have hmem := mem_commas_iff hordered h
  apply List.Pairwise.eq_of_mem_iff (r := (· < ·))
  · -- The commas come in the order of the code.
    obtain ⟨c, -, hsublist⟩ := commasIn?_sublist h
    have hcommas := (List.sublist_append_left _ _).trans hsublist
    have hplaces := List.pairwise_map.mp (hordered.sublist hcommas)
    exact hplaces
  · exact List.pairwise_lt_range.filter _
  · intro place
    rw [mem_separators]
    constructor
    · intro hplace
      obtain ⟨p, hp, rfl⟩ := exists_mem_of_commasIn? h (.inl hplace)
      obtain ⟨hchar, hlt, hdepth⟩ := (hmem p hp).mp hplace
      obtain ⟨hlow, hcode⟩ := exists_mem_codeFrom_iff.mp ⟨p, hp, rfl⟩
      refine ⟨hlow, hlt, ?_, hcode, ?_⟩
      · rw [← hchar]
        exact (inCode_of_mem_codeChars (mem_codeFrom.mp hp).1).2
      · rw [bracketDepth_eq hstart (Nat.le_of_lt hlow)]
        exact hdepth
    · rintro ⟨hlow, hlt, hchar, hcode, hdepth⟩
      obtain ⟨p, hp, rfl⟩ := exists_mem_codeFrom_iff.mpr ⟨hlow, hcode⟩
      rw [bracketDepth_eq hstart (Nat.le_of_lt hlow)] at hdepth
      have hp' := (inCode_of_mem_codeChars (mem_codeFrom.mp hp).1).2
      exact (hmem p hp).mpr ⟨Option.some.inj (hp'.symm.trans hchar), hlt, hdepth⟩

/-! ## Ranges between boundaries -/

/-- A text that stays as it is when it is trimmed has no blank at its ends. -/
theorem eq_false_of_trim {text : List Char} (h : trim text = text) {c : Char}
    (hc : text.head? = some c ∨ text.getLast? = some c) : isBlank c = false := by
  rcases hc with hc | hc
  · have hhead := List.head?_dropWhile_not isBlank text
    rw [show text.dropWhile isBlank = text from trimStart_of_trim h, hc] at hhead
    simpa using hhead
  · have hlast := List.head?_dropWhile_not isBlank (trimStart text).reverse
    rw [← List.getLast?_reverse, show ((trimStart text).reverse.dropWhile isBlank).reverse = text
      from h, hc] at hlast
    simpa using hlast

/-- What a range leaves when it is trimmed. -/
structure Trims (source : List Char) (start stop : Nat) (span : Nat × Nat) : Prop where
  low : start ≤ span.1
  le : span.1 ≤ span.2
  high : span.2 ≤ stop
  outside : ∀ place c, start ≤ place → place < stop → source[place]? = some c →
    ¬(span.1 ≤ place ∧ place < span.2) → isBlank c = true
  trimmed : span.1 < span.2 → ∀ c,
    source[span.1]? = some c ∨ source[span.2 - 1]? = some c → isBlank c = false

theorem trims_trimSpan (h : start ≤ stop) (hstop : stop ≤ source.length) :
    Trims source start stop (trimSpan source start stop) := by
  have htext := slice_trimSpan source start stop
  obtain ⟨gap, middle, gap', hgap, hgap', hdrop, hspan⟩ := exists_of_trimSpan source h
  have hlength := congrArg List.length hdrop
  simp only [List.length_drop, List.length_append] at hlength
  rw [hspan] at htext ⊢
  have hchar : ∀ place, start ≤ place →
      source[place]? = (gap ++ middle ++ gap' ++ source.drop stop)[place - start]? := by
    intro place hplace
    rw [← hdrop, List.getElem?_drop, Nat.add_sub_cancel' hplace]
  refine ⟨Nat.le_add_right _ _, Nat.le_add_right _ _, by dsimp only; omega, ?_, ?_⟩
  · intro place c hlow hhigh hc hout
    rw [hchar place hlow, List.getElem?_append_left (by simp only [List.length_append]; omega)]
      at hc
    dsimp only at hout
    rcases Nat.lt_or_ge (place - start) gap.length with hlt | hge
    · rw [List.append_assoc, List.getElem?_append_left hlt] at hc
      exact hgap c (List.mem_of_getElem? hc)
    · rw [List.getElem?_append_right (by simp only [List.length_append]; omega)] at hc
      exact hgap' c (List.mem_of_getElem? hc)
  · intro hlt c hc
    -- The middle is the trimmed text, so that it has no blank at its ends.
    have hmiddle : trim middle = middle := by
      have hslice : slice source (start + gap.length) (start + gap.length + middle.length) =
          middle := by
        rw [slice, ← List.drop_drop, hdrop, Nat.add_sub_cancel_left, List.append_assoc,
          List.append_assoc, List.drop_left, List.take_left]
      rw [hslice] at htext
      rw [htext, trim_trim]
    dsimp only at hlt hc
    rw [hchar _ (by omega), hchar _ (by omega)] at hc
    apply eq_false_of_trim hmiddle
    rcases hc with hc | hc
    · left
      rw [List.getElem?_append_left (by simp only [List.length_append]; omega),
        List.getElem?_append_left (by simp only [List.length_append]; omega),
        List.getElem?_append_right (by omega)] at hc
      rw [List.head?_eq_getElem?, ← hc]
      congr 1
      omega
    · right
      rw [List.getElem?_append_left (by simp only [List.length_append]; omega),
        List.getElem?_append_left (by simp only [List.length_append]; omega),
        List.getElem?_append_right (by omega)] at hc
      rw [List.getLast?_eq_getElem?, ← hc]
      congr 1
      omega

/-- The ranges between boundaries leave blanks and the boundaries. -/
structure SplitsAt (source : List Char) (start : Nat) (boundaries : List Nat)
    (spans : List (Nat × Nat)) : Prop where
  increasing : spans.Pairwise fun span next => span.2 < next.1
  inside : ∀ span ∈ spans, start ≤ span.1 ∧ span.1 ≤ span.2 ∧ ∃ b ∈ boundaries, span.2 ≤ b
  trimmed : ∀ span ∈ spans, span.1 < span.2 → ∀ c,
    source[span.1]? = some c ∨ source[span.2 - 1]? = some c → isBlank c = false
  outside : ∀ place c, start ≤ place → (∃ b ∈ boundaries, place ≤ b) →
    source[place]? = some c → (∀ span ∈ spans, ¬(span.1 ≤ place ∧ place < span.2)) →
    isBlank c = true ∨ place ∈ boundaries
  separated : ∀ place ∈ boundaries, ∀ span ∈ spans, ¬(span.1 ≤ place ∧ place < span.2)
  length_eq : spans.length = boundaries.length

theorem splitsAt_spansBetween {boundaries : List Nat} (hordered : boundaries.Pairwise (· < ·))
    (hlow : ∀ b ∈ boundaries, start ≤ b) (hhigh : ∀ b ∈ boundaries, b ≤ source.length) :
    SplitsAt source start boundaries (spansBetween source start boundaries) := by
  induction boundaries generalizing start with
  | nil => exact ⟨.nil, by simp [spansBetween], by simp [spansBetween], by simp, by simp, rfl⟩
  | cons boundary rest ih =>
    obtain ⟨hfirst, hrest⟩ := List.pairwise_cons.mp hordered
    obtain ⟨hstart, -⟩ := List.forall_mem_cons.mp hlow
    obtain ⟨hlength, hhigh⟩ := List.forall_mem_cons.mp hhigh
    have hspan := trims_trimSpan hstart hlength
    have hspans := ih hrest hfirst hhigh
    rw [spansBetween]
    generalize trimSpan source start boundary = span at hspan
    generalize spansBetween source (boundary + 1) rest = spans at hspans
    have hnext : ∀ next ∈ spans, boundary < next.1 := fun next hnext => (hspans.inside next hnext).1
    refine ⟨?_, ?_, ?_, ?_, ?_, ?_⟩
    · refine List.pairwise_cons.mpr ⟨fun next hnext' => ?_, hspans.increasing⟩
      exact Nat.lt_of_le_of_lt hspan.high (hnext next hnext')
    · refine List.forall_mem_cons.mpr
        ⟨⟨hspan.low, hspan.le, boundary, .head _, hspan.high⟩, fun next hnext' => ?_⟩
      obtain ⟨-, hle, b, hb, hin⟩ := hspans.inside next hnext'
      have hlt := hnext next hnext'
      exact ⟨by omega, hle, b, .tail _ hb, hin⟩
    · exact List.forall_mem_cons.mpr ⟨hspan.trimmed, hspans.trimmed⟩
    · rintro place c hplace ⟨b, hb, hle⟩ hc hout
      obtain ⟨hout, houts⟩ := List.forall_mem_cons.mp hout
      rcases Nat.lt_trichotomy place boundary with hlt | rfl | hgt
      · exact .inl (hspan.outside place c hplace hlt hc hout)
      · exact .inr (.head _)
      · -- Behind the first boundary, the other ranges decide.
        have hb' : b ∈ rest := by
          rcases List.mem_cons.mp hb with rfl | hb
          · exact absurd hle (Nat.not_le_of_lt hgt)
          · exact hb
        exact (hspans.outside place c hgt ⟨b, hb', hle⟩ hc houts).imp_right (.tail _)
    · intro place hplace next hnext'
      rcases List.mem_cons.mp hplace with rfl | hplace
      · rcases List.mem_cons.mp hnext' with rfl | hnext'
        · have hle := hspan.high
          omega
        · have hlt := hnext next hnext'
          omega
      · rcases List.mem_cons.mp hnext' with rfl | hnext'
        · have hle := hspan.high
          have hlt := hfirst place hplace
          omega
        · exact hspans.separated place hplace next hnext'
    · rw [List.length_cons, List.length_cons, hspans.length_eq]

/-! ## The arguments of a call -/

/-- A range is blank if all its characters are, by their places. -/
theorem all_slice_iff {source : List Char} {start stop : Nat} :
    (slice source start stop).all isBlank = true ↔
      ∀ place c, start ≤ place → place < stop → source[place]? = some c → isBlank c = true := by
  rw [List.all_eq_true]
  constructor
  · intro h place c hlow hhigh hc
    apply h
    apply List.mem_iff_getElem?.mpr
    refine ⟨place - start, ?_⟩
    rw [slice, List.getElem?_take_of_lt (by omega), List.getElem?_drop, Nat.add_sub_cancel' hlow]
    exact hc
  · intro h c hc
    obtain ⟨place, hplace⟩ := List.mem_iff_getElem?.mp hc
    have hlt := (List.getElem?_eq_some_iff.mp hplace).1
    rw [slice, List.length_take] at hlt
    rw [slice, List.getElem?_take_of_lt (by omega), List.getElem?_drop] at hplace
    exact h _ c (Nat.le_add_right _ _) (by omega) hplace

/-- The arguments of a call whose list is blank: there are none. -/
theorem partitions_of_blank {arguments : Arguments} (hnil : arguments.spans = [])
    (hlist : Trims source (start + 1) arguments.close (stop, stop)) :
    Partitions source start arguments := by
  have hblank : ∀ place c, start < place → place < arguments.close → source[place]? = some c →
      isBlank c = true := by
    intro place c hlow hhigh hc
    apply hlist.outside place c hlow hhigh hc
    rintro ⟨hle, hgt⟩
    exact Nat.not_le_of_lt hgt hle
  have hall : (slice source (start + 1) arguments.close).all isBlank = true :=
    all_slice_iff.mpr hblank
  refine ⟨?_, ?_, ?_, ?_, ?_, ?_⟩
  · rw [hnil]
    exact .nil
  · simp [hnil]
  · simp [hnil]
  · exact fun place c hlow hhigh hc _ => .inl (hblank place c hlow hhigh hc)
  · simp [hnil]
  · rw [hnil, if_pos hall]
    rfl

/-- The arguments of a call whose list is not blank: what stands between its marks. -/
theorem partitions_of_splitsAt {arguments : Arguments}
    (h : SplitsAt source (start + 1) (separators source start arguments.close ++ [arguments.close])
      arguments.spans)
    (hblank : (slice source (start + 1) arguments.close).all isBlank = false) :
    Partitions source start arguments := by
  have hle : ∀ b ∈ separators source start arguments.close ++ [arguments.close],
      b ≤ arguments.close := by
    intro b hb
    rcases List.mem_append.mp hb with hb | hb
    · exact Nat.le_of_lt (mem_separators.mp hb).2.1
    · exact Nat.le_of_eq (List.mem_singleton.mp hb)
  refine ⟨h.increasing, ?_, h.trimmed, ?_, ?_, ?_⟩
  · intro span hspan
    obtain ⟨hlow, hinner, b, hb, hhigh⟩ := h.inside span hspan
    exact ⟨hlow, hinner, Nat.le_trans hhigh (hle b hb)⟩
  · intro place c hlow hhigh hc hout
    have hclose : ∃ b ∈ separators source start arguments.close ++ [arguments.close], place ≤ b :=
      ⟨arguments.close, by simp, Nat.le_of_lt hhigh⟩
    rcases h.outside place c hlow hclose hc hout with hc | hplace
    · exact .inl hc
    · rcases List.mem_append.mp hplace with hplace | hplace
      · exact .inr (mem_separators.mp hplace).2.2
      · exact absurd (List.mem_singleton.mp hplace) (Nat.ne_of_lt hhigh)
  · intro place hplace
    exact h.separated place (List.mem_append_left _ hplace)
  · rw [h.length_eq, hblank, List.length_append]
    rfl

/-- The ranges between the commas of a call and its closing bracket. -/
theorem splitsAt_separators (hlt : start < close) (hlength : close ≤ source.length) :
    SplitsAt source (start + 1) (separators source start close ++ [close])
      (spansBetween source (start + 1) (separators source start close ++ [close])) := by
  apply splitsAt_spansBetween
  · apply List.pairwise_append.mpr
    refine ⟨List.pairwise_lt_range.filter _, List.pairwise_singleton _ _, ?_⟩
    intro place hplace b hb
    rw [List.mem_singleton.mp hb]
    exact (mem_separators.mp hplace).2.1
  · intro b hb
    rcases List.mem_append.mp hb with hb | hb
    · exact (mem_separators.mp hb).1
    · exact List.mem_singleton.mp hb ▸ hlt
  · intro b hb
    rcases List.mem_append.mp hb with hb | hb
    · exact Nat.le_trans (Nat.le_of_lt (mem_separators.mp hb).2.1) hlength
    · exact List.mem_singleton.mp hb ▸ hlength

/-- A blank list holds no comma, and nothing is left of it when it is trimmed. -/
theorem all_slice_eq_false {span : Nat × Nat} (hlist : Trims source (start + 1) close span)
    (hlength : close ≤ source.length)
    (hnot : separators source start close = [] → span.1 ≠ span.2) :
    (slice source (start + 1) close).all isBlank = false := by
  apply Bool.eq_false_iff.mpr
  intro hall
  have hblank := all_slice_iff.mp hall
  have hnone : separators source start close = [] := by
    apply List.eq_nil_iff_forall_not_mem.mpr
    intro place hplace
    obtain ⟨hlow, hhigh, hcomma, -⟩ := mem_separators.mp hplace
    have hfalse := hblank place ',' hlow hhigh hcomma
    cases hfalse
  have hproper := Nat.lt_of_le_of_ne hlist.le (hnot hnone)
  have hstart : span.1 < close := Nat.lt_of_lt_of_le hproper hlist.high
  have hfirst := List.getElem?_eq_getElem (Nat.lt_of_lt_of_le hstart hlength)
  have hfalse := hlist.trimmed hproper _ (.inl hfirst)
  rw [hblank _ _ hlist.low hstart hfirst] at hfalse
  cases hfalse

/-- The search for the arguments of a call ends where that for its closing bracket does. -/
theorem map_close_argumentSpans? (source : List Char) (code : List Placed) (start : Nat) :
    (argumentSpans? source code start).map Arguments.close = closing? code start := by
  rw [closing?, ← map_commasIn?, argumentSpans?, Option.map_map]
  congr 1
  funext marks
  dsimp only [Function.comp_apply]
  split
  · split
    · rfl
    · rfl
  · rfl

/-- The search for the closing bracket and that for the arguments of a call end at the same place,
the first at which the depth of the brackets of code is back at zero; and the arguments divide what
is between. -/
theorem argumentSpans?_partitions (hchar : source[start]? = some '(')
    (hcode : isCodeAt (ofSource source) start = true) :
    (argumentSpans? source (codeChars source) start).map Arguments.close =
        closing? (codeChars source) start ∧
      (∀ stop, closing? (codeChars source) start = some stop ↔ Closes source start stop) ∧
      ∀ arguments, argumentSpans? source (codeChars source) start = some arguments →
        Partitions source start arguments := by
  have hstart : ⟨start, '('⟩ ∈ codeChars source :=
    mem_codeChars (inCode_iff_isCodeAt.mpr hcode) hchar
  refine ⟨map_close_argumentSpans? source _ start, fun stop => closing?_eq_some_iff hstart, ?_⟩
  intro arguments h
  obtain ⟨commas, hcommas, hspans⟩ := spans_of_argumentSpans? h
  obtain ⟨c, -, hclose, hlt⟩ := exists_close hstart h
  have hlength : arguments.close ≤ source.length :=
    Nat.le_of_lt (place_lt_of_mem_codeChars hclose)
  have hlist : Trims source (start + 1) arguments.close
      (trimSpan source (start + 1) arguments.close) :=
    trims_trimSpan (Nat.succ_le_of_lt hlt) hlength
  rw [commasIn?_dropWhile hstart] at hcommas
  obtain rfl := commas_eq_separators hstart hcommas
  rcases hspans with ⟨-, hnil, hempty⟩ | ⟨hspans, hnot⟩
  · generalize trimSpan source (start + 1) arguments.close = span at hlist hempty
    obtain ⟨low, high⟩ := span
    obtain rfl : low = high := hempty
    exact partitions_of_blank hnil hlist
  · have hsplits := splitsAt_separators hlt hlength
    rw [← hspans] at hsplits
    exact partitions_of_splitsAt hsplits (all_slice_eq_false hlist hlength hnot)

/-- A call with a comma in a text and one in brackets, and with an argument that is left out. -/
theorem argumentSpans?_partitions_mixed :
    let source := "f( ',', [a, b] ,, c )".toList
    (source[1]? = some '(' ∧ isCodeAt (ofSource source) (1 : Nat) = true) ∧
      argumentSpans? source (codeChars source) (1 : Nat) =
        some ⟨[(3, 6), (8, 14), (16, 16), (18, 19)], 20⟩ ∧
      closing? (codeChars source) (1 : Nat) = some 20 ∧ Closes source 1 20 ∧
      separators source 1 20 = [6, 15, 16] ∧
      Partitions source 1 ⟨[(3, 6), (8, 14), (16, 16), (18, 19)], 20⟩ := by
  intro source
  have hchar : source[1]? = some '(' := by decide
  have hcode : isCodeAt (ofSource source) (1 : Nat) = true := by decide +kernel
  have harguments : argumentSpans? source (codeChars source) (1 : Nat) =
      some ⟨[(3, 6), (8, 14), (16, 16), (18, 19)], 20⟩ := by decide +kernel
  obtain ⟨hclose, hcloses, hpartitions⟩ := argumentSpans?_partitions hchar hcode
  have hclosing : closing? (codeChars source) (1 : Nat) = some 20 := by
    rw [← hclose, harguments]
    rfl
  exact ⟨⟨hchar, hcode⟩, harguments, hclosing, (hcloses 20).mp hclosing, by decide +kernel,
    hpartitions _ harguments⟩

end GuestCode
