import GuestCode.Proofs.Snippet.Arguments

/-!
# Nesting of brackets

Code is balanced if the depth of its brackets never falls below zero and is zero at the end. Between
two marks of a call, its parenthesis, its commas and its closing bracket, code is balanced; and
balanced code inside the brackets of an argument does not count for the call.

## Main statements

* `nestingAfter?`, `Balanced`: the depth of brackets, and code that is balanced.
* `commasIn?_of_nestingAfter?`: balanced code inside an argument is passed over.
* `isChain_adjacent`: between the marks of a call code is balanced.
* `exists_stands_of_mem_spans`: where an argument stands, and that it is balanced.
-/

namespace GuestCode

open Text

variable {source u v : List Char} {code more : List Placed} {depth depth' : Nat}

/-! ## Depth -/

/-- A closing bracket opens nothing. -/
theorem isOpening_of_isClosing {c : Char} (h : isClosing c = true) : isOpening c = false := by
  have hall : ∀ c ∈ [')', ']', '\x7d'], isOpening c = false := by decide
  refine hall c ?_
  simpa [isClosing, or_assoc] using h

/-- The depth of brackets after code, `depth` before it; `none` if it falls below zero. -/
def nestingAfter? (depth : Nat) : List Char → Option Nat
  | [] => some depth
  | c :: cs =>
    if isOpening c then nestingAfter? (depth + 1) cs
    else if isClosing c then if depth = 0 then none else nestingAfter? (depth - 1) cs
    else nestingAfter? depth cs

/-- Code whose depth of brackets never falls below zero and is zero at the end. -/
def Balanced (code : List Char) : Prop := nestingAfter? 0 code = some 0

instance (code : List Char) : Decidable (Balanced code) :=
  inferInstanceAs (Decidable (nestingAfter? 0 code = some 0))

theorem nestingAfter?_append (depth : Nat) (u v : List Char) :
    nestingAfter? depth (u ++ v) =
      (nestingAfter? depth u).bind fun depth => nestingAfter? depth v := by
  fun_induction nestingAfter? depth u with
  | case1 => rfl
  | case2 depth c cs hopening ih => rw [List.cons_append, nestingAfter?, if_pos hopening, ih]
  | case3 c cs hopening hclosing =>
    rw [List.cons_append, nestingAfter?, if_neg hopening, if_pos hclosing, if_pos rfl]
    rfl
  | case4 depth c cs hopening hclosing hpositive ih =>
    rw [List.cons_append, nestingAfter?, if_neg hopening, if_pos hclosing, if_neg hpositive, ih]
  | case5 depth c cs hopening hclosing ih =>
    rw [List.cons_append, nestingAfter?, if_neg hopening, if_neg hclosing, ih]

/-- The depth outside is added to that inside. -/
theorem nestingAfter?_add (h : nestingAfter? depth u = some depth') (outer : Nat) :
    nestingAfter? (depth + outer) u = some (depth' + outer) := by
  fun_induction nestingAfter? depth u with
  | case1 =>
    obtain rfl := Option.some.inj h
    rfl
  | case2 depth c cs hopening ih =>
    rw [nestingAfter?, if_pos hopening, Nat.add_right_comm, ih h]
  | case3 => cases h
  | case4 depth c cs hopening hclosing hpositive ih =>
    have houter : depth + outer - 1 = depth - 1 + outer := by omega
    rw [nestingAfter?, if_neg hopening, if_pos hclosing, if_neg (by omega), houter, ih h]
  | case5 depth c cs hopening hclosing ih =>
    rw [nestingAfter?, if_neg hopening, if_neg hclosing, ih h]

/-- Balanced code changes no depth. -/
theorem Balanced.nestingAfter? (h : Balanced u) (depth : Nat) :
    nestingAfter? depth u = some depth := by
  have hdepth := nestingAfter?_add h depth
  rwa [Nat.zero_add] at hdepth

/-- Code that has the same effect on every depth has it behind other code as well. -/
theorem nestingAfter?_append_congr (h : ∀ depth, nestingAfter? depth u = nestingAfter? depth v)
    (before : List Char) (depth : Nat) :
    nestingAfter? depth (before ++ u) = nestingAfter? depth (before ++ v) := by
  rw [nestingAfter?_append, nestingAfter?_append]
  exact congrArg (Option.bind _) (funext h)

theorem nestingAfter?_cons_congr (h : ∀ depth, nestingAfter? depth u = nestingAfter? depth v)
    (c : Char) (depth : Nat) : nestingAfter? depth (c :: u) = nestingAfter? depth (c :: v) :=
  nestingAfter?_append_congr h [c] depth

theorem nestingAfter?_append_of_balanced (hu : Balanced u) (depth : Nat) (v : List Char) :
    nestingAfter? depth (u ++ v) = nestingAfter? depth v := by
  rw [nestingAfter?_append, hu.nestingAfter?, Option.bind_some]

theorem Balanced.append (hu : Balanced u) (hv : Balanced v) : Balanced (u ++ v) := by
  rw [Balanced, nestingAfter?_append, hu, Option.bind_some, hv]

/-- Code without brackets changes no depth. -/
theorem balanced_of_no_bracket (h : ∀ c ∈ u, isOpening c = false ∧ isClosing c = false) :
    Balanced u := by
  induction u with
  | nil => rfl
  | cons c cs ih =>
    obtain ⟨⟨hopening, hclosing⟩, hcs⟩ := List.forall_mem_cons.mp h
    rw [Balanced, GuestCode.nestingAfter?, if_neg (Bool.eq_false_iff.mp hopening),
      if_neg (Bool.eq_false_iff.mp hclosing)]
    exact ih hcs

/-- No blank is a bracket. -/
theorem balanced_of_blank (h : ∀ c ∈ u, isBlank c = true) : Balanced u := by
  have hnot : ∀ c ∈ ['(', '[', '\x7b', ')', ']', '\x7d'], isBlank c = false := by decide
  refine balanced_of_no_bracket fun c hc => ⟨?_, ?_⟩
  · refine Bool.eq_false_iff.mpr fun hopening => ?_
    have hmem : c ∈ ['(', '[', '\x7b', ')', ']', '\x7d'] := by
      simp only [isOpening, Bool.or_eq_true, beq_iff_eq] at hopening
      rcases hopening with (rfl | rfl) | rfl
      all_goals decide
    exact nomatch (h c hc).symm.trans (hnot c hmem)
  · refine Bool.eq_false_iff.mpr fun hclosing => ?_
    have hmem : c ∈ ['(', '[', '\x7b', ')', ']', '\x7d'] := by
      simp only [isClosing, Bool.or_eq_true, beq_iff_eq] at hclosing
      rcases hclosing with (rfl | rfl) | rfl
      all_goals decide
    exact nomatch (h c hc).symm.trans (hnot c hmem)

/-- What stands between balanced code is balanced if the whole is. -/
theorem Balanced.of_append {w : List Char} (h : Balanced (u ++ (v ++ w))) (hu : Balanced u)
    (hw : Balanced w) : Balanced v := by
  rw [Balanced, nestingAfter?_append, hu, Option.bind_some, nestingAfter?_append] at h
  obtain ⟨depth, hv, hdepth⟩ := Option.bind_eq_some_iff.mp h
  rw [hw.nestingAfter?] at hdepth
  obtain rfl := Option.some.inj hdepth
  exact hv

/-! ## Balanced code inside an argument -/

/-- Inside the brackets of an argument there are no commas of the call, and it is not closed. -/
theorem commasIn?_of_nestingAfter? (h : nestingAfter? depth (code.map Placed.char) = some depth')
    (more : List Placed) :
    commasIn? ((depth : Int) + 2) (code ++ more) = commasIn? ((depth' : Int) + 2) more := by
  induction code generalizing depth with
  | nil =>
    obtain rfl := Option.some.inj h
    rfl
  | cons p rest ih =>
    rw [List.map_cons, nestingAfter?] at h
    rw [List.cons_append, commasIn?]
    split at h
    · next hopening =>
      rw [if_pos hopening, ← ih h]
      congr 1
    next hopening =>
    rw [if_neg hopening]
    split at h
    · next hclosing =>
      rw [if_pos hclosing]
      split at h
      · cases h
      · next hpositive =>
        rw [if_neg (by omega), ← ih h]
        congr 1
        omega
    · next hclosing =>
      have hcomma : (p.char == ',' && (depth : Int) + 2 == 1) = false := by
        rw [Bool.and_eq_false_iff]
        right
        rw [beq_eq_false_iff_ne]
        omega
      rw [if_neg hclosing, if_neg (Bool.eq_false_iff.mp hcomma), ih h]

/-! ## Code between places -/

/-- The code of a snippet between two places. -/
def codeBetween (source : List Char) (start stop : Nat) : List Char :=
  ((codeChars source).filter fun p => decide (start ≤ p.place) && decide (p.place < stop)).map
    Placed.char

/-- The code of a snippet. -/
def codeText (source : List Char) : List Char := (codeChars source).map Placed.char

theorem filter_between_append (hordered : code.Pairwise fun p q => p.place < q.place)
    {start middle stop : Nat} (hlow : start ≤ middle) (hhigh : middle ≤ stop) :
    code.filter (fun p => decide (start ≤ p.place) && decide (p.place < stop)) =
      code.filter (fun p => decide (start ≤ p.place) && decide (p.place < middle)) ++
        code.filter (fun p => decide (middle ≤ p.place) && decide (p.place < stop)) := by
  induction code with
  | nil => rfl
  | cons p rest ih =>
    obtain ⟨hfirst, hrest⟩ := List.pairwise_cons.mp hordered
    have ih := ih hrest
    rcases Nat.lt_or_ge p.place middle with hplace | hplace
    · have hlate : decide (middle ≤ p.place) = false := decide_eq_false (by omega)
      have hearly : decide (p.place < stop) = decide (p.place < middle) := by
        rw [decide_eq_true hplace, decide_eq_true (by omega)]
      simp only [List.filter_cons, hlate, hearly, Bool.false_and, Bool.false_eq_true, if_false, ih]
      split
      · rfl
      · rfl
    · -- Nothing that comes later is before the middle.
      have hnone : rest.filter (fun p => decide (start ≤ p.place) && decide (p.place < middle)) =
          [] := by
        rw [List.filter_eq_nil_iff]
        intro q hq
        have hlt := hfirst q hq
        simp
        omega
      have hearly : decide (p.place < middle) = false := decide_eq_false (by omega)
      have hstart : decide (start ≤ p.place) = decide (middle ≤ p.place) := by
        rw [decide_eq_true hplace, decide_eq_true (by omega)]
      rw [hnone, List.nil_append] at ih
      simp only [List.filter_cons, hearly, hstart, Bool.and_false, Bool.false_eq_true, if_false, ih,
        hnone, List.nil_append]

theorem codeBetween_append {start middle stop : Nat} (hlow : start ≤ middle)
    (hhigh : middle ≤ stop) :
    codeBetween source start stop =
      codeBetween source start middle ++ codeBetween source middle stop := by
  rw [codeBetween, filter_between_append (pairwise_codeChars source) hlow hhigh, List.map_append]
  rfl

/-- The code between two places, if it is known which characters of code these divide. -/
theorem codeBetween_of_eq {before middle after : List Placed} {start stop : Nat}
    (h : codeChars source = before ++ (middle ++ after)) (hbefore : ∀ p ∈ before, p.place < start)
    (hmiddle : ∀ p ∈ middle, start ≤ p.place ∧ p.place < stop)
    (hafter : ∀ p ∈ after, stop ≤ p.place) :
    codeBetween source start stop = middle.map Placed.char := by
  have hearly : before.filter (fun p => decide (start ≤ p.place) && decide (p.place < stop)) =
      [] := by
    rw [List.filter_eq_nil_iff]
    intro p hp
    have hlt := hbefore p hp
    simp
    omega
  have hall : middle.filter (fun p => decide (start ≤ p.place) && decide (p.place < stop)) =
      middle := by
    rw [List.filter_eq_self]
    intro p hp
    obtain ⟨hlow, hhigh⟩ := hmiddle p hp
    simp [hlow, hhigh]
  have hlate : after.filter (fun p => decide (start ≤ p.place) && decide (p.place < stop)) =
      [] := by
    rw [List.filter_eq_nil_iff]
    intro p hp
    have hle := hafter p hp
    simp
    omega
  rw [codeBetween, h, List.filter_append, List.filter_append, hearly, hall, hlate, List.append_nil,
    List.nil_append]

/-- Code between places is part of the text between them. -/
theorem mem_of_mem_codeBetween {start stop : Nat} {c : Char}
    (h : c ∈ codeBetween source start stop) : c ∈ Region.slice source start stop := by
  obtain ⟨p, hp, rfl⟩ := List.mem_map.mp h
  obtain ⟨hp, hplace⟩ := List.mem_filter.mp hp
  obtain ⟨-, hchar⟩ := inCode_of_mem_codeChars hp
  simp only [Bool.and_eq_true, decide_eq_true_eq] at hplace
  obtain ⟨hlt, hchar⟩ := List.getElem?_eq_some_iff.mp hchar
  refine List.mem_iff_getElem.mpr ⟨p.place - start, ?_, ?_⟩
  · rw [Region.slice, List.length_take, List.length_drop]
    omega
  · simp only [Region.slice, List.getElem_take, List.getElem_drop, ← hchar]
    congr 1
    omega

/-! ## The marks of a call -/

/-- Two marks of a call that follow one another: the code between them is balanced. -/
structure Adjacent (source : List Char) (left right : Placed) : Prop where
  left_mem : left ∈ codeChars source
  right_mem : right ∈ codeChars source
  lt : left.place < right.place
  balanced : Balanced (codeBetween source (left.place + 1) right.place)

/-- The first mark of an open call, which has `depth` more brackets open. -/
theorem exists_of_commasIn? (depth : Nat) {commas : List Nat} {close : Nat}
    (h : commasIn? ((depth : Int) + 1) code = some (commas, close)) :
    ∃ front mark back, code = front ++ mark :: back ∧
      nestingAfter? depth (front.map Placed.char) = some 0 ∧
      ((mark.char = ',' ∧ ∃ others, commas = mark.place :: others ∧
          commasIn? 1 back = some (others, close)) ∨
        (isClosing mark.char = true ∧ commas = [] ∧ close = mark.place)) := by
  induction code generalizing depth commas with
  | nil => cases h
  | cons p rest ih =>
    have hlater : ∀ depth' : Nat, commasIn? ((depth' : Int) + 1) rest = some (commas, close) →
        (∀ cs, nestingAfter? depth (p.char :: cs) = nestingAfter? depth' cs) →
        ∃ front mark back, p :: rest = front ++ mark :: back ∧
          nestingAfter? depth (front.map Placed.char) = some 0 ∧
          ((mark.char = ',' ∧ ∃ others, commas = mark.place :: others ∧
              commasIn? 1 back = some (others, close)) ∨
            (isClosing mark.char = true ∧ commas = [] ∧ close = mark.place)) := by
      intro depth' hrest hnesting
      obtain ⟨front, mark, back, rfl, hdepth, hmark⟩ := ih depth' hrest
      exact ⟨p :: front, mark, back, rfl, by rw [List.map_cons, hnesting, hdepth], hmark⟩
    rw [commasIn?] at h
    split at h
    · next hopening =>
      refine hlater (depth + 1) (by rw [← h]; congr 1) fun cs => ?_
      rw [nestingAfter?, if_pos hopening]
    next hopening =>
    split at h
    · next hclosing =>
      split at h
      · next hzero =>
        obtain ⟨rfl, rfl⟩ := Prod.mk.inj (Option.some.inj h)
        obtain rfl : depth = 0 := by omega
        exact ⟨[], p, rest, rfl, rfl, .inr ⟨hclosing, rfl, rfl⟩⟩
      · next hpositive =>
        have hdepth : depth ≠ 0 := by omega
        refine hlater (depth - 1) (by rw [← h]; congr 1; omega) fun cs => ?_
        rw [nestingAfter?, if_neg hopening, if_pos hclosing, if_neg hdepth]
    next hclosing =>
    split at h
    · next hcomma =>
      obtain ⟨⟨others, close'⟩, hothers, heq⟩ := Option.map_eq_some_iff.mp h
      obtain ⟨rfl, rfl⟩ := Prod.mk.inj heq
      obtain ⟨hchar, hdepth⟩ := Bool.and_eq_true_iff.mp hcomma
      rw [beq_iff_eq] at hdepth
      obtain rfl : depth = 0 := by omega
      exact ⟨[], p, rest, rfl, rfl, .inl ⟨beq_iff_eq.mp hchar, others, rfl, hothers⟩⟩
    · refine hlater depth h fun cs => ?_
      rw [nestingAfter?, if_neg hopening, if_neg hclosing]

/-- The marks of a call that is open follow one another. -/
theorem isChain_adjacent_of_commasIn? {before after : List Placed} {edge : Placed}
    {commas : List Nat} {close : Nat} (hcode : codeChars source = before ++ edge :: after)
    (h : commasIn? 1 after = some (commas, close)) :
    ∃ c, isClosing c = true ∧
      (edge :: (commas.map (Placed.mk · ',') ++ [⟨close, c⟩])).IsChain (Adjacent source) := by
  obtain ⟨front, mark, back, rfl, hdepth, hmark⟩ := exists_of_commasIn? 0 h
  have hadjacent : Adjacent source edge mark := by
    have hordered := pairwise_codeChars source
    rw [hcode] at hordered
    obtain ⟨-, hfrom, hbefore⟩ := List.pairwise_append.mp hordered
    obtain ⟨hedge, hbehind⟩ := List.pairwise_cons.mp hfrom
    obtain ⟨-, hmark, hfront⟩ := List.pairwise_append.mp hbehind
    refine ⟨by rw [hcode]; simp, by rw [hcode]; simp, hedge mark (by simp), ?_⟩
    have hsplit : codeChars source = (before ++ [edge]) ++ (front ++ mark :: back) := by
      rw [hcode, List.append_assoc]
      rfl
    rw [codeBetween_of_eq hsplit]
    · exact hdepth
    · intro p hp
      rcases List.mem_append.mp hp with hp | hp
      · exact Nat.lt_succ_of_lt (hbefore p hp edge (.head _))
      · exact List.mem_singleton.mp hp ▸ Nat.lt_succ_self _
    · exact fun p hp => ⟨hedge p (List.mem_append_left _ hp), hfront p hp mark (.head _)⟩
    · intro p hp
      rcases List.mem_cons.mp hp with rfl | hp
      · exact Nat.le_refl _
      · exact Nat.le_of_lt ((List.pairwise_cons.mp hmark).1 p hp)
  rcases hmark with ⟨hcomma, others, rfl, hothers⟩ | ⟨hclosing, rfl, rfl⟩
  · have hback : codeChars source = (before ++ edge :: front) ++ mark :: back := by
      rw [hcode, List.append_assoc]
      rfl
    obtain ⟨c, hc, hchain⟩ := isChain_adjacent_of_commasIn? hback hothers
    rw [show mark = ⟨mark.place, ','⟩ by rw [← hcomma]] at hadjacent hchain
    exact ⟨c, hc, List.isChain_cons_cons.mpr ⟨hadjacent, hchain⟩⟩
  · exact ⟨mark.char, hclosing, List.isChain_cons_cons.mpr
      ⟨hadjacent, List.isChain_singleton _⟩⟩
termination_by commas.length

/-- The parenthesis of a call, its commas and its closing bracket follow one another. -/
theorem isChain_adjacent {place : Nat} {arguments : Arguments}
    (hplace : ⟨place, '('⟩ ∈ codeChars source)
    (h : argumentSpans? source (codeChars source) place = some arguments) :
    ∃ commas c, isClosing c = true ∧
      (⟨place, '('⟩ :: (commas.map (Placed.mk · ',') ++ [⟨arguments.close, c⟩])).IsChain
        (Adjacent source) ∧
      (arguments.spans = [] ∨
        arguments.spans = spansBetween source (place + 1) (commas ++ [arguments.close])) := by
  obtain ⟨commas, hcommas, hspans⟩ := exists_of_argumentSpans? h
  obtain ⟨before, after, hcode, hdrop⟩ := dropWhile_codeChars hplace
  rw [hdrop] at hcommas
  obtain ⟨c, hc, hchain⟩ := isChain_adjacent_of_commasIn? hcode hcommas
  exact ⟨commas, c, hc, hchain, hspans⟩

/-! ## Ranges between marks -/

/-- A range between two marks, with nothing but blanks between it and these. -/
structure Stands (source : List Char) (left right : Placed) (start stop : Nat) : Prop where
  left_mem : left ∈ codeChars source
  right_mem : right ∈ codeChars source
  le : start ≤ stop
  balanced : Balanced (codeBetween source start stop)
  before : ∃ gap : List Char, (∀ c ∈ gap, isBlank c = true) ∧
    start = left.place + 1 + gap.length ∧ source.drop (left.place + 1) = gap ++ source.drop start
  after : ∃ gap : List Char, (∀ c ∈ gap, isBlank c = true) ∧ right.place = stop + gap.length ∧
    source.drop stop = gap ++ source.drop right.place

theorem place_lt_of_mem_codeChars {p : Placed} (h : p ∈ codeChars source) :
    p.place < source.length :=
  (List.getElem?_eq_some_iff.mp (inCode_of_mem_codeChars h).2).1

theorem eq_of_mem_codeChars {p q : Placed} (hp : p ∈ codeChars source) (hq : q ∈ codeChars source)
    (h : p.place = q.place) : p = q := by
  obtain ⟨place, c⟩ := p
  obtain ⟨place', d⟩ := q
  obtain rfl : place = place' := h
  obtain rfl : c = d := Option.some.inj
    ((inCode_of_mem_codeChars hp).2.symm.trans (inCode_of_mem_codeChars hq).2)
  rfl

theorem drop_of_mem_codeChars {p : Placed} (h : p ∈ codeChars source) :
    source.drop p.place = p.char :: source.drop (p.place + 1) := by
  obtain ⟨hlt, hchar⟩ := List.getElem?_eq_some_iff.mp (inCode_of_mem_codeChars h).2
  rw [List.drop_eq_getElem_cons hlt, hchar]

/-- What is between two marks that follow one another, without the blanks at its ends. -/
theorem Adjacent.stands {left right : Placed} (h : Adjacent source left right) :
    Stands source left right (trimSpan source (left.place + 1) right.place).1
      (trimSpan source (left.place + 1) right.place).2 := by
  obtain ⟨gap, middle, gap', hgap, hgap', hdrop, htrim⟩ :=
    exists_of_trimSpan source (Nat.succ_le_of_lt h.lt)
  rw [Nat.succ_eq_add_one] at hdrop htrim
  have hlength : right.place = left.place + 1 + gap.length + middle.length + gap'.length := by
    have hplace := place_lt_of_mem_codeChars h.right_mem
    have hlt := h.lt
    have hlength := congrArg List.length hdrop
    simp only [List.length_drop, List.length_append] at hlength
    omega
  have hstart : source.drop (left.place + 1 + gap.length) =
      middle ++ (gap' ++ source.drop right.place) := by
    rw [← List.drop_drop, hdrop, List.append_assoc, List.append_assoc, List.drop_left]
  have hstop : source.drop (left.place + 1 + gap.length + middle.length) =
      gap' ++ source.drop right.place := by
    rw [← List.drop_drop, hstart, List.drop_left]
  rw [htrim]
  refine ⟨h.left_mem, h.right_mem, Nat.le_add_right _ _, ?_, ⟨gap, hgap, rfl, ?_⟩,
    ⟨gap', hgap', hlength, hstop⟩⟩
  · have hslice : Region.slice source (left.place + 1) (left.place + 1 + gap.length) = gap := by
      rw [Region.slice, hdrop, Nat.add_sub_cancel_left, List.append_assoc, List.append_assoc,
        List.take_left]
    have hslice' : Region.slice source (left.place + 1 + gap.length + middle.length) right.place =
        gap' := by
      rw [Region.slice, hstop, hlength, Nat.add_sub_cancel_left, List.take_left]
    have hbalanced := h.balanced
    rw [codeBetween_append (Nat.le_add_right (left.place + 1) gap.length) (by omega),
      @codeBetween_append source (left.place + 1 + gap.length)
        (left.place + 1 + gap.length + middle.length) right.place (Nat.le_add_right _ _)
        (by omega)] at hbalanced
    exact hbalanced.of_append
      (balanced_of_blank fun c hc => hgap c (hslice ▸ mem_of_mem_codeBetween hc))
      (balanced_of_blank fun c hc => hgap' c (hslice' ▸ mem_of_mem_codeBetween hc))
  · rw [hdrop, hstart, List.append_assoc, List.append_assoc]

/-- The text of a range, and what comes after it. -/
theorem Region.slice_append_drop {start stop : Nat} (h : start ≤ stop) (source : List Char) :
    slice source start stop ++ source.drop stop = source.drop start := by
  conv_rhs => rw [← List.take_append_drop (stop - start) (source.drop start)]
  rw [List.drop_drop, Nat.add_sub_cancel' h]
  rfl

theorem Region.slice_cons {p : Placed} {stop : Nat} (h : p ∈ codeChars source)
    (hstop : p.place + 1 ≤ stop) :
    slice source p.place stop = p.char :: slice source (p.place + 1) stop := by
  have hlength : stop - p.place = stop - (p.place + 1) + 1 := by omega
  rw [slice, drop_of_mem_codeChars h, hlength, List.take_succ_cons]
  rfl

theorem Region.slice_take {start stop stop' : Nat} (h : stop ≤ stop') :
    slice (source.take stop') start stop = slice source start stop := by
  rw [slice, slice, List.drop_take, List.take_take, Nat.min_eq_left (by omega)]

theorem Region.slice_succ {place start : Nat} {c : Char} (h : ⟨place, c⟩ ∈ codeChars source)
    (hstart : start ≤ place) :
    slice source start (place + 1) = slice source start place ++ [c] := by
  have hchar : (source.drop start)[place - start]? = some c := by
    rw [List.getElem?_drop, Nat.add_sub_cancel' hstart]
    exact (inCode_of_mem_codeChars h).2
  rw [slice, slice, Nat.sub_add_comm hstart, List.take_add_one, hchar]
  rfl

theorem Stands.blank_before {left right : Placed} {start stop : Nat}
    (h : Stands source left right start stop) :
    left.place + 1 ≤ start ∧ ∀ c ∈ Region.slice source (left.place + 1) start, isBlank c = true := by
  obtain ⟨gap, hgap, hstart, hdrop⟩ := h.before
  have hslice : Region.slice source (left.place + 1) start = gap := by
    rw [Region.slice, hdrop, hstart, Nat.add_sub_cancel_left, List.take_left]
  rw [hslice]
  exact ⟨by omega, hgap⟩

theorem Stands.blank_after {left right : Placed} {start stop : Nat}
    (h : Stands source left right start stop) :
    stop ≤ right.place ∧ ∀ c ∈ Region.slice source stop right.place, isBlank c = true := by
  obtain ⟨gap, hgap, hplace, hdrop⟩ := h.after
  have hslice : Region.slice source stop right.place = gap := by
    rw [Region.slice, hdrop, hplace, Nat.add_sub_cancel_left, List.take_left]
  rw [hslice]
  exact ⟨by omega, hgap⟩

/-- With the blanks around it, the range is balanced as well. -/
theorem Stands.balanced_between {left right : Placed} {start stop : Nat}
    (h : Stands source left right start stop) :
    Balanced (codeBetween source (left.place + 1) right.place) := by
  obtain ⟨hstart, hbefore⟩ := h.blank_before
  obtain ⟨hstop, hafter⟩ := h.blank_after
  rw [codeBetween_append hstart (h.le.trans hstop), codeBetween_append h.le hstop]
  refine Balanced.append ?_ (h.balanced.append ?_)
  · exact balanced_of_blank fun c hc => hbefore c (mem_of_mem_codeBetween hc)
  · exact balanced_of_blank fun c hc => hafter c (mem_of_mem_codeBetween hc)

/-- A range between marks that follow one another. -/
theorem exists_of_mem_spansBetween {edge : Placed} {marks : List Placed} {span : Nat × Nat}
    (hchain : (edge :: marks).IsChain (Adjacent source))
    (h : span ∈ spansBetween source (edge.place + 1) (marks.map Placed.place)) :
    ∃ left ∈ (edge :: marks).dropLast, ∃ right ∈ marks, edge.place ≤ left.place ∧
      Stands source left right span.1 span.2 := by
  induction marks generalizing edge with
  | nil => cases h
  | cons mark marks ih =>
    obtain ⟨hadjacent, hchain⟩ := List.isChain_cons_cons.mp hchain
    rw [List.dropLast_cons_cons]
    rcases List.mem_cons.mp h with rfl | h
    · exact ⟨edge, .head _, mark, .head _, Nat.le_refl _, hadjacent.stands⟩
    · obtain ⟨left, hleft, right, hright, hle, hstands⟩ := ih hchain h
      exact ⟨left, .tail _ hleft, right, .tail _ hright,
        Nat.le_trans (Nat.le_of_lt hadjacent.lt) hle, hstands⟩

theorem places_marks (commas : List Nat) (close : Placed) :
    (commas.map (Placed.mk · ',') ++ [close]).map Placed.place = commas ++ [close.place] := by
  have hid : (Placed.place ∘ fun comma => Placed.mk comma ',') = id := rfl
  rw [List.map_append, List.map_map, hid, List.map_id]
  rfl

/-- An argument stands between two marks of its call. -/
theorem exists_stands_of_mem_spans {place : Nat} {arguments : Arguments}
    (hplace : ⟨place, '('⟩ ∈ codeChars source)
    (h : argumentSpans? source (codeChars source) place = some arguments)
    {span : Nat × Nat} (hspan : span ∈ arguments.spans) :
    ∃ left right, left.char ∈ ['(', ','] ∧ (right.char = ',' ∨ isClosing right.char = true) ∧
      place ≤ left.place ∧ Stands source left right span.1 span.2 := by
  obtain ⟨commas, c, hc, hchain, hspans⟩ := isChain_adjacent hplace h
  have hmem : span ∈ spansBetween source (place + 1) (commas ++ [arguments.close]) := by
    rcases hspans with hnil | hspans
    · rw [hnil] at hspan
      cases hspan
    · exact hspans ▸ hspan
  rw [← places_marks commas ⟨arguments.close, c⟩] at hmem
  obtain ⟨left, hleft, right, hright, hle, hstands⟩ := exists_of_mem_spansBetween hchain hmem
  refine ⟨left, right, ?_, ?_, hle, hstands⟩
  · rw [← List.cons_append, List.dropLast_concat] at hleft
    rcases List.mem_cons.mp hleft with rfl | hleft
    · exact .head _
    · obtain ⟨comma, -, rfl⟩ := List.mem_map.mp hleft
      exact .tail _ (.head _)
  · rcases List.mem_append.mp hright with hright | hright
    · obtain ⟨comma, -, rfl⟩ := List.mem_map.mp hright
      exact .inl rfl
    · obtain rfl := List.mem_singleton.mp hright
      exact .inr hc

/-- Before an argument stands the parenthesis or a comma, and only blanks are between. -/
theorem exists_of_mem_spans {place : Nat} {arguments : Arguments}
    (hplace : ⟨place, '('⟩ ∈ codeChars source)
    (h : argumentSpans? source (codeChars source) place = some arguments)
    {span : Nat × Nat} (hspan : span ∈ arguments.spans) :
    ∃ edge mark gap, ⟨edge, mark⟩ ∈ codeChars source ∧ mark ∈ ['(', ','] ∧
      (∀ c ∈ gap, isBlank c = true) ∧
      source.drop edge = mark :: (gap ++ source.drop span.1) := by
  obtain ⟨left, right, hleft, -, -, hstands⟩ := exists_stands_of_mem_spans hplace h hspan
  obtain ⟨gap, hgap, -, hdrop⟩ := hstands.before
  refine ⟨left.place, left.char, gap, hstands.left_mem, hleft, hgap, ?_⟩
  rw [drop_of_mem_codeChars hstands.left_mem, hdrop]

/-- Marks that follow one another are code. -/
theorem mem_of_isChain {edge : Placed} {marks : List Placed}
    (h : (edge :: marks).IsChain (Adjacent source)) :
    ∀ mark ∈ marks, mark ∈ codeChars source ∧ edge.place < mark.place := by
  induction marks generalizing edge with
  | nil => simp
  | cons mark marks ih =>
    obtain ⟨hadjacent, hchain⟩ := List.isChain_cons_cons.mp h
    refine List.forall_mem_cons.mpr ⟨⟨hadjacent.right_mem, hadjacent.lt⟩, fun later hlater => ?_⟩
    obtain ⟨hlater, hlt⟩ := ih hchain later hlater
    exact ⟨hlater, Nat.lt_trans hadjacent.lt hlt⟩

/-- The bracket that closes a call is code and comes after the parenthesis. -/
theorem exists_close {place : Nat} {arguments : Arguments}
    (hplace : ⟨place, '('⟩ ∈ codeChars source)
    (h : argumentSpans? source (codeChars source) place = some arguments) :
    ∃ c, isClosing c = true ∧ ⟨arguments.close, c⟩ ∈ codeChars source ∧ place < arguments.close := by
  obtain ⟨commas, c, hc, hchain, -⟩ := isChain_adjacent hplace h
  exact ⟨c, hc, mem_of_isChain hchain ⟨arguments.close, c⟩ (by simp)⟩

/-- The bracket that closes a call is code. -/
theorem inCode_close {place : Nat} {arguments : Arguments}
    (hplace : ⟨place, '('⟩ ∈ codeChars source)
    (h : argumentSpans? source (codeChars source) place = some arguments) :
    InCode source arguments.close ∧
      ∃ c, isClosing c = true ∧ source[arguments.close]? = some c := by
  obtain ⟨c, hc, hmem, -⟩ := exists_close hplace h
  obtain ⟨hcode, hchar⟩ := inCode_of_mem_codeChars hmem
  exact ⟨hcode, c, hc, hchar⟩

end GuestCode
