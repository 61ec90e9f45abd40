import GuestCode.Proofs.Snippet.CodeRuns

/-!
# The marks of a call

The commas of a call and the bracket that closes it are characters of code, and the arguments are
what stands between them, without the blanks at its ends.

## Main statements

* `pairwise_codeChars`: the characters of code come from left to right.
* `commasIn?_sublist`: the commas of a call and its closing bracket are code, in this order.
* `exists_of_trimSpan`: a range is trimmed of the blanks at its ends.
-/

namespace GuestCode

open Text

variable {source : List Char}

/-! ## Characters of code in order -/

theorem place_lt_of_mem_placedFrom {p : Placed} {start : Nat} {text : List Char}
    (h : p ∈ placedFrom start text) : p.place < start + text.length := by
  obtain ⟨k, hk, hplace⟩ := exists_of_mem_placedFrom h
  have hlt := (List.getElem?_eq_some_iff.mp hk).1
  omega

theorem pairwise_placedFrom (start : Nat) (text : List Char) :
    (placedFrom start text).Pairwise fun p q => p.place < q.place := by
  induction text generalizing start with
  | nil => exact .nil
  | cons c cs ih =>
    refine List.pairwise_cons.mpr ⟨fun q hq => ?_, ih (start + 1)⟩
    exact Segment.le_place_of_mem_placedFrom hq

theorem pairwise_codeOfSegments (start : Nat) (segments : List Segment) :
    (codeOfSegments start segments).Pairwise fun p q => p.place < q.place := by
  induction segments generalizing start with
  | nil => exact .nil
  | cons s rest ih =>
    rw [codeOfSegments]
    refine List.pairwise_append.mpr ⟨?_, ih _, fun p hp q hq => ?_⟩
    · split
      · exact pairwise_placedFrom start s.text
      · exact .nil
    · have hq := Segment.le_place_of_mem_codeOfSegments hq
      split at hp
      · exact Nat.lt_of_lt_of_le (place_lt_of_mem_placedFrom hp) hq
      · cases hp

/-- The characters of code come from left to right. -/
theorem pairwise_codeChars (source : List Char) :
    (codeChars source).Pairwise fun p q => p.place < q.place :=
  pairwise_codeOfSegments 0 _

/-- The characters of code from the place of one of them on. -/
theorem dropWhile_codeChars {place : Nat} {c : Char} (h : ⟨place, c⟩ ∈ codeChars source) :
    ∃ before after, codeChars source = before ++ ⟨place, c⟩ :: after ∧
      (codeChars source).dropWhile (fun p => decide ((p.place : Int) < place)) =
        ⟨place, c⟩ :: after := by
  obtain ⟨before, after, heq⟩ := List.append_of_mem h
  refine ⟨before, after, heq, ?_⟩
  have hordered := pairwise_codeChars source
  rw [heq] at hordered ⊢
  obtain ⟨-, -, hbefore⟩ := List.pairwise_append.mp hordered
  rw [List.dropWhile_append_of_pos fun p hp => by simpa using hbefore p hp _ (.head _)]
  exact List.dropWhile_cons_of_neg (by simp)

/-! ## Commas and the closing bracket -/

/-- The commas of a call and the bracket that closes it are characters of code, in this order. -/
theorem commasIn?_sublist {depth : Int} {code : List Placed} {commas : List Nat} {close : Nat}
    (h : commasIn? depth code = some (commas, close)) :
    ∃ c, isClosing c = true ∧
      (commas.map (Placed.mk · ',') ++ [Placed.mk close c]).Sublist code := by
  fun_induction commasIn? depth code generalizing commas with
  | case1 => cases h
  | case2 _ _ _ _ ih | case4 _ _ _ _ _ _ ih | case6 _ _ _ _ _ _ ih =>
    obtain ⟨c, hc, hsublist⟩ := ih h
    exact ⟨c, hc, hsublist.cons _⟩
  | case3 _ p rest _ hclosing _ =>
    obtain ⟨rfl, rfl⟩ := Prod.mk.inj (Option.some.inj h)
    exact ⟨p.char, hclosing, (List.nil_sublist rest).cons_cons p⟩
  | case5 _ p rest _ _ hcomma ih =>
    obtain ⟨⟨others, close'⟩, hothers, heq⟩ := Option.map_eq_some_iff.mp h
    obtain ⟨rfl, rfl⟩ := Prod.mk.inj heq
    obtain ⟨hchar, -⟩ := Bool.and_eq_true_iff.mp hcomma
    obtain ⟨c, hc, hsublist⟩ := ih hothers
    have hp : p = ⟨p.place, ','⟩ := by rw [← beq_iff_eq.mp hchar]
    refine ⟨c, hc, ?_⟩
    rw [List.map_cons, List.cons_append, ← hp]
    exact hsublist.cons_cons p

/-! ## Ranges between marks -/

/-- A range is trimmed of the blanks at its ends. -/
theorem exists_of_trimSpan (source : List Char) {start stop : Nat} (h : start ≤ stop) :
    ∃ gap middle gap' : List Char, (∀ c ∈ gap, isBlank c = true) ∧
      (∀ c ∈ gap', isBlank c = true) ∧
      source.drop start = gap ++ middle ++ gap' ++ source.drop stop ∧
      trimSpan source start stop = (start + gap.length, start + gap.length + middle.length) := by
  obtain ⟨inner, hinner⟩ : ∃ inner, Region.slice source start stop = inner := ⟨_, rfl⟩
  have hdrop : source.drop start = inner ++ source.drop stop := by
    have hstop : start + (stop - start) = stop := Nat.add_sub_cancel' h
    rw [← hinner, Region.slice, ← hstop, ← List.drop_drop, hstop, List.take_append_drop]
  have hfirst := List.takeWhile_append_dropWhile (p := isBlank) (l := inner)
  obtain ⟨rest, hrest⟩ : ∃ rest, inner.dropWhile isBlank = rest := ⟨_, rfl⟩
  have hlast := List.takeWhile_append_dropWhile (p := isBlank) (l := rest.reverse)
  refine ⟨inner.takeWhile isBlank, (rest.reverse.dropWhile isBlank).reverse,
    (rest.reverse.takeWhile isBlank).reverse, fun c hc => ?_, fun c hc => ?_, ?_, ?_⟩
  · exact List.all_eq_true.mp List.all_takeWhile c hc
  · exact List.all_eq_true.mp List.all_takeWhile c (List.mem_reverse.mp hc)
  · rw [List.append_assoc (inner.takeWhile isBlank), ← List.reverse_append, hlast,
      List.reverse_reverse, ← hrest, hfirst, hdrop]
  · have hlength := congrArg List.length hlast
    rw [List.length_append, List.length_reverse] at hlength
    dsimp only [trimSpan]
    rw [hinner, hrest, List.length_reverse]
    refine Prod.ext rfl ?_
    dsimp only
    omega

/-- The ranges of a call are those between its marks, unless its list is blank. -/
theorem spans_of_argumentSpans? {code : List Placed} {place : Nat} {arguments : Arguments}
    (h : argumentSpans? source code place = some arguments) :
    ∃ commas, commasIn? 0 (code.dropWhile fun p => decide ((p.place : Int) < place)) =
        some (commas, arguments.close) ∧
      ((commas = [] ∧ arguments.spans = [] ∧
          (trimSpan source (place + 1) arguments.close).1 =
            (trimSpan source (place + 1) arguments.close).2) ∨
        (arguments.spans = spansBetween source (place + 1) (commas ++ [arguments.close]) ∧
          (commas = [] → (trimSpan source (place + 1) arguments.close).1 ≠
            (trimSpan source (place + 1) arguments.close).2))) := by
  obtain ⟨⟨commas, close⟩, hcommas, heq⟩ := Option.map_eq_some_iff.mp h
  have hplace : ((place : Int) + 1).toNat = place + 1 := rfl
  rw [hplace] at heq
  dsimp only at heq
  cases commas with
  | nil =>
    -- There is one range, which may be blank.
    dsimp only [List.nil_append, spansBetween] at heq
    split at heq
    · next hempty =>
      subst heq
      exact ⟨[], hcommas, .inl ⟨rfl, rfl, beq_iff_eq.mp hempty⟩⟩
    · next hfull =>
      subst heq
      exact ⟨[], hcommas, .inr ⟨rfl, fun _ hempty => hfull (beq_iff_eq.mpr hempty)⟩⟩
  | cons comma commas =>
    obtain ⟨boundary, boundaries, hrest⟩ : ∃ boundary boundaries,
        commas ++ [close] = boundary :: boundaries :=
      List.exists_cons_of_ne_nil (by simp)
    dsimp only [List.cons_append, spansBetween] at heq
    rw [hrest] at heq
    replace heq : (⟨spansBetween source (place + 1) (comma :: boundary :: boundaries), close⟩ :
        Arguments) = arguments := heq
    subst heq
    refine ⟨comma :: commas, hcommas, .inr ⟨?_, nofun⟩⟩
    rw [List.cons_append, hrest]

theorem exists_of_argumentSpans? {code : List Placed} {place : Nat} {arguments : Arguments}
    (h : argumentSpans? source code place = some arguments) :
    ∃ commas, commasIn? 0 (code.dropWhile fun p => decide ((p.place : Int) < place)) =
        some (commas, arguments.close) ∧
      (arguments.spans = [] ∨
        arguments.spans = spansBetween source (place + 1) (commas ++ [arguments.close])) := by
  obtain ⟨commas, hcommas, ⟨-, hnil, -⟩ | ⟨hspans, -⟩⟩ := spans_of_argumentSpans? h
  · exact ⟨commas, hcommas, .inl hnil⟩
  · exact ⟨commas, hcommas, .inr hspans⟩

end GuestCode
