import GuestCode.Proofs.Snippet.Arguments

/-!
# A known start of a snippet

A snippet whose start is known is read up to the end of this start if no comment or literal goes on
after it. The arguments of a call that is closed there can be found there as well.

## Main statements

* `codeOfSegments_of_known`: the characters of code in a known start.
* `argumentSpans?_append`: the arguments of a call that is closed in a known start.
* `exists_of_depthAfter?`: the bracket that closes a call after it.
-/

namespace GuestCode

open Text

variable {text after : List Char} {code more : List Placed}

/-! ## Reading a known start -/

/-- The characters of code in the known start of a text, of which the first is at `start`, and what
they tell about a `/` after them; `none` if a comment or a literal may go on. -/
def codeOfKnown : Nat → Segment.Lookback → Nat → List Char →
    Option (List Placed × Segment.Lookback)
  | _, look, _, [] => some ([], look)
  | 0, _, _, _ :: _ => none
  | fuel + 1, look, start, c :: cs =>
    match Segment.token? look c cs with
    | some (kind, rest) =>
      if rest.isEmpty then none
      else codeOfKnown fuel (look.afterToken kind) (start + (cs.length + 1 - rest.length)) rest
    | none =>
      if Segment.openers.contains c then none
      else (codeOfKnown fuel (look.afterCode c) (start + 1) cs).map fun (code, look) =>
        (⟨start, c⟩ :: code, look)

/-- A known start is read as it would be on its own. -/
theorem codeOfSegments_of_known {fuel : Nat} {look look' : Segment.Lookback} {start : Nat}
    (h : codeOfKnown fuel look start text = some (code, look')) (after : List Char) :
    codeOfSegments start (Segment.splitAfter look (text ++ after)) =
      code ++ codeOfSegments (start + text.length) (Segment.splitAfter look' after) := by
  fun_induction codeOfKnown fuel look start text generalizing code with
  | case1 =>
    obtain ⟨rfl, rfl⟩ := Prod.mk.inj (Option.some.inj h)
    rfl
  | case2 | case3 | case5 => cases h
  | case4 fuel look start c cs kind rest htoken hrest ih =>
    obtain ⟨taken, rfl⟩ := Segment.token?_suffix htoken
    have hhead : rest.head? = (rest ++ after).head? := by
      cases rest with
      | nil => exact absurd rfl hrest
      | cons => rfl
    have hread := Segment.token?_exchange hhead htoken
    rw [List.cons_append, List.append_assoc, Segment.splitAfter_token hread, codeOfSegments]
    have hkind := Segment.kind_ne_code_of_token? htoken
    rw [if_neg (by simpa using hkind), List.nil_append]
    have hlength : start + ((taken ++ rest).length + 1 - rest.length) =
        start + (c :: taken).length := by
      simp
      omega
    rw [hlength] at ih h
    rw [ih h]
    congr 2
    simp
    omega
  | case6 fuel look start c cs htoken hopener ih =>
    obtain ⟨⟨code', look''⟩, hcode, heq⟩ := Option.map_eq_some_iff.mp h
    obtain ⟨rfl, rfl⟩ := Prod.mk.inj heq
    have hc : c ∉ Segment.openers := fun hmem => hopener (List.contains_iff_mem.mpr hmem)
    rw [List.cons_append, Segment.splitAfter_of_none (Segment.token?_eq_none hc look _),
      Segment.codeOfSegments_consCode, ih hcode, List.cons_append, List.length_cons,
      Nat.add_right_comm, Nat.add_assoc]

/-! ## Calls in a known start -/

theorem Region.slice_append {stop : Nat} (h : stop ≤ text.length) (start : Nat) :
    Region.slice (text ++ after) start stop = Region.slice text start stop := by
  rcases Nat.le_total start text.length with hstart | hstart
  · rw [Region.slice, Region.slice, List.drop_append_of_le_length hstart,
      List.take_append_of_le_length (by rw [List.length_drop]; omega)]
  · rw [Region.slice, Region.slice, show stop - start = 0 by omega, List.take_zero, List.take_zero]

theorem spansBetween_append {marks : List Nat} (h : ∀ mark ∈ marks, mark ≤ text.length)
    (start : Nat) : spansBetween (text ++ after) start marks = spansBetween text start marks := by
  induction marks generalizing start with
  | nil => rfl
  | cons mark marks ih =>
    obtain ⟨hmark, hmarks⟩ := List.forall_mem_cons.mp h
    rw [spansBetween, spansBetween, ih hmarks, trimSpan, trimSpan, Region.slice_append hmark]

theorem commasIn?_append {depth : Int} {commas : List Nat} {close : Nat}
    (h : commasIn? depth code = some (commas, close)) (more : List Placed) :
    commasIn? depth (code ++ more) = some (commas, close) := by
  fun_induction commasIn? depth code generalizing commas with
  | case1 => cases h
  | case2 depth p rest hopening ih =>
    rw [List.cons_append, commasIn?, if_pos hopening, ih h]
  | case3 depth p rest hopening hclosing hzero =>
    rw [List.cons_append, commasIn?, if_neg hopening, if_pos hclosing, if_pos hzero, h]
  | case4 depth p rest hopening hclosing hzero ih =>
    rw [List.cons_append, commasIn?, if_neg hopening, if_pos hclosing, if_neg hzero, ih h]
  | case5 depth p rest hopening hclosing hcomma ih =>
    obtain ⟨⟨others, close'⟩, hothers, heq⟩ := Option.map_eq_some_iff.mp h
    obtain ⟨rfl, rfl⟩ := Prod.mk.inj heq
    rw [List.cons_append, commasIn?, if_neg hopening, if_neg hclosing, if_pos hcomma, ih hothers]
    rfl
  | case6 depth p rest hopening hclosing hcomma ih =>
    rw [List.cons_append, commasIn?, if_neg hopening, if_neg hclosing, if_neg hcomma, ih h]

/-- The arguments of a call that is closed in a known start are found there. -/
theorem argumentSpans?_append {place : Nat} {arguments : Arguments}
    (hcode : ∀ p ∈ code, p.place < text.length)
    (h : argumentSpans? text code place = some arguments) (after : List Char)
    (more : List Placed) :
    argumentSpans? (text ++ after) (code ++ more) place = some arguments := by
  obtain ⟨⟨commas, close⟩, hcommas, heq⟩ := Option.map_eq_some_iff.mp h
  have hplaces : ∀ mark ∈ commas ++ [close], mark ≤ text.length := by
    obtain ⟨c, -, hsublist⟩ := commasIn?_sublist hcommas
    intro mark hmark
    have hmem : ∃ p ∈ code, p.place = mark := by
      have hsubset : ∀ p ∈ commas.map (Placed.mk · ',') ++ [Placed.mk close c], p ∈ code :=
        fun p hp => (List.dropWhile_suffix _).subset (hsublist.subset hp)
      rcases List.mem_append.mp hmark with hmark | hmark
      · exact ⟨⟨mark, ','⟩, hsubset _ (List.mem_append_left _ (List.mem_map_of_mem hmark)), rfl⟩
      · obtain rfl := List.mem_singleton.mp hmark
        exact ⟨⟨mark, c⟩, hsubset _ (List.mem_append_right _ (.head _)), rfl⟩
    obtain ⟨p, hp, rfl⟩ := hmem
    exact Nat.le_of_lt (hcode p hp)
  have hdrop : (code ++ more).dropWhile (fun p => decide ((p.place : Int) < place)) =
      code.dropWhile (fun p => decide ((p.place : Int) < place)) ++ more := by
    rw [List.dropWhile_append, if_neg]
    intro hempty
    rw [List.isEmpty_iff.mp hempty] at hcommas
    cases hcommas
  rw [argumentSpans?, hdrop, commasIn?_append hcommas more, Option.map_some]
  dsimp only
  rw [spansBetween_append hplaces]
  exact congrArg some heq

/-- The depth of brackets after characters of code, `depth` before them; `none` if it comes down to
zero among them. -/
def depthAfter? (depth : Int) : List Placed → Option Int
  | [] => some depth
  | p :: rest =>
    if isOpening p.char then depthAfter? (depth + 1) rest
    else if isClosing p.char then
      if depth - 1 = 0 then none else depthAfter? (depth - 1) rest
    else depthAfter? depth rest

/-- A call that is not closed in a known start is closed after it. -/
theorem exists_of_depthAfter? {depth depth' : Int} {commas : List Nat} {close : Nat}
    (hdepth : depthAfter? depth code = some depth')
    (h : commasIn? depth (code ++ more) = some (commas, close)) :
    ∃ others, commasIn? depth' more = some (others, close) := by
  fun_induction depthAfter? depth code generalizing commas with
  | case1 =>
    obtain rfl := Option.some.inj hdepth
    exact ⟨commas, h⟩
  | case2 depth p rest hopening ih =>
    rw [List.cons_append, commasIn?, if_pos hopening] at h
    exact ih hdepth h
  | case3 => cases hdepth
  | case4 depth p rest hopening hclosing hzero ih =>
    rw [List.cons_append, commasIn?, if_neg hopening, if_pos hclosing, if_neg hzero] at h
    exact ih hdepth h
  | case5 depth p rest hopening hclosing ih =>
    rw [List.cons_append, commasIn?, if_neg hopening, if_neg hclosing] at h
    split at h
    · obtain ⟨⟨others, close'⟩, hothers, heq⟩ := Option.map_eq_some_iff.mp h
      obtain ⟨-, rfl⟩ := Prod.mk.inj heq
      exact ih hdepth hothers
    · exact ih hdepth h

end GuestCode
