import GuestCode.Proofs.Rewrite.Balance
import GuestCode.Proofs.Rewrite.Parameters
import GuestCode.Proofs.Snippet.ArgumentLists

/-!
# Lists after the edits

A snippet with its edits made is read on beside the snippet itself. Up to a mark before which
nothing is edited, both are read alike; behind an edit, both are at the same mark again. So the list
of a signature is found after the edits as well, mark by mark, with its parameters stripped, if what
each edit puts in is one argument.

## Main statements

* `Rewrite.TidyEdit`: an edit that puts in one argument.
* `Rewrite.Continues`: a place after the edits, beside the place of the snippet that it comes from.
* `Rewrite.Continues.copied`, `Rewrite.Continues.edited`: reading on up to the next mark.
* `Rewrite.Continues.exists_parameter`: a parameter is stripped.
* `Rewrite.Continues.exists_list`: all parameters of a list are stripped.
-/

namespace GuestCode.Rewrite

open Text Text.Pattern Grammar

variable {source : List Char} {all edits : List Edit} {look : Segment.Lookback} {start place : Nat}

/-! ## Reading on beside the source -/

/-- A place of a snippet with all edits made, beside the place of the snippet that it comes from.
Behind both the same has been read, and what follows is what the edits that are left make of the
snippet. -/
structure Continues (source : List Char) (all edits : List Edit) (look : Segment.Lookback)
    (start place : Nat) : Prop where
  done : ∃ done, all = done ++ edits ∧ ∀ e ∈ done, e.stop ≤ start
  before : Resumes source look start
  after : Resumes (Edit.applyAll all source) look place
  text : (Edit.applyAll all source).drop place = Edit.applyFrom source start edits

/-- A mark of a snippet as it is found after edits, behind some text that is read as some code. -/
structure Reaches (source : List Char) (all edits : List Edit) (place : Nat) (text code : List Char)
    (mark : Placed) : Prop where
  mem : ⟨place + text.length, mark.char⟩ ∈ codeChars (Edit.applyAll all source)
  text_eq : Region.slice (Edit.applyAll all source) place (place + text.length) = text
  code_eq : codeBetween (Edit.applyAll all source) place (place + text.length) = code
  next : Continues source all edits (.mark mark.char) (mark.place + 1) (place + text.length + 1)

theorem Continues.reaches {edits' : List Edit} {mark : Placed} {text : List Char}
    {front : List Placed} (h : Continues source all edits look start place)
    (hmem : mark ∈ codeChars source) (hmark : isMark mark.char = true)
    (htext : Edit.applyFrom source start edits =
      text ++ mark.char :: Edit.applyFrom source (mark.place + 1) edits')
    (hcode : codeAfter look (Edit.applyFrom source start edits) =
      front ++ ⟨text.length, mark.char⟩ ::
        (codeAfter (.mark mark.char) (Edit.applyFrom source (mark.place + 1) edits')).map
          (Placed.shift (text.length + 1)))
    (hdone : ∃ done, all = done ++ edits' ∧ ∀ e ∈ done, e.stop ≤ mark.place + 1) :
    Reaches source all edits' place text (front.map Placed.char) mark := by
  obtain ⟨output, houtput⟩ : ∃ output, Edit.applyAll all source = output := ⟨_, rfl⟩
  obtain ⟨-, -, hresumes, hdrop⟩ := h
  rw [houtput] at hresumes hdrop
  have hplace : ⟨place + text.length, mark.char⟩ ∈ codeChars output := by
    obtain ⟨lead, -, hlead⟩ := hresumes.code
    rw [hlead, hdrop, hcode]
    simp [Placed.shift]
  have hnext : output.drop (place + text.length + 1) =
      Edit.applyFrom source (mark.place + 1) edits' := by
    rw [Nat.add_assoc, ← List.drop_drop, hdrop, htext, List.drop_length_add_append]
    rfl
  have hshift : place + text.length - place = text.length := Nat.add_sub_cancel_left _ _
  refine ⟨houtput ▸ hplace, ?_, ?_, hdone, resumes_behind hmem hmark, ?_, ?_⟩
  · rw [houtput, Region.slice, hshift, hdrop, htext, List.take_left]
  · rw [houtput]
    refine hresumes.codeBetween_eq hplace hmark (Nat.le_add_right _ _) ?_
    rw [hdrop, hcode, hnext, hshift]
  · rw [houtput]
    exact resumes_behind hplace hmark
  · rw [houtput, hnext]

/-- Up to a mark before which nothing is edited, the text is that of the snippet. -/
theorem Spaced.applyFrom_mark {mark : Placed} (h : Spaced source mark.place edits)
    (hmem : mark ∈ codeChars source) (hle : start ≤ mark.place) :
    Edit.applyFrom source start edits = Region.slice source start mark.place ++
      mark.char :: Edit.applyFrom source (mark.place + 1) edits := by
  rw [h.applyFrom_eq (Nat.le_succ_of_le hle) (Nat.le_refl _),
    ← Region.slice_append_slice hle (Nat.le_succ _), Region.slice_cons hmem (Nat.le_refl _),
    Region.slice_self, List.append_assoc]
  rfl

/-- Up to a mark before which nothing is edited, the code is that of the snippet. -/
theorem Continues.copied {mark : Placed} (h : Continues source all edits look start place)
    (hmem : mark ∈ codeChars source) (hmark : isMark mark.char = true) (hle : start ≤ mark.place)
    (hspaced : Spaced source mark.place edits) (hsound : ∀ e ∈ edits, SoundEdit source e) :
    Reaches source all edits place (Region.slice source start mark.place)
      (codeBetween source start mark.place) mark := by
  have hplace := place_lt_of_mem_codeChars hmem
  have hlength : (Region.slice source start mark.place).length = mark.place - start := by
    rw [Region.slice, List.length_take, List.length_drop]
    omega
  -- The code in front of the mark, in the snippet and after the edits.
  obtain ⟨front, hsource, houtput⟩ : ∃ front : List Placed,
      codeAfter look (source.drop start) = front ++ ⟨mark.place - start, mark.char⟩ ::
        (codeAfter (.mark mark.char) (source.drop (mark.place + 1))).map
          (Placed.shift (mark.place - start + 1)) ∧
      codeAfter look (Edit.applyFrom source start edits) =
        front ++ ⟨mark.place - start, mark.char⟩ ::
          (codeAfter (.mark mark.char) (Edit.applyFrom source (mark.place + 1) edits)).map
            (Placed.shift (mark.place - start + 1)) := by
    cases hspaced with
    | nil =>
      -- Without edits what follows is the same.
      obtain ⟨front, last, -, hcode⟩ := exists_of_mem_codeAfter (h.before.mem hmem hle)
      have hdrop : (source.drop start).drop (mark.place - start + 1) =
          source.drop (mark.place + 1) := by
        rw [List.drop_drop]
        congr 1
        omega
      rw [afterCode_of_isMark hmark, hdrop] at hcode
      exact ⟨front, hcode, hcode⟩
    | @cons _ next left e rest hlow stands others =>
      have hstart := stands.lt_start
      have hstop : e.start ≤ source.length := by
        obtain ⟨right, rfl, hjoins⟩ := stands.joins (hsound e (.head _))
        have hright := place_lt_of_mem_codeChars hjoins.right_mem
        have hedit := hjoins.le
        have hend := hjoins.stop_le
        omega
      obtain ⟨front, hfront⟩ := h.before.exists_behind hmem hmark hle
        (show mark.place + 1 ≤ e.start by omega) hstop (hsound e (.head _)).before
      -- Up to the first edit the text is self-contained, so what follows makes no difference.
      refine ⟨front, ?_, ?_⟩
      · have hcode := hfront (source.drop e.start)
        rwa [Region.slice_append_drop (by omega), Region.slice_append_drop (by omega)] at hcode
      · rw [Edit.applyFrom, Edit.applyFrom, List.append_assoc, List.append_assoc]
        exact hfront _
  obtain ⟨done, hall, hdone⟩ := h.done
  rw [← hlength] at houtput
  have hreaches := h.reaches hmem hmark (hspaced.applyFrom_mark hmem hle) houtput
    ⟨done, hall, fun e he => (hdone e he).trans (by omega)⟩
  rwa [← h.before.codeBetween_eq hmem hmark hle hsource] at hreaches

/-- Behind the mark in front of an edit, what the edit puts in is read up to the mark after it. -/
theorem Continues.edited {left right : Placed} {e : Edit}
    (h : Continues source all (e :: edits) (.mark left.char) (left.place + 1) place)
    (hjoins : Joins source left right e) (hspaced : Spaced source right.place edits) :
    let text := Region.slice source (left.place + 1) e.start ++
      (e.text ++ Region.slice source e.stop right.place)
    Reaches source all edits place text ((codeAfter (.mark left.char) text).map Placed.char)
      right := by
  intro text
  obtain ⟨known, last, hput, -⟩ := hjoins.put
  have hright := hjoins.right_mem
  have htext : Edit.applyFrom source (left.place + 1) (e :: edits) =
      text ++ right.char :: Edit.applyFrom source (right.place + 1) edits := by
    rw [Edit.applyFrom, hspaced.applyFrom_mark hright hjoins.stop_le]
    simp [text]
  have hread := hput (right.char :: Edit.applyFrom source (right.place + 1) edits) (by simp)
  rw [hput.eq_codeAfter, codeAfter_of_isMark hjoins.right_mark, List.map_cons,
    map_shift_map_shift, ← htext] at hread
  obtain ⟨done, hall, hdone⟩ := h.done
  refine h.reaches hright hjoins.right_mark htext hread ⟨done ++ [e], ?_, ?_⟩
  · rw [hall, List.append_assoc]
    rfl
  · have hedit := hjoins.start_le.trans (hjoins.le.trans hjoins.stop_le)
    refine List.forall_mem_append.mpr ⟨fun e' he' => (hdone e' he').trans (by omega), ?_⟩
    exact List.forall_mem_singleton.mpr (hjoins.stop_le.trans (Nat.le_succ _))

/-! ## One parameter -/

/-- An edit that keeps the list it stands in: what it puts in is one argument. -/
structure TidyEdit (source : List Char) (e : Edit) : Prop extends SoundEdit source e where
  argument : IsArgument (codeText (e.text ++ (source.drop e.stop).takeWhile isBlank))

/-- Behind the mark in front of it, a parameter is read up to the mark after it, and what is read is
one parameter that is stripped. -/
theorem Continues.exists_parameter {edge mark : Placed} {spans : List (Nat × Nat)}
    {rest : List Edit}
    (h : Continues source all (parameterEdits source
      (trimSpan source (edge.place + 1) mark.place :: spans) ++ rest)
      (.mark edge.char) (edge.place + 1) place)
    (hedge : edge.char ∈ ['(', ',']) (hmark : mark.char = ',' ∨ isClosing mark.char = true)
    (hadjacent : Adjacent source edge mark)
    (hargument : IsArgument (codeBetween source (edge.place + 1) mark.place))
    (hspaced : Spaced source mark.place (parameterEdits source spans ++ rest))
    (htidy : ∀ e ∈ all, TidyEdit source e) :
    ∃ text code, Reaches source all (parameterEdits source spans ++ rest) place text code mark ∧
      IsArgument code ∧ stripParameter (trim text) = trim text := by
  have hright := separates_of_mark hmark
  have hleft := isMark_of_separator hedge
  have hall : ∀ {edits : List Edit},
      (∃ done, all = done ++ edits ∧ ∀ e ∈ done, e.stop ≤ edge.place + 1) →
      ∀ e ∈ edits, TidyEdit source e := by
    rintro edits ⟨done, rfl, -⟩ e he
    exact htidy e (List.mem_append_right _ he)
  rw [parameterEdits_cons, slice_trimSpan] at h
  split at h
  · -- A parameter that is stripped already is copied.
    next hsame =>
    refine ⟨_, _, h.copied hadjacent.right_mem hright.1 hadjacent.lt hspaced
      fun e he => (hall h.done e he).toSoundEdit, hargument, ?_⟩
    exact beq_iff_eq.mp hsame
  · have hslice := slice_trimSpan source (edge.place + 1) mark.place
    have hstands := hadjacent.stands
    obtain ⟨⟨start, stop⟩, hspan⟩ : ∃ span, trimSpan source (edge.place + 1) mark.place = span :=
      ⟨_, rfl⟩
    rw [hspan] at hslice hstands h
    dsimp only at hslice hstands h
    obtain ⟨-, hblank⟩ := hstands.blank_before
    obtain ⟨-, hblank'⟩ := hstands.blank_after
    rw [← hslice, List.cons_append] at h
    have htidied := hall h.done _ List.mem_cons_self
    obtain ⟨right, hplace, hjoins⟩ := (EditStands.parameter hstands hedge hmark).joins
      htidied.toSoundEdit
    obtain rfl := eq_of_mem_codeChars hjoins.right_mem hadjacent.right_mem hplace
    refine ⟨_, _, h.edited hjoins hspaced, ?_, ?_⟩
    · have hargument := htidied.argument
      have hread := Reads.of_blank hblank hleft.2
      have hfresh : Segment.Lookback.isFresh .start = true := rfl
      dsimp only at hargument
      rw [hstands.takeWhile_isBlank hright.1] at hargument
      dsimp only
      rw [hread _ fun _ _ => rfl, List.map_append, map_char_shift, map_char_placedFrom,
        isArgument_blank_append hblank, codeAfter_congr hleft.2 hfresh]
      exact hargument
    · have htrim := trim_blank hblank hblank' (stripParameter (Region.slice source start stop))
      dsimp only
      rw [htrim, hslice]
      exact stripParameter_stripped (trim_trim _)

/-! ## One list -/

theorem commasIn?_comma (place : Nat) (code : List Placed) :
    commasIn? 1 (⟨place, ','⟩ :: code) =
      (commasIn? 1 code).map fun (commas, close) => (place :: commas, close) := rfl

theorem commasIn?_close {c : Char} (h : isClosing c = true) (place : Nat) (code : List Placed) :
    commasIn? 1 (⟨place, c⟩ :: code) = some ([], place) := by
  rw [commasIn?, if_neg (Bool.eq_false_iff.mp (isOpening_of_isClosing h)), if_pos h,
    if_pos (by decide)]

/-- A stripped parameter is not edited. -/
theorem parameterEdits_trimSpan {stop : Nat} {text : List Char}
    (htext : Region.slice source start stop = text)
    (h : stripParameter (trim text) = trim text) (spans : List (Nat × Nat)) :
    parameterEdits source (trimSpan source start stop :: spans) = parameterEdits source spans := by
  rw [parameterEdits_cons, slice_trimSpan, htext, h, if_pos (beq_self_eq_true _)]

/-- A list whose parameters are stripped one after the other, up to its closing bracket. -/
theorem Continues.exists_list {edge close : Placed} {commas : List Nat} {rest : List Edit}
    (h : Continues source all (parameterEdits source
      (spansBetween source (edge.place + 1) (commas ++ [close.place])) ++ rest)
      (.mark edge.char) (edge.place + 1) place)
    (hedge : edge.char ∈ ['(', ',']) (hclose : isClosing close.char = true)
    (hchain : (edge :: (commas.map (Placed.mk · ',') ++ [close])).IsChain (Adjacent source))
    (hcommas : commasIn? 1 (codeFrom source (edge.place + 1)) = some (commas, close.place))
    (hrest : Spaced source close.place rest) (htidy : ∀ e ∈ all, TidyEdit source e) :
    let output := Edit.applyAll all source
    ∃ commas' close', commasIn? 1 (codeFrom output place) = some (commas', close') ∧
      parameterEdits output (spansBetween output place (commas' ++ [close'])) = [] ∧
      place ≤ close' ∧ ⟨close', close.char⟩ ∈ codeChars output ∧
      Continues source all rest (.mark close.char) (close.place + 1) (close' + 1) := by
  intro output
  -- From one mark of the list to the next, each time as behind its opening parenthesis.
  induction commas generalizing edge place with
  | nil =>
    obtain ⟨hadjacent, -⟩ := List.isChain_cons_cons.mp hchain
    have hargument : IsArgument (codeBetween source (edge.place + 1) close.place) :=
      isArgument_of_commasIn? hadjacent.right_mem hadjacent.lt hcommas rfl hadjacent.balanced
    rw [List.nil_append, spansBetween, spansBetween] at h
    obtain ⟨text, code, hreaches, hcode, hstripped⟩ := h.exists_parameter hedge (.inr hclose)
      hadjacent hargument hrest htidy
    refine ⟨[], place + text.length, ?_, ?_, Nat.le_add_right _ _, hreaches.mem, hreaches.next⟩
    · rw [commasIn?_codeFrom hreaches.mem (Nat.le_add_right _ _) (hreaches.code_eq ▸ hcode)]
      exact commasIn?_close hclose _ _
    · exact parameterEdits_trimSpan hreaches.text_eq hstripped []
  | cons comma commas ih =>
    obtain ⟨hadjacent, hchain⟩ := List.isChain_cons_cons.mp hchain
    have hargument : IsArgument (codeBetween source (edge.place + 1) comma) :=
      isArgument_of_commasIn? hadjacent.right_mem hadjacent.lt hcommas rfl hadjacent.balanced
    have hspaced := @spaced_parameterEdits source ⟨comma, ','⟩ close commas (.tail _ (.head _))
      hclose hchain rest hrest
    rw [List.cons_append, spansBetween] at h
    obtain ⟨text, code, hreaches, hcode, hstripped⟩ :=
      @Continues.exists_parameter source all place edge ⟨comma, ','⟩ _ rest h hedge (.inl rfl)
        hadjacent hargument hspaced htidy
    have hsource := commasIn?_codeFrom hadjacent.right_mem hadjacent.lt hargument
    rw [show edge.place.succ = edge.place + 1 from rfl, hcommas, commasIn?_comma] at hsource
    obtain ⟨⟨commas'', close''⟩, hlater, heq⟩ := Option.map_eq_some_iff.mp hsource.symm
    obtain ⟨hcommas', hclose'⟩ := Prod.mk.inj heq
    obtain rfl := (List.cons.inj hcommas').2
    obtain rfl := hclose'
    obtain ⟨commas', close', hlist, hnone, hle, hmem, hnext⟩ :=
      @ih (place + text.length + 1) ⟨comma, ','⟩ hreaches.next (.tail _ (.head _)) hchain hlater
    refine ⟨(place + text.length) :: commas', close', ?_, ?_, by omega, hmem, hnext⟩
    · rw [commasIn?_codeFrom hreaches.mem (Nat.le_add_right _ _) (hreaches.code_eq ▸ hcode),
        commasIn?_comma, hlist]
      rfl
    · rw [List.cons_append, spansBetween, parameterEdits_trimSpan hreaches.text_eq hstripped]
      exact hnone

end GuestCode.Rewrite
