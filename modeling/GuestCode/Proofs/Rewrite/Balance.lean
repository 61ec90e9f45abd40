import GuestCode.Proofs.Rewrite.Signatures
import GuestCode.Proofs.Snippet.Reading

/-!
# Brackets of stripped signatures

Stripping signatures keeps the depth of brackets if the code that it removes is balanced and what it
puts in can be an argument. What is removed with a parameter is always balanced. A result goes up to
the next brace or arrow of its line, so that parentheses and square brackets in it can be without
their partners.

## Main statements

* `Rewrite.SoundEdit`: an edit that keeps the depth.
* `Rewrite.Spaced.nestingAfter?_applyFrom`: edits from left to right keep it.
* `Rewrite.balanced_stripSignatures`: stripped signatures are balanced if the snippet is.
-/

namespace GuestCode.Rewrite

open Text Text.Pattern Grammar

variable {source : List Char}

/-! ## One edit -/

/-- The edits that strip all signatures of a snippet. -/
def allSignatureEdits (source : List Char) : List Edit :=
  signatureEdits source (codeChars source) 0 ((codeChars source).filter fun p => p.char == '(')

/-- An edit that keeps the depth of brackets. The snippet before it is self-contained, and what it
puts in can be an argument, with the blanks that are left after it. A result, in whose place a blank
is put, is balanced code, and the body after it starts in code. -/
structure SoundEdit (source : List Char) (e : Edit) : Prop where
  before : SelfContained anything (source.take e.start)
  text : Enclosed (e.text ++ (source.drop e.stop).takeWhile isBlank)
  result : e.text = [' '] → Balanced (codeBetween source e.start e.stop) ∧
    ∃ c, ⟨e.stop, c⟩ ∈ codeChars source

/-- An edit between two marks of a snippet, where balanced code is replaced by balanced code. -/
structure Joins (source : List Char) (left right : Placed) (e : Edit) : Prop where
  left_mem : left ∈ codeChars source
  left_mark : isMark left.char = true
  right_mem : right ∈ codeChars source
  right_mark : isMark right.char = true
  start_le : left.place + 1 ≤ e.start
  le : e.start ≤ e.stop
  stop_le : e.stop ≤ right.place
  removed : Balanced (codeBetween source (left.place + 1) right.place)
  put : ∃ known last, Reads (· == right.char) (.mark left.char)
    (Region.slice source (left.place + 1) e.start ++
      (e.text ++ Region.slice source e.stop right.place)) known last ∧
      Balanced (known.map Placed.char)

theorem EditStands.joins {left : Placed} {next : Nat} {e : Edit}
    (h : EditStands source left next e) (hsound : SoundEdit source e) :
    ∃ right, right.place = next ∧ Joins source left right e := by
  cases h with
  | @parameter right start stop stands left_char right_char =>
    have hleft := isMark_of_separator left_char
    have hright := separates_of_mark right_char
    obtain ⟨hstart, hbefore⟩ := stands.blank_before
    obtain ⟨hstop, -⟩ := stands.blank_after
    have hgap := Reads.of_blank hbefore hleft.2
    obtain ⟨known, last, hread, hbalanced⟩ := hsound.text.exists_reads (.mark left.char) hleft.2
    dsimp only at hread
    rw [stands.takeWhile_isBlank hright.1] at hread
    have hput := hgap.append hread fun _ _ _ _ => rfl
    refine ⟨right, rfl, stands.left_mem, hleft.1, stands.right_mem, hright.1, hstart, stands.le,
      hstop, stands.balanced_between, _, last, hput.mono fun c hc => ?_, ?_⟩
    · rw [beq_iff_eq.mp hc]
      exact hright.2
    · rw [List.map_append, map_char_shift, map_char_placedFrom]
      exact (balanced_of_blank hbefore).append hbalanced
  | @result next c left_mem left_char le next_eq next_char =>
    obtain ⟨hremoved, c', hright⟩ := hsound.result rfl
    obtain rfl : c = c' := Option.some.inj (next_eq.symm.trans (inCode_of_mem_codeChars hright).2)
    have hmark : isMark c = true := by
      have hall : ∀ c ∈ ['\x7b', '='], isMark c = true := by decide +kernel
      exact hall c next_char
    have hput : ∃ known last, Reads (· == c) (.mark left.char) [' '] known last ∧
        Balanced (known.map Placed.char) :=
      ⟨placedFrom 0 [' '], _, (Reads.of_plain (by decide) _).mono fun _ _ => rfl, by decide⟩
    refine ⟨⟨next, c⟩, rfl, left_mem, isMark_of_isClosing left_char, hright, hmark, Nat.le_refl _,
      le, Nat.le_refl _, hremoved, ?_⟩
    dsimp only
    rw [Region.slice_self, Region.slice_self]
    exact hput

/-! ## All edits -/

theorem Spaced.applyFrom_eq {low start stop : Nat} {edits : List Edit}
    (h : Spaced source low edits) (hstart : start ≤ stop) (hstop : stop ≤ low + 1) :
    Edit.applyFrom source start edits =
      Region.slice source start stop ++ Edit.applyFrom source stop edits := by
  cases h with
  | nil => rw [Edit.applyFrom, Edit.applyFrom, Region.slice_append_drop hstart]
  | @cons _ next left e rest low_le stands others =>
    have hlt : stop ≤ e.start := by
      have hplace := stands.lt_start
      omega
    rw [Edit.applyFrom, Edit.applyFrom, ← Region.slice_append_slice hstart hlt, List.append_assoc,
      List.append_assoc, List.append_assoc]

/-- From the mark before it on, an edit keeps the depth of brackets if what follows it does. -/
theorem Joins.nestingAfter?_applyFrom {left right : Placed} {e : Edit} {rest : List Edit}
    (h : Joins source left right e) (hrest : Spaced source right.place rest)
    (hlater : ∀ look depth, nestingAfter? depth
      ((codeAfter look (Edit.applyFrom source right.place rest)).map Placed.char) =
        nestingAfter? depth ((codeAfter look (source.drop right.place)).map Placed.char))
    (depth : Nat) :
    nestingAfter? depth ((codeAfter (.mark left.char)
      (Region.slice source (left.place + 1) e.start ++
        (e.text ++ Edit.applyFrom source e.stop rest))).map Placed.char) =
      nestingAfter? depth
        ((codeAfter (.mark left.char) (source.drop (left.place + 1))).map Placed.char) := by
  obtain ⟨known, last, hput, hbalanced⟩ := h.put
  have hle : left.place + 1 ≤ right.place := h.start_le.trans (h.le.trans h.stop_le)
  obtain ⟨middle, hmiddle, hsource⟩ := (resumes_behind h.left_mem h.left_mark).exists_upTo
    h.right_mem h.right_mark hle last
  have hremoved : Balanced (middle.map Placed.char) := by
    rw [hmiddle]
    exact h.removed
  have hnext : ∀ c ∈ (Edit.applyFrom source right.place rest).head?, (c == right.char) = true := by
    rw [hrest.applyFrom_eq (Nat.le_succ _) (Nat.le_refl _),
      Region.slice_cons h.right_mem (Nat.le_refl _)]
    simp
  have hedited := hput _ hnext
  rw [List.append_assoc, List.append_assoc, ← hrest.applyFrom_eq h.stop_le (Nat.le_succ _)]
    at hedited
  rw [hedited, hsource, List.map_append, List.map_append, map_char_shift, map_char_shift,
    nestingAfter?_append_of_balanced hbalanced, nestingAfter?_append_of_balanced hremoved, hlater]

/-- Edits from left to right keep the depth of brackets. -/
theorem Spaced.nestingAfter?_applyFrom {low : Nat} {edits : List Edit}
    (h : Spaced source low edits) (hsound : ∀ e ∈ edits, SoundEdit source e)
    {look : Segment.Lookback} {start : Nat} (hresumes : Resumes source look start)
    (hle : start ≤ low) (depth : Nat) :
    nestingAfter? depth ((codeAfter look (Edit.applyFrom source start edits)).map Placed.char) =
      nestingAfter? depth ((codeAfter look (source.drop start)).map Placed.char) := by
  induction h generalizing look start depth with
  | nil => rfl
  | @cons low next left e rest low_le stands others ih =>
    obtain ⟨hsound, hrest⟩ := List.forall_mem_cons.mp hsound
    obtain ⟨right, rfl, hjoins⟩ := stands.joins hsound
    have hlater := hjoins.nestingAfter?_applyFrom others fun look =>
      ih hrest (resumes_at hjoins.right_mem hjoins.right_mark look) (Nat.le_refl _)
    have hright := place_lt_of_mem_codeChars hjoins.right_mem
    have hstart := hjoins.start_le
    have hedit := hjoins.le
    have hstop := hjoins.stop_le
    obtain ⟨front, hfront⟩ := hresumes.exists_behind hjoins.left_mem hjoins.left_mark
      (hle.trans low_le) hstart (by omega) hsound.before
    have hwhole : start ≤ e.start := by omega
    rw [Edit.applyFrom, List.append_assoc, hfront, ← Region.slice_append_drop hwhole source, hfront,
      Region.slice_append_drop hstart]
    simp only [List.map_append, List.map_cons, map_char_shift]
    exact nestingAfter?_append_congr (nestingAfter?_cons_congr hlater left.char) _ depth

/-! ## Stripped signatures -/

/-- What is removed as a result is on one line and holds no braces. -/
theorem not_mem_of_signatureAt? {place : Nat} {arguments : Arguments} {tail : Found}
    (h : signatureAt? source (codeChars source) place = some (arguments, tail)) :
    ∀ c ∈ tail.text, c ∉ ['\x7b', '\x7d', ';', '\n'] :=
  not_mem_of_takesNone signatureTail (by decide)
    (exists_of_matchAt? (exists_of_signatureAt? h).2).1

/-- Stripping signatures keeps the depth of brackets if all edits are sound, and so the snippet is
balanced afterwards if and only if it was before. Of all brackets only parentheses and square ones can
be without their partners in a result that is removed. -/
theorem balanced_stripSignatures (h : ∀ e ∈ allSignatureEdits source, SoundEdit source e) :
    nestingAfter? 0 (codeText (stripSignatures source)) = nestingAfter? 0 (codeText source) ∧
      (Balanced (codeText (stripSignatures source)) ↔ Balanced (codeText source)) ∧
      ∀ place arguments tail,
        signatureAt? source (codeChars source) place = some (arguments, tail) →
          ∀ c ∈ tail.text, c ∉ ['\x7b', '\x7d', ';', '\n'] := by
  have hopenings : ∀ p ∈ (codeChars source).filter (fun p => p.char == '('),
      p ∈ codeChars source ∧ p.char = '(' ∧ 0 ≤ p.place := by
    intro p hp
    obtain ⟨hmem, hchar⟩ := List.mem_filter.mp hp
    exact ⟨hmem, beq_iff_eq.mp hchar, Nat.zero_le _⟩
  have hspaced : Spaced source 0 (allSignatureEdits source) := spaced_signatureEdits hopenings
  have hdepth := hspaced.nestingAfter?_applyFrom h (resumes_start source) (Nat.le_refl 0) 0
  exact ⟨hdepth, Eq.congr_left hdepth, fun _ _ _ => not_mem_of_signatureAt?⟩

theorem balanced_stripSignatures_arrow :
    let source := "const f = (a: [A], b = (1)): Map<[K]> => b;".toList
    (∀ e ∈ allSignatureEdits source, SoundEdit source e) ∧
      stripSignatures source = "const f = (a, b = (1)) => b;".toList ∧
      Balanced (codeText (stripSignatures source)) := by
  intro source
  have hedits : allSignatureEdits source = [⟨11, 17, ['a']⟩, ⟨27, 38, [' ']⟩] := by decide +kernel
  have hplain : ∀ c ∈ source, c ∉ Segment.openers := by decide
  have hbefore : ∀ e : Edit, SelfContained anything (source.take e.start) := fun e =>
    selfContained_of_plain fun c hc => hplain c (List.mem_of_mem_take hc)
  have hname : ∀ {name : List Char}, (∀ c ∈ name, c ∉ Segment.openers) →
      SelfContained separates name :=
    fun hplain => (selfContained_of_plain hplain).mono fun _ _ => rfl
  have hsound : ∀ e ∈ allSignatureEdits source, SoundEdit source e := by
    rw [hedits]
    simp only [List.forall_mem_cons]
    refine ⟨⟨hbefore _, ⟨hname (by decide), by decide +kernel⟩, nofun⟩,
      ⟨hbefore _, ⟨hname (by decide), by decide +kernel⟩, fun _ =>
        ⟨by decide +kernel, '=', by decide +kernel⟩⟩, nofun⟩
  exact ⟨hsound, by decide +kernel, (balanced_stripSignatures hsound).2.1.mpr (by decide +kernel)⟩

/-- A call after a conditional expression counts as a result up to the brace in its arguments. -/
theorem not_balanced_stripSignatures :
    let source := "const y = x ? (a) : f(\x7b\x7d);".toList
    Balanced (codeText source) ∧
      stripSignatures source = "const y = x ? (a) \x7b\x7d);".toList ∧
      ¬Balanced (codeText (stripSignatures source)) := by
  decide +kernel

end GuestCode.Rewrite
