import GuestCode.Proofs.Snippet.Nesting
import GuestCode.Proofs.Text.Language
import GuestCode.Rewrite.Types

/-!
# What is found of a signature

A signature without annotations is settled: nothing in it is edited. Signatures that are settled are
passed over.

## Main statements

* `Rewrite.Settled`: a parenthesis whose signature, if it is one, has no annotations.
* `Rewrite.captured_of_signatureTail`: a result type stands after a colon.
* `Rewrite.exists_signatureEdits_append`: settled signatures are passed over.
* `Rewrite.spaced_signatureEdits`: where the edits of signatures stand.
-/

namespace GuestCode.Rewrite

open Text Text.Pattern Grammar

/-! ## Before and after signatures -/

/-- The rules for types that are used before signatures are looked for. -/
def typeRules : List Rule :=
  [.remove typeAlias, .remove interfaceDeclaration,
    ⟨annotatedVariable, fun m => m.captured 1 ++ m.captured 2 ++ " =".toList⟩,
    ⟨annotatedDeclaration, fun m => m.captured 1 ++ m.captured 2 ++ [';']⟩,
    ⟨genericFunction, fun m => m.captured 1 ++ ['(']⟩]

/-- A snippet without its type declarations, without the annotations of its variables and without
the type parameters of its functions. -/
def withoutDeclarations (codeOnly : Bool) (source : List Char) : List Char :=
  Rule.applyAll codeOnly typeRules source

theorem stripTypes_eq (codeOnly : Bool) (source : List Char) :
    stripTypes codeOnly source =
      Rule.apply codeOnly (.remove cast) (stripSignatures (withoutDeclarations codeOnly source)) :=
  rfl

/-! ## The tail of a signature -/

theorem takes_spaces {w : List Char} (h : spaces.Takes w) : ∀ c ∈ w, c = ' ' ∨ c = '\t' :=
  fun c hc => by simpa using takes_many_char.mp h c hc

/-- The result type of a signature, with the colon before it. -/
def resultType : Pattern :=
  all [lit ":", spaces, followedBy (.char fun c => isNameChar c || c == '(' || c == '['),
    .capture 1 (lazyPlus (.either (noneOf "\x7b\x7d;=\n") (lit "=>"))), spaces]

/-- What is found after the parameters of a signature: spaces, perhaps a result type, and a body or
an arrow after these. -/
theorem exists_ends_of_signatureTail {start : Progress} {tail : Found}
    (h : signatureTail.matchAt? start = some tail) :
    ∃ p ∈ spaces.ends start, ∃ q ∈ (opt resultType).ends p,
      (words ["\x7b", "=>"]).ends q ≠ [] ∧ tail = .ofEnds start q := by
  obtain ⟨q, hq, rfl⟩ := Option.map_eq_some_iff.mp h
  have hmem := List.mem_of_head? hq
  rw [signatureTail, ends_all_cons] at hmem
  obtain ⟨p, hp, hmem⟩ := List.mem_flatMap.mp hmem
  rw [ends_all_cons] at hmem
  obtain ⟨q', hq', hmem⟩ := List.mem_flatMap.mp hmem
  rw [all, followedBy, ends] at hmem
  split at hmem
  · cases hmem
  · next hsome =>
    obtain rfl := List.mem_singleton.mp hmem
    refine ⟨p, hp, q, hq', fun hnil => hsome ?_, rfl⟩
    rw [hnil]
    rfl

/-- A body or an arrow follows a signature. -/
theorem exists_word_after_signatureTail {p : Progress} {tail : Found}
    (h : signatureTail.matchAt? p = some tail) :
    ∃ word ∈ ["\x7b", "=>"], ∃ rest, tail.after = word.toList ++ rest := by
  obtain ⟨-, -, q, -, hends, rfl⟩ := exists_ends_of_signatureTail h
  obtain ⟨r, hr⟩ := List.exists_mem_of_ne_nil _ hends
  obtain ⟨w, hw, hover⟩ := exists_takes hr
  obtain ⟨word, hword, rfl⟩ := (takes_words (by simp)).mp hw
  exact ⟨word, hword, r.rest, hover.rest⟩

theorem exists_after_signatureTail {p : Progress} {tail : Found}
    (h : signatureTail.matchAt? p = some tail) :
    ∃ c rest, tail.after = c :: rest ∧ c ∈ ['\x7b', '='] := by
  obtain ⟨word, hword, rest, hafter⟩ := exists_word_after_signatureTail h
  simp only [List.mem_cons, List.not_mem_nil, or_false] at hword
  rcases hword with rfl | rfl
  · exact ⟨'\x7b', rest, hafter, .head _⟩
  · exact ⟨'=', '>' :: rest, hafter, .tail _ (.head _)⟩

/-- The result type of a signature stands after a colon. -/
theorem captured_of_signatureTail {before : Option Char} {text : List Char} {offset : Nat}
    {m : Found} (h : signatureTail.matchAt? ⟨before, text, offset, []⟩ = some m)
    (hcaptured : m.captured 1 ≠ []) :
    ∃ gap rest : List Char, text = gap ++ ':' :: rest ∧ ∀ c ∈ gap, c = ' ' ∨ c = '\t' := by
  obtain ⟨p, hp, q, hq, -, rfl⟩ := exists_ends_of_signatureTail h
  obtain ⟨gap, hgap, hover⟩ := exists_takes hp
  rcases List.mem_append.mp hq with hresult | hnone
  · obtain ⟨w, hw, hover'⟩ := exists_takes hresult
    obtain ⟨colon, rest, rfl, hcolon, -⟩ := takes_all_cons.mp hw
    obtain rfl := takes_lit.mp hcolon
    refine ⟨gap, rest ++ q.rest, ?_, takes_spaces hgap⟩
    rw [show text = gap ++ p.rest from hover.rest, hover'.rest, List.append_assoc]
    rfl
  · -- Without a result nothing is captured.
    obtain rfl := List.mem_singleton.mp hnone
    have hcaptures : q.captures = [] := List.eq_nil_iff_forall_not_mem.mpr fun c hc => by
      rcases captures_of_mem_ends hp c hc with hc | hc
      · cases hc
      · exact hc
    refine absurd ?_ hcaptured
    rw [Found.captured, Found.capture?, Found.ofEnds, hcaptures]
    rfl

/-- Without a result type, only spaces stand before the body. -/
theorem spaces_of_signatureTail {start : Progress} {m : Found}
    (h : signatureTail.matchAt? start = some m) (hcaptured : m.captured 1 = []) :
    ∀ c ∈ m.text, c = ' ' ∨ c = '\t' := by
  obtain ⟨p, hp, q, hq, -, rfl⟩ := exists_ends_of_signatureTail h
  obtain ⟨gap, hgap, hover⟩ := exists_takes hp
  rcases List.mem_append.mp hq with hresult | hnone
  · -- A result type is some text.
    have hresult : q ∈ (all ([lit ":", spaces, followedBy (.char fun c =>
        isNameChar c || c == '(' || c == '[')] ++
      [.capture 1 (lazyPlus (.either (noneOf "\x7b\x7d;=\n") (lit "=>"))), spaces])).ends p :=
      hresult
    rw [ends_all_append] at hresult
    obtain ⟨r, -, hresult⟩ := List.mem_flatMap.mp hresult
    obtain ⟨-, -, w, -, -, -, hw, -, hkept⟩ := exists_of_mem_ends_capture (by decide) hresult
    exact absurd (hkept.symm.trans hcaptured) (ne_nil_of_takesSome (by decide) hw)
  · obtain rfl := List.mem_singleton.mp hnone
    rw [Found.ofEnds, hover.take_eq]
    exact takes_spaces hgap

/-- Before a body or an arrow, spaces are the tail of a signature. -/
theorem signatureTail_ne_none {before : Option Char} {gap rest : List Char} {offset : Nat}
    {word : String} (hgap : ∀ c ∈ gap, c = ' ' ∨ c = '\t') (hword : word ∈ ["\x7b", "=>"]) :
    signatureTail.matchAt? ⟨before, gap ++ (word.toList ++ rest), offset, []⟩ ≠ none := by
  have htakes : spaces.Takes gap := takes_many_char.mpr fun c hc => by simpa using hgap c hc
  obtain ⟨q, hq, hover⟩ := @exists_mem_ends_of_takes spaces rfl gap htakes
    ⟨before, gap ++ (word.toList ++ rest), offset, []⟩ _ rfl
  have hrest : q.rest = word.toList ++ rest := List.append_cancel_left hover.rest.symm
  have hfollows : (words ["\x7b", "=>"]).Takes word.toList :=
    (takes_words (by simp)).mpr ⟨word, hword, rfl⟩
  obtain ⟨r, hr, -⟩ := exists_mem_ends_of_takes rfl hfollows hrest
  refine matchAt?_ne_none (q := q) ?_
  rw [signatureTail, ends_all_cons]
  refine List.mem_flatMap.mpr ⟨q, hq, ?_⟩
  rw [ends_all_cons]
  exact List.mem_flatMap.mpr ⟨q, List.mem_append_right _ (List.mem_singleton_self q),
    mem_ends_followedBy (List.ne_nil_of_mem hr)⟩

/-! ## Signatures without annotations -/

/-- A parenthesis whose signature, if it is one, has no annotations. -/
def Settled (source : List Char) (place : Nat) : Prop :=
  ∀ arguments tail, signatureAt? source (codeChars source) place = some (arguments, tail) →
    parameterEdits source arguments.spans = [] ∧ tail.captured 1 = []

theorem exists_of_signatureAt? {source : List Char} {code : List Placed} {place : Nat}
    {arguments : Arguments} {tail : Found}
    (h : signatureAt? source code place = some (arguments, tail)) :
    argumentSpans? source code place = some arguments ∧
      signatureTail.matchAt? ⟨source[arguments.close]?, source.drop (arguments.close + 1),
        arguments.close + 1, []⟩ = some tail := by
  unfold signatureAt? at h
  split at h
  · cases h
  next arguments' harguments =>
  obtain ⟨tail', htail, heq⟩ := Option.map_eq_some_iff.mp h
  obtain ⟨rfl, rfl⟩ := Prod.mk.inj heq
  exact ⟨harguments, htail⟩

/-- Settled signatures are passed over. -/
theorem exists_signatureEdits_append {source : List Char} {openings : List Placed}
    (h : ∀ p ∈ openings, Settled source p.place) (start : Nat) (others : List Placed) :
    ∃ start', signatureEdits source (codeChars source) start (openings ++ others) =
      signatureEdits source (codeChars source) start' others := by
  induction openings generalizing start with
  | nil => exact ⟨start, rfl⟩
  | cons opening rest ih =>
    obtain ⟨hopening, hrest⟩ := List.forall_mem_cons.mp h
    rw [List.cons_append, signatureEdits]
    split
    · exact ih hrest start
    split
    · exact ih hrest start
    · next arguments tail hsignature =>
      obtain ⟨hparameters, hresult⟩ := hopening arguments tail hsignature
      obtain ⟨start', heq⟩ := ih hrest (max (arguments.close + 1) tail.stop)
      refine ⟨start', ?_⟩
      dsimp only
      rw [hparameters, hresult, heq]
      rfl

/-! ## Where the edits stand -/

/-- Where one edit of a signature stands. A parameter stands between two marks of its list, and a
result between the closing bracket and what starts the body. -/
inductive EditStands (source : List Char) : Placed → Nat → Edit → Prop where
  | parameter {left right : Placed} {start stop : Nat}
      (stands : Stands source left right start stop)
      (left_char : left.char ∈ ['(', ','])
      (right_char : right.char = ',' ∨ isClosing right.char = true) :
      EditStands source left right.place
        ⟨start, stop, stripParameter (Region.slice source start stop)⟩
  | result {left : Placed} {next : Nat} {c : Char}
      (left_mem : left ∈ codeChars source)
      (left_char : isClosing left.char = true)
      (le : left.place + 1 ≤ next)
      (next_eq : source[next]? = some c)
      (next_char : c ∈ ['\x7b', '=']) :
      EditStands source left next ⟨left.place + 1, next, [' ']⟩

theorem EditStands.lt {source : List Char} {left : Placed} {next : Nat} {e : Edit}
    (h : EditStands source left next e) : left.place < next := by
  cases h with
  | parameter stands =>
    have hstart := stands.blank_before.1
    have hstop := stands.blank_after.1
    have hle := stands.le
    omega
  | result _ _ le => exact le

theorem EditStands.lt_start {source : List Char} {left : Placed} {next : Nat} {e : Edit}
    (h : EditStands source left next e) : left.place < e.start := by
  cases h with
  | parameter stands => exact stands.blank_before.1
  | result => exact Nat.lt_succ_self _

/-- Edits of signatures from left to right, the first of which stands after a mark that is not
before the place `low`. -/
inductive Spaced (source : List Char) : Nat → List Edit → Prop where
  | nil {low : Nat} : Spaced source low []
  | cons {low next : Nat} {left : Placed} {e : Edit} {rest : List Edit}
      (low_le : low ≤ left.place)
      (stands : EditStands source left next e)
      (others : Spaced source next rest) : Spaced source low (e :: rest)

theorem Spaced.mono {source : List Char} {low low' : Nat} {edits : List Edit}
    (h : Spaced source low edits) (hle : low' ≤ low) : Spaced source low' edits := by
  cases h with
  | nil => exact .nil
  | cons low_le stands others => exact .cons (Nat.le_trans hle low_le) stands others

theorem parameterEdits_cons (source : List Char) (start stop : Nat) (spans : List (Nat × Nat)) :
    parameterEdits source ((start, stop) :: spans) =
      if stripParameter (Region.slice source start stop) == Region.slice source start stop then
        parameterEdits source spans
      else ⟨start, stop, stripParameter (Region.slice source start stop)⟩ ::
        parameterEdits source spans := by
  rw [parameterEdits, List.filterMap_cons]
  dsimp only
  split
  · next h =>
    split at h
    · next hsame => rw [if_pos hsame, parameterEdits]
    · cases h
  · next h =>
    split at h
    · cases h
    · next hother => rw [if_neg hother, ← Option.some.inj h, parameterEdits]

/-- The edits of the parameters between marks, and others that follow. -/
theorem spaced_parameterEdits {source : List Char} {edge close : Placed} {commas : List Nat}
    (hedge : edge.char ∈ ['(', ',']) (hclose : isClosing close.char = true)
    (hchain : (edge :: (commas.map (Placed.mk · ',') ++ [close])).IsChain (Adjacent source))
    {rest : List Edit} (hrest : Spaced source close.place rest) :
    Spaced source edge.place
      (parameterEdits source (spansBetween source (edge.place + 1) (commas ++ [close.place])) ++
        rest) := by
  have hfirst : ∀ {edge mark : Placed} {others : List (Nat × Nat)}, edge.char ∈ ['(', ','] →
      (mark.char = ',' ∨ isClosing mark.char = true) → Adjacent source edge mark →
      Spaced source mark.place (parameterEdits source others ++ rest) →
      Spaced source edge.place (parameterEdits source
        (trimSpan source (edge.place + 1) mark.place :: others) ++ rest) := by
    intro edge mark others hedge hmark hadjacent hothers
    rw [parameterEdits_cons]
    split
    · exact hothers.mono (Nat.le_of_lt hadjacent.lt)
    · exact .cons (Nat.le_refl _) (.parameter hadjacent.stands hedge hmark) hothers
  induction commas generalizing edge with
  | nil =>
    obtain ⟨hadjacent, -⟩ := List.isChain_cons_cons.mp hchain
    exact hfirst hedge (.inr hclose) hadjacent hrest
  | cons comma commas ih =>
    obtain ⟨hadjacent, hchain⟩ := List.isChain_cons_cons.mp hchain
    exact @hfirst edge ⟨comma, ','⟩ _ hedge (.inl rfl) hadjacent (ih (.tail _ (.head _)) hchain)

/-- The edit of a result, and others that follow. -/
theorem spaced_result {source : List Char} {arguments : Arguments} {c : Char} {tail : Found}
    {rest : List Edit} (hmem : ⟨arguments.close, c⟩ ∈ codeChars source) (hc : isClosing c = true)
    (htail : signatureTail.matchAt? ⟨source[arguments.close]?, source.drop (arguments.close + 1),
      arguments.close + 1, []⟩ = some tail)
    (hrest : Spaced source (max (arguments.close + 1) tail.stop) rest) :
    Spaced source arguments.close
      ((if (tail.captured 1).isEmpty then []
        else [⟨arguments.close + 1, tail.stop, [' ']⟩]) ++ rest) := by
  split
  · exact hrest.mono (by omega)
  · obtain ⟨-, htext, hstart⟩ := exists_of_matchAt? htail
    obtain ⟨c', after, hafter, hc'⟩ := exists_after_signatureTail htail
    have hstop : tail.stop = arguments.close + 1 + tail.text.length := by
      rw [Found.stop, hstart]
    have hnext : source[tail.stop]? = some c' := by
      rw [← List.head?_drop, hstop, ← List.drop_drop,
        show source.drop (arguments.close + 1) = _ from htext, List.drop_left, hafter]
      rfl
    have hstands : EditStands source ⟨arguments.close, c⟩ tail.stop
        ⟨arguments.close + 1, tail.stop, [' ']⟩ :=
      .result hmem hc (by rw [hstop]; exact Nat.le_add_right _ _) hnext hc'
    exact .cons (Nat.le_refl _) hstands (hrest.mono (Nat.le_max_right _ _))

/-- Where the edits of signatures stand. -/
theorem spaced_signatureEdits {source : List Char} {low start : Nat} {openings : List Placed}
    (hopenings : ∀ p ∈ openings, p ∈ codeChars source ∧ p.char = '(' ∧ low ≤ p.place) :
    Spaced source (max low start) (signatureEdits source (codeChars source) start openings) := by
  fun_induction signatureEdits source (codeChars source) start openings with
  | case1 => exact .nil
  | case2 start opening rest _ ih | case3 start opening rest _ _ ih =>
    exact ih fun p hp => hopenings p (.tail _ hp)
  | case4 start opening rest hstart arguments tail hsignature result ih =>
    obtain ⟨⟨hmem, hchar, hlow⟩, hothers⟩ := List.forall_mem_cons.mp hopenings
    have hplace : ⟨opening.place, '('⟩ ∈ codeChars source := by
      rw [← hchar]
      exact hmem
    obtain ⟨harguments, htail⟩ := exists_of_signatureAt? hsignature
    obtain ⟨c, hc, hclose, hlt⟩ := exists_close hplace harguments
    have hresult := spaced_result hclose hc htail ((ih hothers).mono (Nat.le_max_right _ _))
    obtain ⟨commas, c', hc', hchain, hspans⟩ := isChain_adjacent hplace harguments
    have hle : max low start ≤ opening.place := Nat.max_le.mpr ⟨hlow, Nat.not_lt.mp hstart⟩
    rw [List.append_assoc]
    rcases hspans with hnil | hspans
    · rw [hnil]
      exact hresult.mono (Nat.le_trans hle (Nat.le_of_lt hlt))
    · rw [hspans]
      exact (spaced_parameterEdits (.head _) hc' hchain hresult).mono hle

end GuestCode.Rewrite
