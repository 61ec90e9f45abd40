import GuestCode.Proofs.Snippet.Nesting
import GuestCode.Proofs.Snippet.Prefix

/-!
# Texts that are read in one way

A text is self-contained if its characters of code are the same whatever stands after it: no comment
or literal is open at its end, and no `/` in it looks for the end of a regular expression beyond it.
Of such texts a snippet can be put together, since each is read as it would be on its own.

## Main statements

* `Reads`: a text that is read in one way, and what its code tells about a `/` after it.
* `exists_of_mem_codeAfter`: from a character of code on, a text is read anew.
* `Reads.of_mem`: what is behind a mark in such a text is read in one way as well.
* `codeAfter_congr`: after all marks that an expression may follow, a text is read alike.
* `Resumes`: where a snippet can be read on.
* `Resumes.exists_upTo`, `Resumes.exists_behind`: its code up to a mark, and behind one.
* `argumentSpans?_behind`: a call that is not closed stays so behind another text.
-/

namespace GuestCode

open Text

variable {look look' last last' : Segment.Lookback} {text : List Char}
  {known known' : List Placed} {may may' : Char → Bool}

/-! ## The code of a part -/

/-- A character of a text that starts at a place of another one. -/
def Placed.shift (start : Nat) (p : Placed) : Placed := ⟨start + p.place, p.char⟩

@[simp] theorem Placed.shift_char (start : Nat) (p : Placed) : (p.shift start).char = p.char := rfl

@[simp] theorem Placed.shift_place (start : Nat) (p : Placed) :
    (p.shift start).place = start + p.place := rfl

@[simp] theorem map_shift_map_shift (m n : Nat) (code : List Placed) :
    (code.map (Placed.shift n)).map (Placed.shift m) = code.map (Placed.shift (m + n)) := by
  rw [List.map_map]
  refine List.map_congr_left fun p _ => ?_
  simp [Placed.shift, Nat.add_assoc]

@[simp] theorem map_shift_zero (code : List Placed) : code.map (Placed.shift 0) = code := by
  conv_rhs => rw [← List.map_id code]
  refine List.map_congr_left fun p _ => ?_
  simp [Placed.shift]

theorem Placed.shift_injective (start : Nat) : Function.Injective (Placed.shift start) := by
  rintro ⟨m, c⟩ ⟨n, d⟩ h
  obtain ⟨hplace, hchar⟩ := Placed.mk.inj h
  exact congrArg₂ Placed.mk (Nat.add_left_cancel hplace) hchar

@[simp] theorem map_char_shift (start : Nat) (code : List Placed) :
    (code.map (Placed.shift start)).map Placed.char = code.map Placed.char := by
  rw [List.map_map]
  rfl

theorem placedFrom_add (m n : Nat) (text : List Char) :
    placedFrom (m + n) text = (placedFrom n text).map (Placed.shift m) := by
  induction text generalizing n with
  | nil => rfl
  | cons c cs ih =>
    rw [placedFrom, placedFrom, Nat.add_assoc, ih, List.map_cons]
    rfl

@[simp] theorem map_char_placedFrom (start : Nat) (text : List Char) :
    (placedFrom start text).map Placed.char = text := by
  induction text generalizing start with
  | nil => rfl
  | cons c cs ih => rw [placedFrom, List.map_cons, ih]

theorem codeOfSegments_add (m n : Nat) (segments : List Segment) :
    codeOfSegments (m + n) segments = (codeOfSegments n segments).map (Placed.shift m) := by
  induction segments generalizing n with
  | nil => rfl
  | cons s rest ih =>
    rw [codeOfSegments, codeOfSegments, Nat.add_assoc, ih, placedFrom_add, List.map_append]
    split
    · rfl
    · rfl

/-- The characters of code of a text that stands after other code. -/
def codeAfter (look : Segment.Lookback) (text : List Char) : List Placed :=
  codeOfSegments 0 (Segment.splitAfter look text)

theorem codeChars_eq_codeAfter (source : List Char) : codeChars source = codeAfter .start source :=
  rfl

theorem codeOfSegments_splitAfter (start : Nat) (look : Segment.Lookback) (text : List Char) :
    codeOfSegments start (Segment.splitAfter look text) =
      (codeAfter look text).map (Placed.shift start) :=
  codeOfSegments_add start 0 _

@[simp] theorem codeAfter_nil (look : Segment.Lookback) : codeAfter look [] = [] := by
  rw [codeAfter, Segment.splitAfter]
  rfl

theorem codeAfter_of_none {c : Char} {cs : List Char} (h : Segment.token? look c cs = none) :
    codeAfter look (c :: cs) =
      ⟨0, c⟩ :: (codeAfter (look.afterCode c) cs).map (Placed.shift 1) := by
  rw [codeAfter, Segment.splitAfter_of_none h, Segment.codeOfSegments_consCode,
    codeOfSegments_splitAfter]

theorem codeAfter_of_token {c : Char} {body rest : List Char} {kind : Segment.Kind}
    (h : Segment.token? look c (body ++ rest) = some (kind, rest)) :
    codeAfter look (c :: (body ++ rest)) =
      (codeAfter (look.afterToken kind) rest).map (Placed.shift (body.length + 1)) := by
  have hkind : (kind == .code) = false := by
    simpa using Segment.kind_ne_code_of_token? h
  rw [codeAfter, Segment.splitAfter_token h, codeOfSegments, hkind, if_neg (by simp),
    List.nil_append, codeOfSegments_splitAfter, Nat.zero_add, List.length_cons]

theorem place_lt_of_mem_codeAfter {p : Placed} (h : p ∈ codeAfter look text) :
    p.place < text.length := by
  fun_induction Segment.splitAfter look text generalizing p with
  | case1 => simp at h
  | case2 look c cs kind rest htoken _ ih =>
    obtain ⟨taken, rfl⟩ := Segment.token?_suffix htoken
    rw [codeAfter_of_token htoken] at h
    obtain ⟨q, hq, rfl⟩ := List.mem_map.mp h
    have hlt := ih hq
    simp only [Placed.shift_place, List.length_cons, List.length_append]
    omega
  | case3 look c cs htoken ih =>
    rw [codeAfter_of_none htoken] at h
    rcases List.mem_cons.mp h with rfl | h
    · simp
    · obtain ⟨q, hq, rfl⟩ := List.mem_map.mp h
      have hlt := ih hq
      simp only [Placed.shift_place, List.length_cons]
      omega

/-- From a character of code on, a text is read anew. -/
theorem exists_of_mem_codeAfter {place : Nat} {c : Char} (h : ⟨place, c⟩ ∈ codeAfter look text) :
    ∃ front last, (∀ p ∈ front, p.place < place) ∧
      codeAfter look text = front ++ (⟨place, c⟩ ::
        (codeAfter (Segment.Lookback.afterCode c last) (text.drop (place + 1))).map
          (Placed.shift (place + 1))) := by
  fun_induction Segment.splitAfter look text generalizing place with
  | case1 => simp at h
  | case2 look d cs kind rest htoken _ ih =>
    obtain ⟨taken, rfl⟩ := Segment.token?_suffix htoken
    rw [codeAfter_of_token htoken] at h ⊢
    obtain ⟨⟨inner, c'⟩, hq, heq⟩ := List.mem_map.mp h
    obtain ⟨hplace, hchar⟩ := Placed.mk.inj heq
    dsimp only at hplace hchar
    subst hplace hchar
    obtain ⟨front, last, hfront, hcode⟩ := ih hq
    refine ⟨front.map (Placed.shift (taken.length + 1)), last, fun p hp => ?_, ?_⟩
    · obtain ⟨q, hq, rfl⟩ := List.mem_map.mp hp
      exact Nat.add_lt_add_left (hfront q hq) _
    · have hdrop : (d :: (taken ++ rest)).drop (taken.length + 1 + inner + 1) =
          rest.drop (inner + 1) := by
        rw [Nat.add_assoc, Nat.add_right_comm, List.drop_succ_cons, List.drop_length_add_append]
      rw [hcode, hdrop, List.map_append, List.map_cons, map_shift_map_shift, ← Nat.add_assoc]
      rfl
  | case3 look d cs htoken ih =>
    rw [codeAfter_of_none htoken] at h ⊢
    rcases List.mem_cons.mp h with heq | h
    · obtain ⟨rfl, rfl⟩ := Placed.mk.inj heq
      exact ⟨[], look, by simp, rfl⟩
    · obtain ⟨⟨inner, c'⟩, hq, heq⟩ := List.mem_map.mp h
      obtain ⟨hplace, hchar⟩ := Placed.mk.inj heq
      dsimp only at hplace hchar
      subst hplace hchar
      obtain ⟨front, last, hfront, hcode⟩ := ih hq
      refine ⟨⟨0, d⟩ :: front.map (Placed.shift 1), last, fun p hp => ?_, ?_⟩
      · rcases List.mem_cons.mp hp with rfl | hp
        · exact Nat.lt_of_lt_of_le Nat.zero_lt_one (Nat.le_add_right 1 inner)
        · obtain ⟨q, hq, rfl⟩ := List.mem_map.mp hp
          exact Nat.add_lt_add_left (hfront q hq) 1
      · rw [hcode, List.map_append, List.map_cons, map_shift_map_shift, ← Nat.add_assoc,
          Nat.add_comm 1 inner, List.drop_succ_cons, Nat.add_comm inner 1]
        rfl

/-! ## Marks -/

/-- Characters of code that belong to no identifier and open no comment and no literal. -/
def isMark (c : Char) : Bool :=
  !isBlank c && !Segment.isIdentifierChar c && !Segment.openers.contains c

theorem not_mem_openers_of_isMark {c : Char} (h : isMark c = true) : c ∉ Segment.openers := by
  obtain ⟨-, hopener⟩ := Bool.and_eq_true_iff.mp h
  intro hmem
  rw [List.contains_iff_mem.mpr hmem] at hopener
  cases hopener

/-- Closing brackets are marks. -/
theorem isMark_of_isClosing {c : Char} (h : isClosing c = true) : isMark c = true := by
  have hall : ∀ c ∈ [')', ']', '\x7d'], isMark c = true := by decide +kernel
  refine hall c ?_
  simp only [isClosing, Bool.or_eq_true, beq_iff_eq] at h
  rcases h with (rfl | rfl) | rfl
  all_goals decide

theorem isBlank_of_isMark {c : Char} (h : isMark c = true) : isBlank c = false := by
  obtain ⟨h, -⟩ := Bool.and_eq_true_iff.mp h
  obtain ⟨hblank, -⟩ := Bool.and_eq_true_iff.mp h
  exact (Bool.not_eq_true' _).mp hblank

theorem afterCode_of_isMark {c : Char} (h : isMark c = true) (look : Segment.Lookback) :
    look.afterCode c = .mark c := by
  obtain ⟨h, -⟩ := Bool.and_eq_true_iff.mp h
  obtain ⟨hblank, hword⟩ := Bool.and_eq_true_iff.mp h
  rw [Bool.not_eq_true'] at hblank hword
  unfold Segment.Lookback.afterCode
  rw [if_neg (Bool.eq_false_iff.mp hblank), if_neg (Bool.eq_false_iff.mp hword)]

/-- A mark is code, and what is before it does not count for what follows it. -/
theorem codeAfter_of_isMark {c : Char} (h : isMark c = true) (look : Segment.Lookback)
    (cs : List Char) :
    codeAfter look (c :: cs) =
      ⟨0, c⟩ :: (codeAfter (.mark c) cs).map (Placed.shift 1) := by
  rw [codeAfter_of_none (Segment.token?_eq_none (not_mem_openers_of_isMark h) look cs),
    afterCode_of_isMark h]

/-! ## Where an expression may start -/

/-- Whether an expression may start, with no word before it: at the start of a snippet or after one
of the marks that open an expression. -/
def Segment.Lookback.isFresh : Segment.Lookback → Bool
  | .start => true
  | .mark c => openingMarks.contains c
  | _ => false

namespace Segment

theorem Lookback.allowsRegex_of_isFresh (h : look.isFresh = true) : look.allowsRegex = true := by
  cases look with
  | start => rfl
  | mark c => exact h
  | literal | word => cases h

theorem Lookback.afterGap_of_isFresh (h : look.isFresh = true) : look.afterGap = look := by
  cases look with
  | start | mark => rfl
  | literal | word => cases h

/-- Nothing is left of what was before once a word or a mark has been read. -/
theorem Lookback.afterCode_of_isFresh (h : look.isFresh = true) {c : Char}
    (hblank : ¬isBlank c = true) :
    look.afterCode c = if isIdentifierChar c then .word [c] true else .mark c := by
  unfold Lookback.afterCode
  rw [if_neg hblank]
  split
  · cases look with
    | start | mark => rfl
    | literal | word => cases h
  · rfl

theorem Lookback.afterCode_of_isBlank (h : look.isFresh = true) {c : Char}
    (hblank : isBlank c = true) : look.afterCode c = look := by
  unfold Lookback.afterCode
  rw [if_pos hblank, afterGap_of_isFresh h]

/-- Wherever an expression may start, a text is divided alike. -/
theorem splitAfter_congr (h : look.isFresh = true) (h' : look'.isFresh = true) (text : List Char) :
    splitAfter look text = splitAfter look' text := by
  fun_induction splitAfter look text with
  | case1 => rw [splitAfter]
  | case2 look c cs kind rest htoken _ ih =>
    obtain ⟨taken, rfl⟩ := token?_suffix htoken
    have htoken' : token? look' c (taken ++ rest) = some (kind, rest) := by
      rw [← htoken, token?, token?, Lookback.allowsRegex_of_isFresh h,
        Lookback.allowsRegex_of_isFresh h']
    rw [splitAfter_token htoken']
    have hafter : splitAfter (look.afterToken kind) rest = splitAfter (look'.afterToken kind) rest := by
      by_cases hliteral : kind.isLiteral = true
      · rw [Lookback.afterToken, Lookback.afterToken, if_pos hliteral, if_pos hliteral]
      · -- A comment changes nothing.
        rw [Lookback.afterToken, if_neg hliteral, Lookback.afterGap_of_isFresh h] at ih ⊢
        rw [Lookback.afterToken, if_neg hliteral, Lookback.afterGap_of_isFresh h']
        exact ih h
    rw [hafter]
    simp
  | case3 look c cs htoken ih =>
    have htoken' : token? look' c cs = none := by
      rw [← htoken, token?, token?, Lookback.allowsRegex_of_isFresh h,
        Lookback.allowsRegex_of_isFresh h']
    rw [splitAfter_of_none htoken']
    congr 1
    by_cases hblank : isBlank c = true
    · rw [Lookback.afterCode_of_isBlank h hblank] at ih ⊢
      rw [Lookback.afterCode_of_isBlank h' hblank]
      exact ih h
    · rw [Lookback.afterCode_of_isFresh h hblank, Lookback.afterCode_of_isFresh h' hblank]

end Segment

theorem codeAfter_congr (h : look.isFresh = true) (h' : look'.isFresh = true) (text : List Char) :
    codeAfter look text = codeAfter look' text := by
  rw [codeAfter, codeAfter, Segment.splitAfter_congr h h']

/-! ## Self-contained texts -/

/-- A list is divided in one way at a member that has no other before it. -/
theorem append_cons_inj {α : Type} {u u' v v' : List α} {a : α} (hu : a ∉ u) (hu' : a ∉ u')
    (h : u ++ a :: v = u' ++ a :: v') : u = u' ∧ v = v' := by
  have hfirst : ∀ {u u' v v' : List α}, a ∉ u' → (∃ w, u' = u ++ w ∧ a :: v = w ++ a :: v') →
      u = u' ∧ v = v' := by
    rintro u _ v v' hu' ⟨w, rfl, hw⟩
    cases w with
    | nil => exact ⟨(List.append_nil u).symm, (List.cons.inj hw).2⟩
    | cons b w =>
      obtain rfl := (List.cons.inj hw).1
      exact absurd (List.mem_append_right u (.head w)) hu'
  rcases List.append_eq_append_iff.mp h with hlonger | hlonger
  · exact hfirst hu' hlonger
  · obtain ⟨hfront, hback⟩ := hfirst hu hlonger
    exact ⟨hfront.symm, hback.symm⟩

/-- A text after other code is read in one way, whatever follows that starts with one of some
characters: `known` is its code, and `last` tells about a `/` after it. -/
def Reads (may : Char → Bool) (look : Segment.Lookback) (text : List Char) (known : List Placed)
    (last : Segment.Lookback) : Prop :=
  ∀ after, (∀ c ∈ after.head?, may c = true) →
    codeAfter look (text ++ after) =
      known ++ (codeAfter last after).map (Placed.shift text.length)

/-- Any character. -/
def anything (_ : Char) : Bool := true

/-- A text is self-contained if it is read in one way, whatever follows that starts with one of some
characters. -/
def SelfContained (may : Char → Bool) (text : List Char) : Prop :=
  ∃ known last, Reads may .start text known last

namespace Reads

theorem eq_codeAfter (h : Reads may look text known last) : known = codeAfter look text := by
  have hread := h [] (by simp)
  rw [List.append_nil, codeAfter_nil, List.map_nil, List.append_nil] at hread
  exact hread.symm

theorem mono (h : Reads may look text known last) (hmay : ∀ c, may' c = true → may c = true) :
    Reads may' look text known last :=
  fun after hafter => h after fun c hc => hmay c (hafter c hc)

theorem nil (may : Char → Bool) (look : Segment.Lookback) : Reads may look [] [] look := by
  intro after _
  simp

theorem congr (h : Reads may look text known last) (hlook : look.isFresh = true)
    (hlook' : look'.isFresh = true) : Reads may look' text known last := by
  intro after hafter
  rw [codeAfter_congr hlook' hlook, h after hafter]

/-- A text that follows another one. -/
theorem append {more : List Char} (h : Reads may look text known last)
    (h' : Reads may' last more known' last')
    (hmay : ∀ after : List Char, (∀ c ∈ after.head?, may' c = true) →
      ∀ c ∈ (more ++ after).head?, may c = true) :
    Reads may' look (text ++ more) (known ++ known'.map (Placed.shift text.length)) last' := by
  intro after hafter
  rw [List.append_assoc, h (more ++ after) (hmay after hafter), h' after hafter, List.map_append,
    map_shift_map_shift, List.append_assoc, List.length_append]

/-- A character that opens no comment and no literal, before a text. -/
theorem cons {c : Char} (hc : c ∉ Segment.openers)
    (h : Reads may (look.afterCode c) text known last) :
    Reads may look (c :: text) (⟨0, c⟩ :: known.map (Placed.shift 1)) last := by
  intro after hafter
  rw [List.cons_append, codeAfter_of_none (Segment.token?_eq_none hc look _), h after hafter,
    List.map_append, map_shift_map_shift, List.length_cons, Nat.add_comm text.length]
  rfl

/-- A text without quotes and slashes. -/
theorem of_plain (h : ∀ c ∈ text, c ∉ Segment.openers) (look : Segment.Lookback) :
    Reads anything look text (placedFrom 0 text)
      (text.foldl (fun look c => look.afterCode c) look) := by
  induction text generalizing look with
  | nil => exact nil anything look
  | cons c cs ih =>
    obtain ⟨hc, hcs⟩ := List.forall_mem_cons.mp h
    rw [placedFrom, List.foldl_cons, Nat.zero_add, ← Nat.add_zero 1, placedFrom_add]
    exact cons hc (ih hcs (look.afterCode c))

/-- A mark, after which nothing is left of what was before. -/
theorem of_isMark {c : Char} (hc : isMark c = true) (look : Segment.Lookback) :
    Reads anything look [c] [⟨0, c⟩] (.mark c) :=
  fun after _ => codeAfter_of_isMark hc look after

/-- Blanks, where an expression may start. -/
theorem of_blank (h : ∀ c ∈ text, isBlank c = true) (hlook : look.isFresh = true) :
    Reads anything look text (placedFrom 0 text) look := by
  have hread := of_plain (fun c hc => Segment.not_mem_openers_of_isBlank (h c hc)) look
  have hlast : text.foldl (fun look c => look.afterCode c) look = look := by
    clear hread
    induction text with
    | nil => rfl
    | cons c cs ih =>
      obtain ⟨hc, hcs⟩ := List.forall_mem_cons.mp h
      rw [List.foldl_cons, Segment.Lookback.afterCode_of_isBlank hlook hc, ih hcs]
  rwa [hlast] at hread

/-- A mark after which an expression may start, and a blank. -/
theorem of_opening {c : Char} (hc : isMark c = true)
    (hfresh : (Segment.Lookback.mark c).isFresh = true) (look : Segment.Lookback) :
    Reads anything look [c, ' '] [⟨0, c⟩, ⟨1, ' '⟩] (.mark c) := by
  have hblank := cons (c := ' ') (by decide) (nil anything ((Segment.Lookback.mark c).afterCode ' '))
  rw [Segment.Lookback.afterCode_of_isBlank hfresh (by decide)] at hblank
  exact (of_isMark hc look).append hblank fun _ _ _ _ => rfl

/-- A known start of a snippet. -/
theorem of_known {fuel : Nat} (h : codeOfKnown fuel look 0 text = some (known, last)) :
    Reads anything look text known last := by
  intro after _
  rw [codeAfter, codeOfSegments_of_known h, codeOfSegments_splitAfter, Nat.zero_add]

/-- A comment that is closed, or a literal. -/
theorem of_isToken {s : Segment} (h : Segment.IsToken s) (hcode : s.kind ≠ .code)
    (hline : s.kind ≠ .lineComment) (look : Segment.Lookback) :
    Reads anything look s.text [] (look.afterToken s.kind) := by
  intro after _
  have hkind : (s.kind == .code) = false := by simpa using hcode
  rw [codeAfter, Segment.splitAfter_isToken h hcode (fun h' => absurd h' hline), codeOfSegments,
    hkind, if_neg (by simp), codeOfSegments_splitAfter, Nat.zero_add]

/-- What is behind a mark of a text that is read in one way is read in one way as well. -/
theorem of_mem {before : List Char} {c : Char}
    (h : Reads may look (before ++ c :: text) known last) (hc : isMark c = true)
    (hmem : ⟨before.length, c⟩ ∈ known) :
    Reads may (.mark c) text (codeAfter (.mark c) text) last ∧
      ∃ front, (∀ p ∈ front, p.place < before.length) ∧
        known = front ++ (⟨before.length, c⟩ ::
          (codeAfter (.mark c) text).map (Placed.shift (before.length + 1))) := by
  -- For every text that follows, the code is divided at the mark, and the mark occurs once in it.
  have hdivide : ∀ after, (∀ d ∈ after.head?, may d = true) → ∃ front,
      (∀ p ∈ front, p.place < before.length) ∧
      known ++ (codeAfter last after).map (Placed.shift (before.length + (text.length + 1))) =
        front ++ (⟨before.length, c⟩ :: (codeAfter (.mark c) (text ++ after)).map
          (Placed.shift (before.length + 1))) := by
    intro after hafter
    have hread := h after hafter
    rw [List.length_append, List.length_cons] at hread
    have hmem' : ⟨before.length, c⟩ ∈ codeAfter look (before ++ c :: text ++ after) := by
      rw [hread]
      exact List.mem_append_left _ hmem
    obtain ⟨front, last', hfront, hcode⟩ := exists_of_mem_codeAfter hmem'
    have hdrop : (before ++ c :: text ++ after).drop (before.length + 1) = text ++ after := by
      rw [List.append_assoc, List.drop_length_add_append]
      rfl
    rw [afterCode_of_isMark hc, hdrop, hread] at hcode
    exact ⟨front, hfront, hcode⟩
  obtain ⟨front, hfront, hknown⟩ := hdivide [] (by simp)
  rw [codeAfter_nil, List.map_nil, List.append_nil, List.append_nil] at hknown
  refine ⟨fun after hafter => ?_, front, hfront, hknown⟩
  obtain ⟨front', hfront', heq⟩ := hdivide after hafter
  have hnot : ∀ {front : List Placed}, (∀ p ∈ front, p.place < before.length) →
      (⟨before.length, c⟩ : Placed) ∉ front :=
    fun hfront hmem => Nat.lt_irrefl _ (hfront _ hmem)
  rw [hknown, List.append_assoc, List.cons_append] at heq
  obtain ⟨-, heq⟩ := append_cons_inj (hnot hfront) (hnot hfront') heq
  refine List.map_injective_iff.mpr (Placed.shift_injective (before.length + 1)) ?_
  rw [← heq, List.map_append, map_shift_map_shift, Nat.add_assoc, Nat.add_comm 1]

end Reads

theorem SelfContained.mono (h : SelfContained may text) (hmay : ∀ c, may' c = true → may c = true) :
    SelfContained may' text := by
  obtain ⟨known, last, hread⟩ := h
  exact ⟨known, last, hread.mono hmay⟩

/-- A text without quotes and slashes is self-contained. -/
theorem selfContained_of_plain (h : ∀ c ∈ text, c ∉ Segment.openers) :
    SelfContained anything text :=
  ⟨_, _, Reads.of_plain h .start⟩

/-- A comment that is closed, or a literal, is self-contained. -/
theorem selfContained_of_isToken {s : Segment} (h : Segment.IsToken s) (hcode : s.kind ≠ .code)
    (hline : s.kind ≠ .lineComment) : SelfContained anything s.text :=
  ⟨_, _, Reads.of_isToken h hcode hline .start⟩

/-! ## Arguments -/

/-- What may stand after an argument: a blank, a comma or a closing bracket. -/
def separates (c : Char) : Bool := isBlank c || c == ',' || isClosing c

/-- A self-contained text with balanced code, so that it can be an argument. -/
structure Enclosed (text : List Char) : Prop where
  selfContained : SelfContained separates text
  balanced : Balanced (codeText text)

/-- An argument stands after a parenthesis or a comma. -/
theorem isMark_of_separator {c : Char} (h : c ∈ ['(', ',']) :
    isMark c = true ∧ (Segment.Lookback.mark c).isFresh = true := by
  have hall : ∀ c ∈ ['(', ','], isMark c = true ∧ (Segment.Lookback.mark c).isFresh = true := by
    decide +kernel
  exact hall c h

/-- The mark after an argument. -/
theorem separates_of_mark {c : Char} (h : c = ',' ∨ isClosing c = true) :
    isMark c = true ∧ separates c = true := by
  rcases h with rfl | hclosing
  · decide +kernel
  · exact ⟨isMark_of_isClosing hclosing, by rw [separates, hclosing, Bool.or_true]⟩

/-- The blanks between an argument and the mark after it. -/
theorem Stands.takeWhile_isBlank {source : List Char} {left right : Placed} {start stop : Nat}
    (h : Stands source left right start stop) (hright : isMark right.char = true) :
    (source.drop stop).takeWhile isBlank = Region.slice source stop right.place := by
  obtain ⟨hstop, hafter⟩ := h.blank_after
  rw [← Region.slice_append_drop hstop, drop_of_mem_codeChars h.right_mem,
    List.takeWhile_append_of_pos hafter, List.takeWhile_cons_of_neg, List.append_nil]
  rw [isBlank_of_isMark hright]
  exact Bool.false_ne_true

/-- The reading of an argument wherever an expression may start. -/
theorem Enclosed.exists_reads {text : List Char} (h : Enclosed text) (look : Segment.Lookback)
    (hlook : look.isFresh = true) :
    ∃ known last, Reads separates look text known last ∧ Balanced (known.map Placed.char) := by
  obtain ⟨known, last, hread⟩ := h.selfContained
  refine ⟨known, last, hread.congr rfl hlook, ?_⟩
  rw [hread.eq_codeAfter]
  exact h.balanced

theorem enclosed_of_reads {text : List Char} {known : List Placed} {last : Segment.Lookback}
    (h : Reads separates .start text known last) (hbalanced : Balanced (known.map Placed.char)) :
    Enclosed text where
  selfContained := ⟨known, last, h⟩
  balanced := by
    rw [h.eq_codeAfter] at hbalanced
    exact hbalanced

theorem enclosed_nil : Enclosed [] := enclosed_of_reads (Reads.nil _ _) rfl

/-! ## Reading on in a snippet -/

variable {source : List Char}

/-- At a place of a snippet it can be read on: what follows is the code that it has there, and it is
read in one way up to every place before which the snippet is self-contained. -/
structure Resumes (source : List Char) (look : Segment.Lookback) (start : Nat) : Prop where
  code : ∃ front, (∀ p ∈ front, p.place < start) ∧
    codeChars source = front ++ (codeAfter look (source.drop start)).map (Placed.shift start)
  opens : ∀ stop, start ≤ stop → stop ≤ source.length → SelfContained anything (source.take stop) →
    ∃ known last, Reads anything look (Region.slice source start stop) known last

theorem resumes_start (source : List Char) : Resumes source .start 0 where
  code := ⟨[], by simp, by rw [map_shift_zero]; rfl⟩
  opens := fun _ _ _ hself => hself

/-- Behind a mark a snippet is read anew. -/
theorem resumes_behind {p : Placed} (h : p ∈ codeChars source) (hmark : isMark p.char = true) :
    Resumes source (.mark p.char) (p.place + 1) where
  code := by
    have hmem : p ∈ codeAfter .start source := h
    obtain ⟨front, last, hfront, hcode⟩ := exists_of_mem_codeAfter hmem
    rw [afterCode_of_isMark hmark] at hcode
    refine ⟨front ++ [p], fun q hq => ?_, ?_⟩
    · rcases List.mem_append.mp hq with hq | hq
      · exact Nat.lt_succ_of_lt (hfront q hq)
      · rw [List.mem_singleton.mp hq]
        exact Nat.lt_succ_self _
    · rw [codeChars_eq_codeAfter, hcode, List.append_assoc]
      rfl
  opens := by
    intro stop hstart hstop ⟨known, last, hread⟩
    have hplace := place_lt_of_mem_codeChars h
    have htake : source.take stop =
        source.take p.place ++ p.char :: Region.slice source (p.place + 1) stop := by
      rw [← Region.slice_cons h hstart]
      exact (Region.slice_append_slice (Nat.zero_le _) (Nat.le_of_succ_le hstart)).symm
    have hmem : ⟨(source.take p.place).length, p.char⟩ ∈ known := by
      have hcode := hread (source.drop stop) (fun _ _ => rfl)
      rw [List.take_append_drop, ← codeChars_eq_codeAfter] at hcode
      rw [hcode] at h
      rw [List.length_take, Nat.min_eq_left (Nat.le_of_lt hplace)]
      rcases List.mem_append.mp h with h | h
      · exact h
      · obtain ⟨q, -, rfl⟩ := List.mem_map.mp h
        rw [Placed.shift_place, List.length_take] at hstart
        omega
    rw [htake] at hread
    exact ⟨_, last, (hread.of_mem hmark hmem).1⟩

/-- At a mark a snippet is read anew, whatever was before. -/
theorem resumes_at {p : Placed} (h : p ∈ codeChars source) (hmark : isMark p.char = true)
    (look : Segment.Lookback) : Resumes source look p.place where
  code := by
    have hmem : p ∈ codeAfter .start source := h
    obtain ⟨front, last, hfront, hcode⟩ := exists_of_mem_codeAfter hmem
    refine ⟨front, hfront, ?_⟩
    rw [codeChars_eq_codeAfter, hcode, afterCode_of_isMark hmark, drop_of_mem_codeChars h,
      codeAfter_of_isMark hmark, List.map_cons, map_shift_map_shift]
    rfl
  opens := by
    intro stop hstart hstop hself
    rcases Nat.eq_or_lt_of_le hstart with rfl | hlt
    · rw [Region.slice_self]
      exact ⟨[], look, Reads.nil _ _⟩
    · obtain ⟨known, last, hread⟩ := (resumes_behind h hmark).opens stop hlt hstop hself
      rw [Region.slice_cons h hlt]
      exact ⟨_, last, (Reads.of_isMark hmark look).append hread fun _ _ _ _ => rfl⟩

/-- The code of a snippet from a place on. -/
theorem Resumes.mem {start : Nat} {p : Placed} (h : Resumes source look start)
    (hp : p ∈ codeChars source) (hle : start ≤ p.place) :
    ⟨p.place - start, p.char⟩ ∈ codeAfter look (source.drop start) := by
  obtain ⟨front, hfront, hcode⟩ := h.code
  rw [hcode] at hp
  rcases List.mem_append.mp hp with hp | hp
  · exact absurd (hfront p hp) (Nat.not_lt.mpr hle)
  · obtain ⟨q, hq, rfl⟩ := List.mem_map.mp hp
    rw [Placed.shift_place, Nat.add_sub_cancel_left]
    exact hq

/-- Up to a mark, the code is that of the snippet there, and it is read anew from the mark on. -/
theorem Resumes.exists_upTo {start : Nat} {right : Placed} (h : Resumes source look start)
    (hright : right ∈ codeChars source) (hmark : isMark right.char = true)
    (hle : start ≤ right.place) (last : Segment.Lookback) :
    ∃ middle, middle.map Placed.char = codeBetween source start right.place ∧
      codeAfter look (source.drop start) = middle ++
        (codeAfter last (source.drop right.place)).map (Placed.shift (right.place - start)) := by
  obtain ⟨front, hfront, hcode⟩ := h.code
  obtain ⟨middle, last', hmiddle, hdivide⟩ := exists_of_mem_codeAfter (h.mem hright hle)
  have hdrop : (source.drop start).drop (right.place - start + 1) =
      source.drop (right.place + 1) := by
    rw [List.drop_drop]
    congr 1
    omega
  have htail : ⟨right.place - start, right.char⟩ ::
      (codeAfter (.mark right.char) (source.drop (right.place + 1))).map
        (Placed.shift (right.place - start + 1)) =
      (codeAfter last (source.drop right.place)).map (Placed.shift (right.place - start)) := by
    rw [drop_of_mem_codeChars hright, codeAfter_of_isMark hmark, List.map_cons,
      map_shift_map_shift]
    rfl
  rw [afterCode_of_isMark hmark, hdrop, htail] at hdivide
  refine ⟨middle, ?_, hdivide⟩
  rw [hdivide, List.map_append] at hcode
  rw [← map_char_shift start middle]
  refine (codeBetween_of_eq hcode hfront (fun p hp => ?_) fun p hp => ?_).symm
  · obtain ⟨q, hq, rfl⟩ := List.mem_map.mp hp
    have hlt := hmiddle q hq
    rw [Placed.shift_place]
    omega
  · rw [map_shift_map_shift] at hp
    obtain ⟨q, -, rfl⟩ := List.mem_map.mp hp
    rw [Placed.shift_place]
    omega

/-- The code between a place where a snippet can be read on and a mark. -/
theorem Resumes.codeBetween_eq {start : Nat} {mark : Placed} {front : List Placed}
    (h : Resumes source look start) (hmem : mark ∈ codeChars source)
    (hmark : isMark mark.char = true) (hle : start ≤ mark.place)
    (hcode : codeAfter look (source.drop start) = front ++ ⟨mark.place - start, mark.char⟩ ::
      (codeAfter (.mark mark.char) (source.drop (mark.place + 1))).map
        (Placed.shift (mark.place - start + 1))) :
    codeBetween source start mark.place = front.map Placed.char := by
  obtain ⟨middle, hmiddle, hmore⟩ := h.exists_upTo hmem hmark hle .start
  rw [drop_of_mem_codeChars hmem, codeAfter_of_isMark hmark, List.map_cons,
    map_shift_map_shift] at hmore
  rw [← hmiddle, List.append_cancel_right (hmore.symm.trans hcode)]

/-- Behind a mark up to which a snippet is self-contained, texts are read anew. -/
theorem Resumes.exists_behind {start stop : Nat} {left : Placed} (h : Resumes source look start)
    (hleft : left ∈ codeChars source) (hmark : isMark left.char = true)
    (hle : start ≤ left.place) (hstop : left.place + 1 ≤ stop) (hlength : stop ≤ source.length)
    (hself : SelfContained anything (source.take stop)) :
    ∃ front, ∀ after, codeAfter look (Region.slice source start stop ++ after) = front ++
      ⟨left.place - start, left.char⟩ ::
        (codeAfter (.mark left.char) (Region.slice source (left.place + 1) stop ++ after)).map
          (Placed.shift (left.place - start + 1)) := by
  obtain ⟨known, last, hread⟩ := h.opens stop (by omega) hlength hself
  have hslice : Region.slice source start stop = Region.slice source start left.place ++
      left.char :: Region.slice source (left.place + 1) stop := by
    rw [← Region.slice_cons hleft hstop, Region.slice_append_slice hle (Nat.le_of_succ_le hstop)]
  have hstart : (Region.slice source start left.place).length = left.place - start := by
    rw [Region.slice, List.length_take, List.length_drop]
    omega
  have hmem : ⟨(Region.slice source start left.place).length, left.char⟩ ∈ known := by
    have hcode := h.mem hleft hle
    rw [← Region.slice_append_drop (Nat.le_trans hle (Nat.le_of_succ_le hstop)),
      hread _ fun _ _ => rfl] at hcode
    rcases List.mem_append.mp hcode with hcode | hcode
    · rw [hstart]
      exact hcode
    · obtain ⟨q, -, heq⟩ := List.mem_map.mp hcode
      have hplace := congrArg Placed.place heq
      rw [Placed.shift_place, hslice, List.length_append, hstart] at hplace
      dsimp only [List.length_cons] at hplace
      omega
  rw [hslice] at hread
  obtain ⟨hgap, front, -, hknown⟩ := hread.of_mem hmark hmem
  refine ⟨front, fun after => ?_⟩
  rw [hslice, hread after fun _ _ => rfl, hgap after fun _ _ => rfl, hknown, hstart]
  simp only [List.append_assoc, List.cons_append, List.map_append, map_shift_map_shift,
    List.length_append, List.length_cons, hstart]
  congr 5
  omega

/-! ## Calls behind a text -/

theorem commasIn?_map_shift (depth : Int) (code : List Placed) (n : Nat) :
    commasIn? depth (code.map (Placed.shift n)) =
      (commasIn? depth code).map fun (commas, close) => (commas.map (n + ·), n + close) := by
  fun_induction commasIn? depth code with
  | case1 => rfl
  | case2 depth p rest hopening ih => rw [List.map_cons, commasIn?, Placed.shift_char, if_pos hopening, ih]
  | case3 depth p rest hopening hclosing hzero =>
    rw [List.map_cons, commasIn?, Placed.shift_char, if_neg hopening, if_pos hclosing, if_pos hzero]
    rfl
  | case4 depth p rest hopening hclosing hzero ih =>
    rw [List.map_cons, commasIn?, Placed.shift_char, if_neg hopening, if_pos hclosing, if_neg hzero, ih]
  | case5 depth p rest hopening hclosing hcomma ih =>
    rw [List.map_cons, commasIn?, Placed.shift_char, if_neg hopening, if_neg hclosing, if_pos hcomma, ih,
      Option.map_map, Option.map_map]
    rfl
  | case6 depth p rest hopening hclosing hcomma ih =>
    rw [List.map_cons, commasIn?, Placed.shift_char, if_neg hopening, if_neg hclosing, if_neg hcomma, ih]

/-- A call that is not closed is not closed behind another text either, if an expression may start
there. -/
theorem argumentSpans?_behind {lead body : List Char} {place : Nat}
    (hlead : Reads anything .start lead known last) (hlast : last.isFresh = true)
    (h : argumentSpans? body (codeChars body) place = none) :
    argumentSpans? (lead ++ body) (codeChars (lead ++ body)) ((lead.length + place : Nat) : Int) =
      none := by
  have hbefore : ∀ p ∈ known,
      decide ((p.place : Int) < (lead.length + place : Nat)) = true := by
    intro p hp
    rw [hlead.eq_codeAfter] at hp
    have hlt := place_lt_of_mem_codeAfter hp
    simp only [decide_eq_true_eq]
    omega
  have hshift : (fun p => decide ((p.place : Int) < (lead.length + place : Nat))) ∘
      Placed.shift lead.length = fun p => decide ((p.place : Int) < place) := by
    funext p
    refine decide_eq_decide.mpr ?_
    rw [Placed.shift_place]
    omega
  rw [argumentSpans?, Option.map_eq_none_iff] at h ⊢
  have hstart : Segment.Lookback.isFresh .start = true := rfl
  rw [codeChars_eq_codeAfter, hlead body fun _ _ => rfl, codeAfter_congr hlast hstart,
    List.dropWhile_append_of_pos hbefore, List.dropWhile_map, hshift, commasIn?_map_shift,
    ← codeChars_eq_codeAfter, h, Option.map_none]

end GuestCode
