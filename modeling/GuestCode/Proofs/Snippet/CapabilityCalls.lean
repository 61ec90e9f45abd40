import GuestCode.Proofs.Snippet.CodeRuns
import GuestCode.Proofs.Text.Language
import GuestCode.Snippet.Names

/-!
# Where a snippet calls its capabilities

A call on a capability has a place in the redacted view: the name of the capability starts there and
belongs to no other name or object, and a dot, the name of a method and a parenthesis come after it.
The calls that are read off a snippet are these, in their order. No call starts inside another one,
so none is passed over as long as the capabilities are named by identifiers.

## Main statements

* `exists_placed_capabilityCalls`: where the calls stand that are read off a snippet, and that they
  are all there are.
* `exists_callSite_of_capabilityCalls`: where one call stands, and which calls stand before it.
-/

namespace GuestCode

open Text Text.Pattern Grammar

/-! ## The text of a call -/

/-- The dot between a capability and a method, which may have a question mark, with the blanks
around it. -/
def IsDot (dot : List Char) : Prop :=
  ∃ gap mark gap' : List Char, dot = gap ++ (mark ++ '.' :: gap') ∧
    (∀ c ∈ gap, isBlank c = true) ∧ (mark = [] ∨ mark = ['?']) ∧ ∀ c ∈ gap', isBlank c = true

/-- The opening of the arguments, with the blanks before it. -/
def OpensArguments (text : List Char) : Prop :=
  ∃ gap after : List Char, text = gap ++ '(' :: after ∧ ∀ c ∈ gap, isBlank c = true

/-- A text that starts with a call of a method of a capability. -/
def StartsCall (capability method text : List Char) : Prop :=
  ∃ dot arguments, text = capability ++ (dot ++ (method ++ arguments)) ∧ IsDot dot ∧
    isIdentifier method = true ∧ OpensArguments arguments

/-- A place of a text where a method of a capability is called: the name of the capability starts
there, and is neither the end of another name nor a member of an object. -/
structure CallSite (text : List Char) (place : Nat) (capability method : List Char) : Prop where
  free : (text.take place).getLast?.any (fun c => isNameChar c || c == '.') = false
  starts : StartsCall capability method (text.drop place)

section Names

variable {c : Char} {name : List Char}

theorem isNameChar_of_isBlank (h : isBlank c = true) : isNameChar c = false :=
  Segment.eq_false_of_isBlank (by decide +kernel) h

theorem isNameChar_of_isNameStart (h : isNameStart c = true) : isNameChar c = true := by
  simp only [isNameStart, Bool.or_eq_true, beq_iff_eq] at h
  rcases h with (h | rfl) | rfl
  · have hword : isWordChar c = true := by
      have halphanum : c.isAlphanum = true := (Bool.or_eq_true c.isAlpha c.isDigit).mpr (.inl h)
      have hcode : c.toNat < 128 := Nat.lt_trans (toNat_lt_of_isAlphanum halphanum) (by decide)
      simp [isWordChar, isLetterOrNumeral, hcode, halphanum]
    rw [isNameChar, hword, Bool.true_or]
  · decide
  · decide

theorem exists_of_isIdentifier (h : isIdentifier name = true) :
    ∃ c cs, name = c :: cs ∧ isNameStart c = true := by
  cases name with
  | nil => cases h
  | cons c cs => exact ⟨c, cs, rfl, (Bool.and_eq_true_iff.mp h).1⟩

theorem isNameChar_of_isIdentifier (h : isIdentifier name = true) :
    ∀ c ∈ name, isNameChar c = true := by
  cases name with
  | nil => cases h
  | cons c cs =>
    obtain ⟨hc, hcs⟩ := Bool.and_eq_true_iff.mp h
    exact List.forall_mem_cons.mpr ⟨isNameChar_of_isNameStart hc, List.all_eq_true.mp hcs⟩

theorem takes_identifier : identifier.Takes name ↔ isIdentifier name = true := by
  rw [identifier, Takes]
  simp only [Pattern.star, takes_many_char]
  constructor
  · rintro ⟨u, v, rfl, ⟨c, hc, rfl⟩, hv⟩
    exact Bool.and_eq_true_iff.mpr ⟨hc, List.all_eq_true.mpr hv⟩
  · intro h
    cases name with
    | nil => cases h
    | cons c cs =>
      obtain ⟨hc, hcs⟩ := Bool.and_eq_true_iff.mp h
      exact ⟨[c], cs, rfl, ⟨c, hc, rfl⟩, List.all_eq_true.mp hcs⟩

end Names

/-- A text is divided in one way after a run of characters of one class. -/
theorem run_append_inj {p : Char → Bool} {u u' v v' : List Char} (hu : ∀ c ∈ u, p c = true)
    (hu' : ∀ c ∈ u', p c = true) (hv : v.head?.any p = false) (hv' : v'.head?.any p = false)
    (h : u ++ v = u' ++ v') : u = u' ∧ v = v' := by
  have hrun : ∀ {u v : List Char}, (∀ c ∈ u, p c = true) → v.head?.any p = false →
      (u ++ v).takeWhile p = u := by
    intro u v hu hv
    rw [List.takeWhile_append_of_pos hu]
    cases v with
    | nil => exact List.append_nil u
    | cons c cs => rw [List.takeWhile_cons_of_neg (by simpa using hv), List.append_nil]
  have hfront : u = u' := by rw [← hrun hu hv, h, hrun hu' hv']
  subst hfront
  exact ⟨rfl, List.append_cancel_left h⟩

namespace IsDot

variable {dot rest : List Char}

theorem isNameChar_eq (h : IsDot dot) : ∀ c ∈ dot, isNameChar c = false := by
  obtain ⟨gap, mark, gap', rfl, hgap, hmark, hgap'⟩ := h
  simp only [List.mem_append, List.mem_cons]
  rintro c (hc | hc | rfl | hc)
  · exact isNameChar_of_isBlank (hgap c hc)
  · rcases hmark with rfl | rfl
    · cases hc
    · obtain rfl := List.mem_singleton.mp hc
      decide
  · decide
  · exact isNameChar_of_isBlank (hgap' c hc)

theorem any_head? (h : IsDot dot) : (dot ++ rest).head?.any isNameChar = false := by
  have hclass := h.isNameChar_eq
  obtain ⟨gap, mark, gap', rfl, -⟩ := h
  cases hdot : gap ++ (mark ++ '.' :: gap') with
  | nil => simp at hdot
  | cons c cs => exact hclass c (hdot ▸ .head cs)

end IsDot

namespace OpensArguments

variable {text : List Char}

theorem any_head? (h : OpensArguments text) : text.head?.any isNameChar = false := by
  obtain ⟨gap, after, rfl, hgap⟩ := h
  cases gap with
  | nil => exact show isNameChar '(' = false by decide
  | cons c cs => exact isNameChar_of_isBlank (hgap c (.head cs))

/-- What opens arguments is no dot. -/
theorem not_isDot (h : OpensArguments text) {dot rest : List Char} (hdot : IsDot dot) :
    text ≠ dot ++ rest := by
  rintro rfl
  obtain ⟨gap, after, htext, hgap⟩ := h
  obtain ⟨blanks, mark, gap', rfl, hblanks, hmark, -⟩ := hdot
  -- Behind the blanks there is a parenthesis in one reading and a dot or a mark in the other.
  have hclash : ∀ {c : Char} {cs : List Char}, isBlank c = false → c ≠ '(' →
      blanks ++ c :: cs ≠ gap ++ '(' :: after := by
    intro c cs hc hne heq
    have hopening : isBlank '(' = false := by decide
    exact hne (List.cons.inj (@run_append_inj isBlank _ _ (c :: cs) ('(' :: after) hblanks hgap hc
      hopening heq).2).1
  rw [List.append_assoc] at htext
  rcases hmark with rfl | rfl
  · exact hclash (by decide) (by decide) htext
  · exact hclash (by decide) (by decide) htext

end OpensArguments

namespace StartsCall

variable {capability method capability' method' text : List Char}

theorem ne_nil (h : StartsCall capability method text) : text ≠ [] := by
  obtain ⟨dot, arguments, rfl, -, hmethod, -⟩ := h
  obtain ⟨c, cs, rfl, -⟩ := exists_of_isIdentifier hmethod
  simp

/-- A text starts with one call at most. -/
theorem unique (h : StartsCall capability method text) (h' : StartsCall capability' method' text)
    (hcapability : isIdentifier capability = true)
    (hcapability' : isIdentifier capability' = true) :
    capability = capability' ∧ method = method' := by
  obtain ⟨dot, arguments, rfl, hdot, hmethod, harguments⟩ := h
  obtain ⟨dot', arguments', heq, hdot', hmethod', harguments'⟩ := h'
  have hother : ∀ {dot : List Char}, IsDot dot → ∀ c ∈ dot, (!isNameChar c) = true :=
    fun hdot c hc => by rw [hdot.isNameChar_eq c hc]; rfl
  have hname : ∀ {name : List Char} (rest : List Char), isIdentifier name = true →
      (name ++ rest).head?.any (!isNameChar ·) = false := by
    intro name rest h
    obtain ⟨c, cs, rfl, hc⟩ := exists_of_isIdentifier h
    simp [isNameChar_of_isNameStart hc]
  -- Names and what stands between them are runs of name characters and of others, in turn.
  obtain ⟨hfirst, hdots⟩ := run_append_inj (isNameChar_of_isIdentifier hcapability)
    (isNameChar_of_isIdentifier hcapability') hdot.any_head? hdot'.any_head? heq
  have hmethods := (run_append_inj (hother hdot) (hother hdot') (hname _ hmethod)
    (hname _ hmethod') hdots).2
  exact ⟨hfirst, (run_append_inj (isNameChar_of_isIdentifier hmethod)
    (isNameChar_of_isIdentifier hmethod') harguments.any_head? harguments'.any_head? hmethods).1⟩

end StartsCall

/-! ## Matches -/

section Matches

variable {names : List (List Char)} {before : Option Char} {rest : List Char} {offset : Nat}

/-- What is taken between a capability and a method. -/
def dotParts : List Pattern := [blanks, opt (lit "?"), lit ".", blanks]

/-- What is taken behind a method. -/
def openingParts : List Pattern :=
  [blanks, lit "(", blanks, opt (.capture 3 (words [")", "\x7b", "..."]))]

theorem callOn_eq (names : List (List Char)) : callOn names =
    all (freeNameEdge :: .capture 1 (anyOf (names.map fun name => all (name.map exactly))) ::
      (dotParts ++ .capture 2 identifier :: openingParts)) := rfl

theorem takes_dotParts {w : List Char} : (all dotParts).Takes w ↔ IsDot w := by
  simp only [dotParts, takes_all_cons, takes_opt, takes_lit, takes_blanks]
  constructor
  · rintro ⟨gap, _, rfl, hgap, mark, _, rfl, hmark, _, _, rfl, rfl, gap', _, rfl, hgap', rfl⟩
    exact ⟨gap, mark, gap', by simp, hgap, hmark.symm, hgap'⟩
  · rintro ⟨gap, mark, gap', rfl, hgap, hmark, hgap'⟩
    exact ⟨gap, _, rfl, hgap, mark, _, rfl, hmark.symm, ['.'], gap', rfl, rfl, gap', [], by simp,
      hgap', rfl⟩

/-- Behind a method the parenthesis is taken, and nothing that belongs to a name. -/
theorem of_takes_openingParts {w : List Char} (h : (all openingParts).Takes w) :
    OpensArguments w ∧ ∀ c ∈ w, isNameChar c = false := by
  have hopeners : ∀ s ∈ [")", "\x7b", "..."], ∀ c ∈ s.toList, isNameChar c = false := by
    decide +kernel
  have hcapture : ∀ {w : List Char}, (opt (.capture 3 (words [")", "\x7b", "..."]))).Takes w →
      w = [] ∨ ∃ s ∈ [")", "\x7b", "..."], w = s.toList := fun h =>
    h.symm.imp_right (takes_words (List.cons_ne_nil _ _)).mp
  simp only [openingParts, takes_all_cons, takes_lit, takes_blanks] at h
  obtain ⟨gap, _, rfl, hgap, _, _, rfl, rfl, gap', _, rfl, hgap', opener, _, rfl, hopener, rfl⟩ := h
  refine ⟨⟨gap, _, rfl, hgap⟩, ?_⟩
  simp only [List.mem_append]
  rintro c (hc | hc | hc | hc | hc)
  · exact isNameChar_of_isBlank (hgap c hc)
  · obtain rfl := List.mem_singleton.mp hc
    decide
  · exact isNameChar_of_isBlank (hgap' c hc)
  · rcases hcapture hopener with rfl | ⟨s, hs, rfl⟩
    · cases hc
    · exact hopeners s hs c hc
  · cases hc

theorem OpensArguments.append {w : List Char} (h : OpensArguments w) (after : List Char) :
    OpensArguments (w ++ after) := by
  obtain ⟨gap, others, rfl, hgap⟩ := h
  exact ⟨gap, others ++ after, by simp, hgap⟩

/-- What a match takes: the capability, the dot, the method, and the opening of the arguments. -/
structure TakesCall (m : Found) (capability dot method opening : List Char) : Prop where
  text_eq : m.text = capability ++ (dot ++ (method ++ opening))
  dot : IsDot dot
  method : isIdentifier method = true
  opens : OpensArguments opening
  nameless : ∀ c ∈ opening, isNameChar c = false

theorem TakesCall.startsCall {m : Found} {capability dot method opening : List Char}
    (h : TakesCall m capability dot method opening) :
    StartsCall capability method (m.text ++ m.after) :=
  ⟨dot, opening ++ m.after, by rw [h.text_eq]; simp, h.dot, h.method, h.opens.append m.after⟩

theorem takes_names (hnames : names ≠ []) {w : List Char} :
    (anyOf (names.map fun name => all (name.map exactly))).Takes w ↔ w ∈ names := by
  rw [takes_anyOf (by simpa using hnames)]
  simp only [List.mem_map, exists_exists_and_eq_and, takes_all_exactly, exists_eq_right']

theorem exists_takesCall_of_matchAt? (hnames : names ≠ []) {m : Found}
    (h : (callOn names).matchAt? ⟨before, rest, offset, []⟩ = some m) :
    before.any (fun c => isNameChar c || c == '.') = false ∧ m.captured 1 ∈ names ∧
      ∃ dot opening, TakesCall m (m.captured 1) dot (m.captured 2) opening := by
  rw [callOn_eq] at h
  have hfree := holds_of_matchAt?_cons h
  obtain ⟨q, hq, rfl⟩ := Option.map_eq_some_iff.mp h
  have hmem := List.mem_of_head? hq
  rw [ends_all_cons] at hmem
  obtain ⟨start, hstart, hmem⟩ := List.mem_flatMap.mp hmem
  obtain ⟨w, rfl, hover⟩ := exists_takes hstart
  obtain ⟨_, -, capability, hoverFirst, hcapability, ⟨_, hmem⟩, hfirst⟩ :=
    exists_step_of_mem_ends_capture (by decide) hmem
  rw [ends_all_append] at hmem
  obtain ⟨_, hp, hmem⟩ := List.mem_flatMap.mp hmem
  obtain ⟨dot, hdot, hoverDot⟩ := exists_takes hp
  obtain ⟨_, -, method, hoverMethod, hmethod, ⟨_, hmem⟩, hsecond⟩ :=
    exists_step_of_mem_ends_capture (by decide) hmem
  obtain ⟨opening, hopening, hoverOpening⟩ := exists_takes hmem
  have htext : (Found.ofEnds ⟨before, rest, offset, []⟩ q).text =
      capability ++ (dot ++ (method ++ opening)) :=
    (hover.trans ((hoverFirst.captures _).trans (hoverDot.trans
      ((hoverMethod.captures _).trans hoverOpening)))).take_eq
  have hfirst : (Found.ofEnds ⟨before, rest, offset, []⟩ q).captured 1 = capability := hfirst
  have hsecond : (Found.ofEnds ⟨before, rest, offset, []⟩ q).captured 2 = method := hsecond
  obtain ⟨hopens, hnameless⟩ := of_takes_openingParts hopening
  rw [hfirst, hsecond]
  exact ⟨by simpa using hfree, (takes_names hnames).mp hcapability, dot, opening, htext,
    takes_dotParts.mp hdot, takes_identifier.mp hmethod, hopens, hnameless⟩

/-- A match is found where a call is. -/
theorem matchAt?_callOn_ne_none {capability method : List Char} (hname : capability ∈ names)
    (hfree : before.any (fun c => isNameChar c || c == '.') = false)
    (hstarts : StartsCall capability method rest) :
    (callOn names).matchAt? ⟨before, rest, offset, []⟩ ≠ none := by
  have hnames : names ≠ [] := List.ne_nil_of_mem hname
  obtain ⟨dot, arguments, rfl, hdot, hmethod, gap, after, rfl, hgap⟩ := hstarts
  have hplain : (all (.capture 1 (anyOf (names.map fun name => all (name.map exactly))) ::
      (dotParts ++ .capture 2 identifier :: openingParts))).isPlain = true := by
    refine isPlain_all (List.forall_mem_cons.mpr ⟨?_, by decide⟩)
    refine isPlain_anyOf (by simpa using hnames) fun p hp => ?_
    obtain ⟨name, -, rfl⟩ := List.mem_map.mp hp
    refine isPlain_all fun p hp => ?_
    obtain ⟨c, -, rfl⟩ := List.mem_map.mp hp
    rfl
  have hopening : (all openingParts).Takes (gap ++ ['(']) := by
    simp only [openingParts, takes_all_cons, takes_lit, takes_blanks]
    exact ⟨gap, _, rfl, hgap, ['('], [], rfl, rfl, [], [], rfl, by simp, [], [], rfl, .inr rfl, rfl⟩
  have htakes := takes_all_cons.mpr ⟨_, _, rfl, (takes_names hnames).mpr hname,
    takes_all_append.mpr ⟨_, _, rfl, takes_dotParts.mpr hdot, takes_all_cons.mpr
      ⟨_, _, rfl, takes_identifier.mpr hmethod, hopening⟩⟩⟩
  have hrest : capability ++ (dot ++ (method ++ (gap ++ '(' :: after))) =
      capability ++ (dot ++ (method ++ (gap ++ ['(']))) ++ after := by simp
  obtain ⟨q, hq, -⟩ := exists_mem_ends_of_takes hplain htakes
    (p := ⟨before, capability ++ (dot ++ (method ++ (gap ++ '(' :: after))), offset, []⟩) hrest
  rw [callOn_eq]
  refine matchAt?_ne_none (q := q) ?_
  rw [ends_all_cons]
  refine List.mem_flatMap.mpr ⟨_, ?_, hq⟩
  simp [freeNameEdge, notAfter, hfree]

/-- No call starts inside another one. -/
theorem TakesCall.not_inside {m : Found} {capability dot method opening x y : List Char}
    (h : TakesCall m capability dot method opening) (hname : isIdentifier capability = true)
    (htext : m.text = x ++ y) (hx : x ≠ []) (hy : y ≠ [])
    (hfree : x.getLast?.any (fun c => isNameChar c || c == '.') = false)
    {capability' method' : List Char} (hname' : isIdentifier capability' = true) :
    ¬StartsCall capability' method' (y ++ m.after) := by
  intro hstarts
  -- The name of a capability starts after the place, and no name ends before it.
  have hbehind : ∀ {u v}, x = u ++ v → v ≠ [] → ¬∀ c ∈ v, isNameChar c = true := by
    rintro u v rfl hv hchars
    rw [List.getLast?_append, List.getLast?_eq_some_getLast hv, Option.some_or, Option.any_some,
      hchars _ (List.getLast_mem hv)] at hfree
    cases hfree
  have hahead : ∀ {u v}, y = u ++ v → u ≠ [] → ¬∀ c ∈ u, isNameChar c = false := by
    rintro u v rfl hu hchars
    obtain ⟨d, ds, rfl⟩ := List.exists_cons_of_ne_nil hu
    obtain ⟨_, _, hsplit, -⟩ := hstarts
    obtain ⟨c, cs, rfl, hc⟩ := exists_of_isIdentifier hname'
    obtain rfl := (List.cons.inj hsplit).1
    exact Bool.false_ne_true ((hchars _ (.head _)).symm.trans (isNameChar_of_isNameStart hc))
  have hmethod : y ≠ method ++ opening := by
    rintro rfl
    obtain ⟨dot', _, hsplit, hdot', -⟩ := hstarts
    rw [List.append_assoc] at hsplit
    refine (h.opens.append m.after).not_isDot hdot' (run_append_inj
      (isNameChar_of_isIdentifier h.method) (isNameChar_of_isIdentifier hname')
      (h.opens.append m.after).any_head? hdot'.any_head? hsplit).2
  rw [h.text_eq] at htext
  rcases List.append_eq_append_iff.mp htext with ⟨u, rfl, hdots⟩ | ⟨u, hcapability, -⟩
  · rcases List.append_eq_append_iff.mp hdots with ⟨v, rfl, hmethods⟩ | ⟨v, hdot, hy'⟩
    · rcases List.append_eq_append_iff.mp hmethods with ⟨w, rfl, hopening⟩ | ⟨w, hsplit, rfl⟩
      · exact hahead (List.append_nil y).symm hy fun c hc =>
          h.nameless c (hopening ▸ List.mem_append_right w hc)
      · by_cases hv : v = []
        · subst hv
          exact hmethod (by rw [hsplit, List.nil_append])
        · exact hbehind (List.append_assoc capability dot v).symm hv fun c hc =>
            isNameChar_of_isIdentifier h.method c (hsplit ▸ List.mem_append_left w hc)
    · by_cases hv : v = []
      · subst hv
        exact hmethod hy'
      · exact hahead hy' hv fun c hc =>
          h.dot.isNameChar_eq c (hdot ▸ List.mem_append_right u hc)
  · exact hbehind (List.nil_append x).symm hx fun c hc =>
      isNameChar_of_isIdentifier hname c (hcapability ▸ List.mem_append_left u hc)

/-! ## Calls in their order -/

theorem takesSome_callOn (names : List (List Char)) : (callOn names).takesSome = true := by
  simp [callOn, all, takesSome, lit, exactly]

theorem callSite_append {before rest capability method : List Char} :
    CallSite (before ++ rest) before.length capability method ↔
      before.getLast?.any (fun c => isNameChar c || c == '.') = false ∧
        StartsCall capability method rest := by
  constructor
  · rintro ⟨hfree, hstarts⟩
    rw [List.take_left] at hfree
    rw [List.drop_left] at hstarts
    exact ⟨hfree, hstarts⟩
  · rintro ⟨hfree, hstarts⟩
    refine ⟨?_, ?_⟩
    · rwa [List.take_left]
    · rwa [List.drop_left]

/-- Each match is at a call. -/
theorem callSite_of_mem_findAll (hnames : names ≠ []) {view : List Char} {m : Found}
    (hm : m ∈ (callOn names).findAll view) :
    m.captured 1 ∈ names ∧ CallSite view m.start (m.captured 1) (m.captured 2) := by
  obtain ⟨before, hmatch, -, rfl⟩ := exists_of_mem_findAll (takesSome_callOn names) hm
  obtain ⟨hfree, hmem, dot, opening, htakes⟩ := exists_takesCall_of_matchAt? hnames hmatch
  rw [(exists_of_matchAt? hmatch).2.2]
  exact ⟨hmem, callSite_append.mpr ⟨hfree, htakes.startsCall⟩⟩

/-- Each call is matched, if the capabilities are named by identifiers. -/
theorem exists_mem_findAll_of_callSite (hnames : ∀ name ∈ names, isIdentifier name = true)
    {view capability method : List Char} {place : Nat} (hcapability : capability ∈ names)
    (h : CallSite view place capability method) :
    ∃ m ∈ (callOn names).findAll view, m.start = place ∧ m.captured 1 = capability ∧
      m.captured 2 = method := by
  have hsome : names ≠ [] := List.ne_nil_of_mem hcapability
  -- The call starts somewhere in the text.
  obtain ⟨before, rest, rfl, rfl⟩ :
      ∃ before rest, view = before ++ rest ∧ before.length = place := by
    refine ⟨view.take place, view.drop place, (List.take_append_drop place view).symm, ?_⟩
    have hne := h.starts.ne_nil
    rw [ne_eq, List.drop_eq_nil_iff] at hne
    rw [List.length_take]
    omega
  obtain ⟨hfree, hstarts⟩ := callSite_append.mp h
  obtain ⟨b, x, y, m, hm, hmatch, hbefore, htext, rfl, hy⟩ :=
    (divides_parts (takesSome_callOn names) (before ++ rest)).exists_of_place rfl hstarts.ne_nil
      (matchAt?_callOn_ne_none hcapability hfree hstarts)
  obtain ⟨-, hmem, dot, opening, htakes⟩ := exists_takesCall_of_matchAt? hsome hmatch
  have hidentifier := hnames _ hmem
  have hx : x = [] := by
    by_contra hx
    rw [List.nil_append] at hbefore
    rw [hbefore, List.getLast?_append, List.getLast?_eq_some_getLast hx, Option.some_or,
      ← List.getLast?_eq_some_getLast hx] at hfree
    exact htakes.not_inside hidentifier htext hx hy hfree (hnames _ hcapability) hstarts
  subst hx
  rw [List.nil_append] at hbefore htext
  rw [List.append_nil] at hbefore
  obtain ⟨hfirst, hsecond⟩ := (htext ▸ htakes.startsCall).unique hstarts hidentifier
    (hnames _ hcapability)
  exact ⟨m, mem_findAll.mpr hm, by rw [(exists_of_matchAt? hmatch).2.2, hbefore], hfirst, hsecond⟩

/-- The call that a match is read as. -/
def callOf (m : Found) : CapabilityCall :=
  ⟨m.captured 1, m.captured 2,
    if m.captured 3 == ")".toList || m.captured 3 == "...".toList then none
    else some (m.captured 3 == "\x7b".toList)⟩

/-- The calls that are read off a snippet stand at places of its redacted view, in their order. They
are all the calls that stand there, if the capabilities are named by identifiers. -/
theorem exists_placed_capabilityCalls (source : List Char) (names : List (List Char)) :
    ∃ placed : List (Nat × CapabilityCall), placed.map Prod.snd = capabilityCalls source names ∧
      (placed.Pairwise fun p p' => p.1 < p'.1) ∧
      (∀ p ∈ placed, p.2.capability ∈ names ∧
        CallSite (redact source) p.1 p.2.capability p.2.method) ∧
      ((∀ name ∈ names, isIdentifier name = true) → ∀ place, ∀ capability ∈ names, ∀ method,
        CallSite (redact source) place capability method →
          ∃ p ∈ placed, p.1 = place ∧ p.2.capability = capability ∧ p.2.method = method) := by
  rw [capabilityCalls]
  split
  next hnone =>
    refine ⟨[], rfl, .nil, by simp, fun hidentifiers _ capability hcapability => ?_⟩
    -- No name is an identifier then.
    rcases (Bool.or_eq_true _ _).mp hnone with h | h
    · rw [beq_iff_eq.mp h] at hcapability
      cases hcapability
    · rw [beq_iff_eq.mp h] at hidentifiers
      exact absurd (hidentifiers [] (.head _)) (by decide)
  next hsome =>
    have hnames : names ≠ [] := by
      rintro rfl
      simp at hsome
    refine ⟨((callOn names).findAll (redact source)).map fun m => (m.start, callOf m), ?_, ?_, ?_,
      ?_⟩
    · rw [List.map_map]
      rfl
    · exact List.pairwise_map.mpr (pairwise_findAll (takesSome_callOn names) (redact source))
    · intro p hp
      obtain ⟨m, hm, rfl⟩ := List.mem_map.mp hp
      exact callSite_of_mem_findAll hnames hm
    · intro hidentifiers place capability hcapability method hsite
      obtain ⟨m, hm, hstart, hfirst, hsecond⟩ :=
        exists_mem_findAll_of_callSite hidentifiers hcapability hsite
      exact ⟨_, List.mem_map_of_mem hm, hstart, hfirst, hsecond⟩

/-- Where a call stands that is read off a snippet. -/
theorem exists_callSite_of_capabilityCalls {source : List Char}
    {earlier later : List CapabilityCall} {call : CapabilityCall}
    (h : capabilityCalls source names = earlier ++ call :: later) :
    call.capability ∈ names ∧ ∃ place,
      CallSite (redact source) place call.capability call.method ∧
      ((∀ name ∈ names, isIdentifier name = true) → ∀ place' < place, ∀ capability ∈ names,
        ∀ method, CallSite (redact source) place' capability method →
          ∃ other ∈ earlier, other.capability = capability ∧ other.method = method) := by
  obtain ⟨placed, hcalls, hordered, hsites, hall⟩ := exists_placed_capabilityCalls source names
  rw [h] at hcalls
  obtain ⟨front, _, rfl, rfl, hback⟩ := List.map_eq_append_iff.mp hcalls
  obtain ⟨⟨place, _⟩, back, rfl, rfl, -⟩ := List.map_eq_cons_iff.mp hback
  obtain ⟨hmem, hsite⟩ := hsites _ (List.mem_append_right front (.head back))
  refine ⟨hmem, place, hsite, ?_⟩
  intro hidentifiers place' hlt capability hcapability method hsite'
  obtain ⟨p, hp, rfl, rfl, rfl⟩ := hall hidentifiers place' capability hcapability method hsite'
  refine ⟨p.2, List.mem_map_of_mem ?_, rfl, rfl⟩
  -- The calls from this one on stand no earlier than it.
  rw [List.pairwise_append, List.pairwise_cons] at hordered
  rcases List.mem_append.mp hp with hp | hp
  · exact hp
  rcases List.mem_cons.mp hp with rfl | hp
  · exact absurd hlt (Nat.lt_irrefl _)
  · exact absurd hlt (Nat.not_lt_of_lt (hordered.2.1.1 p hp))

end Matches

end GuestCode
