import GuestCode.Proofs.Snippet.Lookup

/-!
# Division or regular expression

Reading a snippet from left to right, all that is kept for the next `/` is a `Segment.Lookback`.
This is what one finds by looking back from the `/` over the finished regions: past blanks of code
and comments to the last character before them, and if that belongs to a word, through the word. So
a `/` opens a regular expression just if one is closed on its line and an expression may start there.

## Main statements

* `Segment.afterRegex?_eq_some_iff`: where a regular expression is closed.
* `lookBehind`: what looking back finds.
* `mem_ofSegments_splitAfter_iff`: at every place that reading stops at, it has kept just that.
* `mayStartAfter_iff`: after what an expression may start.
* `regexStartsAt_iff`: the rule for a `/`.
-/

namespace GuestCode

open Text

namespace Segment

/-! ## Regular expressions that are closed -/

/-- The inside of a regular expression, or of a class in one: a `/` in it is escaped or in a class,
and no line ends in it. -/
inductive RegexBody : Bool → List Char → Prop where
  | nil : RegexBody false []
  | char {c : Char} {cs : List Char} :
      c ∉ ['\\', '\n', '[', '/'] → RegexBody false cs → RegexBody false (c :: cs)
  | escape {inClass : Bool} {c : Char} {cs : List Char} :
      c ≠ '\n' → RegexBody inClass cs → RegexBody inClass ('\\' :: c :: cs)
  | openClass {cs : List Char} : RegexBody true cs → RegexBody false ('[' :: cs)
  | classChar {c : Char} {cs : List Char} :
      c ∉ ['\\', '\n', ']'] → RegexBody true cs → RegexBody true (c :: cs)
  | closeClass {cs : List Char} : RegexBody false cs → RegexBody true (']' :: cs)

theorem afterRegex?_append {inClass : Bool} {body : List Char} (h : RegexBody inClass body)
    (after : List Char) :
    afterRegex? inClass (body ++ '/' :: after) = some (after.dropWhile isLetter) := by
  induction h with
  | nil => simp [afterRegex?_cons]
  | char hc _ ih =>
    simp only [List.mem_cons, List.not_mem_nil, or_false, not_or] at hc
    simp [afterRegex?_cons, hc, ih]
  | escape hc _ ih => simp [afterRegex?_cons, hc, ih]
  | openClass _ ih => simp [afterRegex?_cons, ih]
  | classChar hc _ ih =>
    simp only [List.mem_cons, List.not_mem_nil, or_false, not_or] at hc
    have hclass : (_ != ']') = true := bne_iff_ne.mpr hc.2.2
    simp [afterRegex?_cons, hc, hclass, ih]
  | closeClass _ ih => simp [afterRegex?_cons, ih]

/-- A regular expression is closed by the first `/` that is neither escaped nor in a class, if that
is on its line. -/
theorem afterRegex?_eq_some_iff {inClass : Bool} {text rest : List Char} :
    afterRegex? inClass text = some rest ↔
      ∃ body after, text = body ++ '/' :: after ∧ RegexBody inClass body ∧
        rest = after.dropWhile isLetter := by
  constructor
  · intro h
    -- A character before the end of the expression belongs to its body.
    have hcons : ∀ {inClass next : Bool} {c : Char} {cs : List Char},
        (∃ body after, cs = body ++ '/' :: after ∧ RegexBody next body ∧
          rest = after.dropWhile isLetter) →
        (∀ {body}, RegexBody next body → RegexBody inClass (c :: body)) →
        ∃ body after, c :: cs = body ++ '/' :: after ∧ RegexBody inClass body ∧
          rest = after.dropWhile isLetter := by
      rintro inClass next c cs ⟨body, after, rfl, hbody, hrest⟩ hnext
      exact ⟨c :: body, after, rfl, hnext hbody, hrest⟩
    fun_induction afterRegex? inClass text with
    | case1 | case2 | case3 | case5 => cases h
    | case4 inClass c hc d ds hd ih =>
      obtain rfl := beq_iff_eq.mp hc
      obtain ⟨body, after, rfl, hbody, hrest⟩ := ih h
      exact ⟨_, after, rfl, .escape (fun heq => hd (beq_iff_eq.mpr heq)) hbody, hrest⟩
    | case6 c cs hslash hline ih =>
      refine hcons (ih h) fun hbody => ?_
      by_cases hc : c = ']'
      · subst hc
        exact .closeClass hbody
      · rw [bne_iff_ne.mpr hc] at hbody
        refine .classChar ?_ hbody
        simpa [hc] using And.intro hslash hline
    | case7 inClass c cs hslash hline hclass hopen ih =>
      obtain rfl : inClass = false := eq_false_of_ne_true hclass
      obtain rfl := beq_iff_eq.mp hopen
      exact hcons (ih h) .openClass
    | case8 inClass c cs hslash hline hclass hopen hclose =>
      obtain rfl : inClass = false := eq_false_of_ne_true hclass
      obtain rfl := beq_iff_eq.mp hclose
      exact ⟨[], cs, rfl, .nil, (Option.some.inj h).symm⟩
    | case9 inClass c cs hslash hline hclass hopen hclose ih =>
      obtain rfl : inClass = false := eq_false_of_ne_true hclass
      refine hcons (ih h) fun hbody => .char ?_ hbody
      simpa using And.intro hslash (And.intro hline (And.intro hopen hclose))
  · rintro ⟨body, after, rfl, hbody, rfl⟩
    exact afterRegex?_append hbody after

end Segment

/-! ## Looking back -/

/-- What looking back passes over: comments, and the blanks of code. -/
def Kinded.isPassedOver (k : Kinded) : Bool :=
  k.kind.isComment || (k.kind == .code && isBlank k.char)

/-- Whether a character is part of a word of code. -/
def Kinded.isOfWord (k : Kinded) : Bool :=
  k.kind == .code && Segment.isIdentifierChar k.char

/-- What looking back from a place finds; `before` are the characters before it, the nearest first.
A word is found with its characters in reverse, and whether it comes up to the place. -/
def lookBehind (before : List Kinded) : Segment.Lookback :=
  match before.dropWhile Kinded.isPassedOver with
  | [] => .start
  | k :: rest =>
    if k.kind != .code then .literal
    else if Segment.isIdentifierChar k.char then
      .word (((k :: rest).takeWhile Kinded.isOfWord).map Kinded.char)
        (before.takeWhile Kinded.isPassedOver).isEmpty
    else .mark k.char

/-- A word of code that comes up to a place, in reverse. -/
def wordBehind (before : List Kinded) : List Char :=
  (before.takeWhile Kinded.isOfWord).map Kinded.char

variable {before : List Kinded} {k : Kinded} {c : Char}

/-- No blank belongs to an identifier. -/
theorem Segment.isIdentifierChar_of_isBlank (h : isBlank c = true) : isIdentifierChar c = false :=
  eq_false_of_isBlank (by decide +kernel) h

@[simp] theorem Kinded.isPassedOver_code (c : Char) :
    (⟨c, .code⟩ : Kinded).isPassedOver = isBlank c := rfl

@[simp] theorem Kinded.isOfWord_code (c : Char) :
    (⟨c, .code⟩ : Kinded).isOfWord = Segment.isIdentifierChar c := rfl

theorem Kinded.isOfWord_of_isPassedOver (h : k.isPassedOver = true) : k.isOfWord = false := by
  obtain ⟨c, kind⟩ := k
  rw [isPassedOver, Bool.or_eq_true, Bool.and_eq_true] at h
  rcases h with hcomment | ⟨-, hblank⟩
  · cases kind with
    | lineComment | blockComment => rfl
    | code | regex | template | string => cases hcomment
  · rw [isOfWord, Segment.isIdentifierChar_of_isBlank hblank, Bool.and_false]

section Seen

variable {rest : List Kinded}

theorem lookBehind_eq_start (h : before.dropWhile Kinded.isPassedOver = []) :
    lookBehind before = .start := by
  unfold lookBehind
  rw [h]

theorem lookBehind_eq_literal (h : before.dropWhile Kinded.isPassedOver = k :: rest)
    (hkind : k.kind ≠ .code) : lookBehind before = .literal := by
  unfold lookBehind
  rw [h]
  exact if_pos (bne_iff_ne.mpr hkind)

theorem lookBehind_eq_word (h : before.dropWhile Kinded.isPassedOver = ⟨c, .code⟩ :: rest)
    (hword : Segment.isIdentifierChar c = true) :
    lookBehind before = .word (wordBehind (⟨c, .code⟩ :: rest))
      (before.takeWhile Kinded.isPassedOver).isEmpty := by
  unfold lookBehind
  rw [h]
  exact if_pos hword

theorem lookBehind_eq_mark (h : before.dropWhile Kinded.isPassedOver = ⟨c, .code⟩ :: rest)
    (hword : ¬Segment.isIdentifierChar c = true) : lookBehind before = .mark c := by
  unfold lookBehind
  rw [h]
  exact if_neg hword

end Seen

/-- What is passed over is a gap. -/
theorem lookBehind_cons_of_isPassedOver (h : k.isPassedOver = true) :
    lookBehind (k :: before) = (lookBehind before).afterGap := by
  rw [lookBehind, lookBehind, List.dropWhile_cons_of_pos h, List.takeWhile_cons_of_pos h]
  split
  · rfl
  · split_ifs
    · rfl
    · rfl
    · rfl

theorem lookBehind_cons_of_isLiteral (h : k.kind.isLiteral = true) :
    lookBehind (k :: before) = .literal := by
  obtain ⟨c, kind⟩ := k
  cases kind with
  | code | lineComment | blockComment => cases h
  | regex | template | string => rfl

theorem lookBehind_cons_code (h : ¬isBlank c = true) :
    lookBehind (⟨c, .code⟩ :: before) =
      if Segment.isIdentifierChar c then .word (wordBehind (⟨c, .code⟩ :: before)) true
      else .mark c := by
  rw [← Kinded.isPassedOver_code] at h
  rw [lookBehind, List.dropWhile_cons_of_neg h, List.takeWhile_cons_of_neg h]
  rfl

/-- A word that comes up to a place is the one that looking back finds. -/
theorem wordBehind_eq (before : List Kinded) :
    wordBehind before =
      match lookBehind before with
      | .word reversed true => reversed
      | _ => [] := by
  have hnone : ∀ {k : Kinded} {before : List Kinded}, k.isOfWord = false →
      wordBehind (k :: before) = [] := by
    intro k before h
    rw [wordBehind, List.takeWhile_cons_of_neg (ne_true_of_eq_false h), List.map_nil]
  cases before with
  | nil => rfl
  | cons k before =>
    by_cases hover : k.isPassedOver = true
    · rw [hnone (Kinded.isOfWord_of_isPassedOver hover), lookBehind_cons_of_isPassedOver hover]
      cases lookBehind before <;> rfl
    · obtain ⟨c, kind⟩ := k
      cases kind with
      | code =>
        rw [lookBehind_cons_code hover]
        split_ifs with hword
        · rfl
        · exact hnone (eq_false_of_ne_true hword)
      | lineComment | blockComment => exact absurd rfl hover
      | regex | template | string => rfl

/-- Reading a character of code keeps what looking back finds behind it. -/
theorem lookBehind_code (c : Char) (before : List Kinded) :
    lookBehind (⟨c, .code⟩ :: before) = (lookBehind before).afterCode c := by
  unfold Segment.Lookback.afterCode
  split_ifs with hblank hword
  · exact lookBehind_cons_of_isPassedOver ((Kinded.isPassedOver_code c).trans hblank)
  · -- The character goes on with a word only if the word comes up to it.
    have hbehind : wordBehind (⟨c, .code⟩ :: before) = c :: wordBehind before := by
      rw [wordBehind, List.takeWhile_cons_of_pos ((Kinded.isOfWord_code c).trans hword)]
      rfl
    rw [lookBehind_cons_code hblank, if_pos hword, hbehind, wordBehind_eq]
    cases lookBehind before with
    | start | literal | mark => rfl
    | word reversed adjacent => cases adjacent <;> rfl
  · rw [lookBehind_cons_code hblank, if_neg hword]

theorem Segment.Lookback.afterGap_afterGap (look : Segment.Lookback) :
    look.afterGap.afterGap = look.afterGap := by
  cases look <;> rfl

/-- Reading a comment or a literal keeps what looking back finds behind it. -/
theorem lookBehind_token {kind : Segment.Kind} (hkind : kind ≠ .code) {token : List Kinded}
    (hne : token ≠ []) (htoken : ∀ k ∈ token, k.kind = kind) (before : List Kinded) :
    lookBehind (token ++ before) = (lookBehind before).afterToken kind := by
  rw [Segment.Lookback.afterToken]
  induction token with
  | nil => exact absurd rfl hne
  | cons k token ih =>
    obtain ⟨rfl, htoken⟩ := List.forall_mem_cons.mp htoken
    rw [List.cons_append]
    split_ifs at ih ⊢ with hliteral
    · -- A literal ends the search at its last character.
      exact lookBehind_cons_of_isLiteral hliteral
    · -- A comment is passed over as one gap, however long it is.
      have hover : k.isPassedOver = true := by
        obtain ⟨c, kind⟩ := k
        cases kind with
        | code => exact absurd rfl hkind
        | lineComment | blockComment => rfl
        | regex | template | string => exact absurd rfl hliteral
      rw [lookBehind_cons_of_isPassedOver hover]
      cases token with
      | nil => rfl
      | cons next token =>
        rw [ih (List.cons_ne_nil _ _) htoken, Segment.Lookback.afterGap_afterGap]

theorem lookBehind_kindedText {kind : Segment.Kind} (hkind : kind ≠ .code) (c : Char)
    (body : List Char) (before : List Kinded) :
    lookBehind ((kindedText kind (c :: body)).reverse ++ before) =
      (lookBehind before).afterToken kind := by
  exact lookBehind_token hkind (by simp [kindedText])
    (fun k hk => kind_of_mem_kindedText (List.mem_reverse.mp hk)) before

/-! ## Reading on -/

/-- The characters of a text that stands after other code, with their kinds. -/
def kindedAfter (look : Segment.Lookback) (text : List Char) : List Kinded :=
  (Segment.splitAfter look text).flatMap fun s => kindedText s.kind s.text

theorem kinded_eq_kindedAfter (source : List Char) : kinded source = kindedAfter .start source := by
  have hsegments := Region.map_ofSegments (Segment.split source) []
  rw [List.nil_append, Segment.flatMap_split] at hsegments
  rw [kindedAfter, ← Segment.split]
  conv_rhs => rw [← hsegments]
  rw [List.flatMap_map]
  rfl

theorem map_char_kindedAfter (look : Segment.Lookback) (text : List Char) :
    (kindedAfter look text).map Kinded.char = text := by
  rw [kindedAfter, List.map_flatMap]
  conv_rhs => rw [← Segment.flatMap_text_splitAfter look text]
  exact List.flatMap_congr fun s _ => map_char_kindedText s.kind s.text

theorem kindedAfter_of_none {look : Segment.Lookback} {cs : List Char}
    (h : Segment.token? look c cs = none) :
    kindedAfter look (c :: cs) = ⟨c, .code⟩ :: kindedAfter (look.afterCode c) cs := by
  rw [kindedAfter, Segment.splitAfter_of_none h, kindedAfter]
  unfold Segment.consCode
  split
  · next heq =>
    rw [heq]
    rfl
  · rfl

theorem kindedAfter_of_token {look : Segment.Lookback} {body rest : List Char}
    {kind : Segment.Kind} (h : Segment.token? look c (body ++ rest) = some (kind, rest)) :
    kindedAfter look (c :: (body ++ rest)) =
      kindedText kind (c :: body) ++ kindedAfter (look.afterToken kind) rest := by
  rw [kindedAfter, Segment.splitAfter_token h]
  rfl

/-- A character of code that joins other code moves no region but that code. -/
theorem mem_ofSegments_consCode_iff {r : Region} (hkind : r.kind ≠ .code) {start : Nat}
    {segments : List Segment} :
    r ∈ Region.ofSegments start (Segment.consCode c segments) ↔
      r ∈ Region.ofSegments (start + 1) segments := by
  refine ⟨Segment.mem_ofSegments_consCode hkind, fun h => ?_⟩
  unfold Segment.consCode
  split
  · next text rest =>
    rcases List.mem_cons.mp h with rfl | h
    · exact absurd rfl hkind
    · refine List.mem_cons_of_mem _ ?_
      simpa [Nat.add_comm, Nat.add_left_comm, Nat.add_assoc] using h
  · exact List.mem_cons_of_mem _ h

/-- The regions behind the first place of a comment or a literal are those of what follows it. -/
theorem mem_ofSegments_token_iff {look : Segment.Lookback} {body rest : List Char}
    {kind : Segment.Kind} (h : Segment.token? look c (body ++ rest) = some (kind, rest))
    {r : Region} {start : Nat} (hr : start < r.start) :
    r ∈ Region.ofSegments start (Segment.splitAfter look (c :: (body ++ rest))) ↔
      r ∈ Region.ofSegments (start + (c :: body).length)
        (Segment.splitAfter (look.afterToken kind) rest) := by
  rw [Segment.splitAfter_token h, Region.ofSegments, List.mem_cons, or_iff_right]
  rintro rfl
  exact Nat.lt_irrefl _ hr

/-- The places that reading a text stops at, counted from its first one: those of its code, and
those where a comment or a literal starts. -/
def StopsAt (look : Segment.Lookback) (text : List Char) (start i : Nat) : Prop :=
  (∃ c, (kindedAfter look text)[i]? = some ⟨c, .code⟩) ∨
    ∃ r ∈ Region.ofSegments start (Segment.splitAfter look text),
      r.kind ≠ .code ∧ r.start = start + i

namespace StopsAt

variable {look : Segment.Lookback} {start i : Nat}

theorem of_code {cs : List Char} (htoken : Segment.token? look c cs = none)
    (h : StopsAt look (c :: cs) start (i + 1)) : StopsAt (look.afterCode c) cs (start + 1) i := by
  rw [StopsAt, kindedAfter_of_none htoken, List.getElem?_cons_succ,
    Segment.splitAfter_of_none htoken] at h
  refine h.imp_right ?_
  rintro ⟨r, hr, hkind, hstart⟩
  exact ⟨r, (mem_ofSegments_consCode_iff hkind).mp hr, hkind, by omega⟩

/-- Within a comment or a literal, reading does not stop. -/
theorem exists_of_token {body rest : List Char} {kind : Segment.Kind}
    (htoken : Segment.token? look c (body ++ rest) = some (kind, rest))
    (h : StopsAt look (c :: (body ++ rest)) start i) (hpos : 0 < i) :
    ∃ j, i = (c :: body).length + j ∧
      StopsAt (look.afterToken kind) rest (start + (c :: body).length) j := by
  have hlength : (kindedText kind (c :: body)).length = (c :: body).length := List.length_map _
  rcases h with ⟨d, hd⟩ | ⟨r, hr, hkind, hstart⟩
  · rw [kindedAfter_of_token htoken] at hd
    rcases Nat.lt_or_ge i (c :: body).length with hlt | hge
    · rw [List.getElem?_append_left (hlength ▸ hlt), kindedText, List.getElem?_map] at hd
      obtain ⟨e, -, he⟩ := Option.map_eq_some_iff.mp hd
      exact absurd (Kinded.mk.inj he).2 (Segment.kind_ne_code_of_token? htoken)
    · rw [List.getElem?_append_right (hlength ▸ hge), hlength] at hd
      exact ⟨i - (c :: body).length, (Nat.add_sub_cancel' hge).symm, .inl ⟨d, hd⟩⟩
  · rw [mem_ofSegments_token_iff htoken (by omega)] at hr
    have hlow := Segment.le_start_of_mem_ofSegments hr
    exact ⟨i - (c :: body).length, by omega, .inr ⟨r, hr, hkind, by omega⟩⟩

end StopsAt

/-- Wherever reading a text stops, it goes on with what looking back finds: the comments and literals
from there on are those of the rest of the text, read on its own. -/
theorem mem_ofSegments_splitAfter_iff {look : Segment.Lookback} {text : List Char}
    (hlook : look = lookBehind before) {start i : Nat} (hstop : StopsAt look text start i)
    {r : Region} (hkind : r.kind ≠ .code) (hr : start + i ≤ r.start) :
    r ∈ Region.ofSegments start (Segment.splitAfter look text) ↔
      r ∈ Region.ofSegments (start + i) (Segment.splitAfter
        (lookBehind (((kindedAfter look text).take i).reverse ++ before)) (text.drop i)) := by
  -- The induction follows the reading; what has been read joins what stands before.
  fun_induction Segment.splitAfter look text generalizing before start i with
  | case1 look => simp [Region.ofSegments, Segment.splitAfter]
  | case2 look c cs kind rest htoken _ ih =>
    obtain ⟨taken, rfl⟩ := Segment.token?_suffix htoken
    have htaken : (taken ++ rest).take ((taken ++ rest).length - rest.length) = taken := by simp
    rw [htaken, ← Segment.splitAfter_token htoken]
    rcases Nat.eq_zero_or_pos i with rfl | hpos
    · rw [List.take_zero, List.reverse_nil, List.nil_append, ← hlook, List.drop_zero]
      rfl
    obtain ⟨j, rfl, hnext⟩ := hstop.exists_of_token htoken hpos
    have hbefore : ((kindedAfter look (c :: (taken ++ rest))).take
          ((c :: taken).length + j)).reverse ++ before =
        ((kindedAfter (look.afterToken kind) rest).take j).reverse ++
          ((kindedText kind (c :: taken)).reverse ++ before) := by
      have hlength : (c :: taken).length = (kindedText kind (c :: taken)).length :=
        (List.length_map _).symm
      rw [kindedAfter_of_token htoken, hlength, List.take_length_add_append, List.reverse_append,
        List.append_assoc]
    have hdrop : (c :: (taken ++ rest)).drop ((c :: taken).length + j) = rest.drop j := by
      rw [← List.cons_append, List.drop_length_add_append]
    have hlater : look.afterToken kind =
        lookBehind ((kindedText kind (c :: taken)).reverse ++ before) := by
      rw [hlook, lookBehind_kindedText (Segment.kind_ne_code_of_token? htoken)]
    rw [mem_ofSegments_token_iff htoken (by omega), hbefore, hdrop, ← Nat.add_assoc]
    exact ih hlater hnext (by omega)
  | case3 look c cs htoken ih =>
    cases i with
    | zero =>
      rw [List.take_zero, List.reverse_nil, List.nil_append, ← hlook, List.drop_zero,
        Segment.splitAfter_of_none htoken]
      rfl
    | succ i =>
      have hbefore : ((kindedAfter look (c :: cs)).take (i + 1)).reverse ++ before =
          ((kindedAfter (look.afterCode c) cs).take i).reverse ++ ⟨c, .code⟩ :: before := by
        rw [kindedAfter_of_none htoken]
        simp
      have hstart : start + (i + 1) = start + 1 + i := by omega
      rw [mem_ofSegments_consCode_iff hkind, hbefore, List.drop_succ_cons, hstart]
      exact ih (by rw [lookBehind_code, hlook]) (hstop.of_code htoken) (hstart ▸ hr)

/-! ## The rule for a slash -/

/-- What an expression may start after, the nearest character first: nothing but blanks and comments,
or before them one of these marks, or one of these keywords as a whole word of code. -/
inductive MayStartAfter (before : List Kinded) : Prop where
  | nothing : before.dropWhile Kinded.isPassedOver = [] → MayStartAfter before
  | mark {c : Char} {rest : List Kinded} :
      before.dropWhile Kinded.isPassedOver = ⟨c, .code⟩ :: rest →
      c ∈ "=([,;:!&|?+-*/%\x7b\x7d<>~^".toList → MayStartAfter before
  | keyword {word : String} :
      (wordBehind (before.dropWhile Kinded.isPassedOver)).reverse = word.toList →
      word ∈ ["return", "typeof", "case", "do", "else", "in", "of", "void", "yield", "await",
        "delete", "throw", "new", "instanceof"] → MayStartAfter before

/-- Whether an expression may start depends on the nearest character that is not passed over, and on
its word. -/
theorem mayStartAfter_iff_of_seen {kind : Segment.Kind} {rest : List Kinded}
    (hseen : before.dropWhile Kinded.isPassedOver = ⟨c, kind⟩ :: rest) :
    MayStartAfter before ↔ (kind = .code ∧ c ∈ Segment.Lookback.openingMarks) ∨
      (wordBehind (⟨c, kind⟩ :: rest)).reverse ∈ Segment.Lookback.openingKeywords := by
  constructor
  · rintro (hnil | ⟨hmark, hc⟩ | ⟨hkeyword, hmem⟩)
    · exact absurd (hseen.symm.trans hnil) (List.cons_ne_nil _ _)
    · obtain ⟨rfl, rfl⟩ := Kinded.mk.inj (List.cons.inj (hseen.symm.trans hmark)).1
      exact .inl ⟨rfl, hc⟩
    · rw [hseen] at hkeyword
      exact .inr (hkeyword ▸ List.mem_map_of_mem hmem)
  · rintro (⟨rfl, hc⟩ | hmem)
    · exact .mark hseen hc
    · obtain ⟨word, hmem, hword⟩ := List.mem_map.mp hmem
      exact .keyword (by rw [hseen, hword]) hmem

/-- An expression may start just after what allows a regular expression. -/
theorem mayStartAfter_iff : MayStartAfter before ↔ (lookBehind before).allowsRegex = true := by
  have hmarks : ∀ c ∈ Segment.Lookback.openingMarks, Segment.isIdentifierChar c = false := by
    decide +kernel
  -- The keywords are words, so after other characters there is none.
  have hnoKeyword : ∀ {k : Kinded} {rest : List Kinded}, k.isOfWord = false →
      (wordBehind (k :: rest)).reverse ∉ Segment.Lookback.openingKeywords := by
    intro k rest h
    rw [wordBehind, List.takeWhile_cons_of_neg (ne_true_of_eq_false h)]
    decide
  rcases hseen : before.dropWhile Kinded.isPassedOver with _ | ⟨⟨c, kind⟩, rest⟩
  · rw [lookBehind_eq_start hseen]
    exact iff_of_true (.nothing hseen) rfl
  rw [mayStartAfter_iff_of_seen hseen]
  by_cases hcode : kind = .code
  · subst hcode
    by_cases hword : Segment.isIdentifierChar c = true
    · -- A character of a word is none of the marks.
      rw [lookBehind_eq_word hseen hword, Segment.Lookback.allowsRegex, List.contains_iff_mem,
        or_iff_right]
      rintro ⟨-, hc⟩
      exact ne_true_of_eq_false (hmarks c hc) hword
    · rw [lookBehind_eq_mark hseen hword, Segment.Lookback.allowsRegex, List.contains_iff_mem,
        or_iff_left (hnoKeyword ((Kinded.isOfWord_code c).trans (eq_false_of_ne_true hword))),
        and_iff_right rfl]
  · rw [lookBehind_eq_literal hseen hcode]
    refine iff_of_false ?_ (by decide)
    rintro (⟨rfl, -⟩ | hkeyword)
    · exact hcode rfl
    · exact hnoKeyword (by simp [Kinded.isOfWord, hcode]) hkeyword

/-- Whether a regular expression starts at a place. -/
def RegexStartsAt (source : List Char) (place : Nat) : Prop :=
  ∃ r ∈ Region.ofSource source, r.kind = .regex ∧ r.start = place

instance (source : List Char) (place : Nat) : Decidable (RegexStartsAt source place) :=
  inferInstanceAs (Decidable (∃ r ∈ Region.ofSource source, r.kind = .regex ∧ r.start = place))

/-- A `/` that opens no comment opens a regular expression if one is closed on its line and
allowed. -/
theorem regex_at_start_iff {look : Segment.Lookback} {cs : List Char} {start : Nat}
    (hline : cs.head? ≠ some '/') (hblock : cs.head? ≠ some '*') :
    (∃ r ∈ Region.ofSegments start (Segment.splitAfter look ('/' :: cs)),
        r.kind = .regex ∧ r.start = start) ↔
      (Segment.afterRegex? false cs).isSome = true ∧ look.allowsRegex = true := by
  have htoken : Segment.token? look '/' cs =
      if look.allowsRegex then (Segment.afterRegex? false cs).map fun rest => (.regex, rest)
      else none := by
    simp [Segment.token?, hline, hblock]
  by_cases hregex : (Segment.afterRegex? false cs).isSome = true ∧ look.allowsRegex = true
  · obtain ⟨hsome, hallows⟩ := hregex
    obtain ⟨rest, hrest⟩ := Option.isSome_iff_exists.mp hsome
    rw [if_pos hallows, hrest, Option.map_some] at htoken
    obtain ⟨taken, rfl⟩ := Segment.token?_suffix htoken
    rw [Segment.splitAfter_token htoken]
    exact ⟨fun _ => ⟨hsome, hallows⟩, fun _ => ⟨_, .head _, rfl, rfl⟩⟩
  · have hnone : Segment.token? look '/' cs = none := by
      rw [htoken]
      split
      · next hallows =>
        rw [Option.not_isSome_iff_eq_none.mp fun hsome => hregex ⟨hsome, hallows⟩]
        rfl
      · rfl
    rw [Segment.splitAfter_of_none hnone]
    refine ⟨?_, fun h => absurd h hregex⟩
    rintro ⟨r, hr, hkind, hstart⟩
    rw [mem_ofSegments_consCode_iff (by rw [hkind]; decide)] at hr
    have hle := Segment.le_start_of_mem_ofSegments hr
    omega

section Slash

variable {source : List Char} {place : Nat}

/-- Whether a regular expression starts at a `/` is decided by what looking back from it finds. -/
theorem regexStartsAt_iff_allowsRegex (hslash : source[place]? = some '/')
    (hline : source[place + 1]? ≠ some '/') (hblock : source[place + 1]? ≠ some '*')
    (hplace : isCodeAt (Region.ofSource source) place = true ∨ RegexStartsAt source place) :
    RegexStartsAt source place ↔
      (Segment.afterRegex? false (source.drop (place + 1))).isSome = true ∧
        (lookBehind ((kinded source).take place).reverse).allowsRegex = true := by
  have hkinds : ∀ {kind : Segment.Kind}, kind = .regex → kind ≠ .code := by
    rintro kind rfl
    decide
  have hstop : StopsAt .start source 0 place := by
    refine hplace.imp (fun hcode => ⟨'/', ?_⟩) ?_
    · rw [← kinded_eq_kindedAfter]
      exact getElem?_kinded_code_iff.mpr ⟨hslash, hcode⟩
    · rintro ⟨r, hr, hkind, hstart⟩
      exact ⟨r, hr, hkinds hkind, by omega⟩
  have hdrop : source.drop place = '/' :: source.drop (place + 1) := by
    obtain ⟨hlt, hget⟩ := List.getElem?_eq_some_iff.mp hslash
    rw [List.drop_eq_getElem_cons hlt, hget]
  have hread : ∀ {r : Region}, r.kind = .regex → r.start = place →
      (r ∈ Region.ofSource source ↔ r ∈ Region.ofSegments place (Segment.splitAfter
        (lookBehind ((kinded source).take place).reverse) (source.drop place))) := by
    intro r hkind hstart
    have hiff := @mem_ofSegments_splitAfter_iff [] .start source rfl 0 place hstop r
      (hkinds hkind) (by omega)
    rwa [List.append_nil, Nat.zero_add, ← kinded_eq_kindedAfter] at hiff
  rw [← List.head?_drop] at hline hblock
  rw [← @regex_at_start_iff _ _ place hline hblock, ← hdrop]
  exact exists_congr fun r => and_congr_left fun ⟨hkind, hstart⟩ => hread hkind hstart

/-- A `/` of code, or one that starts a regular expression, that opens no comment: it starts a regular
expression just if one is closed on its line, by a `/` that is neither escaped nor in a class, and an
expression may start after what is before it. After a literal it never does. -/
theorem regexStartsAt_iff (hslash : source[place]? = some '/')
    (hline : source[place + 1]? ≠ some '/') (hblock : source[place + 1]? ≠ some '*')
    (hplace : isCodeAt (Region.ofSource source) place = true ∨ RegexStartsAt source place) :
    let before := ((kinded source).take place).reverse
    (RegexStartsAt source place ↔
      (∃ body after, source.drop (place + 1) = body ++ '/' :: after ∧
        Segment.RegexBody false body) ∧ MayStartAfter before) ∧
    ∀ k rest, before.dropWhile Kinded.isPassedOver = k :: rest → k.kind.isLiteral = true →
      ¬RegexStartsAt source place := by
  intro before
  have hiff := regexStartsAt_iff_allowsRegex hslash hline hblock hplace
  have hclosed : (Segment.afterRegex? false (source.drop (place + 1))).isSome = true ↔
      ∃ body after, source.drop (place + 1) = body ++ '/' :: after ∧
        Segment.RegexBody false body := by
    simp [Option.isSome_iff_exists, Segment.afterRegex?_eq_some_iff]
  refine ⟨by rw [hiff, hclosed, mayStartAfter_iff], fun k rest hseen hliteral hregex => ?_⟩
  have hkind : k.kind ≠ .code := by
    intro hkind
    rw [hkind] at hliteral
    cases hliteral
  have hallows := (hiff.mp hregex).2
  rw [lookBehind_eq_literal hseen hkind] at hallows
  cases hallows

end Slash

/-- After a keyword, and after a bracket: the `/` in a class closes nothing, and the last one
divides. -/
theorem regexStartsAt_afterKeyword :
    let source := "return /* a */ /[/]/g.test(s) / 2".toList
    (RegexStartsAt source 15 ∧ (∃ body after,
        source.drop 16 = body ++ '/' :: after ∧ Segment.RegexBody false body) ∧
      MayStartAfter ((kinded source).take 15).reverse) ∧
    isCodeAt (Region.ofSource source) 30 = true ∧ ¬RegexStartsAt source 30 := by
  intro source
  have hregex : RegexStartsAt source 15 := by decide +kernel
  have hcode : isCodeAt (Region.ofSource source) 30 = true := by decide +kernel
  obtain ⟨hrule, -⟩ :=
    @regexStartsAt_iff source 15 (by decide) (by decide) (by decide) (.inr hregex)
  obtain ⟨hrule', -⟩ :=
    @regexStartsAt_iff source 30 (by decide) (by decide) (by decide) (.inl hcode)
  refine ⟨⟨hregex, hrule.mp hregex⟩, hcode, fun hdivides => ?_⟩
  -- Nothing closes a regular expression there.
  obtain ⟨⟨body, after, htext, -⟩, -⟩ := hrule'.mp hdivides
  have hslash : '/' ∈ source.drop 31 := by
    rw [htext]
    simp
  exact absurd hslash (by decide)

end GuestCode
