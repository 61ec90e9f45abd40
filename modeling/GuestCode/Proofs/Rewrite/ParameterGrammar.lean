import GuestCode.Proofs.Rewrite.Parameters
import GuestCode.Proofs.Snippet.CapabilityCalls

/-!
# Parameters as they are written

A parameter with an annotation is written as access modifiers, a name, a question mark or none, a
colon, a type, and a default or none. Types nest: brackets of four kinds, arrows, and inside brackets
equals signs, too. Stripping such a parameter gives its name, and its default if there is one.

One counter keeps the depth of all four kinds of brackets, and the end of an arrow is none of them.
So the parts of the grammar are followed one by one: each leaves the counter where it was, and at
depth zero it holds neither a colon before the one of the annotation nor an equals sign before the
one of the default.

## Main statements

* `Rewrite.Bracketed`, `Rewrite.IsTarget`: types and destructuring patterns, and names.
* `Rewrite.TypedParameter`: a parameter with its parts.
* `Rewrite.topLevelFrom?_bracketed`: a text with all its brackets is passed over.
* `Rewrite.withoutModifiers_append`: the access modifiers are removed, and nothing else.
* `Rewrite.TypedParameter.stripParameter_text`: what is left of a parameter.
-/

namespace GuestCode.Rewrite

open Text Text.Pattern Grammar

/-! ## The grammar -/

/-- The brackets of types: what opens them and what closes them. -/
def bracketPairs : List (Char × Char) :=
  [('(', ')'), ('[', ']'), ('\x7b', '\x7d'), ('<', '>')]

/-- Whether a character is no bracket and no equals sign. -/
def isPlainMark (c : Char) : Bool :=
  c ∉ ['(', ')', '[', ']', '\x7b', '\x7d', '<', '>', '=']

/-- Texts in which each bracket has its counterpart. An equals sign before `>` makes an arrow, which
is no bracket; other equals signs stand inside brackets only, which `inside` says of the whole
text. -/
inductive Bracketed : Bool → List Char → Prop where
  | nil {inside : Bool} : Bracketed inside []
  | mark {inside : Bool} {c : Char} {rest : List Char} (plain : isPlainMark c = true)
      (others : Bracketed inside rest) : Bracketed inside (c :: rest)
  | arrow {inside : Bool} {rest : List Char} (others : Bracketed inside rest) :
      Bracketed inside ('=' :: '>' :: rest)
  | equals {rest : List Char} (noArrow : rest.head? ≠ some '>') (others : Bracketed true rest) :
      Bracketed true ('=' :: rest)
  | pair {inside : Bool} {opening closing : Char} {inner rest : List Char}
      (brackets : (opening, closing) ∈ bracketPairs)
      (noArrow : inner.getLast? = some '=' → closing ≠ '>') (between : Bracketed true inner)
      (others : Bracketed inside rest) : Bracketed inside (opening :: (inner ++ closing :: rest))

/-- What a parameter binds: an identifier or a destructuring pattern. -/
inductive IsTarget : List Char → Prop where
  | identifier {name : List Char} (identifier : isIdentifier name = true) : IsTarget name
  | destructured {opening closing : Char} {inner : List Char}
      (brackets : (opening, closing) ∈ [('[', ']'), ('\x7b', '\x7d')])
      (between : Bracketed true inner) : IsTarget (opening :: (inner ++ [closing]))

/-- An access modifier with the blanks behind it. -/
structure Modifier where
  word : String
  gap : List Char
  word_mem : word ∈ modifierWords
  gap_ne : gap ≠ []
  gap_blank : ∀ c ∈ gap, isBlank c = true

/-- An access modifier as it is written. -/
def Modifier.text (m : Modifier) : List Char := m.word.toList ++ m.gap

/-- A parameter with an annotation. -/
structure TypedParameter where
  modifiers : List Modifier
  /-- Whether it takes all arguments that are left. -/
  isRest : Bool
  target : List Char
  /-- The blanks before the question mark, or before the colon if there is none. -/
  gap : List Char
  isOptional : Bool
  /-- The blanks between the question mark and the colon. -/
  gap' : List Char
  type : List Char
  default? : Option (List Char)
  target_isTarget : IsTarget target
  gap_blank : ∀ c ∈ gap, isBlank c = true
  gap'_blank : ∀ c ∈ gap', isBlank c = true
  type_bracketed : Bracketed false type

namespace TypedParameter

/-- The dots before what takes all arguments that are left. -/
def dots (p : TypedParameter) : List Char := if p.isRest then "...".toList else []

/-- The name of a parameter, with the dots before it. -/
def name (p : TypedParameter) : List Char := p.dots ++ p.target

/-- What stands between the name of a parameter and the colon of its annotation. -/
def mark (p : TypedParameter) : List Char :=
  p.gap ++ ((if p.isOptional then ['?'] else []) ++ p.gap')

/-- What stands behind the type of a parameter. -/
def ending (p : TypedParameter) : List Char :=
  match p.default? with
  | none => []
  | some value => " = ".toList ++ value

/-- A parameter as it is written. -/
def text (p : TypedParameter) : List Char :=
  p.modifiers.flatMap Modifier.text ++ (p.name ++ (p.mark ++ ':' :: (p.type ++ p.ending)))

/-- A parameter without its access modifiers and its annotation. -/
def stripped (p : TypedParameter) : List Char :=
  match p.default? with
  | none => p.name
  | some value => p.name ++ " = ".toList ++ trim value

end TypedParameter

/-! ## Access modifiers -/

section Modifiers

variable {modifiers : List Modifier} {body : List Char}

/-- What the parameters that follow access modifiers start like. -/
def StartsParameter (text : List Char) : Prop :=
  ∃ c rest, text = c :: rest ∧ startsParameter c = true

theorem StartsParameter.not_blank (h : StartsParameter body) : body.head?.any isBlank = false := by
  obtain ⟨c, rest, rfl, hc⟩ := h
  simpa using isBlank_of_startsParameter hc

theorem Modifier.startsParameter_append (modifiers : List Modifier) (h : StartsParameter body) :
    StartsParameter (modifiers.flatMap Modifier.text ++ body) := by
  cases modifiers with
  | nil => exact h
  | cons m rest =>
    obtain ⟨c, cs, hword, hc⟩ := exists_cons_modifierWord m.word_mem
    exact ⟨c, cs ++ (m.gap ++ (rest.flatMap Modifier.text ++ body)), by simp [Modifier.text, hword],
      hc⟩

theorem Modifier.startsModified (m : Modifier) (h : StartsParameter body) :
    StartsModified (m.text ++ body) := by
  obtain ⟨c, rest, rfl, hc⟩ := h
  exact ⟨m.word, m.word_mem, m.gap, c, rest, by simp [Modifier.text], m.gap_ne, m.gap_blank, hc⟩

theorem Modifier.not_blank_of_mem_word (m : Modifier) : ∀ c ∈ m.word.toList, isBlank c = false := by
  have hall : ∀ word ∈ modifierWords, ∀ c ∈ word.toList, isBlank c = false := by decide
  exact hall m.word m.word_mem

/-- Access modifiers end in one way only. -/
theorem eq_of_modifiers_append {modifiers modifiers' : List Modifier} {body body' : List Char}
    (hstart : StartsParameter body) (hstart' : StartsParameter body')
    (hbody : ¬StartsModified body) (hbody' : ¬StartsModified body')
    (h : modifiers.flatMap Modifier.text ++ body = modifiers'.flatMap Modifier.text ++ body') :
    body = body' := by
  induction modifiers generalizing modifiers' with
  | nil =>
    cases modifiers' with
    | nil => exact h
    | cons m rest =>
      refine absurd ?_ hbody
      rw [List.flatMap_nil, List.nil_append, List.flatMap_cons, List.append_assoc] at h
      rw [h]
      exact m.startsModified (Modifier.startsParameter_append rest hstart')
  | cons m rest ih =>
    rw [List.flatMap_cons, List.append_assoc] at h
    have hrest := Modifier.startsParameter_append rest hstart
    cases modifiers' with
    | nil =>
      refine absurd ?_ hbody'
      rw [List.flatMap_nil, List.nil_append] at h
      rw [← h]
      exact m.startsModified hrest
    | cons m' rest' =>
      rw [List.flatMap_cons, List.append_assoc] at h
      have hrest' := Modifier.startsParameter_append rest' hstart'
      -- A modifier is a word without blanks, and then blanks up to a character that is none.
      have hgap : ∀ (m : Modifier) (back : List Char),
          (m.gap ++ back).head?.any (fun c => !isBlank c) = false := by
        intro m back
        obtain ⟨c, cs, hc⟩ := List.exists_cons_of_ne_nil m.gap_ne
        have hblank := m.gap_blank c (by simp [hc])
        simp [hc, hblank]
      simp only [Modifier.text, List.append_assoc] at h
      obtain ⟨-, h⟩ := run_append_inj (p := fun c => !isBlank c)
        (fun c hc => by simp [m.not_blank_of_mem_word c hc])
        (fun c hc => by simp [m'.not_blank_of_mem_word c hc]) (hgap m _) (hgap m' _) h
      obtain ⟨-, h⟩ := run_append_inj m.gap_blank m'.gap_blank hrest.not_blank hrest'.not_blank h
      exact ih h

/-- What is matched as access modifiers is a number of them. -/
theorem exists_modifiers_of_takes {parts : List (List Char)}
    (h : ∀ part ∈ parts, accessModifier.Takes part) :
    ∃ modifiers : List Modifier, parts.flatten = modifiers.flatMap Modifier.text := by
  induction parts with
  | nil => exact ⟨[], rfl⟩
  | cons part rest ih =>
    obtain ⟨hpart, hrest⟩ := List.forall_mem_cons.mp h
    obtain ⟨word, hword, gap, rfl, hne, hgap⟩ := takes_accessModifier.mp hpart
    obtain ⟨modifiers, hmodifiers⟩ := ih hrest
    exact ⟨⟨word, gap, hword, hne, hgap⟩ :: modifiers, by simp [hmodifiers, Modifier.text]⟩

/-- What is removed from a parameter are access modifiers. -/
theorem exists_append_withoutModifiers {text : List Char} (h : StartsParameter text) :
    StartsParameter (withoutModifiers text) ∧ ∃ modifiers : List Modifier,
      text = modifiers.flatMap Modifier.text ++ withoutModifiers text := by
  rw [withoutModifiers]
  split
  · next m hmatch =>
    obtain ⟨-, c, rest, hafter, hc⟩ := startsModified_of_matchAt? hmatch
    obtain ⟨htakes, htext, -⟩ := exists_of_matchAt? hmatch
    refine ⟨⟨c, rest, hafter, hc⟩, ?_⟩
    rw [accessModifiers, takes_all_cons] at htakes
    obtain ⟨_, others, hothers, rfl, htakes⟩ := htakes
    obtain ⟨_, _, rfl, ⟨first, _, rfl, hfirst, parts, rfl, hparts⟩, rfl⟩ :=
      takes_all_cons.mp htakes
    obtain ⟨modifiers, hmodifiers⟩ :=
      exists_modifiers_of_takes (List.forall_mem_cons.mpr ⟨hfirst, hparts⟩)
    refine ⟨modifiers, ?_⟩
    rw [← hmodifiers, show text = m.text ++ m.after from htext, hothers]
    simp
  · exact ⟨h, [], rfl⟩

/-- All access modifiers before a parameter are removed, and nothing else. -/
theorem withoutModifiers_append (modifiers : List Modifier) (hstart : StartsParameter body)
    (hbody : ¬StartsModified body) :
    withoutModifiers (modifiers.flatMap Modifier.text ++ body) = body := by
  obtain ⟨hstart', modifiers', htext⟩ :=
    exists_append_withoutModifiers (Modifier.startsParameter_append modifiers hstart)
  exact (eq_of_modifiers_append hstart hstart' hbody
    (not_startsModified_withoutModifiers _) htext).symm

end Modifiers

/-! ## Brackets -/

section Brackets

variable {target opening closing : Char} {depth : Int} {index : Nat} {inner rest : List Char}

theorem topLevelFrom?_opening (h : (opening, closing) ∈ bracketPairs) :
    topLevelFrom? target depth index (opening :: rest) =
      topLevelFrom? target (depth + 1) (index + 1) rest := by
  have hall : ∀ pair ∈ bracketPairs, pair.1 ≠ '=' ∧
      (pair.1 == '(' || pair.1 == '[' || pair.1 == '\x7b' || pair.1 == '<') = true := by decide
  obtain ⟨hne, hopening⟩ := hall _ h
  rw [topLevelFrom?_cons fun heq => absurd heq hne, if_pos hopening]

theorem topLevelFrom?_closing (h : (opening, closing) ∈ bracketPairs) :
    topLevelFrom? target depth index (closing :: rest) =
      topLevelFrom? target (depth - 1) (index + 1) rest := by
  have hall : ∀ pair ∈ bracketPairs, pair.2 ≠ '=' ∧
      (pair.2 == '(' || pair.2 == '[' || pair.2 == '\x7b' || pair.2 == '<') = false ∧
      (pair.2 == ')' || pair.2 == ']' || pair.2 == '\x7d' || pair.2 == '>') = true := by decide
  obtain ⟨hne, hopening, hclosing⟩ := hall _ h
  rw [topLevelFrom?_cons fun heq => absurd heq hne, hopening, if_neg Bool.false_ne_true,
    if_pos hclosing]

/-- A character that is no bracket is passed over where it is not looked for. -/
theorem topLevelFrom?_mark {c : Char} (hplain : isPlainMark c = true ∨ c = '=')
    (harrow : c = '=' → rest.head? ≠ some '>')
    (hnot : depth ≠ 0 ∨ c ≠ target ∧ (target = ':' → c ≠ '=')) :
    topLevelFrom? target depth index (c :: rest) =
      topLevelFrom? target depth (index + 1) rest := by
  have hbrackets : c ∉ ['(', ')', '[', ']', '\x7b', '\x7d', '<', '>'] := by
    rcases hplain with hplain | rfl
    · simp only [isPlainMark, decide_eq_true_eq] at hplain
      exact fun hmem => hplain (List.mem_append_left ['='] hmem)
    · decide
  simp only [List.mem_cons, List.not_mem_nil, or_false, not_or] at hbrackets
  rw [topLevelFrom?_cons harrow]
  rcases hnot with hdepth | ⟨hne, hcolon⟩
  · simp [hbrackets, hdepth]
  · by_cases hc : target = ':'
    · simp [hbrackets, hne, hcolon hc]
    · simp [hbrackets, hne, hc]

/-- What is known of the end of a text is known of the end of its last part. -/
theorem of_getLast?_append {front rest : List Char} {c : Char} {P : Prop}
    (h : (front ++ rest).getLast? = some c → P) (hrest : rest.getLast? = some c) : P :=
  h (List.mem_getLast?_append_of_mem_getLast? hrest)

/-- A text with all its brackets is passed over: inside brackets whatever is looked for, and outside
if it is an equals sign. -/
theorem topLevelFrom?_bracketed {inside : Bool} {text : List Char} (h : Bracketed inside text)
    {back : List Char} (hdepth : 0 ≤ depth) (hinside : inside = true → 0 < depth)
    (htarget : inside = false → target = '=')
    (hback : text.getLast? = some '=' → back.head? ≠ some '>') :
    topLevelFrom? target depth index (text ++ back) =
      topLevelFrom? target depth (index + text.length) back := by
  induction h generalizing depth index back with
  | nil => rfl
  | @mark inside c rest plain _ ih =>
    have hne : c ≠ '=' := by
      rintro rfl
      cases plain
    have hnot : depth ≠ 0 ∨ c ≠ target ∧ (target = ':' → c ≠ '=') := by
      cases inside with
      | true => exact .inl (Int.ne_of_gt (hinside rfl))
      | false => exact .inr ⟨htarget rfl ▸ hne, fun _ => hne⟩
    have hrest := @ih depth (index + 1) back hdepth hinside htarget
      (@of_getLast?_append [c] _ _ _ hback)
    rw [List.cons_append, topLevelFrom?_mark (.inl plain) (fun heq => absurd heq hne) hnot, hrest,
      List.length_cons, Nat.add_right_comm, Nat.add_assoc]
  | @arrow inside rest _ ih =>
    have hrest := @ih depth (index + 2) back hdepth hinside htarget
      (@of_getLast?_append ['=', '>'] _ _ _ hback)
    rw [List.cons_append, List.cons_append, topLevelFrom?, hrest, List.length_cons,
      List.length_cons, Nat.add_right_comm, Nat.add_assoc]
  | @equals rest noArrow _ ih =>
    have hrest := @ih depth (index + 1) back hdepth hinside htarget
      (@of_getLast?_append ['='] _ _ _ hback)
    have harrow : (rest ++ back).head? ≠ some '>' := by
      cases rest with
      | nil => exact hback rfl
      | cons c cs => exact noArrow
    have hnot : depth ≠ 0 := Int.ne_of_gt (hinside rfl)
    rw [List.cons_append, topLevelFrom?_mark (.inr rfl) (fun _ => harrow) (.inl hnot), hrest,
      List.length_cons, Nat.add_right_comm, Nat.add_assoc]
  | @pair inside opening closing inner rest brackets noArrow _ _ ihbetween ihothers =>
    -- Between the brackets the depth is one more, so that nothing is found there.
    have hclosing : inner.getLast? = some '=' →
        (closing :: (rest ++ back)).head? ≠ some '>' := fun hinner hhead =>
      noArrow hinner (Option.some.inj hhead)
    have hinner := @ihbetween (depth + 1) (index + 1) _ (by omega) (by omega)
      (fun hfalse => absurd hfalse.symm Bool.false_ne_true) hclosing
    have hrest := @ihothers depth (index + 1 + inner.length + 1) back hdepth hinside htarget
      (@of_getLast?_append (opening :: (inner ++ [closing])) rest _ _ (by simpa using hback))
    rw [List.cons_append, List.append_assoc, List.cons_append, topLevelFrom?_opening brackets,
      hinner, topLevelFrom?_closing brackets, Int.add_sub_cancel, hrest]
    congr 1
    simp
    omega

end Brackets

/-! ## Names -/

section Names

variable {target : List Char}

theorem mem_bracketPairs_of_destructured {opening closing : Char}
    (h : (opening, closing) ∈ [('[', ']'), ('\x7b', '\x7d')]) :
    (opening, closing) ∈ bracketPairs := by
  have hall : ∀ pair ∈ [('[', ']'), ('\x7b', '\x7d')], pair ∈ bracketPairs := by decide
  exact hall _ h

theorem isPlainMark_of_isNameChar {c : Char} (h : isNameChar c = true) : isPlainMark c = true := by
  have hall : ∀ c ∈ ['(', ')', '[', ']', '\x7b', '\x7d', '<', '>', '='], isNameChar c = false := by
    decide +kernel
  refine decide_eq_true fun hmem => ?_
  exact nomatch h.symm.trans (hall c hmem)

theorem startsParameter_of_isNameChar {c : Char} (h : isNameChar c = true) :
    startsParameter c = true := by
  rw [isNameChar, Bool.or_eq_true] at h
  rcases h with hword | hmark
  · simp [startsParameter, hword]
  · obtain rfl := beq_iff_eq.mp hmark
    decide

theorem isBlank_of_isNameChar {c : Char} (h : isNameChar c = true) : isBlank c = false :=
  isBlank_of_startsParameter (startsParameter_of_isNameChar h)

theorem exists_cons_of_isIdentifier {name : List Char} (h : isIdentifier name = true) :
    ∃ c rest, name = c :: rest := by
  cases name with
  | nil => cases h
  | cons c cs => exact ⟨c, cs, rfl⟩

/-- No access modifier starts with a character that is none of names. -/
theorem not_startsModified_cons {c : Char} {rest : List Char} (h : isNameChar c = false) :
    ¬StartsModified (c :: rest) := by
  rintro ⟨word, hword, gap, d, more, heq, -⟩
  have hall : ∀ word ∈ modifierWords, word.toList.head?.any isNameChar = true := by decide +kernel
  have hhead := hall word hword
  cases hchars : word.toList with
  | nil => rw [hchars] at hhead; cases hhead
  | cons e es =>
    rw [hchars] at heq hhead
    obtain rfl := (List.cons.inj heq).1
    exact nomatch h.symm.trans hhead

/-- Characters that mean nothing are passed over when a colon is looked for. -/
theorem topLevelFrom?_plain {depth : Int} {index : Nat} {text back : List Char}
    (h : ∀ c ∈ text, isPlainMark c = true ∧ c ≠ ':') :
    topLevelFrom? ':' depth index (text ++ back) =
      topLevelFrom? ':' depth (index + text.length) back := by
  induction text generalizing index with
  | nil => rfl
  | cons c cs ih =>
    obtain ⟨⟨hc, hcolon⟩, hcs⟩ := List.forall_mem_cons.mp h
    have hne : c ≠ '=' := by
      rintro rfl
      cases hc
    rw [List.cons_append, topLevelFrom?_mark (.inl hc) (fun heq => absurd heq hne)
      (.inr ⟨hcolon, fun _ => hne⟩), ih hcs, List.length_cons, Nat.add_right_comm, Nat.add_assoc]

/-- A colon is looked for behind what a parameter binds. -/
theorem IsTarget.topLevelFrom? (h : IsTarget target) (index : Nat) (back : List Char) :
    topLevelFrom? ':' 0 index (target ++ back) =
      Rewrite.topLevelFrom? ':' 0 (index + target.length) back := by
  cases h with
  | identifier hidentifier =>
    refine topLevelFrom?_plain fun c hc => ?_
    have hname := isNameChar_of_isIdentifier hidentifier c hc
    refine ⟨isPlainMark_of_isNameChar hname, ?_⟩
    rintro rfl
    exact absurd hname (by decide +kernel)
  | @destructured opening closing inner brackets between =>
    have hpair := mem_bracketPairs_of_destructured brackets
    have hclosing : (closing :: back).head? ≠ some '>' := by
      have hall : ∀ pair ∈ [('[', ']'), ('\x7b', '\x7d')], pair.2 ≠ '>' := by decide
      exact fun hhead => hall (opening, closing) brackets (Option.some.inj hhead)
    have hinner := @topLevelFrom?_bracketed ':' 1 (index + 1) true inner between (closing :: back)
      (by decide) (fun _ => by decide) (fun hfalse => absurd hfalse.symm Bool.false_ne_true)
      (fun _ => hclosing)
    rw [List.cons_append, List.append_assoc, List.singleton_append, topLevelFrom?_opening hpair,
      Int.zero_add, hinner, topLevelFrom?_closing hpair, Int.sub_self]
    congr 1
    simp
    omega

/-- What a parameter binds ends with neither a blank nor a question mark. -/
theorem IsTarget.exists_append_singleton (h : IsTarget target) : ∃ (front : List Char) (last : Char),
    target = front ++ [last] ∧ isBlank last = false ∧ last ≠ '?' := by
  cases h with
  | identifier hidentifier =>
    rcases List.eq_nil_or_concat target with rfl | ⟨front, last, rfl⟩
    · cases hidentifier
    rw [List.concat_eq_append] at hidentifier ⊢
    have hlast := isNameChar_of_isIdentifier hidentifier last (by simp)
    refine ⟨front, last, rfl, isBlank_of_isNameChar hlast, ?_⟩
    rintro rfl
    exact absurd hlast (by decide +kernel)
  | @destructured opening closing inner brackets between =>
    have hall : ∀ pair ∈ [('[', ']'), ('\x7b', '\x7d')],
        isBlank pair.2 = false ∧ pair.2 ≠ '?' := by decide
    exact ⟨opening :: inner, closing, rfl, hall (opening, closing) brackets⟩

/-- What a parameter binds may follow access modifiers. -/
theorem IsTarget.startsParameter (h : IsTarget target) : StartsParameter target := by
  cases h with
  | identifier hidentifier =>
    obtain ⟨c, cs, rfl⟩ := exists_cons_of_isIdentifier hidentifier
    refine ⟨c, cs, rfl, startsParameter_of_isNameChar ?_⟩
    exact isNameChar_of_isIdentifier hidentifier c (.head cs)
  | @destructured opening closing inner brackets between =>
    have hall : ∀ pair ∈ [('[', ']'), ('\x7b', '\x7d')],
        Rewrite.startsParameter pair.1 = true := by decide
    exact ⟨opening, inner ++ [closing], rfl, hall (opening, closing) brackets⟩

/-- No access modifier starts what a parameter binds. -/
theorem IsTarget.not_startsModified (h : IsTarget target) : ¬StartsModified target := by
  cases h with
  | identifier hidentifier =>
    -- The blanks behind a modifier are no characters of names.
    rintro ⟨word, -, gap, c, rest, heq, hne, hgap, -⟩
    subst heq
    obtain ⟨b, bs, rfl⟩ := List.exists_cons_of_ne_nil hne
    have hname := isNameChar_of_isIdentifier hidentifier b (by simp)
    exact nomatch (hgap b (.head bs)).symm.trans (isBlank_of_isNameChar hname)
  | @destructured opening closing inner brackets between =>
    have hall : ∀ pair ∈ [('[', ']'), ('\x7b', '\x7d')], isNameChar pair.1 = false := by
      decide +kernel
    exact not_startsModified_cons (hall (opening, closing) brackets)

/-- What a parameter binds is taken as such. -/
theorem IsTarget.takes (h : IsTarget target) : (anyOf [Grammar.identifier,
    all [lit "\x7b", star anyChar, lit "\x7d"], all [lit "[", star anyChar, lit "]"]]).Takes
      target := by
  refine (takes_anyOf (List.cons_ne_nil _ _)).mpr ?_
  have hbetween : ∀ {opening closing : String} (inner : List Char),
      (all [lit opening, star anyChar, lit closing]).Takes
        (opening.toList ++ (inner ++ closing.toList)) := fun inner =>
    takes_all_cons.mpr ⟨_, _, rfl, takes_lit.mpr rfl, takes_all_cons.mpr
      ⟨inner, _, rfl, takes_many_char.mpr fun _ _ => rfl, takes_lit.mpr rfl⟩⟩
  cases h with
  | identifier hidentifier => exact ⟨_, .head _, takes_identifier.mpr hidentifier⟩
  | @destructured opening closing inner brackets between =>
    simp only [List.mem_cons, Prod.mk.injEq, List.not_mem_nil, or_false] at brackets
    rcases brackets with ⟨rfl, rfl⟩ | ⟨rfl, rfl⟩
    · exact ⟨_, by simp, @hbetween "[" "]" inner⟩
    · exact ⟨_, by simp, @hbetween "\x7b" "\x7d" inner⟩

end Names

/-! ## The parts of a parameter -/

namespace TypedParameter

variable (p : TypedParameter)

theorem startsParameter_name : StartsParameter p.name := by
  rw [name, dots]
  split
  · exact ⟨'.', '.' :: '.' :: p.target, rfl, by decide⟩
  · exact p.target_isTarget.startsParameter

theorem not_startsModified_name : ¬StartsModified p.name := by
  rw [name, dots]
  split
  · exact not_startsModified_cons (by decide +kernel)
  · exact p.target_isTarget.not_startsModified

theorem isBlank_or_of_mem_mark : ∀ c ∈ p.mark, isBlank c = true ∨ c = '?' := by
  intro c hc
  rw [mark, List.mem_append, List.mem_append] at hc
  rcases hc with hgap | hoptional | hgap'
  · exact .inl (p.gap_blank c hgap)
  · split at hoptional
    · exact .inr (List.mem_singleton.mp hoptional)
    · cases hoptional
  · exact .inl (p.gap'_blank c hgap')

/-- What is left without the access modifiers. -/
theorem withoutModifiers_text : withoutModifiers p.text =
    p.name ++ (p.mark ++ ':' :: (p.type ++ p.ending)) := by
  obtain ⟨c, cs, hname, hc⟩ := p.startsParameter_name
  refine withoutModifiers_append p.modifiers ⟨c, cs ++ _, by rw [hname]; rfl, hc⟩ ?_
  -- Behind the name no parameter starts: the first character that is no blank is a mark.
  have hname : ¬StartsModified (p.name ++ []) := by simpa using p.not_startsModified_name
  refine not_startsModified_append hname ?_
  intro gap c rest heq hgap
  have hmark : ∀ c, c = ':' ∨ isBlank c = true ∨ c = '?' → startsParameter c = false := by
    rintro c (rfl | hblank | rfl)
    · decide
    · exact Bool.eq_false_iff.mpr fun h => nomatch hblank.symm.trans (isBlank_of_startsParameter h)
    · decide
  rcases List.append_eq_append_iff.mp heq with ⟨x, rfl, hx⟩ | ⟨x, hx, hrest⟩
  · cases x with
    | nil => exact hmark c (.inl (List.cons.inj hx).1.symm)
    | cons d ds =>
      obtain rfl := (List.cons.inj hx).1
      exact absurd (hgap ':' (by simp)) (by decide)
  · cases x with
    | nil => exact hmark c (.inl (List.cons.inj hrest).1)
    | cons d ds =>
      obtain rfl := (List.cons.inj hrest).1
      exact hmark c (.inr (p.isBlank_or_of_mem_mark c (by simp [hx])))

/-- The colon of the annotation is the first one outside brackets. -/
theorem topLevelIndex?_colon (rest : List Char) :
    topLevelIndex? (p.name ++ (p.mark ++ ':' :: rest)) ':' 0 =
      some (p.name ++ p.mark).length := by
  have hdots : ∀ c ∈ p.dots, isPlainMark c = true ∧ c ≠ ':' := by
    rw [dots]
    split
    · decide
    · exact fun c hc => nomatch hc
  have hmark : ∀ (index : Nat) (mark : List Char), (∀ c ∈ mark, isBlank c = true ∨ c = '?') →
      topLevelFrom? ':' 0 index (mark ++ ':' :: rest) = some (index + mark.length) := by
    intro index mark hmark
    induction mark generalizing index with
    | nil => exact topLevelFrom?_cons fun heq => absurd heq (by decide)
    | cons c cs ih =>
      obtain ⟨hc, hcs⟩ := List.forall_mem_cons.mp hmark
      rw [List.cons_append, topLevelFrom?_of_isBlank hc, ih _ hcs, List.length_cons,
        Nat.add_right_comm, Nat.add_assoc]
  rw [topLevelIndex?, List.drop_zero, name, List.append_assoc, topLevelFrom?_plain hdots,
    p.target_isTarget.topLevelFrom?, hmark _ _ p.isBlank_or_of_mem_mark]
  simp [Nat.add_assoc]

/-- The name with its question mark. -/
def stem (p : TypedParameter) : List Char :=
  p.name ++ if p.isOptional then p.gap ++ ['?'] else []

/-- The blanks before the colon are dropped. -/
theorem trimEnd_name_append_mark : trimEnd (p.name ++ p.mark) = p.stem := by
  obtain ⟨front, last, htarget, hblank, -⟩ := p.target_isTarget.exists_append_singleton
  rw [stem, mark]
  split
  · rw [← List.append_assoc p.gap, ← List.append_assoc, trimEnd,
      dropEndWhile_append p.gap'_blank, ← List.append_assoc]
    exact dropEndWhile_concat (by decide) _
  · rw [List.nil_append, trimEnd, dropEndWhile_append
      (List.forall_mem_append.mpr ⟨p.gap_blank, p.gap'_blank⟩), List.append_nil, name, htarget,
      ← List.append_assoc]
    exact dropEndWhile_concat hblank _

/-- The question mark is dropped with the blanks before it. -/
theorem trimEnd_stem : trimEnd (dropEndWhile (· == '?') p.stem) = p.name := by
  obtain ⟨front, last, htarget, hblank, hmark⟩ := p.target_isTarget.exists_append_singleton
  have hname : p.name = (p.dots ++ front) ++ [last] := by
    rw [name, htarget, List.append_assoc]
  have hlast : (last == '?') = false := beq_false_of_ne hmark
  -- Neither blanks nor question marks end the name, so it is where the dropping stops.
  have htrim : trimEnd p.name = p.name := by
    rw [hname]
    exact dropEndWhile_concat hblank _
  have hkeep : dropEndWhile (· == '?') (p.name ++ p.gap) = p.name ++ p.gap := by
    rcases List.eq_nil_or_concat p.gap with hgap | ⟨bs, b, hgap⟩
    · rw [hgap, List.append_nil, hname]
      exact @dropEndWhile_concat (· == '?') last hlast _
    · have hb : (b == '?') = false := by
        refine beq_false_of_ne fun heq => ?_
        have hb := p.gap_blank b (by simp [hgap])
        rw [heq] at hb
        exact absurd hb (by decide)
      rw [hgap, List.concat_eq_append, ← List.append_assoc]
      exact @dropEndWhile_concat (· == '?') b hb _
  rw [stem]
  split
  · rw [← List.append_assoc, dropEndWhile_append (by decide), hkeep, trimEnd,
      dropEndWhile_append p.gap_blank]
    exact htrim
  · have hstays : dropEndWhile (· == '?') p.name = p.name := by
      rw [hname]
      exact @dropEndWhile_concat (· == '?') last hlast _
    rw [List.append_nil, hstays, htrim]

/-- The name with its question mark is read as the name of a parameter. -/
theorem matchAt?_stem : parameterName.matchAt? (.ofText p.stem) ≠ none := by
  have htakes : (all [opt (lit "..."), anyOf [identifier,
      all [lit "\x7b", star anyChar, lit "\x7d"], all [lit "[", star anyChar, lit "]"]],
      blanks, opt (lit "?")]).Takes p.stem := by
    rw [stem, name, List.append_assoc]
    refine takes_all_cons.mpr ⟨p.dots, _, rfl, ?_, takes_all_cons.mpr
      ⟨p.target, _, rfl, p.target_isTarget.takes, takes_all_cons.mpr ?_⟩⟩
    · rw [takes_opt, takes_lit, dots]
      split <;> simp
    · split
      · exact ⟨p.gap, ['?'], rfl, takes_blanks.mpr p.gap_blank, takes_opt.mpr (.inl
          (takes_lit.mpr rfl))⟩
      · exact ⟨[], [], rfl, takes_blanks.mpr (by simp), takes_opt.mpr (.inr rfl)⟩
  obtain ⟨q, hq, hover⟩ := exists_mem_ends_of_takes (by decide) htakes
    (p := .ofText p.stem) (List.append_nil _).symm
  have hrest : q.rest = [] :=
    List.append_cancel_left (hover.rest.symm.trans (List.append_nil p.stem).symm)
  refine matchAt?_ne_none (q := q) ?_
  have hend : q ∈ (all [textEnd]).ends q := by
    rw [show (all [textEnd]).ends q = if q.rest.isEmpty || q.rest == ['\n'] then [q] else []
      from rfl, hrest]
    exact .head _
  rw [parameterName, ends_all_cons]
  refine List.mem_flatMap.mpr ⟨_, List.mem_singleton_self _, ?_⟩
  rw [show [opt (lit "..."), anyOf [identifier, all [lit "\x7b", star anyChar, lit "\x7d"],
    all [lit "[", star anyChar, lit "]"]], blanks, opt (lit "?"), textEnd] =
      [opt (lit "..."), anyOf [identifier, all [lit "\x7b", star anyChar, lit "\x7d"],
        all [lit "[", star anyChar, lit "]"]], blanks, opt (lit "?")] ++ [textEnd] from rfl,
    ends_all_append]
  exact List.mem_flatMap.mpr ⟨q, hq, hend⟩

/-- The equals sign of the default is the first one behind the colon that is outside brackets. -/
theorem topLevelFrom?_ending (index : Nat) :
    topLevelFrom? '=' 0 index (p.type ++ p.ending) =
      p.default?.map fun _ => index + p.type.length + 1 := by
  have hback : p.type.getLast? = some '=' → p.ending.head? ≠ some '>' := by
    rw [ending]
    split <;> simp
  rw [topLevelFrom?_bracketed p.type_bracketed (by decide)
    (fun hfalse => absurd hfalse Bool.false_ne_true) (fun _ => rfl) hback, ending]
  cases p.default? with
  | none => rfl
  | some value => rfl

end TypedParameter

/-- Of a parameter with an annotation its name is left, without access modifiers and question mark,
and its default with one blank on both sides of the equals sign. -/
theorem TypedParameter.stripParameter_text (p : TypedParameter) :
    stripParameter p.text = p.stripped := by
  have htake : (p.name ++ (p.mark ++ ':' :: (p.type ++ p.ending))).take (p.name ++ p.mark).length =
      p.name ++ p.mark := by
    rw [← List.append_assoc]
    exact List.take_left
  have hdrop : (p.name ++ (p.mark ++ ':' :: (p.type ++ p.ending))).drop
      ((p.name ++ p.mark).length + 1) = p.type ++ p.ending := by
    rw [← List.append_assoc, List.append_cons]
    exact List.drop_left' List.length_append
  rw [stripParameter, p.withoutModifiers_text]
  dsimp only
  rw [p.topLevelIndex?_colon]
  dsimp only
  rw [htake, p.trimEnd_name_append_mark]
  split
  · next hnone => exact absurd hnone p.matchAt?_stem
  rw [p.trimEnd_stem, topLevelIndex?, hdrop, p.topLevelFrom?_ending, TypedParameter.stripped]
  cases hdefault : p.default? with
  | none => rfl
  | some value =>
    have hvalue : (p.name ++ (p.mark ++ ':' :: (p.type ++ p.ending))).drop
        ((p.name ++ p.mark).length + 1 + p.type.length + 1 + 1) = ' ' :: value := by
      rw [Nat.add_assoc _ p.type.length, Nat.add_assoc _ (p.type.length + 1), ← List.drop_drop,
        hdrop, TypedParameter.ending, hdefault]
      have hending : p.type ++ " = ".toList ++ value = p.type ++ [' ', '='] ++ ' ' :: value := by
        simp
      rw [← List.append_assoc, hending]
      exact List.drop_left' List.length_append
    have htrim : trim (' ' :: value) = trim value := by
      simpa using @trim_blank [' '] [] (by decide) (List.forall_mem_nil _) value
    rw [Option.map_some]
    dsimp only
    rw [hvalue, htrim]

/-- The arrow of the type does not close its angle bracket. -/
example : ∃ p : TypedParameter, p.text = "readonly [a] ?: T<()=>b> = 1 ".toList ∧
    p.stripped = "[a] = 1".toList := by
  have hfunction : Bracketed true "()=>b".toList :=
    @Bracketed.pair true '(' ')' [] "=>b".toList (by decide) (by decide) .nil
      (.arrow (.mark rfl .nil))
  have htype : Bracketed false " T<()=>b>".toList :=
    .mark rfl (.mark rfl (@Bracketed.pair false '<' '>' "()=>b".toList [] (by decide) (by decide)
      hfunction .nil))
  have htarget : IsTarget "[a]".toList :=
    @IsTarget.destructured '[' ']' ['a'] (by decide) (.mark rfl .nil)
  refine ⟨⟨[⟨"readonly", [' '], by decide, by decide, by decide⟩], false, "[a]".toList, [' '], true,
    [], " T<()=>b>".toList, some "1 ".toList, htarget, by decide, by decide, htype⟩, rfl, rfl⟩

end GuestCode.Rewrite
