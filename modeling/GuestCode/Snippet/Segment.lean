import GuestCode.Text.Classes

/-!
# Segments of a snippet

A snippet is divided, from left to right, into segments of code, comments and literals. The
division is lossless: the texts of the segments, joined, are the snippet.

A `/` that does not open a comment either divides or opens a regular expression; which of the two
is decided from the code before it alone, as the type `Lookback` records it. The rule knows no
expression grammar, so the `/` of `a++ / 2` is taken to open a regular expression.

* `Segment.Kind`, `Segment`: kinds of segments, and segments
* `Segment.afterQuoted`, `afterTemplate`, ...: the text that follows a token
* `Segment.split`: the segments of a snippet

## Main statements

* `Segment.flatMap_split`: the segments of a snippet, joined, are the snippet.
-/

namespace GuestCode

open Text

namespace Segment

/-- Kinds of segments. -/
inductive Kind where
  | code
  | lineComment
  | blockComment
  | regex
  | template
  | string
deriving Repr, DecidableEq, Inhabited

namespace Kind

/-- The name of a kind in reports. -/
def name : Kind → String
  | code => "code"
  | lineComment => "line_comment"
  | blockComment => "block_comment"
  | regex => "regex"
  | template => "template"
  | string => "string"

/-- Whether a segment of this kind is a comment. -/
def isComment : Kind → Bool
  | lineComment | blockComment => true
  | _ => false

/-- Whether a segment of this kind is a literal. -/
def isLiteral : Kind → Bool
  | regex | template | string => true
  | _ => false

end Kind

end Segment

/-- A part of a snippet that is of one kind. -/
structure Segment where
  kind : Segment.Kind
  text : List Char
deriving Repr, DecidableEq, Inhabited

namespace Segment

/-- Characters of identifiers. -/
def isIdentifierChar (c : Char) : Bool :=
  isLetterOrNumeral c || c == '_' || c == '$'

/-! ## What follows a token

Each function is given the text after the opening mark of a token and returns the text after the
token. A token that is never closed ends with the snippet or, where the function says so, with
its line.
-/

/-- The text after a quoted string. A line end that is not escaped ends the string and is left. -/
def afterQuoted (quote : Char) : List Char → List Char
  | [] => []
  | c :: cs =>
    if c == '\\' then
      match cs with
      | [] => []
      | _ :: ds => afterQuoted quote ds
    else if c == quote then cs
    else if c == '\n' then c :: cs
    else afterQuoted quote cs

/-- The text after a line comment: its line end and what follows. -/
def afterLine (text : List Char) : List Char :=
  text.dropWhile fun c => c != '\n'

/-- The text after a block comment. -/
def afterBlock : List Char → List Char
  | [] => []
  | c :: cs =>
    match c, cs with
    | '*', '/' :: ds => ds
    | _, _ => afterBlock cs

theorem afterQuoted_suffix (quote : Char) (text : List Char) : afterQuoted quote text <:+ text := by
  fun_induction afterQuoted quote text with
  | case1 => exact List.suffix_refl _
  | case2 => exact List.nil_suffix
  | case3 _ _ _ _ ih => exact ih.trans ((List.suffix_cons _ _).trans (List.suffix_cons _ _))
  | case4 => exact List.suffix_cons _ _
  | case5 => exact List.suffix_refl _
  | case6 _ _ _ _ _ ih => exact ih.trans (List.suffix_cons _ _)

theorem afterLine_suffix (text : List Char) : afterLine text <:+ text :=
  List.dropWhile_suffix _

theorem afterBlock_suffix (text : List Char) : afterBlock text <:+ text := by
  fun_induction afterBlock text with
  | case1 => exact List.suffix_refl _
  | case2 ds => exact (List.suffix_cons _ _).trans (List.suffix_cons _ _)
  | case3 _ _ _ ih => exact ih.trans (List.suffix_cons _ _)

/-- The text after a template literal. The stack tells what is open, the innermost first: `none`
is template text and `some depth` the code of a hole in which `depth` braces are open. -/
def afterTemplate : List (Option Nat) → List Char → List Char
  | [], text => text
  | _, [] => []
  | none :: outer, c :: cs =>
    if c == '\\' then afterTemplate (none :: outer) cs.tail
    else if c == '\x60' then afterTemplate outer cs
    else if c == '$' && cs.head? == some '\x7b' then
      afterTemplate (some 0 :: none :: outer) cs.tail
    else afterTemplate (none :: outer) cs
  | some depth :: outer, c :: cs =>
    if c == '\'' || c == '"' then
      have := (afterQuoted_suffix c cs).length_le
      afterTemplate (some depth :: outer) (afterQuoted c cs)
    else if c == '\x60' then afterTemplate (none :: some depth :: outer) cs
    else if c == '/' && cs.head? == some '*' then
      have := (afterBlock_suffix cs.tail).length_le
      afterTemplate (some depth :: outer) (afterBlock cs.tail)
    else if c == '/' && cs.head? == some '/' then
      have := (afterLine_suffix cs).length_le
      afterTemplate (some depth :: outer) (afterLine cs)
    else if c == '\x7b' then afterTemplate (some (depth + 1) :: outer) cs
    else if c == '\x7d' then
      match depth with
      | 0 => afterTemplate outer cs
      | d + 1 => afterTemplate (some d :: outer) cs
    else afterTemplate (some depth :: outer) cs
termination_by _ text => text.length
decreasing_by all_goals (simp_all only [List.length_cons, List.length_tail]; omega)

theorem afterTemplate_suffix (stack : List (Option Nat)) (text : List Char) :
    afterTemplate stack text <:+ text := by
  have cons {c : Char} {r t : List Char} (h : r <:+ t) : r <:+ c :: t :=
    h.trans (List.suffix_cons c t)
  fun_induction afterTemplate stack text with
  | case1 => exact List.suffix_refl _
  | case2 => exact List.suffix_refl _
  | case3 _ _ _ _ ih => exact cons (ih.trans (List.tail_suffix _))
  | case5 _ _ _ _ _ _ ih => exact cons (ih.trans (List.tail_suffix _))
  | case7 _ _ _ _ _ _ ih => exact cons (ih.trans (afterQuoted_suffix _ _))
  | case9 _ _ _ _ _ _ _ _ ih =>
    exact cons (ih.trans ((afterBlock_suffix _).trans (List.tail_suffix _)))
  | case10 _ _ _ _ _ _ _ _ _ ih => exact cons (ih.trans (afterLine_suffix _))
  | _ => exact cons (by assumption)

/-- The text after a regular expression and its flags, if it is closed on its line; within a class
in brackets a `/` closes nothing. -/
def afterRegex? (inClass : Bool) : List Char → Option (List Char)
  | [] => none
  | c :: cs =>
    if c == '\\' then
      match cs with
      | [] => none
      | d :: ds => if d == '\n' then none else afterRegex? inClass ds
    else if c == '\n' then none
    else if inClass then afterRegex? (c != ']') cs
    else if c == '[' then afterRegex? true cs
    else if c == '/' then some (cs.dropWhile isLetter)
    else afterRegex? false cs

theorem afterRegex?_suffix {inClass : Bool} {text rest : List Char}
    (h : afterRegex? inClass text = some rest) : rest <:+ text := by
  have cons {c : Char} {r t : List Char} (h : r <:+ t) : r <:+ c :: t :=
    h.trans (List.suffix_cons c t)
  fun_induction afterRegex? inClass text with
  | case4 _ _ _ _ _ _ ih => exact cons (cons (ih h))
  | case6 _ _ _ _ ih => exact cons (ih h)
  | case7 _ _ _ _ _ _ _ ih => exact cons (ih h)
  | case8 => exact cons (Option.some.inj h ▸ List.dropWhile_suffix _)
  | case9 _ _ _ _ _ _ _ _ ih => exact cons (ih h)
  | _ => exact absurd h (by simp)

/-! ## Division or regular expression -/

/-- What the code before a place tells about a `/` there: nothing precedes, a literal does, a
character outside identifiers does, or an identifier, of which the characters are kept in reverse
and whether the next character would still belong to it. -/
inductive Lookback where
  | start
  | literal
  | mark (c : Char)
  | word (reversed : List Char) (adjacent : Bool)
deriving Repr, DecidableEq, Inhabited

namespace Lookback

/-- Marks after which an expression may start. -/
def openingMarks : List Char := "=([,;:!&|?+-*/%\x7b\x7d<>~^".toList

/-- Keywords after which an expression may start. -/
def openingKeywords : List (List Char) :=
  ["return", "typeof", "case", "do", "else", "in", "of", "void", "yield", "await", "delete",
    "throw", "new", "instanceof"].map String.toList

/-- Whether a `/` may open a regular expression. -/
def allowsRegex : Lookback → Bool
  | start => true
  | literal => false
  | mark c => openingMarks.contains c
  | word reversed _ => openingKeywords.contains reversed.reverse

/-- After a blank or a comment. -/
def afterGap : Lookback → Lookback
  | word reversed _ => word reversed false
  | look => look

/-- After a character of code. -/
def afterCode (c : Char) (look : Lookback) : Lookback :=
  if isBlank c then look.afterGap
  else if isIdentifierChar c then
    match look with
    | word reversed true => word (c :: reversed) true
    | _ => word [c] true
  else mark c

/-- After a comment or a literal. -/
def afterToken (kind : Kind) (look : Lookback) : Lookback :=
  if kind.isLiteral then literal else look.afterGap

end Lookback

/-! ## The division of a snippet -/

/-- The comment or literal that opens with `c`, if one does, and the text after it. -/
def token? (look : Lookback) (c : Char) (cs : List Char) : Option (Kind × List Char) :=
  if c == '/' && cs.head? == some '/' then some (.lineComment, afterLine cs)
  else if c == '/' && cs.head? == some '*' then some (.blockComment, afterBlock cs.tail)
  else if c == '\'' || c == '"' then some (.string, afterQuoted c cs)
  else if c == '\x60' then some (.template, afterTemplate [none] cs)
  else if c == '/' && look.allowsRegex then (afterRegex? false cs).map fun rest => (.regex, rest)
  else none

theorem token?_suffix {look : Lookback} {c : Char} {cs : List Char} {kind : Kind}
    {rest : List Char} (h : token? look c cs = some (kind, rest)) : rest <:+ cs := by
  unfold token? at h
  split at h
  · simp only [Option.some.injEq, Prod.mk.injEq] at h
    exact h.2 ▸ afterLine_suffix cs
  split at h
  · simp only [Option.some.injEq, Prod.mk.injEq] at h
    exact h.2 ▸ (afterBlock_suffix _).trans (List.tail_suffix cs)
  split at h
  · simp only [Option.some.injEq, Prod.mk.injEq] at h
    exact h.2 ▸ afterQuoted_suffix c cs
  split at h
  · simp only [Option.some.injEq, Prod.mk.injEq] at h
    exact h.2 ▸ afterTemplate_suffix _ cs
  split at h
  · obtain ⟨r, hr, heq⟩ := Option.map_eq_some_iff.1 h
    simp only [Prod.mk.injEq] at heq
    exact heq.2 ▸ afterRegex?_suffix hr
  · exact absurd h (by simp)

/-- Puts a character of code before segments; it joins a code segment that comes first. -/
def consCode (c : Char) : List Segment → List Segment
  | ⟨.code, text⟩ :: rest => ⟨.code, c :: text⟩ :: rest
  | segments => ⟨.code, [c]⟩ :: segments

/-- The segments of a text that stands after other code. -/
def splitAfter (look : Lookback) : List Char → List Segment
  | [] => []
  | c :: cs =>
    match h : token? look c cs with
    | some (kind, rest) =>
      have := (token?_suffix h).length_le
      ⟨kind, c :: cs.take (cs.length - rest.length)⟩ :: splitAfter (look.afterToken kind) rest
    | none => consCode c (splitAfter (look.afterCode c) cs)
termination_by text => text.length
decreasing_by all_goals (simp only [List.length_cons]; omega)

/-- The segments of a snippet. -/
def split (source : List Char) : List Segment :=
  splitAfter .start source

@[simp] theorem flatMap_text_consCode (c : Char) (segments : List Segment) :
    (consCode c segments).flatMap Segment.text = c :: segments.flatMap Segment.text := by
  unfold consCode
  split <;> simp

theorem flatMap_text_splitAfter (look : Lookback) (text : List Char) :
    (splitAfter look text).flatMap Segment.text = text := by
  fun_induction splitAfter look text with
  | case1 => rfl
  | case2 _ c cs kind rest h ih =>
    obtain ⟨taken, rfl⟩ := token?_suffix h
    simp_all
  | case3 _ c cs h ih => simp [ih]

/-- The segments of a snippet, joined, are the snippet. -/
theorem flatMap_split (source : List Char) : (split source).flatMap Segment.text = source :=
  flatMap_text_splitAfter _ _

end Segment

end GuestCode
