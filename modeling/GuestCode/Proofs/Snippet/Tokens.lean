import GuestCode.Snippet.Region
import Mathlib.Data.List.Chain

/-!
# Recognition of tokens

A grammar of snippets that is stated without reading them: what a comment, a quoted string and a
template literal consist of, and how these may follow one another. Dividing a snippet that is
written by this grammar gives back exactly the tokens it was written from.

The grammar leaves the `/` to comments. Where a `/` divides or opens a regular expression depends on
the code before it, which no token on its own can tell.

## Main statements

* `Segment.afterTemplate_append`: reading passes over the inside of a template, however deep the
  holes in it are nested.
* `Segment.splitAfter_flatMap_text`: a sequence of tokens is divided into these tokens, whatever
  code stands before it.
* `Region.ofSource_flatMap_text`: the regions of the snippet are those of its tokens.
-/

namespace GuestCode

namespace Segment

/-! ## The grammar -/

/-- The inside of a quoted string. -/
inductive QuotedBody (quote : Char) : List Char → Prop where
  | nil : QuotedBody quote []
  | char {c : Char} {cs : List Char} :
      c ≠ quote → c ≠ '\\' → c ≠ '\n' → QuotedBody quote cs → QuotedBody quote (c :: cs)
  | escape {c : Char} {cs : List Char} : QuotedBody quote cs → QuotedBody quote ('\\' :: c :: cs)

/-- The inside of a block comment: the mark that ends the comment does not occur in it. -/
def BlockBody (body : List Char) : Prop := ¬ ['*', '/'] <:+: body

/-- The two kinds of text inside a template literal: what is printed, and the code of a hole. -/
inductive Layer where
  | printed
  | hole
deriving Repr, DecidableEq, Inhabited

/-- The inside of a template literal, and the inside of a hole in one. Braces in a hole come in
pairs; strings, comments and templates in it are tokens of their own. -/
inductive TemplateBody : Layer → List Char → Prop where
  | printedNil : TemplateBody .printed []
  | printedChar {c : Char} {cs : List Char} :
      c ≠ '\x60' → c ≠ '\\' → ¬ (c = '$' ∧ cs.head? = some '\x7b') →
      TemplateBody .printed cs → TemplateBody .printed (c :: cs)
  | printedEscape {c : Char} {cs : List Char} :
      TemplateBody .printed cs → TemplateBody .printed ('\\' :: c :: cs)
  | printedHole {code cs : List Char} :
      TemplateBody .hole code → TemplateBody .printed cs →
      TemplateBody .printed ('$' :: '\x7b' :: (code ++ '\x7d' :: cs))
  | holeNil : TemplateBody .hole []
  | holeChar {c : Char} {cs : List Char} :
      c ∉ ['\'', '"', '\x60', '/', '\x7b', '\x7d'] →
      TemplateBody .hole cs → TemplateBody .hole (c :: cs)
  | holeBraces {code cs : List Char} :
      TemplateBody .hole code → TemplateBody .hole cs →
      TemplateBody .hole ('\x7b' :: (code ++ '\x7d' :: cs))
  | holeString {quote : Char} {body cs : List Char} :
      quote ∈ ['\'', '"'] → QuotedBody quote body →
      TemplateBody .hole cs → TemplateBody .hole (quote :: (body ++ quote :: cs))
  | holeBlock {body cs : List Char} :
      BlockBody body → TemplateBody .hole cs →
      TemplateBody .hole ('/' :: '*' :: (body ++ '*' :: '/' :: cs))
  | holeLine {body cs : List Char} :
      '\n' ∉ body → TemplateBody .hole cs →
      TemplateBody .hole ('/' :: '/' :: (body ++ '\n' :: cs))
  | holeTemplate {body cs : List Char} :
      TemplateBody .printed body → TemplateBody .hole cs →
      TemplateBody .hole ('\x60' :: (body ++ '\x60' :: cs))

/-- The tokens of each kind. A chunk of code is any text without quotes and slashes. -/
inductive IsToken : Segment → Prop where
  | code {text : List Char} :
      text ≠ [] → (∀ c ∈ text, c ∉ ['\'', '"', '\x60', '/']) → IsToken ⟨.code, text⟩
  | lineComment {body : List Char} : '\n' ∉ body → IsToken ⟨.lineComment, '/' :: '/' :: body⟩
  | blockComment {body : List Char} :
      BlockBody body → IsToken ⟨.blockComment, '/' :: '*' :: (body ++ ['*', '/'])⟩
  | string {quote : Char} {body : List Char} :
      quote ∈ ['\'', '"'] → QuotedBody quote body → IsToken ⟨.string, quote :: (body ++ [quote])⟩
  | template {body : List Char} :
      TemplateBody .printed body → IsToken ⟨.template, '\x60' :: (body ++ ['\x60'])⟩

/-- What may stand after a token: after a line comment only code that starts with a line end. -/
def MayPrecede (s next : Segment) : Prop :=
  s.kind = .lineComment → next.kind = .code ∧ next.text.head? = some '\n'

/-- A sequence of tokens that can be told apart when they are joined. -/
structure WellFormed (tokens : List Segment) : Prop where
  isToken : ∀ s ∈ tokens, IsToken s
  inOrder : tokens.IsChain MayPrecede

/-- Tokens with each run of code chunks as one chunk. -/
def mergeCode : List Segment → List Segment
  | [] => []
  | s :: rest =>
    match s.kind, mergeCode rest with
    | .code, ⟨.code, text⟩ :: others => ⟨.code, s.text ++ text⟩ :: others
    | _, merged => s :: merged

/-! ## Reading past a token -/

theorem afterQuoted_cons {quote c : Char} (h : c ≠ '\\') (cs : List Char) :
    afterQuoted quote (c :: cs) =
      if c == quote then cs else if c == '\n' then c :: cs else afterQuoted quote cs := by
  cases cs <;> simp [afterQuoted, h]

theorem afterQuoted_append {quote : Char} {body : List Char} (h : QuotedBody quote body)
    (hq : quote ≠ '\\') (rest : List Char) : afterQuoted quote (body ++ quote :: rest) = rest := by
  induction h with
  | nil => simp [afterQuoted_cons hq]
  | char hquote hslash hline _ ih => simp [afterQuoted_cons hslash, hquote, hline, ih]
  | escape _ ih => simpa [afterQuoted] using ih

theorem afterLine_append {body rest : List Char} (h : '\n' ∉ body)
    (hrest : ∀ c ∈ rest.head?, c = '\n') : afterLine (body ++ rest) = rest := by
  have hbody : ∀ c ∈ body, (c != '\n') = true := by
    intro c hc
    simpa using ne_of_mem_of_not_mem hc h
  rw [afterLine, List.dropWhile_append_of_pos hbody]
  cases rest with
  | nil => rfl
  | cons c cs =>
    have hc : c = '\n' := hrest c rfl
    simp [hc]

theorem BlockBody.tail {c : Char} {body : List Char} (h : BlockBody (c :: body)) :
    BlockBody body := fun hin => h (hin.trans (List.suffix_cons c body).isInfix)

theorem afterBlock_append {body : List Char} (h : BlockBody body) (rest : List Char) :
    afterBlock (body ++ '*' :: '/' :: rest) = rest := by
  induction body with
  | nil => simp [afterBlock]
  | cons c body ih =>
    -- The mark does not start at `c`: it would occur in the body, or start with the next character.
    have hstep : ∀ ds, c = '*' → body ++ '*' :: '/' :: rest = '/' :: ds → False := by
      rintro ds rfl hds
      cases body with
      | nil => simp at hds
      | cons d body =>
        obtain ⟨rfl, -⟩ := List.cons.inj hds
        exact h (List.prefix_append ['*', '/'] body).isInfix
    rw [List.cons_append, afterBlock.eq_3 _ _ hstep, ih h.tail]

/-- What reading a template does with a character of the code of a hole. -/
theorem afterTemplate_hole_cons (depth : Nat) (outer : List (Option Nat)) (c : Char)
    (cs : List Char) :
    afterTemplate (some depth :: outer) (c :: cs) =
      if c == '\'' || c == '"' then afterTemplate (some depth :: outer) (afterQuoted c cs)
      else if c == '\x60' then afterTemplate (none :: some depth :: outer) cs
      else if c == '/' && cs.head? == some '*' then
        afterTemplate (some depth :: outer) (afterBlock cs.tail)
      else if c == '/' && cs.head? == some '/' then
        afterTemplate (some depth :: outer) (afterLine cs)
      else if c == '\x7b' then afterTemplate (some (depth + 1) :: outer) cs
      else if c == '\x7d' then
        afterTemplate (if depth = 0 then outer else some (depth - 1) :: outer) cs
      else afterTemplate (some depth :: outer) cs := by
  cases depth <;> simp [afterTemplate]

/-- The states of reading a template from which the inside of a layer is passed over. -/
def Layer.admits : Layer → Option Nat → Prop
  | .printed, state => state = none
  | .hole, state => state ≠ none

/-- Reading passes over the inside of a template, or of a hole in one, and is then in the state it
was in before. The next character must not make a hole of a `$` that ends the inside. -/
theorem afterTemplate_append {layer : Layer} {body : List Char} (h : TemplateBody layer body) :
    ∀ {state : Option Nat} {rest : List Char} (outer : List (Option Nat)), layer.admits state →
      rest.head? ≠ some '\x7b' ∨ layer = .hole →
      afterTemplate (state :: outer) (body ++ rest) = afterTemplate (state :: outer) rest := by
  induction h with
  | printedNil => intros; rfl
  | @printedChar c cs htick hslash hdollar _ ih =>
    rintro state rest outer rfl hrest
    have hhole : ¬ (c = '$' ∧ (cs ++ rest).head? = some '\x7b') := by
      rintro ⟨rfl, hhead⟩
      cases cs with
      | nil => exact hrest.elim (fun hne => hne hhead) (fun hlayer => nomatch hlayer)
      | cons d ds => exact hdollar ⟨rfl, hhead⟩
    rw [List.cons_append, afterTemplate]
    simp only [beq_iff_eq, htick, hslash, if_false, Bool.and_eq_true, hhole]
    exact ih outer rfl hrest
  | printedEscape _ ih =>
    rintro state rest outer rfl hrest
    simpa [afterTemplate] using ih outer rfl hrest
  | @printedHole code cs _ _ ihcode ih =>
    rintro state rest outer rfl hrest
    have hopen : afterTemplate (none :: outer) ('$' :: '\x7b' :: (code ++ '\x7d' :: cs) ++ rest) =
        afterTemplate (some 0 :: none :: outer) (code ++ ('\x7d' :: (cs ++ rest))) := by
      simp [afterTemplate]
    rw [hopen, ihcode _ (by simp [Layer.admits]) (.inr rfl), afterTemplate_hole_cons]
    simpa using ih outer rfl hrest
  | holeNil => intros; rfl
  | @holeChar c cs hc _ ih =>
    intro state rest outer hstate hrest
    obtain ⟨depth, rfl⟩ := Option.ne_none_iff_exists'.1 hstate
    simp only [List.mem_cons, List.not_mem_nil, or_false, not_or] at hc
    rw [List.cons_append, afterTemplate_hole_cons]
    simp only [beq_iff_eq, Bool.or_eq_true, Bool.and_eq_true, hc, false_and, or_self, if_false]
    exact ih outer hstate hrest
  | @holeBraces code cs _ _ ihcode ih =>
    intro state rest outer hstate hrest
    obtain ⟨depth, rfl⟩ := Option.ne_none_iff_exists'.1 hstate
    have hopen : afterTemplate (some depth :: outer) ('\x7b' :: (code ++ '\x7d' :: cs) ++ rest) =
        afterTemplate (some (depth + 1) :: outer) (code ++ ('\x7d' :: (cs ++ rest))) := by
      rw [List.cons_append, afterTemplate_hole_cons]
      simp
    rw [hopen, ihcode _ (by simp [Layer.admits]) (.inr rfl), afterTemplate_hole_cons]
    simpa using ih outer hstate hrest
  | @holeString quote body cs hquote hbody _ ih =>
    intro state rest outer hstate hrest
    obtain ⟨depth, rfl⟩ := Option.ne_none_iff_exists'.1 hstate
    have hslash : quote ≠ '\\' := by
      rintro rfl
      simp at hquote
    rw [List.cons_append, List.append_assoc, List.cons_append, afterTemplate_hole_cons,
      afterQuoted_append hbody hslash, if_pos (by simpa using hquote)]
    exact ih outer hstate hrest
  | @holeBlock body cs hbody _ ih =>
    intro state rest outer hstate hrest
    obtain ⟨depth, rfl⟩ := Option.ne_none_iff_exists'.1 hstate
    have hpast : afterBlock (body ++ '*' :: '/' :: (cs ++ rest)) = cs ++ rest :=
      afterBlock_append hbody _
    rw [List.cons_append, afterTemplate_hole_cons]
    simpa [hpast] using ih outer hstate hrest
  | @holeLine body cs hbody _ ih =>
    intro state rest outer hstate hrest
    obtain ⟨depth, rfl⟩ := Option.ne_none_iff_exists'.1 hstate
    have hpast : afterLine ('/' :: (body ++ '\n' :: (cs ++ rest))) = '\n' :: (cs ++ rest) :=
      @afterLine_append ('/' :: body) _ (by simpa using hbody) (by simp)
    have hline : afterTemplate (some depth :: outer) ('\n' :: (cs ++ rest)) =
        afterTemplate (some depth :: outer) (cs ++ rest) := by
      rw [afterTemplate_hole_cons]
      simp
    rw [List.cons_append, afterTemplate_hole_cons]
    simpa [hpast, hline] using ih outer hstate hrest
  | @holeTemplate body cs _ _ ihbody ih =>
    intro state rest outer hstate hrest
    obtain ⟨depth, rfl⟩ := Option.ne_none_iff_exists'.1 hstate
    have hopen : afterTemplate (some depth :: outer) ('\x60' :: (body ++ '\x60' :: cs) ++ rest) =
        afterTemplate (none :: some depth :: outer) (body ++ '\x60' :: (cs ++ rest)) := by
      rw [List.cons_append, afterTemplate_hole_cons]
      simp
    rw [hopen, ihbody _ rfl (.inl (by simp)), afterTemplate]
    simpa using ih outer hstate hrest

/-! ## Dividing a sequence of tokens -/

theorem splitAfter_token {look : Lookback} {c : Char} {body rest : List Char} {kind : Kind}
    (h : token? look c (body ++ rest) = some (kind, rest)) :
    splitAfter look (c :: (body ++ rest)) =
      ⟨kind, c :: body⟩ :: splitAfter (look.afterToken kind) rest := by
  rw [splitAfter]
  split
  · rename_i kind' rest' h'
    obtain ⟨rfl, rfl⟩ : kind = kind' ∧ rest = rest' := by simpa [h] using h'
    simp
  · rename_i h'
    rw [h] at h'
    cases h'

theorem splitAfter_of_none {look : Lookback} {c : Char} {cs : List Char}
    (h : token? look c cs = none) :
    splitAfter look (c :: cs) = consCode c (splitAfter (look.afterCode c) cs) := by
  rw [splitAfter]
  split
  · rename_i h'
    rw [h] at h'
    cases h'
  · rfl

/-- A comment or literal is divided from what follows it; after a line comment this must be the end
of the line. -/
theorem splitAfter_isToken {s : Segment} (h : IsToken s) (hkind : s.kind ≠ .code)
    {after : List Char} (hafter : s.kind = .lineComment → ∀ c ∈ after.head?, c = '\n')
    (look : Lookback) :
    splitAfter look (s.text ++ after) = s :: splitAfter (look.afterToken s.kind) after := by
  cases h with
  | code => exact absurd rfl hkind
  | @lineComment body hbody =>
    have htoken : token? look '/' (('/' :: body) ++ after) = some (.lineComment, after) := by
      have hpast : afterLine (('/' :: body) ++ after) = after :=
        afterLine_append (by simpa using hbody) (hafter rfl)
      simp only [token?, hpast]
      simp
    rw [List.cons_append, splitAfter_token htoken]
  | @blockComment body hbody =>
    have htoken : token? look '/' (('*' :: (body ++ ['*', '/'])) ++ after) =
        some (.blockComment, after) := by
      have hpast := afterBlock_append hbody after
      simp [token?, hpast]
    rw [List.cons_append, splitAfter_token htoken]
  | @string quote body hquote hbody =>
    have hslash : quote ≠ '\\' ∧ quote ≠ '/' := by
      constructor <;> rintro rfl <;> simp at hquote
    have htoken : token? look quote ((body ++ [quote]) ++ after) = some (.string, after) := by
      have hpast := afterQuoted_append hbody hslash.1 after
      simp only [List.mem_cons, List.not_mem_nil, or_false] at hquote
      simp [token?, hslash.2, hquote, hpast]
    rw [List.cons_append, splitAfter_token htoken]
  | @template body hbody =>
    have htoken : token? look '\x60' ((body ++ ['\x60']) ++ after) = some (.template, after) := by
      have hpast : afterTemplate [none] (body ++ '\x60' :: after) = after := by
        rw [afterTemplate_append hbody [] rfl (.inl (by simp)), afterTemplate]
        simp [afterTemplate]
      simp [token?, hpast]
    rw [List.cons_append, splitAfter_token htoken]

/-- No token opens with a character of a code chunk. -/
theorem token?_eq_none {c : Char} (h : c ∉ ['\'', '"', '\x60', '/']) (look : Lookback)
    (cs : List Char) : token? look c cs = none := by
  simp only [List.mem_cons, List.not_mem_nil, or_false, not_or] at h
  simp [token?, h]

/-- The characters of a code chunk join the code that follows them. -/
theorem splitAfter_code {text : List Char} (h : ∀ c ∈ text, c ∉ ['\'', '"', '\x60', '/'])
    (look : Lookback) (rest : List Char) :
    ∃ later, splitAfter look (text ++ rest) = text.foldr consCode (splitAfter later rest) := by
  induction text generalizing look with
  | nil => exact ⟨look, rfl⟩
  | cons c cs ih =>
    have hc : token? look c (cs ++ rest) = none := token?_eq_none (h c List.mem_cons_self) look _
    obtain ⟨later, hlater⟩ := ih (fun d hd => h d (List.mem_cons_of_mem c hd)) (look.afterCode c)
    exact ⟨later, by rw [List.cons_append, splitAfter_of_none hc, hlater, List.foldr_cons]⟩

theorem foldr_consCode_mergeCode {text : List Char} (h : text ≠ []) (rest : List Segment) :
    text.foldr consCode (mergeCode rest) = mergeCode (⟨.code, text⟩ :: rest) := by
  induction text with
  | nil => exact absurd rfl h
  | cons c cs ih =>
    cases cs with
    | nil =>
      rw [mergeCode]
      rcases mergeCode rest with _ | ⟨⟨kind, text⟩, others⟩
      · rfl
      · cases kind <;> rfl
    | cons d ds =>
      rw [List.foldr_cons, ih (List.cons_ne_nil d ds), mergeCode, mergeCode]
      rcases mergeCode rest with _ | ⟨⟨kind, text⟩, others⟩
      · rfl
      · cases kind <;> rfl

theorem mergeCode_cons {s : Segment} (h : s.kind ≠ .code) (rest : List Segment) :
    mergeCode (s :: rest) = s :: mergeCode rest := by
  rw [mergeCode]
  split
  · next hkind _ => exact absurd hkind h
  · rfl

/-- A sequence of tokens is divided into these tokens, whatever code stands before it. -/
theorem splitAfter_flatMap_text {tokens : List Segment} (h : WellFormed tokens) (look : Lookback) :
    splitAfter look (tokens.flatMap Segment.text) = mergeCode tokens := by
  induction tokens generalizing look with
  | nil => rw [List.flatMap_nil, splitAfter, mergeCode]
  | cons s rest ih =>
    have hrest : WellFormed rest :=
      ⟨fun t ht => h.isToken t (List.mem_cons_of_mem s ht), h.inOrder.tail⟩
    have htoken := h.isToken s List.mem_cons_self
    rw [List.flatMap_cons]
    by_cases hkind : s.kind = .code
    · cases htoken with
      | @code text hne hplain =>
        obtain ⟨later, hlater⟩ := splitAfter_code hplain look (rest.flatMap Segment.text)
        rw [hlater, ih hrest, foldr_consCode_mergeCode hne]
      | _ => cases hkind
    · have hnext : s.kind = .lineComment → ∀ c ∈ (rest.flatMap Segment.text).head?, c = '\n' := by
        intro hline c hc
        cases rest with
        | nil => simp at hc
        | cons next others =>
          obtain ⟨-, hnewline⟩ := (List.isChain_cons_cons.1 h.inOrder).1 hline
          rw [List.flatMap_cons, List.head?_append, hnewline] at hc
          simpa using hc.symm
      rw [splitAfter_isToken htoken hkind hnext, ih hrest, mergeCode_cons hkind]

end Segment

/-! ## The regions of a sequence of tokens -/

theorem Region.slice_append_append (before text rest : List Char) :
    Region.slice (before ++ (text ++ rest)) before.length (before.length + text.length) = text := by
  simp [Region.slice]

/-- Each region holds the text of the segment that it was made of. -/
theorem Region.map_ofSegments (segments : List Segment) (before : List Char) :
    (Region.ofSegments before.length segments).map (fun r =>
      (⟨r.kind, r.text (before ++ segments.flatMap Segment.text)⟩ : Segment)) = segments := by
  induction segments generalizing before with
  | nil => rfl
  | cons s rest ih =>
    have hhead : Region.text (before ++ (s :: rest).flatMap Segment.text)
        ⟨s.kind, before.length, before.length + s.text.length⟩ = s.text :=
      Region.slice_append_append before s.text _
    have htail := ih (before ++ s.text)
    rw [List.length_append, List.append_assoc, ← List.flatMap_cons] at htail
    rw [Region.ofSegments, List.map_cons, htail, hhead]

/-- The regions of a snippet that is written from tokens follow one another from the start of the
snippet. There is one for each token, of its kind and with its text, but only one for a run of code
chunks. -/
theorem Region.ofSource_flatMap_text {tokens : List Segment} (h : Segment.WellFormed tokens) :
    let source := tokens.flatMap Segment.text
    Region.ofSource source = Region.ofSegments 0 (Segment.mergeCode tokens) ∧
      (Region.ofSource source).map (fun r => (⟨r.kind, r.text source⟩ : Segment)) =
        Segment.mergeCode tokens := by
  intro source
  have hsplit : Segment.split source = Segment.mergeCode tokens :=
    Segment.splitAfter_flatMap_text h .start
  have hregions : Region.ofSource source = Region.ofSegments 0 (Segment.mergeCode tokens) := by
    rw [Region.ofSource, hsplit]
  have hsource : source = (Segment.mergeCode tokens).flatMap Segment.text := by
    rw [← hsplit, Segment.flatMap_split]
  refine ⟨hregions, ?_⟩
  rw [hregions, hsource]
  exact Region.map_ofSegments (Segment.mergeCode tokens) []

/-- Tokens of all kinds: in the hole of the template stand a string and a comment that hold a brace,
and another template. -/
def Segment.nestedTokens : List Segment :=
  [⟨.code, ['x', '=']⟩,
    ⟨.template, '\x60' :: ('a' :: '$' :: '\x7b' ::
      (('\x7b' :: (('"' :: (['\x7d'] ++ '"' :: ('/' :: '*' :: (['\x7d'] ++ '*' :: '/' :: [])))) ++
        '\x7d' :: ('\x60' :: (['$', '$'] ++ '\x60' :: [])))) ++ '\x7d' :: ['b']) ++ ['\x60'])⟩,
    ⟨.lineComment, '/' :: '/' :: ['\x60']⟩, ⟨.code, ['\n', ';']⟩, ⟨.code, ['y']⟩,
    ⟨.string, '\'' :: (['\\', '\'', '/'] ++ ['\''])⟩,
    ⟨.blockComment, '/' :: '*' :: (['/', '*'] ++ ['*', '/'])⟩]

theorem Segment.wellFormed_nestedTokens : WellFormed nestedTokens where
  isToken := by
    have hstring : QuotedBody '"' ['\x7d'] := .char (by decide) (by decide) (by decide) .nil
    have hbraces : TemplateBody .hole
        ('"' :: (['\x7d'] ++ '"' :: ('/' :: '*' :: (['\x7d'] ++ '*' :: '/' :: [])))) :=
      .holeString (by decide) hstring (.holeBlock (by unfold BlockBody; decide) .holeNil)
    have hinner : TemplateBody .printed ['$', '$'] :=
      .printedChar (by decide) (by decide) (by decide)
        (.printedChar (by decide) (by decide) (by decide) .printedNil)
    have hafter : TemplateBody .printed ['b'] :=
      .printedChar (by decide) (by decide) (by decide) .printedNil
    have hbody := TemplateBody.printedHole
      (.holeBraces hbraces (.holeTemplate hinner .holeNil)) hafter
    have hquoted : QuotedBody '\'' ['\\', '\'', '/'] :=
      .escape (.char (by decide) (by decide) (by decide) .nil)
    simp only [nestedTokens, List.forall_mem_cons]
    exact ⟨.code (by simp) (by simp),
      .template (.printedChar (by decide) (by decide) (by decide) hbody),
      .lineComment (by decide), .code (by simp) (by simp), .code (by simp) (by simp),
      .string (by decide) hquoted, .blockComment (by unfold BlockBody; decide), by simp⟩
  inOrder := by
    simp [nestedTokens, MayPrecede]

theorem Region.ofSource_nestedTokens :
    Segment.WellFormed Segment.nestedTokens ∧
      Region.ofSource (Segment.nestedTokens.flatMap Segment.text) =
        [⟨.code, 0, 2⟩, ⟨.template, 2, 23⟩, ⟨.lineComment, 23, 26⟩, ⟨.code, 26, 29⟩,
          ⟨.string, 29, 34⟩, ⟨.blockComment, 34, 40⟩] :=
  ⟨Segment.wellFormed_nestedTokens,
    (Region.ofSource_flatMap_text Segment.wellFormed_nestedTokens).1.trans (by decide)⟩

end GuestCode
