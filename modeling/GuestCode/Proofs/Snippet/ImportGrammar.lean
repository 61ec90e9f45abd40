import GuestCode.Proofs.Snippet.CapabilityCalls
import GuestCode.Proofs.Snippet.Tokens

/-!
# Import declarations

A grammar of programs that consist of import declarations, stated without reading them: how each
form of declaration is written, and which names it binds. Any two tokens have blanks between them,
and a declaration ends with its line, with or without a semicolon.

The redacted view of such a program is the program with the name of each module blanked out.

## Main statements

* `Imports.Declaration`: import declarations.
* `Imports.text`, `Imports.names`: how a program is written, and the names that it binds.
* `Imports.redact_text`: the redacted view of a program.
-/

namespace GuestCode

namespace Imports

open Text

/-! ## Tokens -/

/-- Blanks between two tokens. -/
structure Gap where
  text : List Char
  isBlank_of_mem : ∀ c ∈ text, isBlank c = true
  ne_nil : text ≠ []

/-- The words of a declaration that are no names. -/
def keywords : List (List Char) :=
  ["import".toList, "type".toList, "as".toList, "from".toList]

/-- A name that is bound or imported. -/
structure Name where
  text : List Char
  isIdentifier : Grammar.isIdentifier text = true
  not_mem : text ∉ keywords

/-- The name of a module, in quotes. -/
structure Specifier where
  quote : Char
  body : List Char
  quote_mem : quote ∈ ['\'', '"']
  quoted : Segment.QuotedBody quote body

/-- A specifier as it is written. -/
def Specifier.text (specifier : Specifier) : List Char :=
  specifier.quote :: (specifier.body ++ [specifier.quote])

/-! ## What is imported -/

/-- An item of a list, with the word `type` before it or under another name or both. -/
structure Item where
  typed : Option Gap
  name : Name
  renamed : Option (Gap × Gap × Name)

/-- The word `type` with the blanks after it, if it is there. -/
def typeText (typed : Option Gap) : List Char :=
  typed.elim [] fun gap => "type".toList ++ gap.text

/-- The word `as` and another name, if it is there. -/
def renamedText (renamed : Option (Gap × Gap × Name)) : List Char :=
  renamed.elim [] fun (gap, gap', name) => gap.text ++ ("as".toList ++ (gap'.text ++ name.text))

namespace Item

/-- An item as it is written. -/
def text (item : Item) : List Char :=
  typeText item.typed ++ (item.name.text ++ renamedText item.renamed)

/-- The name that an item binds. -/
def bound (item : Item) : Name := item.renamed.elim item.name fun (_, _, name) => name

end Item

/-- The items of a list. Each but the last has a comma behind it, and the last one may have. -/
inductive Items where
  | none
  | last (item : Item) (gap : Gap)
  | more (item : Item) (gap gap' : Gap) (others : Items)

namespace Items

/-- Items as they are written. -/
def text : Items → List Char
  | none => []
  | last item gap => item.text ++ gap.text
  | more item gap gap' others => item.text ++ (gap.text ++ ',' :: (gap'.text ++ others.text))

/-- The names that items bind. -/
def names : Items → List Name
  | none => []
  | last item _ => [item.bound]
  | more item _ _ others => item.bound :: others.names

end Items

/-- A list in braces. -/
structure Braces where
  gap : Gap
  items : Items

namespace Braces

/-- What stands between the braces of a list. -/
def inner (list : Braces) : List Char := list.gap.text ++ list.items.text

/-- A list as it is written. -/
def text (list : Braces) : List Char := '\x7b' :: (list.inner ++ ['\x7d'])

/-- The names that a list binds. -/
def names (list : Braces) : List Name := list.items.names

end Braces

/-- A module as a whole, under a name. -/
structure Whole where
  gap : Gap
  gap' : Gap
  name : Name

/-- A module as a whole as it is written. -/
def Whole.text (whole : Whole) : List Char :=
  '*' :: (whole.gap.text ++ ("as".toList ++ (whole.gap'.text ++ whole.name.text)))

/-- What a declaration imports. -/
inductive Clause where
  | byDefault (name : Name)
  | asWhole (whole : Whole)
  | inBraces (list : Braces)
  | defaultAndWhole (name : Name) (gap gap' : Gap) (whole : Whole)
  | defaultAndBraces (name : Name) (gap gap' : Gap) (list : Braces)

namespace Clause

/-- A clause as it is written. -/
def text : Clause → List Char
  | .byDefault name => name.text
  | .asWhole whole => whole.text
  | .inBraces list => list.text
  | .defaultAndWhole name gap gap' whole =>
    name.text ++ (gap.text ++ ',' :: (gap'.text ++ whole.text))
  | .defaultAndBraces name gap gap' list =>
    name.text ++ (gap.text ++ ',' :: (gap'.text ++ list.text))

/-- The names that a clause binds. -/
def names : Clause → List Name
  | .byDefault name => [name]
  | .asWhole whole => [whole.name]
  | .inBraces list => list.names
  | .defaultAndWhole name _ _ whole => [name, whole.name]
  | .defaultAndBraces name _ _ list => name :: list.names

end Clause

/-! ## Declarations -/

/-- What a declaration binds, up to the name of the module. -/
structure Bindings where
  typed : Option Gap
  clause : Clause
  gap : Gap
  gap' : Gap

/-- Bindings as they are written. -/
def Bindings.text (bindings : Bindings) : List Char :=
  typeText bindings.typed ++
    (bindings.clause.text ++ (bindings.gap.text ++ ("from".toList ++ bindings.gap'.text)))

/-- The end of a declaration and of its line. -/
structure Ending where
  semicolon : Option {blanks : List Char // ∀ c ∈ blanks, isBlank c = true}
  gap : Gap
  line : '\n' ∈ gap.text

/-- An ending as it is written. -/
def Ending.text (ending : Ending) : List Char :=
  (ending.semicolon.elim [] fun blanks => blanks.1 ++ [';']) ++ ending.gap.text

/-- An import declaration; one without bindings imports a module for what it does. -/
structure Declaration where
  gap : Gap
  bindings : Option Bindings
  specifier : Specifier
  ending : Ending

namespace Declaration

/-- What stands before the name of the module. -/
def front (declaration : Declaration) : List Char :=
  "import".toList ++ (declaration.gap.text ++ declaration.bindings.elim [] Bindings.text)

/-- A declaration as it is written. -/
def text (declaration : Declaration) : List Char :=
  declaration.front ++ (declaration.specifier.text ++ declaration.ending.text)

/-- The names that a declaration binds. -/
def names (declaration : Declaration) : List Name :=
  declaration.bindings.elim [] fun bindings => bindings.clause.names

/-- A declaration without bindings that nothing but its line ends. -/
def IsOpenBare (declaration : Declaration) : Prop :=
  declaration.bindings = none ∧ declaration.ending.semicolon = none

/-- A declaration of values that has a list and no other names. -/
def IsListOnly (declaration : Declaration) : Prop :=
  ∃ bindings list, declaration.bindings = some bindings ∧ bindings.typed = none ∧
    bindings.clause = .inBraces list

end Declaration

/-- A program as it is written. -/
def text (program : List Declaration) : List Char := program.flatMap Declaration.text

/-- The local names that a program binds. -/
def names (program : List Declaration) : List (List Char) :=
  (program.flatMap Declaration.names).map Name.text

/-! ## The characters of a program -/

section Characters

variable {c : Char}

/-- The characters of words and of the blanks between them. -/
def isPlainChar (c : Char) : Bool := Grammar.isNameChar c || isBlank c

theorem Gap.plain (gap : Gap) : ∀ c ∈ gap.text, isPlainChar c = true := by
  intro c hc
  simp [isPlainChar, gap.isBlank_of_mem c hc]

theorem Name.isNameChar (name : Name) : ∀ c ∈ name.text, Grammar.isNameChar c = true :=
  isNameChar_of_isIdentifier name.isIdentifier

theorem Name.plain (name : Name) : ∀ c ∈ name.text, isPlainChar c = true := by
  intro c hc
  simp [isPlainChar, name.isNameChar c hc]

theorem isPlainChar_keyword : ∀ word ∈ keywords, ∀ c ∈ word, isPlainChar c = true := by decide

theorem isPlainChar_typeText (typed : Option Gap) :
    ∀ c ∈ typeText typed, isPlainChar c = true := by
  cases typed with
  | none => simp [typeText]
  | some gap =>
    exact List.forall_mem_append.mpr ⟨isPlainChar_keyword _ (by decide), gap.plain⟩

theorem Item.plain (item : Item) : ∀ c ∈ item.text, isPlainChar c = true := by
  obtain ⟨typed, name, renamed⟩ := item
  simp only [Item.text, List.forall_mem_append]
  refine ⟨isPlainChar_typeText typed, name.plain, ?_⟩
  cases renamed with
  | none => simp [renamedText]
  | some other =>
    obtain ⟨gap, gap', name'⟩ := other
    simp only [renamedText, Option.elim, List.forall_mem_append]
    exact ⟨gap.plain, isPlainChar_keyword _ (by decide), gap'.plain, name'.plain⟩

theorem Braces.plain_or_comma (list : Braces) :
    ∀ c ∈ list.inner, isPlainChar c = true ∨ c = ',' := by
  have hplain : ∀ {text : List Char}, (∀ c ∈ text, isPlainChar c = true) →
      ∀ c ∈ text, isPlainChar c = true ∨ c = ',' := fun h c hc => .inl (h c hc)
  have hitems : ∀ items : Items, ∀ c ∈ items.text, isPlainChar c = true ∨ c = ',' := by
    intro items
    induction items with
    | none => simp [Items.text]
    | last item gap =>
      exact hplain (List.forall_mem_append.mpr ⟨item.plain, gap.plain⟩)
    | more item gap gap' others ih =>
      simp only [Items.text, List.forall_mem_append, List.forall_mem_cons]
      exact ⟨hplain item.plain, hplain gap.plain, .inr trivial,
        hplain gap'.plain, ih⟩
  exact List.forall_mem_append.mpr ⟨hplain list.gap.plain, hitems list.items⟩

theorem Whole.plain_or_star (whole : Whole) :
    ∀ c ∈ whole.text, isPlainChar c = true ∨ c = '*' := by
  have hrest : ∀ c ∈ whole.gap.text ++ ("as".toList ++ (whole.gap'.text ++ whole.name.text)),
      isPlainChar c = true := by
    simp only [List.forall_mem_append]
    exact ⟨whole.gap.plain, isPlainChar_keyword _ (by decide), whole.gap'.plain,
      whole.name.plain⟩
  exact List.forall_mem_cons.mpr ⟨.inr rfl, fun c hc => .inl (hrest c hc)⟩

/-- The characters of a declaration up to the name of the module. -/
def isFrontChar (c : Char) : Bool := isPlainChar c || "*,\x7b\x7d".toList.contains c

theorem not_mem_of_isFrontChar (h : isFrontChar c = true) :
    c ∉ ['\'', '"', '\x60', '/', ';'] := by
  have hall : ∀ c ∈ ['\'', '"', '\x60', '/', ';'], isFrontChar c = false := by decide
  intro hc
  rw [hall c hc] at h
  cases h

theorem isFrontChar_of_isPlainChar (h : isPlainChar c = true) : isFrontChar c = true :=
  Bool.or_eq_true_iff.mpr (.inl h)

theorem Braces.allowed (list : Braces) : ∀ c ∈ list.text, isFrontChar c = true := by
  simp only [Braces.text, List.forall_mem_cons, List.forall_mem_append]
  refine ⟨by decide, fun c hc => ?_, by decide, by simp⟩
  rcases list.plain_or_comma c hc with h | rfl
  · exact isFrontChar_of_isPlainChar h
  · decide

theorem Whole.allowed (whole : Whole) : ∀ c ∈ whole.text, isFrontChar c = true := by
  intro c hc
  rcases whole.plain_or_star c hc with h | rfl
  · exact isFrontChar_of_isPlainChar h
  · decide

theorem Clause.allowed (clause : Clause) : ∀ c ∈ clause.text, isFrontChar c = true := by
  have hplain : ∀ {text : List Char}, (∀ c ∈ text, isPlainChar c = true) →
      ∀ c ∈ text, isFrontChar c = true := fun h c hc => isFrontChar_of_isPlainChar (h c hc)
  cases clause with
  | byDefault name => exact hplain name.plain
  | asWhole whole => exact whole.allowed
  | inBraces list => exact list.allowed
  | defaultAndWhole name gap gap' whole =>
    simp only [Clause.text, List.forall_mem_append, List.forall_mem_cons]
    exact ⟨hplain name.plain, hplain gap.plain, by decide, hplain gap'.plain,
      whole.allowed⟩
  | defaultAndBraces name gap gap' list =>
    simp only [Clause.text, List.forall_mem_append, List.forall_mem_cons]
    exact ⟨hplain name.plain, hplain gap.plain, by decide, hplain gap'.plain,
      list.allowed⟩

theorem Declaration.allowed (declaration : Declaration) :
    ∀ c ∈ declaration.front, isFrontChar c = true := by
  have hplain : ∀ {text : List Char}, (∀ c ∈ text, isPlainChar c = true) →
      ∀ c ∈ text, isFrontChar c = true := fun h c hc => isFrontChar_of_isPlainChar (h c hc)
  simp only [Declaration.front, List.forall_mem_append]
  refine ⟨hplain (isPlainChar_keyword _ (by decide)), hplain declaration.gap.plain, ?_⟩
  cases declaration.bindings with
  | none => simp
  | some bindings =>
    simp only [Option.elim, Bindings.text, List.forall_mem_append]
    exact ⟨hplain (isPlainChar_typeText _), bindings.clause.allowed,
      hplain bindings.gap.plain, hplain (isPlainChar_keyword _ (by decide)),
      hplain bindings.gap'.plain⟩

theorem Ending.isBlank_of_mem (ending : Ending) :
    ∀ c ∈ ending.text, isBlank c = true ∨ c = ';' := by
  simp only [Ending.text, List.forall_mem_append]
  refine ⟨?_, fun c hc => .inl (ending.gap.isBlank_of_mem c hc)⟩
  cases ending.semicolon with
  | none => simp
  | some blanks =>
    simp only [Option.elim, List.forall_mem_append, List.forall_mem_singleton]
    exact ⟨fun c hc => .inl (blanks.2 c hc), .inr trivial⟩

end Characters

/-! ## The redacted view -/

/-- What stands behind the name of a module in the redacted view: the line ends of the name, and the
end of the declaration. -/
def Declaration.back (declaration : Declaration) : List Char :=
  List.replicate (declaration.specifier.text.count '\n') '\n' ++ declaration.ending.text

/-- The redacted view of a declaration. -/
def Declaration.view (declaration : Declaration) : List Char :=
  declaration.front ++ ("\"\"".toList ++ declaration.back)

/-- The redacted view of a program. -/
def view (program : List Declaration) : List Char := program.flatMap Declaration.view

/-- The tokens of a declaration. -/
def Declaration.tokens (declaration : Declaration) : List Segment :=
  [⟨.code, declaration.front⟩, ⟨.string, declaration.specifier.text⟩,
    ⟨.code, declaration.ending.text⟩]

theorem Declaration.isToken (declaration : Declaration) :
    ∀ s ∈ declaration.tokens, Segment.IsToken s := by
  simp only [tokens, List.forall_mem_cons]
  refine ⟨.code ?_ ?_, .string declaration.specifier.quote_mem declaration.specifier.quoted,
    .code ?_ ?_, by simp⟩
  · simp [front]
  · intro c hc hmem
    apply not_mem_of_isFrontChar (declaration.allowed c hc)
    have hall : ∀ c ∈ ['\'', '"', '\x60', '/'], c ∈ ['\'', '"', '\x60', '/', ';'] := by decide
    exact hall c hmem
  · simp [Ending.text, declaration.ending.gap.ne_nil]
  · intro c hc
    rcases declaration.ending.isBlank_of_mem c hc with hblank | rfl
    · exact Segment.not_mem_openers_of_isBlank hblank
    · decide

theorem wellFormed_tokens (program : List Declaration) :
    Segment.WellFormed (program.flatMap Declaration.tokens) := by
  constructor
  · intro s hs
    obtain ⟨declaration, -, hs⟩ := List.mem_flatMap.mp hs
    exact declaration.isToken s hs
  · -- No token is a line comment.
    have hkind : ∀ s ∈ program.flatMap Declaration.tokens, s.kind ≠ .lineComment := by
      intro s hs
      obtain ⟨declaration, -, hs⟩ := List.mem_flatMap.mp hs
      simp only [Declaration.tokens, List.mem_cons, List.not_mem_nil, or_false] at hs
      rcases hs with rfl | rfl | rfl
      all_goals simp
    apply List.Pairwise.isChain
    apply List.Pairwise.imp_of_mem _ (List.pairwise_of_forall (R := fun _ _ => True) (by simp))
    intro s next hs _ _ hline
    exact absurd hline (hkind s hs)

theorem flatMap_redacted_mergeCode (tokens : List Segment) :
    (Segment.mergeCode tokens).flatMap Segment.redacted = tokens.flatMap Segment.redacted := by
  induction tokens with
  | nil => rfl
  | cons s rest ih =>
    rw [Segment.mergeCode]
    split
    · next text others hkind hmerged =>
      rw [hmerged, List.flatMap_cons] at ih
      rw [List.flatMap_cons, List.flatMap_cons, ← ih]
      simp [Segment.redacted, hkind]
    · rw [List.flatMap_cons, List.flatMap_cons, ih]

/-- The redacted view of a program is the program with the names of modules blanked out. -/
theorem redact_text (program : List Declaration) : redact (text program) = view program := by
  have htext : text program = (program.flatMap Declaration.tokens).flatMap Segment.text := by
    rw [text, List.flatMap_assoc]
    congr 1
    funext declaration
    simp [Declaration.text, Declaration.tokens]
  have hsplit : Segment.split (text program) =
      Segment.mergeCode (program.flatMap Declaration.tokens) := by
    rw [htext]
    exact Segment.splitAfter_flatMap_text (wellFormed_tokens program) .start
  rw [redact, hsplit, flatMap_redacted_mergeCode, List.flatMap_assoc, view]
  congr 1
  funext declaration
  simp [Declaration.view, Declaration.tokens, Declaration.back, Segment.redacted,
    Segment.Kind.isComment]

end Imports

end GuestCode
