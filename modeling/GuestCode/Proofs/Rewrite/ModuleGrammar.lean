import GuestCode.Proofs.Text.Edges
import GuestCode.Proofs.Text.Words
import GuestCode.Rewrite.Modules
import GuestCode.Snippet.Dialect

/-!
# Programs with module syntax

A grammar of programs whose lines are plain or belong to `import` and `export` declarations, each of
which starts at the start of a line. A line is plain if neither word occurs in it, whatever else it
holds; in a declaration the words occur only at its start.

What is to remain of a declaration is told apart from what is left of it. Not every declaration is
recognised: an import of names is not if no blank stands behind the word `import`, a default export
if none stands behind the word `default`, and no declaration is that names a module by no name.

## Main statements

* `ModuleSyntax.Form`, `ModuleSyntax.Item`: declarations, and declarations and plain lines.
* `ModuleSyntax.text`: a program as it is written.
* `ModuleSyntax.Item.remains`, `ModuleSyntax.Item.left`: what is to remain of an item, and what is
  left of it.
* `ModuleSyntax.IsApart`: no list of exports goes on in the lines behind it.
-/

namespace GuestCode

open Text

namespace ModuleSyntax

/-! ## Plain texts -/

/-- The words that module syntax starts with. -/
def marks : List (List Char) := ["import".toList, "export".toList]

theorem mem_marks {word : List Char} :
    word ∈ marks ↔ word = "import".toList ∨ word = "export".toList :=
  List.mem_pair

/-- A text in which the words of module syntax do not occur. -/
def IsPlain (text : List Char) : Prop := ∀ word ∈ marks, ¬word <:+: text

instance (text : List Char) : Decidable (IsPlain text) :=
  inferInstanceAs (Decidable (∀ word ∈ marks, ¬word <:+: text))

theorem IsPlain.of_infix {part text : List Char} (h : IsPlain text) (hpart : part <:+: text) :
    IsPlain part :=
  fun word hword hin => h word hword (hin.trans hpart)

theorem isPlain_of_isBlank {text : List Char} (h : ∀ c ∈ text, isBlank c = true) :
    IsPlain text := by
  intro word hword hinfix
  obtain ⟨c, hc, hblank⟩ : ∃ c ∈ word, isBlank c = false := by
    rcases mem_marks.mp hword with rfl | rfl
    · exact ⟨'i', by decide, by decide⟩
    · exact ⟨'e', by decide, by decide⟩
  exact nomatch (h c (List.IsInfix.subset hinfix hc)).symm.trans hblank

theorem isPlain_nil : IsPlain [] := isPlain_of_isBlank (List.forall_mem_nil _)

/-! ## Tokens -/

/-- Blanks between two tokens, if there are any. -/
structure Blanks where
  text : List Char
  isBlank_of_mem : ∀ c ∈ text, isBlank c = true

/-- The name of a module, in quotes. -/
structure Specifier where
  quote : Char
  name : List Char
  quote_mem : quote ∈ ['\'', '"']
  not_mem : ∀ c ∈ name, c ∉ ['\'', '"', '\n']

/-- A specifier as it is written. -/
def Specifier.text (specifier : Specifier) : List Char :=
  specifier.quote :: (specifier.name ++ [specifier.quote])

/-- Spaces and tabs. -/
def isSpace (c : Char) : Bool := " \t".toList.contains c

/-- The end of a declaration on its line: a semicolon, if there is one, and the blanks around it. -/
structure Ending where
  spaces : List Char
  semicolon : Bool
  blanks : Blanks
  isSpace_of_mem : ∀ c ∈ spaces, isSpace c = true

namespace Ending

/-- An ending as it is written. -/
def text (ending : Ending) : List Char :=
  ending.spaces ++ ((if ending.semicolon then [';'] else []) ++ ending.blanks.text)

/-- What is left of an ending: the blanks behind its last spaces and tabs. -/
def left (ending : Ending) : List Char := ending.blanks.text.dropWhile isSpace

end Ending

/-! ## Declarations -/

/-- An import of names: of a default, of a list, of a module as a whole, or of types. The body is
all that is written up to the word `from`. -/
structure FromImport where
  gap : Blanks
  body : List Char
  gap' : Blanks
  source : Specifier
  ending : Ending
  not_mem : ∀ c ∈ body, c ∉ [';', '\'', '"', '\x60']
  head : body.head?.any isBlank = false
  first : (gap.text ++ body).head?.any Grammar.isNameChar = false
  last : (gap.text ++ body).getLast?.any (fun c => !isWordChar c) = true

/-- An import of a module for what it does. -/
structure BareImport where
  gap : Blanks
  source : Specifier
  ending : Ending

/-- What stands behind the names of a list: nothing, a semicolon, or the module they come from. -/
inductive ListEnd where
  | unclosed (gap : Blanks)
  | semicolon (gap blanks : Blanks)
  | origin (gap gap' : Blanks) (source : Specifier) (ending : Ending)

/-- An export of a list of names, of types maybe. -/
structure ListExport where
  gap : Blanks
  typed : Option Blanks
  names : List Char
  close : ListEnd
  not_mem : '\x7d' ∉ names
  first : typed ≠ none → gap.text ≠ []

/-- A name for all that is exported. -/
structure Renaming where
  gap : Blanks
  name : List Char
  gap' : Blanks
  gap_ne : gap.text ≠ []
  name_ne : name ≠ []
  isNameChar_of_mem : ∀ c ∈ name, Grammar.isNameChar c = true
  gap'_ne : gap'.text ≠ []

/-- An export of all names of another module. -/
structure StarExport where
  gap : Blanks
  gap' : Blanks
  renamed : Option Renaming
  lastGap : Blanks
  source : Specifier
  ending : Ending

/-- A default export. The body is what is written behind the words on the line. -/
structure DefaultExport where
  gap : Blanks
  gap' : Blanks
  body : List Char
  gap_ne : gap.text ≠ []
  head : body.head?.any (fun c => !isBlank c) = true
  first : (gap'.text ++ body).head?.any Grammar.isNameChar = false

/-- An exported declaration. The body is what is written behind its first word on the line. -/
structure DeclaredExport where
  gap : Blanks
  word : String
  body : List Char
  gap_ne : gap.text ≠ []
  word_mem : word ∈ Dialect.declarationWords
  first : body.head?.any Grammar.isNameChar = false
  named : word = "type" → (body.dropWhile isBlank).head?.any (fun c => c != '\x7b') = true

/-! ### How they are written -/

/-- What stands behind the word `import`. -/
def FromImport.tail (d : FromImport) : List Char :=
  d.gap.text ++ (d.body ++ ("from".toList ++ (d.gap'.text ++ (d.source.text ++ d.ending.text))))

/-- What stands behind the word `import`. -/
def BareImport.tail (d : BareImport) : List Char :=
  d.gap.text ++ (d.source.text ++ d.ending.text)

/-- The end of a list as it is written. -/
def ListEnd.text : ListEnd → List Char
  | unclosed gap => gap.text
  | semicolon gap blanks => gap.text ++ ';' :: blanks.text
  | origin gap gap' source ending =>
    gap.text ++ ("from".toList ++ (gap'.text ++ (source.text ++ ending.text)))

/-- The word `type` before a list, if it is there. -/
def ListExport.typeText (d : ListExport) : List Char :=
  d.typed.elim [] fun gap => "type".toList ++ gap.text

/-- What stands behind the word `export`. -/
def ListExport.tail (d : ListExport) : List Char :=
  d.gap.text ++ (d.typeText ++ '\x7b' :: (d.names ++ '\x7d' :: d.close.text))

/-- The word `as` and the name for all that is exported, if it is there. -/
def StarExport.renamedText (d : StarExport) : List Char :=
  d.renamed.elim [] fun r => "as".toList ++ (r.gap.text ++ (r.name ++ r.gap'.text))

/-- What stands behind the word `export`. -/
def StarExport.tail (d : StarExport) : List Char :=
  d.gap.text ++ '*' :: (d.gap'.text ++ (d.renamedText ++ ("from".toList ++
    (d.lastGap.text ++ (d.source.text ++ d.ending.text)))))

/-- What stands behind the word `export`. -/
def DefaultExport.tail (d : DefaultExport) : List Char :=
  d.gap.text ++ ("default".toList ++ (d.gap'.text ++ d.body))

/-- What is declared. -/
def DeclaredExport.declaration (d : DeclaredExport) : List Char := d.word.toList ++ d.body

/-- What stands behind the word `export`. -/
def DeclaredExport.tail (d : DeclaredExport) : List Char := d.gap.text ++ d.declaration

/-! ### All forms -/

/-- The forms of declarations. -/
inductive Form where
  | fromImport (d : FromImport)
  | bareImport (d : BareImport)
  | listExport (d : ListExport)
  | starExport (d : StarExport)
  | defaultExport (d : DefaultExport)
  | declaredExport (d : DeclaredExport)

/-- Whether the end of a list is recognised. -/
def ListEnd.IsRecognised : ListEnd → Prop
  | unclosed _ | semicolon .. => True
  | origin _ _ source _ => source.name ≠ []

instance : (close : ListEnd) → Decidable close.IsRecognised
  | .unclosed _ | .semicolon .. => .isTrue trivial
  | .origin _ _ source _ => inferInstanceAs (Decidable (source.name ≠ []))

/-- What is left of the end of a list. -/
def ListEnd.left : ListEnd → List Char
  | unclosed _ => []
  | semicolon _ blanks => blanks.text.dropWhile isSpace
  | origin _ gap' source ending =>
    if source.name = [] then "from".toList ++ (gap'.text ++ (source.text ++ ending.text))
    else ending.left

namespace Form

/-- The word that a declaration starts with. -/
def word : Form → List Char
  | fromImport _ | bareImport _ => "import".toList
  | listExport _ | starExport _ | defaultExport _ | declaredExport _ => "export".toList

/-- What stands behind the word that a declaration starts with. -/
def tail : Form → List Char
  | fromImport d => d.tail
  | bareImport d => d.tail
  | listExport d => d.tail
  | starExport d => d.tail
  | defaultExport d => d.tail
  | declaredExport d => d.tail

/-- A declaration as it is written. -/
def text (form : Form) : List Char := form.word ++ form.tail

/-- Whether a declaration is recognised: if it names a module, that has a name, and blanks stand
where an import of names or a default export is asked for them. -/
def IsRecognised : Form → Prop
  | fromImport d => d.gap.text ≠ [] ∧ d.source.name ≠ []
  | bareImport d => d.source.name ≠ []
  | listExport d => d.close.IsRecognised
  | starExport d => d.source.name ≠ []
  | defaultExport d => d.gap'.text ≠ []
  | declaredExport _ => True

instance : (form : Form) → Decidable form.IsRecognised
  | fromImport d => inferInstanceAs (Decidable (d.gap.text ≠ [] ∧ d.source.name ≠ []))
  | bareImport d => inferInstanceAs (Decidable (d.source.name ≠ []))
  | listExport d => inferInstanceAs (Decidable d.close.IsRecognised)
  | starExport d => inferInstanceAs (Decidable (d.source.name ≠ []))
  | defaultExport d => inferInstanceAs (Decidable (d.gap'.text ≠ []))
  | declaredExport _ => .isTrue trivial

/-- What is to remain of a declaration: what it exports by default or declares. -/
def remains : Form → List Char
  | fromImport _ | bareImport _ | listExport _ | starExport _ => []
  | defaultExport d => d.body
  | declaredExport d => d.declaration

/-- What is left of a declaration. -/
def left (form : Form) : List Char :=
  match form with
  | fromImport d => if form.IsRecognised then d.ending.left else form.text
  | bareImport d => if form.IsRecognised then d.ending.left else form.text
  | listExport d => d.close.left
  | starExport d => if form.IsRecognised then d.ending.left else form.text
  | defaultExport d => if form.IsRecognised then d.body else form.text
  | declaredExport d => d.declaration

end Form

/-! ## Programs -/

/-- A plain line, or several, or a declaration. -/
inductive Item where
  | plain (text : List Char) (isPlain : IsPlain text)
  | declaration (form : Form) (isPlain : IsPlain form.tail)

namespace Item

/-- An item as it is written. -/
def text : Item → List Char
  | plain text _ => text
  | declaration form _ => form.text

/-- Whether an item is recognised. -/
def IsRecognised : Item → Prop
  | plain .. => True
  | declaration form _ => form.IsRecognised

/-- What is to remain of an item: a plain line as it is. -/
def remains : Item → List Char
  | plain text _ => text
  | declaration form _ => form.remains

/-- What is left of an item. -/
def left : Item → List Char
  | plain text _ => text
  | declaration form _ => form.left

end Item

/-- Texts with a line end between any two. -/
def joinLines : List (List Char) → List Char
  | [] => []
  | first :: rest => first ++ rest.flatMap ('\n' :: ·)

/-- A program as it is written. -/
def text (program : List Item) : List Char := joinLines (program.map Item.text)

/-- A text that goes on where a list of exports has ended: with a semicolon, or with the module that
the names come from. -/
def ContinuesList (text : List Char) : Prop :=
  (∃ rest, text = ';' :: rest) ∨
    ∃ (gap : Blanks) (source : Specifier) (rest : List Char), source.name ≠ [] ∧
      text = "from".toList ++ (gap.text ++ (source.text ++ rest))

/-- Whether nothing is written behind the names of a list. -/
def ListEnd.IsUnclosed : ListEnd → Prop
  | unclosed _ => True
  | semicolon .. | origin .. => False

/-- Whether an item is a list of exports with nothing written behind the names. -/
def Item.IsUnclosed : Item → Prop
  | .declaration (.listExport d) _ => d.close.IsUnclosed
  | _ => False

/-- What an item becomes when imports are removed. -/
def Item.withoutImport : Item → List Char
  | .declaration (.fromImport d) _ => (Form.fromImport d).left
  | .declaration (.bareImport d) _ => (Form.bareImport d).left
  | item => item.text

/-- No list of exports goes on in the lines behind it when the imports between are removed. -/
def IsApart : List Item → Prop
  | [] => True
  | item :: rest =>
    (item.IsUnclosed →
      ¬ContinuesList (trimStart (rest.flatMap fun i => '\n' :: i.withoutImport))) ∧ IsApart rest

/-- The lines of a text that are not blank, without the blanks around them. -/
def solidLines (text : List Char) : List (List Char) :=
  ((splitOn '\n' text).map trim).filter (· ≠ [])

end ModuleSyntax

end GuestCode
