import GuestCode.Rewrite.Edit

/-!
# Rewriting module syntax

Snippets run as plain scripts: `import` statements and `require` calls go, and of `export`
statements only the declaration or value stays.

* `Rewrite.removeImports`, `Rewrite.normalizeExports`, `Rewrite.removeRequires`
-/

namespace GuestCode.Rewrite

open Text Text.Pattern Grammar

/-- The name of a module in plain quotes; the quotes are kept under a label. -/
def quotedModule (label : Nat) : Pattern :=
  all [quote label, plus (noneOf "'\"\n"), .again label]

/-- The end of a statement on its line: a semicolon, if there is one, and the spaces around it. -/
def statementEnd : Pattern := all [spaces, opt (lit ";"), spaces]

/-- Where a statement may start, kept under label 1: the start of a line, `;` or a closing brace. -/
def statementMark : Pattern := .capture 1 (.either lineStart (oneOf ";\x7d"))

/-! ## Imports -/

/-- Imports of names from a module. -/
def importFrom : Pattern :=
  all [lineStart, spaces, lit "import", someBlanks, opt (.seq (lit "type") someBlanks),
    lazyStar (noneOf ";'\"\x60"), blanks, wordEdge, lit "from", blanks, quotedModule 1,
    statementEnd]

/-- Imports of a module as a whole. -/
def importBare : Pattern :=
  all [lineStart, spaces, lit "import", blanks, quotedModule 1, statementEnd]

/-- Removes `import` statements. -/
def removeImports (codeOnly : Bool) (source : List Char) : List Char :=
  Rule.applyAll codeOnly [.remove importFrom, .remove importBare] source

/-! ## Exports -/

/-- Lists of exported names, with or without the module they come from. -/
def exportList : Pattern :=
  all [statementMark, spaces, lit "export", blanks, opt (.seq (lit "type") blanks), lit "\x7b",
    star (noneOf "\x7d"), lit "\x7d", blanks, opt (all [lit "from", blanks, quotedModule 2]),
    statementEnd]

/-- Exports of all names of another module. -/
def exportStar : Pattern :=
  all [statementMark, spaces, lit "export", blanks, lit "*", blanks,
    opt (all [lit "as", someBlanks, someNameChars, someBlanks]), lit "from", blanks,
    quotedModule 2, statementEnd]

/-- The words before a default export; the spaces before them are label 2. -/
def exportDefault : Pattern :=
  all [statementMark, .capture 2 spaces, lit "export", someBlanks, lit "default", someBlanks]

/-- The word before an exported declaration; the spaces before it are label 2. -/
def exportDeclaration : Pattern :=
  all [statementMark, .capture 2 spaces, lit "export", someBlanks,
    followedBy (keywords ["const", "let", "var", "function", "async", "class", "type",
      "interface", "enum", "declare", "abstract"])]

/-- Reduces `export` statements to what they export. -/
def normalizeExports (codeOnly : Bool) (source : List Char) : List Char :=
  Rule.applyAll codeOnly
    [.keep exportList [1], .keep exportStar [1], .keep exportDefault [1, 2],
      .keep exportDeclaration [1, 2]] source

/-! ## Requires -/

/-- A `require` call with a quoted module, in any quotes. -/
def requireCall : Pattern :=
  all [lit "require", blanks, lit "(", blanks, .capture 1 (oneOf "'\"\x60"),
    plus (noneOf "'\"\x60\n"), .again 1, blanks, lit ")"]

/-- The end of a statement that ends with its line or with a semicolon. -/
def closedStatementEnd : Pattern := all [spaces, .either (lit ";") lineEnd, spaces]

/-- Declarations of what a `require` call, or a member of it, returns. -/
def requireDeclaration : Pattern :=
  all [lineStart, spaces, words ["const", "let", "var"], someBlanks, lazyPlus (noneOf "=;\n"),
    lit "=", blanks, requireCall, star (all [blanks, lit ".", blanks, someNameChars]),
    closedStatementEnd]

/-- Statements that are only a `require` call. -/
def requireBare : Pattern :=
  all [lineStart, spaces, requireCall, closedStatementEnd]

/-- Removes `require` statements. -/
def removeRequires (codeOnly : Bool) (source : List Char) : List Char :=
  Rule.applyAll codeOnly [.remove requireDeclaration, .remove requireBare] source

end GuestCode.Rewrite
