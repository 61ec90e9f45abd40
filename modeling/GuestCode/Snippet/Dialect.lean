import GuestCode.Snippet.Grammar
import GuestCode.Snippet.Region

/-!
# Dialects that the sandbox does not run

Recognises module syntax, type syntax and markup. Every test is made on the redacted view of a
snippet, so the text of strings, templates, regular expressions and comments never counts.

* `hasModuleSyntax`, `hasTypeSyntax`, `hasMarkup`: the three tests
-/

namespace GuestCode.Dialect

open Text Text.Pattern Grammar

/-! ## Module syntax -/

/-- Where a statement may start: at the start of a line or after `;` or a closing brace. -/
def statementEdge : Pattern := .seq (.either lineStart (oneOf ";\x7d")) spaces

/-- Words after `export` that a declaration starts with. -/
def declarationWords : List String :=
  ["const", "let", "var", "function", "async", "class", "type", "interface", "enum"]

/-- Forms of `import` and `export` statements in a redacted view. -/
def modulePatterns : List Pattern :=
  [ all [statementEdge, lit "import", someBlanks, opt (.seq (lit "type") someBlanks),
      wordCharOr "$*\x7b"],
    all [statementEdge, lit "import", blanks, lit "\"\""],
    all [statementEdge, lit "export", someBlanks, keywords ("default" :: declarationWords)],
    all [statementEdge, lit "export", blanks, oneOf "\x7b*"] ]

/-- Whether a snippet holds `import` or `export` statements. -/
def hasModuleSyntax (source : List Char) : Bool :=
  let view := redact source
  modulePatterns.any fun p => p.occursIn view

/-! ## Type syntax -/

/-- Names of primitive types. -/
def primitiveTypes : List String :=
  ["string", "number", "boolean", "any", "unknown", "void", "never", "object", "bigint", "symbol",
    "null", "undefined"]

/-- Type names: a primitive type or a capitalised name. -/
def typeName : Pattern := .either (words primitiveTypes) (.seq (.char Char.isUpper) nameChars)

/-- Generic parameters on one line, if there are any. -/
def generics : Pattern := opt (all [lit "<", star (noneOf ">\n"), lit ">"])

/-- The start of a line and the words that may come before a declared type. -/
def typeDeclarationStart : Pattern :=
  all [lineStart, spaces, opt (.seq (lit "export") someBlanks),
    opt (.seq (lit "declare") someBlanks)]

/-- A type argument: a name with at most one level of generic arguments, and array marks. -/
def typeArgument : Pattern :=
  let arrays := star (lit "[]")
  all [identifier, opt (all [lit "<", blanks, identifier, arrays, blanks, lit ">"]), arrays]

/-- Forms of type syntax in a redacted view. -/
def typePatterns : List Pattern :=
  [ -- an interface declaration
    all [typeDeclarationStart, lit "interface", someBlanks, identifier, blanks, generics, blanks,
      opt (all [lit "extends", someBlanks, plus (noneOf "\x7b\n")]), lit "\x7b"],
    -- a type alias
    all [typeDeclarationStart, lit "type", someBlanks, identifier, blanks, generics, blanks,
      lit "="],
    -- an annotated variable
    all [wordEdge, words ["const", "let", "var"], someBlanks, identifier, blanks, lit ":", blanks,
      .char fun c => isNameStart c || c == '\x7b' || c == '[' || c == '('],
    -- an annotated first parameter
    all [lit "(", blanks, identifier, opt (lit "?"), blanks, lit ":", blanks, typeName, wordEdge],
    -- an annotated parameter of a function
    all [wordEdge, lit "function", wordEdge, star (.char fun c => isNameChar c || isBlank c),
      lit "(", star (noneOf "()"), wordEdge, someNameChars, opt (lit "?"), blanks, lit ":", blanks,
      .char isNameStart],
    -- an annotated result
    all [lit ")", blanks, lit ":", blanks,
      notFollowedBy (keywords ["return", "await", "new"]), .char isNameChar,
      lazyStar (.char fun c => isNameChar c || "<>[]|,.".toList.contains c || isBlank c), blanks,
      words ["\x7b", "=>"]],
    -- a cast
    all [.char fun c => isNameChar c || c == ')' || c == ']', someBlanks, lit "as", someBlanks,
      .either (keyword "const") (.seq typeName wordEdge)],
    -- generic arguments of a call
    all [wordEdge, identifier, lit "<", blanks, typeArgument,
      star (all [blanks, .either (lit ",") (.seq (lit "|") (notFollowedBy (lit "|"))), blanks,
        typeArgument]),
      blanks, lit ">", blanks, lit "("],
    -- an access modifier
    all [wordEdge, words ["private", "public", "protected", "readonly"], someBlanks, identifier,
      blanks, oneOf ":;=,)"],
    -- an enumeration
    all [lineStart, spaces, opt (.seq (lit "export") someBlanks),
      opt (.seq (lit "const") someBlanks), lit "enum", someBlanks, identifier, blanks,
      lit "\x7b"] ]

/-- Lines of module syntax; their aliases with `as` are no casts. -/
def moduleLine : Pattern :=
  all [lineStart, spaces, keywords ["import", "export"], star (noneOf "\n"), lineEnd]

/-- Whether a snippet holds type syntax. -/
def hasTypeSyntax (source : List Char) : Bool :=
  let view := moduleLine.replace (fun _ => []) (redact source)
  typePatterns.any fun p => p.occursIn view

/-! ## Markup -/

/-- Element names. -/
def elementName : Pattern := .seq (.char Char.isAlpha) (star (wordCharOr "."))

/-- Forms of markup in a redacted view. -/
def markupPatterns : List Pattern :=
  [ all [nameEdge, lit "<", elementName,
      star (all [someBlanks, plus (wordCharOr ":-"),
        opt (all [blanks, lit "=", blanks,
          .either (lit "\"\"") (all [lit "\x7b", star (noneOf "\x7d\n"), lit "\x7d"])])]),
      blanks, opt (lit "/"), lit ">"],
    all [lit "</", elementName, blanks, lit ">"],
    words ["<>", "</>"] ]

/-- Whether a snippet holds markup outside its literals. -/
def hasMarkup (source : List Char) : Bool :=
  let view := redact source
  markupPatterns.any fun p => p.occursIn view

end GuestCode.Dialect
