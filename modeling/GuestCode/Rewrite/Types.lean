import GuestCode.Rewrite.Edit
import GuestCode.Snippet.Place
import GuestCode.Text.Split

/-!
# Rewriting type syntax

Snippets run without types: type declarations that fit on a line, annotations of variables,
parameters and results, generic parameters and casts are removed.

* `Rewrite.topLevelIndex?`: looking for a mark outside brackets
* `Rewrite.stripParameter`: one parameter without its annotation
* `Rewrite.stripSignatures`: the parameters and results of functions
* `Rewrite.stripTypes`: all of it
-/

namespace GuestCode.Rewrite

open Text Text.Pattern Grammar

/-! ## Parameters -/

/-- The index of a mark outside brackets of all kinds, counted from `index`; `depth` is the number
of brackets open so far. Arrows are passed over. A search for `:` ends at `=`: what has a default
before any colon has no annotation. -/
def topLevelFrom? (target : Char) (depth : Int) (index : Nat) : List Char → Option Nat
  | [] => none
  | '=' :: '>' :: rest => topLevelFrom? target depth (index + 2) rest
  | c :: rest =>
    if c == '(' || c == '[' || c == '\x7b' || c == '<' then
      topLevelFrom? target (depth + 1) (index + 1) rest
    else if c == ')' || c == ']' || c == '\x7d' || c == '>' then
      topLevelFrom? target (depth - 1) (index + 1) rest
    else if depth == 0 && c == target then some index
    else if depth == 0 && target == ':' && c == '=' then none
    else topLevelFrom? target depth (index + 1) rest

/-- The index of a mark outside brackets, at or after a place. -/
def topLevelIndex? (text : List Char) (target : Char) (start : Nat) : Option Nat :=
  topLevelFrom? target 0 start (text.drop start)

/-- The place of a mark outside brackets, searched for from a place on that may be counted from the
end; `none` if there is no such place. Only one character is a mark. -/
def topLevelPlace? (text mark : List Char) (start : Int) : Option (Option Int) :=
  (readFrom? text start).map fun read =>
    match mark with
    | [target] => (topLevelFrom? target 0 0 read).map fun offset => start + offset
    | _ => none

/-- The access modifiers before a parameter. -/
def accessModifiers : Pattern :=
  all [textStart,
    plus (.seq (words ["public", "private", "protected", "readonly", "override"]) someBlanks),
    followedBy (wordCharOr "$\x7b[.")]

/-- What may stand before the annotation of a parameter: a name or a destructuring pattern, with or
without `...` before it and `?` after it. -/
def parameterName : Pattern :=
  all [textStart, opt (lit "..."),
    anyOf [identifier, all [lit "\x7b", star anyChar, lit "\x7d"],
      all [lit "[", star anyChar, lit "]"]],
    blanks, opt (lit "?"), textEnd]

/-- A parameter without its access modifiers. -/
def withoutModifiers (parameter : List Char) : List Char :=
  match accessModifiers.matchAt? (.ofText parameter) with
  | some m => m.after
  | none => parameter

/-- A parameter without its access modifiers and its annotation. A text that has a colon but no
parameter before it stays as it is. -/
def stripParameter (parameter : List Char) : List Char :=
  let stripped := withoutModifiers parameter
  match topLevelIndex? stripped ':' 0 with
  | none => stripped
  | some colon =>
    let name := trimEnd (stripped.take colon)
    match parameterName.matchAt? (.ofText name) with
    | none => parameter
    | some _ =>
      let name := trimEnd (dropEndWhile (· == '?') name)
      match topLevelIndex? stripped '=' (colon + 1) with
      | none => name
      | some equals => name ++ " = ".toList ++ trim (stripped.drop (equals + 1))

/-! ## Signatures -/

/-- What follows the parameters of a function: the result type, which is label 1, if there is one,
and the body or the arrow, which must be on the same line. -/
def signatureTail : Pattern :=
  all [spaces,
    opt (all [lit ":", spaces,
      followedBy (.char fun c => isNameChar c || c == '(' || c == '['),
      .capture 1 (lazyPlus (.either (noneOf "\x7b\x7d;=\n") (lit "=>"))), spaces]),
    followedBy (words ["\x7b", "=>"])]

/-- The edits that strip the parameters at given ranges. -/
def parameterEdits (source : List Char) (spans : List (Nat × Nat)) : List Edit :=
  spans.filterMap fun (start, stop) =>
    let parameter := Region.slice source start stop
    let stripped := stripParameter parameter
    if stripped == parameter then none else some ⟨start, stop, stripped⟩

/-- The parameters and the tail of a signature whose parenthesis opens at a place, if a signature
is there. -/
def signatureAt? (source : List Char) (code : List Placed) (place : Nat) :
    Option (Arguments × Found) :=
  match argumentSpans? source code place with
  | none => none
  | some arguments =>
    let after := arguments.close + 1
    (signatureTail.matchAt? ⟨source[arguments.close]?, source.drop after, after, []⟩).map
      fun tail => (arguments, tail)

/-- The edits for signatures whose parenthesis is one of `openings`, at place `start` or later;
what is inside a signature is passed over. -/
def signatureEdits (source : List Char) (code : List Placed) (start : Nat) :
    List Placed → List Edit
  | [] => []
  | opening :: rest =>
    if opening.place < start then signatureEdits source code start rest
    else
      match signatureAt? source code opening.place with
      | none => signatureEdits source code start rest
      | some (arguments, tail) =>
        let result : List Edit :=
          if (tail.captured 1).isEmpty then []
          else [⟨arguments.close + 1, tail.stop, [' ']⟩]
        parameterEdits source arguments.spans ++ result ++
          signatureEdits source code (max (arguments.close + 1) tail.stop) rest

/-- Strips the annotations of parameters and results. A list in parentheses is a signature if a
body or an arrow follows on the same line, with or without a result type before it. -/
def stripSignatures (source : List Char) : List Char :=
  let code := codeChars source
  Edit.applyAll (signatureEdits source code 0 (code.filter fun p => p.char == '(')) source

/-! ## Declarations, annotations and casts -/

/-- The part of a type alias in braces. -/
def flatBraces : Pattern := all [lit "\x7b", star (noneOf "\x7b\x7d\n"), lit "\x7d"]

/-- Generic parameters on one line, if there are any. -/
def genericParameters : Pattern := opt (all [lit "<", star (noneOf ">\n"), lit ">"])

/-- Type aliases on one line. A union that goes on in the next line is no match, since its first
line alone would be removed. -/
def typeAlias : Pattern :=
  all [lineStart, spaces, opt (.seq (lit "declare") someBlanks), lit "type", someBlanks,
    identifier, blanks, genericParameters, spaces, lit "=", spaces,
    .either (.char fun c => !isBlank c && c != ';' && c != '\x7b' && c != '\x7d') flatBraces,
    star (.either (noneOf ";\n\x7b\x7d") flatBraces), opt (lit ";"), spaces, lineEnd,
    notFollowedBy (all [lit "\n", spaces, oneOf "|&"])]

/-- Interfaces whose body is on one line. -/
def interfaceDeclaration : Pattern :=
  all [lineStart, spaces, opt (.seq (lit "declare") someBlanks), lit "interface", someBlanks,
    identifier, blanks, genericParameters,
    opt (all [someBlanks, lit "extends", someBlanks, plus (noneOf "\x7b\n")]), blanks, flatBraces,
    spaces, opt (lit ";"), spaces, lineEnd]

/-- Annotated variables with a value; labels 1 and 2 are the keyword and the name. -/
def annotatedVariable : Pattern :=
  all [wordEdge, .capture 1 (words ["const", "let", "var"]),
    .capture 2 (.seq someBlanks identifier), blanks, lit ":", blanks,
    lazyPlus (.either (noneOf "=;\n") (lit "=>")), blanks, lit "=", notFollowedBy (lit ">")]

/-- Annotated variables without a value; labels 1 and 2 are the keyword and the name. -/
def annotatedDeclaration : Pattern :=
  all [wordEdge, .capture 1 (words ["let", "var"]), .capture 2 (.seq someBlanks identifier),
    blanks, lit ":", blanks, lazyPlus (noneOf "=;\n"), blanks, lit ";"]

/-- Functions with generic parameters; label 1 is what stands before these. -/
def genericFunction : Pattern :=
  all [wordEdge, .capture 1 (all [lit "function", blanks, opt (lit "*"), blanks, nameChars]),
    blanks, lit "<", star (noneOf "<>()\n"), lit ">", blanks, lit "("]

/-- Casts at the end of an expression. -/
def cast : Pattern :=
  all [afterOne fun c => isNameChar c || c == ')' || c == ']', plus (oneOf " \t"), lit "as",
    plus (oneOf " \t"),
    .either (lit "const")
      (all [.char isNameStart, star (.char fun c => isNameChar c || c == '.'),
        opt (all [lit "<", star (noneOf "<>\n"), lit ">"]), star (lit "[]")]),
    followedBy (all [spaces, .either (oneOf ");,]\x7d") lineEnd])]

/-- Removes type syntax. -/
def stripTypes (codeOnly : Bool) (source : List Char) : List Char :=
  let source := Rule.applyAll codeOnly
    [.remove typeAlias, .remove interfaceDeclaration,
      ⟨annotatedVariable, fun m => m.captured 1 ++ m.captured 2 ++ " =".toList⟩,
      ⟨annotatedDeclaration, fun m => m.captured 1 ++ m.captured 2 ++ [';']⟩,
      ⟨genericFunction, fun m => m.captured 1 ++ ['(']⟩] source
  Rule.apply codeOnly (.remove cast) (stripSignatures source)

end GuestCode.Rewrite
