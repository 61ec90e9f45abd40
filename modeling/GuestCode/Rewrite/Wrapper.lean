import GuestCode.Rewrite.Files

/-!
# The function around a snippet

A snippet runs as the body of an asynchronous function that is called at once. A snippet that is
already such a call is reduced to the body of its function.

* `Rewrite.wrap`: the call around a snippet
* `Rewrite.unwrapOnce?`, `Rewrite.unwrap`: the body of a snippet that is such a call
-/

namespace GuestCode.Rewrite

open Text Text.Pattern Grammar

/-- The call that runs a snippet. -/
def wrap (source : List Char) : List Char :=
  "(async () => \x7b\n".toList ++ source ++ "\n\x7d)()".toList

/-- The start of a function that is called at once, up to the brace of its body. -/
def wrapperHead : Pattern :=
  all [opt (.seq (words ["await", "return"]) someBlanks), lit "(", blanks,
    opt (.seq (lit "async") blanks),
    .either (all [lit "(", blanks, lit ")", blanks, lit "=>"])
      (all [lit "function", blanks, nameChars, blanks, lit "(", blanks, lit ")"]),
    blanks, lit "\x7b"]

/-- The end of a function that is called at once, after its body. -/
def wrapperTail : Pattern :=
  all [blanks, lit ")", blanks, lit "(", blanks, lit ")", blanks, opt (lit ";"), blanks]

/-- The body of the function, if the snippet is one function that is called at once. -/
def unwrapOnce? (source : List Char) : Option (List Char) :=
  let text := trim source
  match wrapperHead.matchAt? (.ofText text) with
  | none => none
  | some head =>
    match closing? (codeChars text) (head.stop - 1 : Nat) with
    | none => none
    | some close =>
      match wrapperTail.matchAll? ⟨text[close]?, text.drop (close + 1), close + 1, []⟩ with
      | none => none
      | some _ => some (Region.slice text head.stop close)

/-- Unwraps at most `fuel` times. -/
def unwrapUpTo : Nat → List Char → List Char
  | 0, source => source
  | fuel + 1, source =>
    match unwrapOnce? source with
    | none => source
    | some body => unwrapUpTo fuel body

/-- The innermost body of a snippet. Each unwrapping takes characters away, so there are no more of
them than characters. The line that wraps the file capability stays in front. -/
def unwrap (source : List Char) : List Char :=
  if wrapperStart.toList.isPrefixOf source then
    match source.dropWhile (· != '\n') with
    | [] => source
    | lineEnd :: body =>
      source.takeWhile (· != '\n') ++ lineEnd :: unwrapUpTo body.length body
  else unwrapUpTo source.length source

end GuestCode.Rewrite
