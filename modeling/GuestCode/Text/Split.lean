import GuestCode.Text.Classes

/-!
# Dividing texts

Trimming blanks, and dividing a text at a separator or at blanks.
-/

namespace GuestCode.Text

/-- A text without the blanks before it. -/
def trimStart (text : List Char) : List Char := text.dropWhile isBlank

/-- A text without the characters of a class after it. -/
def dropEndWhile (drop : Char → Bool) (text : List Char) : List Char :=
  (text.reverse.dropWhile drop).reverse

/-- A text without the blanks after it. -/
def trimEnd (text : List Char) : List Char := dropEndWhile isBlank text

/-- A text without the blanks around it. -/
def trim (text : List Char) : List Char := trimEnd (trimStart text)

/-- The texts between the occurrences of a separator; there is one more of them than separators. -/
def splitOn (separator : Char) : List Char → List (List Char)
  | [] => [[]]
  | c :: cs =>
    if c == separator then [] :: splitOn separator cs
    else
      match splitOn separator cs with
      | [] => [[c]]
      | first :: rest => (c :: first) :: rest

/-- The words of a text that blanks divide. -/
def blankSeparated (text : List Char) : List (List Char) :=
  (text.foldr (fun c words =>
    if isBlank c then [] :: words
    else
      match words with
      | [] => [[c]]
      | first :: rest => (c :: first) :: rest) [[]]).filter fun word => !word.isEmpty

/-- Whether a text occurs in another. -/
def occursIn (part : List Char) : List Char → Bool
  | [] => part.isEmpty
  | c :: cs => part.isPrefixOf (c :: cs) || occursIn part cs

/-- Texts joined by a separator. -/
def joinWith (separator : List Char) (texts : List (List Char)) : List Char :=
  (texts.intersperse separator).flatten

/-- The members of a list without repetitions, each where it stands first. -/
def distinct {α : Type} [BEq α] (xs : List α) : List α :=
  xs.foldl (fun seen x => if seen.contains x then seen else seen ++ [x]) []

end GuestCode.Text
