/-!
# Logged lines

The lines that a snippet logs, in their order and up to a number; what comes after is only counted.

* `LogBuffer`, `LogBuffer.push`, `LogBuffer.lines`
-/

namespace GuestCode

/-- Logged lines. -/
structure LogBuffer where
  limit : Int
  kept : List String
  dropped : Nat
deriving Repr, DecidableEq, Inhabited

namespace LogBuffer

/-- No lines yet. -/
def ofLimit (limit : Int) : LogBuffer := ⟨limit, [], 0⟩

/-- Takes a line, or counts it if there are enough. -/
def push (b : LogBuffer) (line : String) : LogBuffer :=
  if (b.kept.length : Int) < b.limit then { b with kept := b.kept ++ [line] }
  else { b with dropped := b.dropped + 1 }

/-- The lines, and one more about those that were only counted. -/
def lines (b : LogBuffer) : List String :=
  if b.dropped = 0 then b.kept
  else b.kept ++ ["[TRUNCATED] " ++ toString b.dropped ++ " log lines omitted"]

end LogBuffer

end GuestCode
