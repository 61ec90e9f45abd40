import GuestCode.Machine

/-!
# The screen

What is shown to the user as plain text: without colours, panels under their titles, and tables
with columns of one width each.

* `Shown.plain`: the plain text of what is shown
-/

namespace GuestCode.Shown

/-- The colours that texts can be marked with. -/
def colors : List String := ["red", "green", "yellow"]

/-- A text without the marks for colours. -/
def unmarked (text : String) : String :=
  colors.foldl
    (fun s color => (s.replace ("[" ++ color ++ "]") "").replace ("[/" ++ color ++ "]") "") text

/-- A text filled up with blanks. -/
def widened (width : Nat) (text : String) : String :=
  text ++ "".pushn ' ' (width - text.length)

/-- The width of each column of some rows. -/
def columnWidths : List (List String) → List Nat
  | [] => []
  | row :: rest =>
    let widths := columnWidths rest
    let longer := row.zipIdx.map fun (cell, i) => max cell.length (widths.getD i 0)
    longer ++ widths.drop row.length

/-- A row under columns of given widths. -/
def rowLine (widths : List Nat) (row : List String) : String :=
  "  ".intercalate (row.zipIdx.map fun (cell, i) => widened (widths.getD i 0) cell)

/-- The plain text of what is shown. -/
def plain : Shown → String
  | text marked => unmarked marked ++ "\n"
  | panel title _ body => title ++ ":\n" ++ body ++ "\n"
  | table title columns rows =>
    let rows := (columns :: rows).map fun row => row.map unmarked
    let widths := columnWidths rows
    title ++ "\n" ++ String.join (rows.map fun row => rowLine widths row ++ "\n")

end GuestCode.Shown
