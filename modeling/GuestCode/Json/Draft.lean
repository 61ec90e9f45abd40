import GuestCode.Data.Coercion
import GuestCode.Json.Writer

/-!
# JSON texts that break off

A value is written piece by piece, so that what JSON cannot hold leaves a text that breaks off. The
break of an item is written together with the item if it is a scalar, and before it otherwise.

* `Draft`: a text as far as it could be written
* `Json.draft`: a value as a JSON text that may break off
-/

namespace GuestCode

/-- A text as far as it could be written, and why it breaks off if it does. -/
structure Draft where
  text : String
  fault : Option Failure
deriving Repr, Inhabited

namespace Draft

/-- A text that does not break off. -/
def whole (text : String) : Draft := ⟨text, none⟩

/-- A text that breaks off. -/
def broken (text : String) (failure : Failure) : Draft := ⟨text, some failure⟩

/-- Goes on with another text, unless the first one breaks off. -/
def followedBy (draft next : Draft) : Draft :=
  match draft.fault with
  | none => ⟨draft.text ++ next.text, next.fault⟩
  | some _ => draft

end Draft

namespace Json

/-- The line ends and spaces before an item at a level of nesting. -/
def itemBreak (layout : Layout) (level : Nat) : String :=
  match layout.indent with
  | none => ""
  | some width => "\n" ++ String.ofList (List.replicate (width * level) ' ')

/-- What stands between two items at a level of nesting. -/
def itemSeparator (layout : Layout) (level : Nat) : String :=
  match layout.indent with
  | none => ", "
  | some _ => "," ++ itemBreak layout level

/-- The failure of writing what JSON cannot hold. -/
def refusal (e : WriteError) : Failure := .mismatch .wrongKind e.message

mutual

/-- A value after the break of an item, as far as it can be written. -/
def draftAt (layout : Layout) (level : Nat) (lead : String) : Value → Draft
  | .int n =>
    if Value.isLongInteger n then .broken "" Value.tooManyDigits else .whole (lead ++ toString n)
  | .list items | .tuple items =>
    if items.isEmpty then .whole (lead ++ "[]")
    else
      (Draft.whole lead).followedBy
        ((draftItems layout (level + 1) ("[" ++ itemBreak layout (level + 1)) items).followedBy
          (.whole (itemBreak layout level ++ "]")))
  | .mapping entries =>
    if entries.isEmpty then .whole (lead ++ "\x7b\x7d")
    else
      (Draft.whole (lead ++ "\x7b" ++ itemBreak layout (level + 1))).followedBy
        ((draftEntries layout (level + 1) "" entries).followedBy
          (.whole (itemBreak layout level ++ "\x7d")))
  | v =>
    match writeAt layout (fun w => .error (.unsupportedValue w.shortKindName)) level v with
    | .ok written => .whole (lead ++ written)
    | .error e => .broken lead (refusal e)

/-- The members of a list, of which the first one stands after a break of its own. -/
def draftItems (layout : Layout) (level : Nat) (lead : String) : List Value → Draft
  | [] => .whole ""
  | v :: rest =>
    (draftAt layout level lead v).followedBy
      (draftItems layout level (itemSeparator layout level) rest)

/-- The entries of a mapping, of which the first one stands after a break of its own. -/
def draftEntries (layout : Layout) (level : Nat) (lead : String) : List (Value × Value) → Draft
  | [] => .whole ""
  | (k, v) :: rest =>
    match keyText? k with
    | none => .broken "" (refusal (.unsupportedKey k.shortKindName))
    | some key =>
      if k.holdsLongInteger then .broken "" Value.tooManyDigits
      else
        (Draft.whole (lead ++ quote layout.asciiOnly key ++ ": ")).followedBy
          ((draftAt layout level "" v).followedBy
            (draftEntries layout level (itemSeparator layout level) rest))

end

/-- A value as a JSON text that breaks off before the first value that JSON cannot hold. -/
def draft (layout : Layout) (v : Value) : Draft := draftAt layout 0 "" v

end Json

end GuestCode
