import GuestCode.Data.Display

/-!
# Writing JSON

Values as JSON texts, on one line or indented, in ASCII or not. Entries keep their order. Numbers
that JSON has no digits for are written by name. What JSON cannot hold is an error, or is written
as the text that it is shown as.

* `Json.Layout`: how a text is laid out
* `Json.write`: a value as a JSON text
* `Json.encode`: a value as a JSON text, whatever JSON cannot hold being shown
-/

namespace GuestCode.Json

/-- How a JSON text is laid out. -/
structure Layout where
  /-- The number of spaces that one level is indented by; on one line if absent. -/
  indent : Option Nat
  /-- Whether characters outside ASCII are escaped. -/
  asciiOnly : Bool
deriving Repr, DecidableEq, Inhabited

/-- On one line and in ASCII. -/
def Layout.line : Layout := ⟨none, true⟩

/-- Indented by two spaces and in ASCII. -/
def Layout.indented : Layout := ⟨some 2, true⟩

/-- Indented by two spaces, with all characters as they are. -/
def Layout.document : Layout := ⟨some 2, false⟩

/-- Why a value cannot be written. -/
inductive WriteError where
  /-- JSON has no values of this kind. -/
  | unsupportedValue (kind : String)
  /-- Keys of this kind cannot be written as texts. -/
  | unsupportedKey (kind : String)
deriving Repr, DecidableEq, Inhabited

/-- The report of a value that cannot be written. -/
def WriteError.message : WriteError → String
  | unsupportedValue kind => "Object of type " ++ kind ++ " is not JSON serializable"
  | unsupportedKey kind => "keys must be str, int, float, bool or None, not " ++ kind

/-! ## Strings -/

/-- A 16-bit unit as an escape. -/
def unitEscape (unit : Nat) : List Char := '\\' :: 'u' :: Text.hexPadded 4 unit

/-- A character inside a JSON string. -/
def escapedChar (asciiOnly : Bool) (c : Char) : List Char :=
  if c == '"' then ['\\', '"']
  else if c == '\\' then ['\\', '\\']
  else if c == '\n' then ['\\', 'n']
  else if c == '\r' then ['\\', 'r']
  else if c == '\t' then ['\\', 't']
  else if c == '\x08' then ['\\', 'b']
  else if c == '\x0c' then ['\\', 'f']
  else if c.toNat < 0x20 then unitEscape c.toNat
  else if c.toNat < 0x7F || !asciiOnly then [c]
  else if c.toNat < 0x10000 then unitEscape c.toNat
  else
    let n := c.toNat - 0x10000
    unitEscape (0xD800 + n / 0x400) ++ unitEscape (0xDC00 + n % 0x400)

/-- A text as a JSON string. -/
def quotedChars (asciiOnly : Bool) (text : List Char) : List Char :=
  '"' :: text.flatMap (escapedChar asciiOnly) ++ ['"']

/-- A text as a JSON string. -/
def quote (asciiOnly : Bool) (s : String) : String :=
  String.ofList (quotedChars asciiOnly s.toList)

/-! ## Values -/

/-- The text of a key. -/
def keyText? : Value → Option String
  | .text s => some s
  | .int n => some (toString n)
  | .float x => some (x.text Binary64.jsonStyle)
  | .bool b => some (if b then "true" else "false")
  | .null => some "null"
  | _ => none

/-- The items of a list or mapping between its brackets, at a level of nesting. -/
def bracketed (layout : Layout) (level : Nat) (opening closing : String) (items : List String) :
    String :=
  if items.isEmpty then opening ++ closing
  else
    match layout.indent with
    | none => opening ++ ", ".intercalate items ++ closing
    | some width =>
      let line (n : Nat) := "\n" ++ String.ofList (List.replicate (width * n) ' ')
      opening ++ line (level + 1) ++ ("," ++ line (level + 1)).intercalate items ++ line level ++
        closing

mutual

/-- A value as a JSON text at a level of nesting. What JSON cannot hold is handed to `fallback`. -/
def writeAt (layout : Layout) (fallback : Value → Except WriteError String) (level : Nat) :
    Value → Except WriteError String
  | .null => .ok "null"
  | .bool b => .ok (if b then "true" else "false")
  | .int n => .ok (toString n)
  | .float x => .ok (x.text Binary64.jsonStyle)
  | .text s => .ok (quote layout.asciiOnly s)
  | .list items | .tuple items => do
    let parts ← writeItems layout fallback (level + 1) items
    return bracketed layout level "[" "]" parts
  | .mapping entries => do
    let parts ← writeEntries layout fallback (level + 1) entries
    return bracketed layout level "\x7b" "\x7d" parts
  | v => fallback v

/-- The members of a list as JSON texts. -/
def writeItems (layout : Layout) (fallback : Value → Except WriteError String) (level : Nat) :
    List Value → Except WriteError (List String)
  | [] => .ok []
  | v :: rest => do
    let first ← writeAt layout fallback level v
    let others ← writeItems layout fallback level rest
    return first :: others

/-- The entries of a mapping as JSON texts. -/
def writeEntries (layout : Layout) (fallback : Value → Except WriteError String) (level : Nat) :
    List (Value × Value) → Except WriteError (List String)
  | [] => .ok []
  | (k, v) :: rest =>
    match keyText? k with
    | none => .error (.unsupportedKey k.shortKindName)
    | some key => do
      let first ← writeAt layout fallback level v
      let others ← writeEntries layout fallback level rest
      return (quote layout.asciiOnly key ++ ": " ++ first) :: others

end

/-- A value as a JSON text, if JSON can hold it. -/
def write (layout : Layout) (v : Value) : Except WriteError String :=
  writeAt layout (fun w => .error (.unsupportedValue w.shortKindName)) 0 v

/-! ## Texts of all values -/

/-- A value as a JSON text; what JSON cannot hold is written as it is shown. -/
def encodeWith (layout : Layout) (v : Value) : Except WriteError String :=
  writeAt layout (fun w => .ok (quote layout.asciiOnly w.display)) 0 v

/-- A value as a JSON text on one line; what JSON cannot hold is written as it is shown. -/
def encode (v : Value) : Except WriteError String := encodeWith .line v

end GuestCode.Json
