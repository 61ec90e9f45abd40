import GuestCode.Data.Order
import GuestCode.Yaml.Page
import GuestCode.Yaml.Scalar
import GuestCode.Yaml.Text

/-!
# Writing YAML

Values as YAML texts in block style: mappings sorted by their keys, two columns of indentation for
each level, and long scalars folded. A scalar is written plain if it reads back so, else between
single quotes, else between double quotes with escapes for all that is not printable ASCII.

* `Yaml.Look`, `Yaml.Style.choose`: what a scalar looks like, and how it is written
* `Yaml.write`: the text of a value
-/

namespace GuestCode.Yaml

/-- The width at which scalars are folded. -/
def foldWidth : Nat := 80

/-! ## Looks and styles of scalars -/

/-- How a scalar is written. -/
inductive Style where
  | plain
  | single
  | double
  | literal
deriving Repr, DecidableEq, Inhabited

/-- What a scalar looks like. -/
structure Look where
  isEmpty : Bool
  isMultiline : Bool
  allowsPlain : Bool
  allowsSingle : Bool
  allowsLiteral : Bool
deriving Repr, DecidableEq, Inhabited

/-- Whether a character needs no escape. -/
def isSimple (c : Char) : Bool := c == '\n' || (' ' ≤ c && c ≤ '~')

/-- Whether two neighbours of a scalar, the second of which may be its end, would be read as a mark
inside the scalar: a colon before a gap, or a number sign after one. -/
def formsMark (c : Char) (next : Option Char) : Bool :=
  (c == ':' && next.all isGap) || (isGap c && next == some '#')

/-- Whether the start of a scalar would be read as a mark. -/
def startsWithMark (chars : List Char) : Bool :=
  "---".toList.isPrefixOf chars || "...".toList.isPrefixOf chars ||
    match chars with
    | [] => false
    | c :: rest =>
      "#,[]\x7b\x7d&*!|>'\"%@\x60".toList.contains c ||
        ((c == '?' || c == ':' || c == '-') && rest.head?.all isGap)

/-- Each character with the one after it. -/
def neighbours : List Char → List (Char × Option Char)
  | [] => []
  | c :: rest => (c, rest.head?) :: neighbours rest

/-- What a scalar looks like. -/
def Look.of (chars : List Char) : Look :=
  let pairs := neighbours chars
  let hasBreaks := chars.any fun c => isBreak c && c != '\r'
  let isEdge (c? : Option Char) := c?.any fun c => c == ' ' || (isBreak c && c != '\r')
  let isSpecial := chars.any fun c => !isSimple c
  let spaceAfterBreak := pairs.any fun (c, next) => c == '\n' && next == some ' '
  let spaceBeforeBreak := pairs.any fun (c, next) => c == ' ' && next == some '\n'
  let hasMark := startsWithMark chars || pairs.any fun (c, next) => formsMark c next
  if chars.isEmpty then ⟨true, false, true, true, false⟩
  else
    { isEmpty := false
      isMultiline := hasBreaks
      allowsPlain := !(isEdge chars.head? || isEdge chars.getLast? || hasBreaks || isSpecial ||
        hasMark)
      allowsSingle := !(spaceAfterBreak || spaceBeforeBreak || isSpecial)
      allowsLiteral := !(chars.getLast? == some ' ' || spaceBeforeBreak || isSpecial) }

/-- The way in which a scalar is written. `implied` tells whether it reads back as itself when it
is plain, `literal` whether it should be a block, and `isKey` whether it is a key before a colon. -/
def Style.choose (look : Look) (implied literal isKey : Bool) : Style :=
  if literal then if look.allowsLiteral && !isKey then .literal else .double
  else if implied && look.allowsPlain && !(isKey && (look.isEmpty || look.isMultiline)) then .plain
  else if look.allowsSingle && !(isKey && look.isMultiline) then .single
  else .double

/-! ## Scalars -/

/-- A part of a scalar: characters, spaces or line breaks. -/
inductive Run where
  | word (chars : List Char)
  | spaces (count : Nat)
  | breaks (count : Nat)
deriving Repr, DecidableEq, Inhabited

/-- Puts a character before the parts of a scalar. -/
def Run.cons (c : Char) : List Run → List Run
  | [] => if c == ' ' then [.spaces 1] else if c == '\n' then [.breaks 1] else [.word [c]]
  | run :: rest =>
    if c == ' ' then
      match run with
      | .spaces n => .spaces (n + 1) :: rest
      | _ => .spaces 1 :: run :: rest
    else if c == '\n' then
      match run with
      | .breaks n => .breaks (n + 1) :: rest
      | _ => .breaks 1 :: run :: rest
    else
      match run with
      | .word chars => .word (c :: chars) :: rest
      | _ => .word [c] :: run :: rest

/-- The parts of a scalar. -/
def Run.ofChars (chars : List Char) : List Run := chars.foldr Run.cons []

/-- The characters of a scalar between single quotes, where a quote is written twice. -/
def doubledQuotes (chars : List Char) : List Char :=
  chars.flatMap fun c => if c == '\'' then ['\'', '\''] else [c]

/-- Writes the parts of a scalar. Where the line has become too long a single space, if it is not
at an end of the scalar, becomes a line break. -/
def putRuns (fold : Bool) (indent : Nat) (first : Bool) : List Run → Page → Page
  | [], p => p
  | .word chars :: rest, p => putRuns fold indent false rest (p.put (String.ofList chars))
  | .spaces n :: rest, p =>
    if n = 1 && foldWidth < p.column && fold && !first && !rest.isEmpty then
      putRuns fold indent false rest (p.indentTo indent).within
    else putRuns fold indent false rest (p.put (Page.blanks n))
  | .breaks n :: rest, p =>
    putRuns fold indent false rest ((p.newLines (n + 1)).indentTo indent).within

/-- Writes a plain scalar. -/
def putPlain (fold : Bool) (indent : Nat) (chars : List Char) (p : Page) : Page :=
  if chars.isEmpty then p
  else putRuns fold indent true (Run.ofChars chars) (if p.apart then p else p.put " ").within

/-- Writes a scalar between single quotes. -/
def putSingle (fold : Bool) (indent : Nat) (chars : List Char) (p : Page) : Page :=
  (putRuns fold indent true (Run.ofChars (doubledQuotes chars)) (p.mark "'" true false false)).mark
    "'" false false false

/-- The escape of a character between double quotes. -/
def escapeOf (c : Char) : String :=
  let numbered (letter : Char) (width : Nat) : String :=
    String.ofList ('\\' :: letter :: (Text.hexPadded width c.toNat).map Char.toUpper)
  let named := escapes.find? fun (letter, meaning) =>
    meaning == c && letter != ' ' && letter != '\t' && letter != '/'
  match named with
  | some (letter, _) => String.ofList ['\\', letter]
  | none =>
    if c.toNat ≤ 0xFF then numbered 'x' 2
    else if c.toNat ≤ 0xFFFF then numbered 'u' 4
    else numbered 'U' 8

/-- Whether a character has to be escaped between double quotes. -/
def needsEscape (c : Char) : Bool := c == '"' || c == '\\' || !(' ' ≤ c && c ≤ '~')

/-- Writes characters between double quotes. A line that has become too long is ended by a backslash
before a space, or after an escape; a space at the start of a line gets a backslash as well. -/
def putEscaped (fold : Bool) (indent : Nat) (first afterEscape : Bool) : List Char → Page → Page
  | [], p => p
  | c :: rest, p =>
    let mayFold := fold && !first && !rest.isEmpty
    let breakLine (p : Page) (spaceNext : Bool) : Page :=
      let p := ((p.put "\\").indentTo indent).within
      if spaceNext then p.put "\\" else p
    if needsEscape c then
      let p := p.put (escapeOf c)
      let p := if mayFold && foldWidth + 1 < p.column then breakLine p (rest.head? == some ' ')
        else p
      putEscaped fold indent false true rest p
    else
      let p := if mayFold && (c == ' ' || afterEscape) && foldWidth < p.column then
          breakLine p (c == ' ')
        else p
      putEscaped fold indent false false rest (p.put (String.singleton c))

/-- Writes a scalar between double quotes. -/
def putDouble (fold : Bool) (indent : Nat) (chars : List Char) (p : Page) : Page :=
  (putEscaped fold indent true false chars (p.mark "\"" true false false).within).mark
    "\"" false false false

/-- Writes a scalar that ends in one line break as a block. -/
def putLiteral (indent : Nat) (chars : List Char) (p : Page) : Page :=
  let lines := Text.splitOn '\n' chars
  (lines.filter (!·.isEmpty)).foldl
    (fun p line => ((p.indentTo indent).put (String.ofList line)).newLine)
    (p.mark "|" true false false).newLine

/-- A scalar that is to be written: the name of its tag, whether it should be a block, and its
text. -/
structure Leaf where
  tag : String
  literal : Bool
  text : String
deriving Repr, DecidableEq, Inhabited

namespace Leaf

/-- Whether a scalar, written plain, reads back as itself. -/
def isImplied (leaf : Leaf) : Bool :=
  (Kind.ofPlain leaf.text).tag == Kind.commonTag leaf.tag

/-- The mark of the tag of a scalar. -/
def tagMark (leaf : Leaf) : String := "!!" ++ leaf.tag

/-- Whether a scalar can be a key before a colon: one line, neither empty nor long. -/
def isSimpleKey (leaf : Leaf) : Bool :=
  let look := Look.of leaf.text.toList
  leaf.tagMark.length + leaf.text.length < 128 && !look.isEmpty && !look.isMultiline

/-- Writes a scalar. -/
def put (leaf : Leaf) (isKey : Bool) (indent : Nat) (p : Page) : Page :=
  let chars := leaf.text.toList
  let style := Style.choose (Look.of chars) leaf.isImplied leaf.literal isKey
  let isClear := if style == .plain then leaf.isImplied else leaf.tag == "str"
  let p := if isClear then p else p.mark leaf.tagMark true false false
  match style with
  | .plain => putPlain (!isKey) indent chars p
  | .single => putSingle (!isKey) indent chars p
  | .double => putDouble (!isKey) indent chars p
  | .literal => putLiteral indent chars p

end Leaf

/-- The text of a floating-point number; an exponent needs a point before it. -/
def floatText (x : Binary64) : String :=
  let text := x.text { Binary64.plainStyle with infinity := ".inf", notANumber := ".nan" }
  if text.contains 'e' && !text.contains '.' then
    String.intercalate ".0e" (text.splitOn "e")
  else text

/-- The base-64 digits of octets, three at a time. -/
def sixBitText : List UInt8 → List Char
  | [] => []
  | [a] => digit (a.toNat / 4) :: digit (a.toNat % 4 * 16) :: ['=', '=']
  | [a, b] =>
    [digit (a.toNat / 4), digit (a.toNat % 4 * 16 + b.toNat / 16), digit (b.toNat % 16 * 4), '=']
  | a :: b :: c :: rest =>
    digit (a.toNat / 4) :: digit (a.toNat % 4 * 16 + b.toNat / 16) ::
      digit (b.toNat % 16 * 4 + c.toNat / 64) :: digit (c.toNat % 64) :: sixBitText rest
where
  /-- A base-64 digit. -/
  digit (n : Nat) : Char := (sixBitDigits[n]?).getD '='

/-- Lines of some characters each, with their line breaks. -/
def linesOf (width : Nat) : Nat → List Char → List Char
  | 0, _ => []
  | fuel + 1, chars =>
    if chars.isEmpty then [] else chars.take width ++ '\n' :: linesOf width fuel (chars.drop width)

/-- A value that is a scalar. -/
def Leaf.ofValue? : Value → Option Leaf
  | .null => some ⟨"null", false, "null"⟩
  | .bool b => some ⟨"bool", false, if b then "true" else "false"⟩
  | .int n => some ⟨"int", false, toString n⟩
  | .float x => some ⟨"float", false, floatText x⟩
  | .text s => some ⟨"str", false, s⟩
  | .date d => some ⟨"timestamp", false, d.iso⟩
  | .moment m => some ⟨"timestamp", false, m.date.iso ++ " " ++ m.timeText⟩
  | .bytes octets =>
    let digits := sixBitText octets
    some ⟨"binary", true, String.ofList (linesOf 76 (digits.length + 1) digits)⟩
  | _ => none

/-! ## Collections -/

/-- The entries of a mapping in the order of their keys, or as they are if the keys have none. -/
def sortEntries (entries : List (Value × Value)) : List (Value × Value) :=
  match sortBy (fun a b => Value.less a.1 b.1) entries with
  | .ok sorted => sorted
  | .error _ => entries

mutual

/-- A value with the entries of its mappings sorted; a set is a mapping to null. -/
def sorted : Value → Value
  | .list items => .list (sortedItems items)
  | .tuple items => .tuple (sortedItems items)
  | .mapping entries => .mapping (sortEntries (sortedEntries entries))
  | .set members =>
    .set ((sortEntries (members.map fun v => (v, Value.null))).map Prod.fst)
  | v => v

/-- The members of a list with the entries of their mappings sorted. -/
def sortedItems : List Value → List Value
  | [] => []
  | v :: rest => sorted v :: sortedItems rest

/-- Entries with the entries of the mappings in them sorted. -/
def sortedEntries : List (Value × Value) → List (Value × Value)
  | [] => []
  | (k, v) :: rest => (k, sorted v) :: sortedEntries rest

end

/-- The column of what stands one level deeper. -/
def deeper : Option Nat → Nat
  | none => 0
  | some column => column + 2

/-- The column of the lines of a scalar. -/
def scalarIndent : Option Nat → Nat
  | none => 2
  | some column => column + 2

/-- Writes an empty collection. -/
def putEmpty (opening closing : String) (p : Page) : Page :=
  (p.mark opening true true false).mark closing false false false

/-- Writes a key and the colon after it. A key that is not simple has a question mark before it and
the colon on a line of its own. -/
def putKey (indent : Nat) (key : Leaf) (p : Page) : Page :=
  let p := p.indentTo indent
  if key.isSimpleKey then (key.put true (indent + 2) p).mark ":" false false false
  else
    ((key.put false (indent + 2) (p.mark "?" true false true)).indentTo indent).mark
      ":" true false true

/-- A value as a key; what is no scalar stands as it is shown. -/
def keyLeaf (v : Value) : Leaf := (Leaf.ofValue? v).getD ⟨"str", false, v.display⟩

mutual

/-- Writes a value inside a collection at a column. A list that is the value of a key and starts on
a line of its own is indented no deeper than the key. -/
def putValue (indent : Option Nat) (isEntry : Bool) : Value → Page → Page
  | .list items, p =>
    if items.isEmpty then putEmpty "[" "]" p
    else
      let inner := if isEntry && !p.fresh then indent.getD 0 else deeper indent
      putItems inner items p
  | .tuple items, p =>
    if items.isEmpty then putEmpty "[" "]" p else putItems (deeper indent) items p
  | .mapping entries, p =>
    if entries.isEmpty then putEmpty "\x7b" "\x7d" p else putEntries (deeper indent) entries p
  | .set members, p =>
    let p := p.mark "!!set" true false false
    if members.isEmpty then putEmpty "\x7b" "\x7d" p
    else
      members.foldl
        (fun p v =>
          (keyLeaf .null).put false (deeper indent + 2) (putKey (deeper indent) (keyLeaf v) p)) p
  | v, p => (keyLeaf v).put false (scalarIndent indent) p

/-- Writes the members of a list. -/
def putItems (indent : Nat) : List Value → Page → Page
  | [], p => p
  | v :: rest, p =>
    putItems indent rest
      (putValue (some indent) false v ((p.indentTo indent).mark "-" true false true))

/-- Writes the entries of a mapping. -/
def putEntries (indent : Nat) : List (Value × Value) → Page → Page
  | [], p => p
  | (k, v) :: rest, p =>
    putEntries indent rest (putValue (some indent) true v (putKey indent (keyLeaf k) p))

end

/-- Whether a value that is a document of its own needs a mark at its end: a plain scalar does. -/
def needsEnd (v : Value) : Bool :=
  match Leaf.ofValue? v with
  | some leaf =>
    Style.choose (Look.of leaf.text.toList) leaf.isImplied leaf.literal false == .plain
  | none => false

/-- The text of a value. -/
def write (v : Value) : String :=
  let p := (putValue none false (sorted v) .empty).indentTo 0
  (if needsEnd v then (p.mark "..." true false false).indentTo 0 else p).text

end GuestCode.Yaml
