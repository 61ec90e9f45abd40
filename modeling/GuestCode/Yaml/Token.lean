import GuestCode.Yaml.Text

/-!
# Tokens of YAML

A YAML text as a list of tokens. Block collections are told from their indentation, and the start
of a block mapping is only known when a colon follows its first key; so places where a key may have
started are remembered as candidates, and the tokens of the mapping are put in before the key
later.

* `Yaml.Token`: the tokens
* `Yaml.Scanner`, `Scanner.step`: the state of the division, and one step of it
* `Yaml.tokens?`: the tokens of a text
-/

namespace GuestCode.Yaml

/-- Tokens. -/
inductive Token where
  | versionDirective (major : Nat)
  | tagDirective (mark target : String)
  | otherDirective
  | documentStart
  | documentEnd
  | streamEnd
  | blockSequenceStart
  | blockMappingStart
  | blockEnd
  | flowSequenceStart
  | flowSequenceEnd
  | flowMappingStart
  | flowMappingEnd
  | blockEntry
  | flowEntry
  | key
  | value
  | alias (name : String)
  | anchor (name : String)
  | tag (mark : Option String) (suffix : String)
  | scalar (text : String) (plain : Bool)
  /-- A scalar with the number of a character that there is none of; no token follows it. -/
  | noCharacter (code : Nat)
deriving Repr, DecidableEq, Inhabited

/-- A place where a key may have started: the number of the tokens before it, whether it must be a
key, and where it stands. -/
structure KeyCandidate where
  tokensBefore : Nat
  required : Bool
  index : Nat
  line : Nat
  column : Nat
deriving Repr, DecidableEq, Inhabited

/-- The state of the division into tokens. -/
structure Scanner where
  cursor : Cursor
  tokens : List Token
  /-- The number of flow collections that are open. -/
  flow : Nat
  /-- The column of the innermost block collection, -1 if there is none. -/
  indent : Int
  outerIndents : List Int
  /-- Whether a key may start here. -/
  keyAllowed : Bool
  /-- The candidate of each level of flow collections. -/
  candidates : List (Nat × KeyCandidate)
deriving Repr, Inhabited

namespace Scanner

/-- The start of a text. -/
def ofText (text : List Char) : Scanner := ⟨.ofText text, [], 0, -1, [], true, []⟩

/-- Puts tokens at the end. -/
def emit (s : Scanner) (tokens : List Token) : Scanner := { s with tokens := s.tokens ++ tokens }

/-- Puts tokens after the first `count` ones. -/
def emitAt (s : Scanner) (count : Nat) (tokens : List Token) : Scanner :=
  { s with tokens := s.tokens.take count ++ tokens ++ s.tokens.drop count }

/-! ## Indentation -/

/-- Ends the block collections that are indented deeper than a column. -/
def unwindFrom (column : Int) : Scanner → List Int → Scanner
  | s, [] => s
  | s, outer :: rest =>
    if column < s.indent then
      unwindFrom column
        { s with indent := outer, outerIndents := rest, tokens := s.tokens ++ [.blockEnd] } rest
    else s

/-- Ends the block collections that are indented deeper than a column; between flow brackets
indentation says nothing. -/
def unwind (s : Scanner) (column : Int) : Scanner :=
  if 0 < s.flow then s else unwindFrom column s s.outerIndents

/-- Enters a block collection at a column, if it is indented deeper than the one around it. -/
def enter (s : Scanner) (column : Nat) : Scanner × Bool :=
  if s.indent < column then
    ({ s with outerIndents := s.indent :: s.outerIndents, indent := column }, true)
  else (s, false)

/-! ## Candidates for keys -/

/-- Drops the candidates that can be no keys any more: a key is on one line and not too long. A
candidate that had to be one is a fault. -/
def dropStale (s : Scanner) : Option Scanner :=
  let isStale (k : KeyCandidate) :=
    k.line != s.cursor.line || 1024 < s.cursor.index - k.index
  if s.candidates.any fun (_, k) => isStale k && k.required then none
  else some { s with candidates := s.candidates.filter fun (_, k) => !isStale k }

/-- Drops the candidate of the present level. -/
def dropCandidate (s : Scanner) : Option Scanner :=
  match s.candidates.lookup s.flow with
  | some k =>
    if k.required then none
    else some { s with candidates := s.candidates.filter fun (level, _) => level != s.flow }
  | none => some s

/-- Remembers that a key may start here. -/
def saveCandidate (s : Scanner) : Option Scanner :=
  if s.keyAllowed then do
    let s ← s.dropCandidate
    let c := s.cursor
    let k : KeyCandidate :=
      ⟨s.tokens.length, s.flow == 0 && s.indent == c.column, c.index, c.line, c.column⟩
    return { s with candidates := (s.flow, k) :: s.candidates }
  else some s

/-! ## Reading tokens -/

/-- The place of the next token: blanks, comments and line breaks are passed over. -/
def toNextToken : Nat → Scanner → Scanner
  | 0, s => s
  | fuel + 1, s =>
    let c := s.cursor.skip (· == ' ')
    let c := if c.peek 0 == '#' then c.skip fun ch => !isBreak ch else c
    match c.lineBreak with
    | ([], _) => { s with cursor := c }
    | (_, c) => toNextToken fuel { s with cursor := c, keyAllowed := s.keyAllowed || s.flow == 0 }

/-- Ends all blocks. -/
def endBlocks (s : Scanner) : Option Scanner :=
  ((s.unwind (-1)).dropCandidate).map fun s => { s with keyAllowed := false }

/-- The tokens at the end of the text. -/
def readEnd (s : Scanner) : Option Scanner :=
  s.endBlocks.map fun s => { s.emit [.streamEnd] with candidates := [] }

/-- The mark that starts or ends a document. -/
def readDocumentMarker (s : Scanner) (token : Token) : Option Scanner :=
  s.endBlocks.map fun s => { s.emit [token] with cursor := s.cursor.forward 3 }

/-- The text of characters as a string, and the place after them. -/
def word (c : Cursor) (p : Char → Bool) : String × Cursor :=
  let (chars, c) := c.span p
  (String.ofList chars, c)

/-- Characters of tag names. -/
def isUriChar (c : Char) : Bool :=
  c.isAlphanum || "-;/?:@&=+$,_.!~*'()[]".toList.contains c

/-- The octets of escapes such as `%C3` at the start of a text, and the text after them. -/
def readUriOctets? : List Char → Option (List UInt8 × List Char)
  | '%' :: a :: b :: rest => do
    let n ← Json.hexValue? [a, b]
    let (octets, rest) ← readUriOctets? rest
    return (UInt8.ofNat n :: octets, rest)
  | '%' :: _ => none
  | rest => some ([], rest)

/-- A tag name, in which escapes stand for octets. -/
def readUri? : Nat → Cursor → Option (List Char × Cursor)
  | 0, c => some ([], c)
  | fuel + 1, c =>
    match c.rest with
    | '%' :: _ => do
      let (octets, rest) ← readUriOctets? c.rest
      let text ← (Utf8.decode octets).toOption
      let (others, c) ← readUri? fuel (c.forward (c.rest.length - rest.length))
      return (text ++ others, c)
    | ch :: _ =>
      if isUriChar ch then
        (readUri? fuel c.next).map fun (others, c) => (ch :: others, c)
      else some ([], c)
    | [] => some ([], c)

/-- A tag name of one character at least. -/
def readSomeUri? (c : Cursor) : Option (String × Cursor) :=
  match readUri? (c.rest.length + 1) c with
  | some (ch :: chars, c) => some (String.ofList (ch :: chars), c)
  | _ => none

/-- A tag handle: `!`, `!!`, or a name between two marks. -/
def readHandle? (directive : Bool) (c : Cursor) : Option (String × Cursor) :=
  if c.peek 0 != '!' then none
  else if directive && c.peek 1 == ' ' then some ("!", c.next)
  else
    let (name, after) := word c.next isNameChar
    if after.peek 0 == '!' then some ("!" ++ name ++ "!", after.next)
    else if name.isEmpty && c.peek 1 == ' ' then some ("!", c.next)
    else none

/-- A line that holds nothing more than a comment. -/
def readLineRest? (c : Cursor) : Option Cursor := skipComment? c

/-- A directive. -/
def readDirective? (c : Cursor) : Option (Token × Cursor) := do
  let (name, c) := word c.next isNameChar
  if name.isEmpty || !(c.peek 0 == ' ' || isLineEnd (c.peek 0)) then none
  else if name == "YAML" then
    let c := c.skip (· == ' ')
    let (major, c) := word c Char.isDigit
    if major.isEmpty || c.peek 0 != '.' then none
    else
      let (minor, c) := word c.next Char.isDigit
      if minor.isEmpty || !(c.peek 0 == ' ' || isLineEnd (c.peek 0)) then none
      else (readLineRest? c).map fun c => (.versionDirective (major.toNat?.getD 0), c)
  else if name == "TAG" then
    let c := c.skip (· == ' ')
    let (mark, c) ← readHandle? true c
    if c.peek 0 != ' ' then none
    else
      let (target, c) ← readSomeUri? (c.skip (· == ' '))
      if !(c.peek 0 == ' ' || isLineEnd (c.peek 0)) then none
      else (readLineRest? c).map fun c => (.tagDirective mark target, c)
  else
    (readLineRest? (c.skip fun ch => !isBreak ch)).map fun c => (.otherDirective, c)

/-- The name of an anchor or alias, after its mark. -/
def readAnchorName? (c : Cursor) : Option (String × Cursor) :=
  let (name, c) := word c isNameChar
  let after := c.peek 0
  if name.isEmpty || !(isGap after || "?:,]\x7d%@\x60".toList.contains after) then none
  else some (name, c)

/-- Whether a tag has a handle: a mark before the next blank. -/
def hasHandle (c : Cursor) : Bool :=
  let name := (c.next.rest).takeWhile fun ch => !(ch == ' ' || isLineEnd ch)
  name.contains '!'

/-- A tag. -/
def readTag? (c : Cursor) : Option (Token × Cursor) := do
  let (token, c) ←
    if c.peek 1 == '<' then do
      let (name, c) ← readSomeUri? (c.forward 2)
      if c.peek 0 == '>' then pure (Token.tag none name, c.next) else none
    else if isGap (c.peek 1) then pure (Token.tag none "!", c.next)
    else if hasHandle c then do
      let (mark, c) ← readHandle? false c
      let (name, c) ← readSomeUri? c
      pure (Token.tag (some mark) name, c)
    else do
      let (name, c) ← readSomeUri? c.next
      pure (Token.tag (some "!") name, c)
  if c.peek 0 == ' ' || isLineEnd (c.peek 0) then return (token, c) else none

/-- A token that may start a key. -/
def readKeyToken (s : Scanner) (read : Cursor → Option (Token × Cursor)) : Option Scanner := do
  let s : Scanner ← s.saveCandidate
  let (token, c) ← read s.cursor
  return { s.emit [token] with cursor := c, keyAllowed := false }

/-- A token of one character that opens a flow collection. -/
def readOpening (s : Scanner) (token : Token) : Option Scanner :=
  s.saveCandidate.map fun s =>
    { s.emit [token] with cursor := s.cursor.next, flow := s.flow + 1, keyAllowed := true }

/-- A token of one character that closes a flow collection. -/
def readClosing (s : Scanner) (token : Token) : Option Scanner :=
  s.dropCandidate.map fun s =>
    { s.emit [token] with cursor := s.cursor.next, flow := s.flow - 1, keyAllowed := false }

/-- A comma between flow brackets. -/
def readFlowEntry (s : Scanner) : Option Scanner :=
  (dropCandidate { s with keyAllowed := true }).map fun s =>
    { s.emit [.flowEntry] with cursor := s.cursor.next }

/-- Enters a block collection that starts here, which only a place for keys can. -/
def enterBlock (s : Scanner) (start : Token) : Option Scanner :=
  if 0 < s.flow then some s
  else if !s.keyAllowed then none
  else
    let (s, entered) := s.enter s.cursor.column
    some (if entered then s.emit [start] else s)

/-- A hyphen before an item. -/
def readBlockEntry (s : Scanner) : Option Scanner := do
  let s : Scanner ← s.enterBlock .blockSequenceStart
  let s : Scanner ← dropCandidate { s with keyAllowed := true }
  return { s.emit [.blockEntry] with cursor := s.cursor.next }

/-- A question mark before a key. -/
def readKey (s : Scanner) : Option Scanner := do
  let s : Scanner ← s.enterBlock .blockMappingStart
  let s : Scanner ← dropCandidate { s with keyAllowed := s.flow == 0 }
  return { s.emit [.key] with cursor := s.cursor.next }

/-- A colon before a value. If a candidate is there it is the key. -/
def readValue (s : Scanner) : Option Scanner := do
  let s : Scanner ←
    match s.candidates.lookup s.flow with
    | some k =>
      let s := { s with candidates := s.candidates.filter fun (level, _) => level != s.flow }
      let (s, entered) := if s.flow == 0 then s.enter k.column else (s, false)
      let start := if entered then [Token.blockMappingStart, .key] else [.key]
      pure { s.emitAt k.tokensBefore start with keyAllowed := false }
    | none => do
      let s : Scanner ← s.enterBlock .blockMappingStart
      dropCandidate { s with keyAllowed := s.flow == 0 }
  return { s.emit [.value] with cursor := s.cursor.next }

/-- A block scalar. -/
def readBlockScalar (s : Scanner) : Option Scanner := do
  let s : Scanner ← dropCandidate { s with keyAllowed := true }
  let (text, c) ← readBlock? s.indent s.cursor
  return { s.emit [.scalar (String.ofList text) false] with cursor := c }

/-- The token of a quoted scalar. -/
def quotedToken : Piece → Token
  | .chars text => .scalar (String.ofList text) false
  | .noCharacter code => .noCharacter code

/-- A quoted scalar, and whether the reading ends there. -/
def readQuotedScalar (s : Scanner) : Option (Scanner × Bool) := do
  let (piece, c) ← readQuoted? s.cursor
  let s ← s.readKeyToken fun _ => some (quotedToken piece, c)
  match piece with
  | .chars _ => return (s, false)
  | .noCharacter _ => return (s, true)

/-- A plain scalar. -/
def readPlainScalar (s : Scanner) : Option Scanner := do
  let s : Scanner ← s.saveCandidate
  let plain := readPlain (0 < s.flow) (s.indent + 1) s.cursor
  return { s.emit [.scalar (String.ofList plain.text) true] with
    cursor := plain.cursor, keyAllowed := plain.newLine }

/-- Whether a plain scalar may start here. -/
def startsPlain (s : Scanner) : Bool :=
  let ch := s.cursor.peek 0
  let marks := "-?:,[]\x7b\x7d#&*!|>'\"%@\x60".toList
  (!isGap ch && !marks.contains ch) ||
    (!isGap (s.cursor.peek 1) && (ch == '-' || (s.flow == 0 && (ch == '?' || ch == ':'))))

/-- One step: the next token, and whether the reading ends with it. -/
def step (s : Scanner) : Option (Scanner × Bool) := do
  let s ← (toNextToken (s.cursor.rest.length + 1) s).dropStale
  let s := s.unwind s.cursor.column
  let c := s.cursor
  let ch := c.peek 0
  let inBlock := s.flow == 0
  let more (s? : Option Scanner) : Option (Scanner × Bool) := s?.map fun s => (s, false)
  if c.rest.isEmpty then s.readEnd.map fun s => (s, true)
  else if ch == '%' && c.column == 0 then do
    let s ← s.endBlocks
    let (token, c) ← readDirective? s.cursor
    return ({ s.emit [token] with cursor := c }, false)
  else if c.column == 0 && c.isMarker '-' then more (s.readDocumentMarker .documentStart)
  else if c.column == 0 && c.isMarker '.' then more (s.readDocumentMarker .documentEnd)
  else if ch == '[' then more (s.readOpening .flowSequenceStart)
  else if ch == '\x7b' then more (s.readOpening .flowMappingStart)
  else if ch == ']' then more (s.readClosing .flowSequenceEnd)
  else if ch == '\x7d' then more (s.readClosing .flowMappingEnd)
  else if ch == ',' then more s.readFlowEntry
  else if ch == '-' && isGap (c.peek 1) then more s.readBlockEntry
  else if ch == '?' && (!inBlock || isGap (c.peek 1)) then more s.readKey
  else if ch == ':' && (!inBlock || isGap (c.peek 1)) then more s.readValue
  else if ch == '*' then
    more (s.readKeyToken fun c =>
      (readAnchorName? c.next).map fun (name, c) => (.alias name, c))
  else if ch == '&' then
    more (s.readKeyToken fun c =>
      (readAnchorName? c.next).map fun (name, c) => (.anchor name, c))
  else if ch == '!' then more (s.readKeyToken readTag?)
  else if (ch == '|' || ch == '>') && inBlock then more s.readBlockScalar
  else if ch == '\'' || ch == '"' then s.readQuotedScalar
  else if s.startsPlain then more s.readPlainScalar
  else none

/-- Makes steps until the text has ended. -/
def stepsUpTo : Nat → Scanner → Option (List Token)
  | 0, _ => none
  | fuel + 1, s =>
    match s.step with
    | none => none
    | some (s, true) => some s.tokens
    | some (s, false) => stepsUpTo fuel s

end Scanner

/-- The tokens of a text. Each step but the last takes a character at least. A byte order mark at
the start says nothing. -/
def tokens? (text : List Char) : Option (List Token) :=
  let body := if text.head? == some '\uFEFF' then text.tail else text
  if text.all isAllowed then Scanner.stepsUpTo (text.length + 2) (.ofText body) else none

end GuestCode.Yaml
