import GuestCode.Data.Coercion

/-!
# Arguments of a command line

A command line is a list of words. A word that starts with a dash is an option, unless it reads as
a number or holds a blank; two dashes alone divide the options from words that are none. Options
may be cut short as long as one name is meant, and an option that takes an argument has it in the
same word or as the next word. Two dashes as an argument in the same word take back what the option
has been given before.

* `OptionRule`, `Grammar`: what a command line may hold
* `Grammar.roles`: what each word is
* `Grammar.read`: what a command line says
-/

namespace GuestCode.CommandLine

/-! ## Grammars -/

/-- What an option asks for: a text, a whole number, or nothing but that it stands there. Two kinds
of options end the reading at once. -/
inductive OptionKind where
  | text
  | whole
  | flag
  | version
  | help
deriving Repr, DecidableEq, Inhabited

/-- Whether an option of a kind takes an argument. -/
def OptionKind.takesArgument : OptionKind → Bool
  | text | whole => true
  | flag | version | help => false

/-- An option: its names, of which the first one is its own, and its kind. -/
structure OptionRule where
  names : List String
  kind : OptionKind
deriving Repr, DecidableEq, Inhabited

/-- The name under which the argument of an option is kept. -/
def OptionRule.key (o : OptionRule) : String := o.names.headD ""

/-- What stands beside the options: nothing, one operand, or a command with a command line of its
own. -/
inductive Operands where
  | nothing
  | one
  | command
deriving Repr, DecidableEq, Inhabited

/-- What a command line may hold. -/
structure Grammar where
  options : List OptionRule
  operands : Operands
deriving Repr, DecidableEq, Inhabited

/-- Why the reading of a command line ends early. -/
inductive Stop where
  /-- The command line makes no sense. -/
  | misuse
  /-- The version is asked for. -/
  | version
  /-- Help is asked for. -/
  | help
deriving Repr, DecidableEq, Inhabited

/-- What an option has been given; `unset` takes back what it has been given before. -/
inductive Setting where
  | text (s : String)
  | whole (n : Int)
  | on
  | unset
deriving Repr, DecidableEq, Inhabited

/-- What a command line says: the settings with the later ones first, the operand, the words after
a command, and whether there are words that mean nothing. -/
structure Reading where
  settings : List (String × Setting)
  operand : Option String
  commandLine : List String
  hasExtras : Bool
deriving Repr, DecidableEq, Inhabited

namespace Reading

/-- Nothing has been read yet. -/
def empty : Reading := ⟨[], none, [], false⟩

/-- The text that an option has been given. -/
def text? (r : Reading) (key : String) : Option String :=
  match r.settings.lookup key with
  | some (.text s) => some s
  | _ => none

/-- The number that an option has been given. -/
def whole? (r : Reading) (key : String) : Option Int :=
  match r.settings.lookup key with
  | some (.whole n) => some n
  | _ => none

/-- Whether an option stands there. -/
def isOn (r : Reading) (key : String) : Bool := (r.settings.lookup key).isSome

end Reading

/-! ## Words -/

/-- What is in one word with an option: nothing, an argument after a long name and the sign for
equality, or more characters after a name of one letter, with or without that sign. -/
inductive Attached where
  | nothing
  | equals (argument : List Char)
  | joined (more : List Char)
deriving Repr, DecidableEq, Inhabited

/-- What a word is. -/
inductive Role where
  | operand
  | divider
  | option (rule : OptionRule) (attached : Attached)
  | unknown
deriving Repr, DecidableEq, Inhabited

/-- What is attached to a name with the sign for equality. -/
def Attached.afterEquals (name argument : List Char) : Attached :=
  if "--".toList.isPrefixOf name then .equals argument else .joined argument

/-- A text divided at the first sign for equality. -/
def divideEquals (word : List Char) : List Char × Attached :=
  let name := word.takeWhile (· != '=')
  match word.dropWhile (· != '=') with
  | [] => (name, .nothing)
  | _ :: argument => (name, .afterEquals name argument)

/-- Whether a text reads as a negative number. A line end after it does no harm. -/
def isNegativeNumber (word : List Char) : Bool :=
  match word with
  | '-' :: body =>
    let body := if body.getLast? == some '\n' then body.dropLast else body
    let fraction := (body.dropWhile Text.isDecimalDigit)
    match fraction with
    | [] => !body.isEmpty
    | '.' :: digits => !digits.isEmpty && digits.all Text.isDecimalDigit
    | _ => false
  | _ => false

namespace Grammar

/-- The option with a name. -/
def named? (g : Grammar) (name : List Char) : Option OptionRule :=
  g.options.find? fun o => o.names.any fun n => n.toList == name

/-- The options of which a text is the start of a name, once for each such name. -/
def startingWith (g : Grammar) (start : List Char) : List OptionRule :=
  g.options.flatMap fun o =>
    (o.names.filter fun n => start.isPrefixOf n.toList).map fun _ => o

/-- What a word may be that starts with a dash but is no full name of an option. -/
def candidates (g : Grammar) (word : List Char) : List (OptionRule × Attached) :=
  match word with
  | '-' :: '-' :: _ =>
    let (start, attached) := divideEquals word
    (g.startingWith start).map fun o => (o, attached)
  | a :: b :: more => (g.named? [a, b]).toList.map fun o => (o, .joined more)
  | _ => []

/-- What a word before the divider is. -/
def roleOf (g : Grammar) (word : List Char) : Except Stop Role :=
  if word.head? != some '-' then .ok .operand
  else
    match g.named? word with
    | some o => .ok (.option o .nothing)
    | none =>
      if word.length = 1 then .ok .operand
      else
        let (name, attached) := divideEquals word
        match g.named? name with
        | some o => .ok (.option o attached)
        | none =>
          match g.candidates word with
          | [(o, attached)] => .ok (.option o attached)
          | [] =>
            if isNegativeNumber word || word.contains ' ' then .ok .operand else .ok .unknown
          | _ => .error .misuse

/-- What each word is. Behind the divider there are only operands. -/
def roles (g : Grammar) : List String → Except Stop (List (String × Role))
  | [] => .ok []
  | word :: rest =>
    if word == "--" then .ok ((word, .divider) :: rest.map fun w => (w, .operand))
    else do
      let kind ← g.roleOf word.toList
      return (word, kind) :: (← roles g rest)

/-! ## Options -/

/-- An option with the argument for it. There is none if the option takes none, or if the argument
is taken back. -/
abbrev Choice := OptionRule × Option String

/-- The options that start in a word: those chosen, and the last one if its argument is the next
word. -/
structure WordOptions where
  choices : List Choice
  isOpen : Option OptionRule

/-- The argument that is in one word with an option: two dashes are none. -/
def attachedArgument (argument : List Char) : Option String :=
  if argument == ['-', '-'] then none else some (String.ofList argument)

/-- The options that an option without anything attached to it makes. -/
def bareOption (o : OptionRule) : WordOptions :=
  if o.kind.takesArgument then ⟨[], some o⟩ else ⟨[(o, none)], none⟩

/-- The options that an option with characters joined to it makes: the characters are its argument,
or further options of one letter each, of which the last one may have an argument. -/
def joinedOptions (g : Grammar) (o : OptionRule) : List Char → Except Stop WordOptions
  | [] => if o.kind.takesArgument then .ok ⟨[(o, some "")], none⟩ else .error .misuse
  | letter :: more =>
    if o.kind.takesArgument then .ok ⟨[(o, attachedArgument (letter :: more))], none⟩
    else
      match g.named? ['-', letter] with
      | none => .error .misuse
      | some next => do
        let others ← if more.isEmpty then pure (bareOption next) else joinedOptions g next more
        return { others with choices := (o, none) :: others.choices }

/-- The options that start in a word. -/
def wordOptions (g : Grammar) (o : OptionRule) : Attached → Except Stop WordOptions
  | .nothing => .ok (bareOption o)
  | .equals argument =>
    if o.kind.takesArgument then .ok ⟨[(o, attachedArgument argument)], none⟩
    else .error .misuse
  | .joined more => g.joinedOptions o more

end Grammar

namespace Reading

/-- Takes an option. -/
def take (r : Reading) (choice : Grammar.Choice) : Except Stop Reading :=
  let (o, argument) := choice
  let keep (s : Setting) : Reading := { r with settings := (o.key, s) :: r.settings }
  match o.kind, argument with
  | .text, some text => .ok (keep (.text text))
  | .whole, some text =>
    match Text.Numeral.read 10 text.toList with
    | .ok n => .ok (keep (.whole n))
    | .error _ => .error .misuse
  | .text, none | .whole, none => .ok (keep .unset)
  | .flag, _ => .ok (keep .on)
  | .version, _ => .error .version
  | .help, _ => .error .help

end Reading

/-! ## Command lines -/

namespace Grammar

/-- Reads words of which it is known what they are. An operand that is expected takes a divider
beside it along; what is not expected is extra. -/
def readWords (g : Grammar) (r : Reading) : List (String × Role) → Except Stop Reading
  | [] => .ok r
  | (word, .operand) :: rest =>
    match g.operands, r.operand with
    | .command, none =>
      .ok { r with operand := some word, commandLine := rest.map Prod.fst }
    | .one, none =>
      match rest with
      | (_, .divider) :: rest => readWords g { r with operand := some word } rest
      | rest => readWords g { r with operand := some word } rest
    | _, _ => readWords g { r with hasExtras := true } rest
  | (_, .divider) :: rest =>
    match g.operands, r.operand, rest with
    | .command, none, _ => .error .misuse
    | .one, none, (word, _) :: rest => readWords g { r with operand := some word } rest
    | _, _, rest => readWords g { r with hasExtras := true } rest
  | (_, .unknown) :: rest => readWords g { r with hasExtras := true } rest
  | (_, .option o attached) :: rest =>
    match g.wordOptions o attached with
    | .error stop => .error stop
    | .ok ⟨choices, isOpen⟩ =>
      match isOpen, rest with
      | none, rest =>
        match choices.foldlM Reading.take r with
        | .error stop => .error stop
        | .ok r => readWords g r rest
      | some last, (argument, .operand) :: rest =>
        match (choices ++ [(last, some argument)]).foldlM Reading.take r with
        | .error stop => .error stop
        | .ok r => readWords g r rest
      | some _, _ => .error .misuse

/-- Reads a command line, in which the operand must not be missing. -/
def read (g : Grammar) (words : List String) : Except Stop Reading := do
  let r ← g.readWords .empty (← g.roles words)
  match g.operands, r.operand with
  | .nothing, _ => return r
  | _, some _ => return r
  | _, none => throw .misuse

end Grammar

end GuestCode.CommandLine
