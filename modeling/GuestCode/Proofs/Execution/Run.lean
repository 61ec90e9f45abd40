import GuestCode.Execution.Host
import GuestCode.Proofs.Json.Plain
import GuestCode.Proofs.Machine.Steps
import GuestCode.Proofs.Number.Rounding
import Mathlib

/-!
# What decides a run

A runner writes lines until one of three things happens: it tells a result, its output ends, or the
deadline passes. Whichever comes first decides the run. All that is kept of the time before are the
lines that were logged, and of these only as many as the host keeps; what comes after the deciding
event is not even read.

This module says which event decides and what is kept, by looking at the list of events as a whole,
and shows that the host, which goes through them one at a time while it serves calls, comes to the
same.

## Main statements

* `LogBuffer.lines_foldl_push`: the lines that are kept of those that were logged.
* `Host.run_serve`: the host finds the event that decides.
* `Host.run_decided`: the result of a run.
-/

namespace GuestCode

/-! ## Logged lines -/

/-- The lines that are kept of those that were logged: the first ones in their order, and one about
the others if there are any. -/
def keptLines (limit : Nat) (texts : List String) : List String :=
  texts.take limit ++
    if texts.length ≤ limit then []
    else ["[TRUNCATED] " ++ toString (texts.length - limit) ++ " log lines omitted"]

namespace LogBuffer

/-- A buffer holds the first lines of those that it has been given and the number of the others. -/
structure Holds (b : LogBuffer) (texts : List String) : Prop where
  kept : b.kept = texts.take b.limit.toNat
  dropped : b.dropped = texts.length - b.limit.toNat

theorem Holds.push {b : LogBuffer} {texts : List String} (h : b.Holds texts) (text : String) :
    (b.push text).Holds (texts ++ [text]) := by
  have hlength : b.kept.length = min b.limit.toNat texts.length := by
    rw [h.kept, List.length_take]
  unfold LogBuffer.push
  split
  · next hroom =>
    have hshort : texts.length < b.limit.toNat := by omega
    constructor
    · rw [h.kept, List.take_of_length_le (by omega), List.take_of_length_le (by simp; omega)]
    · simp [h.dropped]
      omega
  · -- A full buffer keeps what it has; the line is only counted.
    next hfull =>
    have hlong : b.limit.toNat ≤ texts.length := by omega
    constructor
    · rw [h.kept, List.take_append_of_le_length hlong]
    · simp [h.dropped]
      omega

theorem push_limit (b : LogBuffer) (text : String) : (b.push text).limit = b.limit := by
  unfold LogBuffer.push
  split <;> rfl

theorem Holds.foldl_push {b : LogBuffer} {before : List String} (h : b.Holds before)
    (texts : List String) :
    (texts.foldl LogBuffer.push b).Holds (before ++ texts) ∧
      (texts.foldl LogBuffer.push b).limit = b.limit := by
  induction texts generalizing b before with
  | nil => simpa using h
  | cons text rest ih =>
    obtain ⟨hholds, hlimit⟩ := ih (h.push text)
    rw [List.append_assoc, List.singleton_append] at hholds
    exact ⟨hholds, by rw [List.foldl_cons, hlimit, push_limit]⟩

/-- The lines that are kept of those that were logged. -/
theorem lines_foldl_push (limit : Int) (texts : List String) :
    (texts.foldl LogBuffer.push (ofLimit limit)).lines = keptLines limit.toNat texts := by
  have hempty : (ofLimit limit).Holds [] := ⟨by simp [ofLimit], by simp [ofLimit]⟩
  obtain ⟨hholds, hlimit⟩ := hempty.foldl_push texts
  have hlimit : (texts.foldl LogBuffer.push (ofLimit limit)).limit = limit := hlimit
  have hkept := hholds.kept
  have hdropped := hholds.dropped
  rw [hlimit, List.nil_append] at hkept hdropped
  unfold LogBuffer.lines keptLines
  rw [hkept, hdropped]
  by_cases hfits : texts.length ≤ limit.toNat
  · simp [hfits]
  · rw [if_neg (by omega), if_neg hfits]

end LogBuffer

/-! ## Events -/

/-- The JSON object that an event brings, if it brings one. -/
def ChildEvent.object? : ChildEvent → Option (List (Value × Value))
  | .hang => none
  | .line octets =>
    match Json.readOctets? octets with
    | some (.mapping entries) => some entries
    | _ => none

/-- Whether an object is a message of a kind. -/
def isMessage (kind : String) (entries : List (Value × Value)) : Bool :=
  match Value.field entries "type" with
  | .text s => s == kind
  | _ => false

/-- The text that an event logs, if it does. -/
def ChildEvent.loggedText? (event : ChildEvent) : Option String :=
  event.object?.bind fun entries =>
    if isMessage "log" entries then some (RunnerMessage.textField entries "text") else none

namespace Host

/-- What an event decides, if it does: a result is told, the output ends, which reads as a line
without octets, or the deadline passes. -/
def decision? : ChildEvent → Option Decision
  | .hang => some .late
  | .line [] => some .ended
  | .line (b :: octets) =>
    (ChildEvent.line (b :: octets)).object?.bind fun entries =>
      if isMessage "result" entries then some (.result entries) else none

/-- The decision of a run with some events; without a deciding one the output ends. -/
def decisionOf (events : List ChildEvent) : Decision := (events.findSome? decision?).getD .ended

/-- The texts that are logged before the event that decides. -/
def loggedBefore (events : List ChildEvent) : List String :=
  (events.takeWhile fun event => (decision? event).isNone).filterMap ChildEvent.loggedText?

theorem decisionOf_cons_of_none {event : ChildEvent} (h : decision? event = none)
    (rest : List ChildEvent) : decisionOf (event :: rest) = decisionOf rest := by
  simp [decisionOf, h]

theorem loggedBefore_cons_of_none {event : ChildEvent} (h : decision? event = none)
    (rest : List ChildEvent) :
    loggedBefore (event :: rest) = event.loggedText?.toList ++ loggedBefore rest := by
  cases htext : event.loggedText? <;> simp [loggedBefore, h, htext]

/-- What an object is to the host is told by its type alone. -/
theorem ofEntries?_cases (entries : List (Value × Value)) :
    isMessage "log" entries = true ∧ isMessage "result" entries = false ∧
        RunnerMessage.ofEntries? entries =
          some (.log (RunnerMessage.textField entries "text")) ∨
      isMessage "result" entries = true ∧
        RunnerMessage.ofEntries? entries = some (.result entries) ∨
      isMessage "log" entries = false ∧ isMessage "result" entries = false ∧
        (RunnerMessage.ofEntries? entries = none ∨
          ∃ c, RunnerMessage.ofEntries? entries = some (.call c) ∧
            c.id = Value.field entries "id") := by
  unfold RunnerMessage.ofEntries?
  split
  · next htype => exact .inl ⟨by simp [isMessage, htype], by simp [isMessage, htype], rfl⟩
  · next htype =>
    exact .inr (.inr ⟨by simp [isMessage, htype], by simp [isMessage, htype], .inr ⟨_, rfl, rfl⟩⟩)
  · next htype => exact .inr (.inl ⟨by simp [isMessage, htype], rfl⟩)
  · next hlog hcall hresult =>
    refine .inr (.inr ⟨?_, ?_, .inl rfl⟩)
    · unfold isMessage
      split <;> simp_all
    · unfold isMessage
      split <;> simp_all

theorem ofOctets?_eq (octets : List UInt8) :
    RunnerMessage.ofOctets? octets =
      (ChildEvent.line octets).object?.bind RunnerMessage.ofEntries? := by
  simp only [RunnerMessage.ofOctets?, ChildEvent.object?]
  rcases Json.readOctets? octets with _ | v
  · rfl
  · cases v <;> rfl

theorem isPlain_object? {event : ChildEvent} {entries : List (Value × Value)}
    (h : event.object? = some entries) : Json.IsPlain (.mapping entries) := by
  unfold ChildEvent.object? at h
  split at h
  · cases h
  · split at h
    · next found =>
      cases h
      exact .of_readOctets? found
    · cases h

/-- What a line is to the host: it logs a text, it tells the result, or it does neither, being
perhaps a call. -/
theorem ofOctets?_cases (b : UInt8) (octets : List UInt8) :
    (∃ text, (ChildEvent.line (b :: octets)).loggedText? = some text ∧
        decision? (.line (b :: octets)) = none ∧
        RunnerMessage.ofOctets? (b :: octets) = some (.log text)) ∨
      (∃ entries, decision? (.line (b :: octets)) = some (.result entries) ∧
        RunnerMessage.ofOctets? (b :: octets) = some (.result entries)) ∨
      (ChildEvent.line (b :: octets)).loggedText? = none ∧
        decision? (.line (b :: octets)) = none ∧
        (RunnerMessage.ofOctets? (b :: octets) = none ∨
          ∃ c, RunnerMessage.ofOctets? (b :: octets) = some (.call c) ∧ Json.IsPlain c.id) := by
  rw [ofOctets?_eq, ChildEvent.loggedText?, decision?]
  cases hobject : (ChildEvent.line (b :: octets)).object? with
  | none => exact .inr (.inr ⟨rfl, rfl, .inl rfl⟩)
  | some entries =>
    have hplain := (isPlain_object? hobject).field "id"
    simp only [Option.bind_some]
    rcases ofEntries?_cases entries with ⟨hlog, hresult, h⟩ | ⟨hresult, h⟩ |
      ⟨hlog, hresult, h | ⟨c, h, hid⟩⟩
    · exact .inl ⟨_, by rw [if_pos hlog], by simp [hresult], h⟩
    · exact .inr (.inl ⟨entries, by rw [if_pos hresult], h⟩)
    · exact .inr (.inr ⟨by simp [hlog], by simp [hresult], .inl h⟩)
    · exact .inr (.inr ⟨by simp [hlog], by simp [hresult], .inr ⟨c, h, hid ▸ hplain⟩⟩)

/-- How a line is served: a log line is kept, a call is answered, a result ends it all, and what is
none of these is passed over. -/
theorem serve_line (table : BindingTable) (input : ChildInput) (logs : LogBuffer) (b : UInt8)
    (octets : List UInt8) (rest : List ChildEvent) :
    serve table input logs (.line (b :: octets) :: rest) =
      match RunnerMessage.ofOctets? (b :: octets) with
      | none => serve table input logs rest
      | some (.log text) => serve table input (logs.push text) rest
      | some (.call c) => do
        serveCall table input c
        serve table input logs rest
      | some (.result entries) => return (.result entries, logs) :=
  serve.eq_4 table input logs (b :: octets) rest (List.cons_ne_nil b octets)

/-! ### Messages to the runner -/

theorem isPlain_reply {id : Value} (hid : Json.IsPlain id) (answer : BindingTable.Answer) :
    Json.IsPlain (HostMessage.reply id answer).toValue := by
  cases answer <;> simp [HostMessage.toValue, hid]

theorem isPlain_start (code : String) (manifest : List (String × List String)) {globals : Value}
    (hglobals : Json.IsPlain globals) (limit : Int) :
    Json.IsPlain (HostMessage.start code manifest globals (.int limit)).toValue := by
  have hmanifest : Json.IsPlain
      (Value.record (manifest.map fun entry => (entry.1, Value.texts entry.2))) :=
    Json.IsPlain.record_iff.mpr (List.forall_mem_map.mpr fun entry _ => .texts entry.2)
  unfold HostMessage.toValue
  rw [Json.IsPlain.record_iff]
  simp only [List.forall_mem_cons]
  exact ⟨.text _, .text _, hmanifest, hglobals, .int _, by simp⟩

/-- A plain message is sent, or dropped if the input of the runner is not open. -/
theorem exists_run_send (input : ChildInput) {message : HostMessage}
    (h : Json.IsPlain message.toValue) (m : Machine) :
    ∃ n, (send input message).run m = (.ok (), n) := by
  obtain ⟨text, hencode⟩ := h.exists_encode
  unfold send
  rw [hencode]
  dsimp only
  split
  · exact ⟨_, rfl⟩
  · exact ⟨m, rfl⟩

/-- Whatever comes of a call, there is an answer to it. -/
theorem exists_run_answer (table : BindingTable) (capability name : String)
    (arguments : List Value) (m : Machine) :
    ∃ answer n, (table.answer capability name arguments).run m = (.ok answer, n) := by
  unfold BindingTable.answer
  rw [Action.run_bind, Action.run_attempt]
  rcases (table.dispatch capability name arguments).run m with ⟨failure | v, n⟩
  · exact ⟨_, n, rfl⟩
  · dsimp only
    cases Json.encode v with
    | error e => exact ⟨_, n, rfl⟩
    | ok text => exact ⟨_, n, rfl⟩

theorem exists_run_serveCall (table : BindingTable) (input : ChildInput) {c : CallRequest}
    (hid : Json.IsPlain c.id) (m : Machine) :
    ∃ n, (serveCall table input c).run m = (.ok (), n) := by
  obtain ⟨answer, n, hanswer⟩ := exists_run_answer table c.capability c.method c.arguments m
  unfold serveCall
  dsimp only
  rw [Action.run_bind_ok hanswer]
  have hsend := exists_run_send input (isPlain_reply hid answer) n
  cases table.method c.capability c.method with
  | error failure => exact hsend
  | ok method =>
    dsimp only
    split
    · exact hsend
    · exact ⟨n, rfl⟩

/-! ### The loop -/

/-- The host finds the event that decides, and has kept by then what was logged before it. -/
theorem run_serve (table : BindingTable) (input : ChildInput) (logs : LogBuffer)
    (events : List ChildEvent) (m : Machine) :
    ∃ n, (serve table input logs events).run m =
      (.ok (decisionOf events, (loggedBefore events).foldl LogBuffer.push logs), n) := by
  induction events generalizing logs m with
  | nil => exact ⟨m, rfl⟩
  | cons event rest ih =>
    match event with
    | .hang => exact ⟨m, rfl⟩
    | .line [] => exact ⟨m, rfl⟩
    | .line (b :: octets) =>
      -- The line logs something, is the result, is passed over, or is a call.
      rw [serve_line]
      rcases ofOctets?_cases b octets with ⟨text, htext, hgo, h⟩ | ⟨entries, hend, h⟩ |
        ⟨htext, hgo, h | ⟨c, h, hid⟩⟩
      · rw [h, decisionOf_cons_of_none hgo, loggedBefore_cons_of_none hgo, htext]
        exact ih (logs.push text) m
      · rw [h]
        exact ⟨m, by simp [decisionOf, loggedBefore, hend]⟩
      · rw [h, decisionOf_cons_of_none hgo, loggedBefore_cons_of_none hgo, htext]
        exact ih logs m
      · obtain ⟨n, hcall⟩ := exists_run_serveCall table input hid m
        rw [h, decisionOf_cons_of_none hgo, loggedBefore_cons_of_none hgo, htext]
        dsimp only
        rw [Action.run_bind_ok hcall]
        exact ih logs n

/-- A limit that has a number of seconds leaves time for something unless it is zero or less. -/
theorem exists_thousandth {limit : Int} (h : limit.natAbs < 2 ^ 980) :
    ∃ seconds, (Value.int limit).thousandth = .ok seconds ∧
      isOver seconds = decide (limit ≤ 0) := by
  by_cases hzero : limit = 0
  · subst hzero
    refine ⟨.zero false, ?_, ?_⟩
    · simp [Value.thousandth, Value.number?, Binary64.ofRatio, Binary64.zero]
    · simp [isOver, Binary64.zero, Binary64.compareInt?_zero_of_zero]
  · have hnum : limit.natAbs ≠ 0 := Int.natAbs_ne_zero.mpr hzero
    have hlog : Nat.log2 limit.natAbs < 980 := (Nat.log2_lt hnum).mpr h
    clear h
    have hthousand : Nat.log2 1000 = 9 := by decide
    -- The number of seconds is too small for an infinity and too large for a zero, so that it has
    -- the sign of the limit.
    rcases Binary64.ofRatio_cases (decide (limit < 0)) hnum (by decide : 1000 ≠ 0) (by omega) with
      ⟨-, hlarge⟩ | ⟨mantissa, exponent, hpos, hratio⟩
    · rw [hthousand, Binary64.maxExponent] at hlarge
      omega
    · refine ⟨.finite (decide (limit < 0)) mantissa exponent, ?_, ?_⟩
      · simp [Value.thousandth, Value.number?, hratio]
      · rw [isOver, Binary64.compareInt?_zero_of_pos _ hpos]
        by_cases hnegative : limit < 0
        · have hle : limit ≤ 0 := by omega
          simp [hnegative, hle]
        · have hgt : ¬limit ≤ 0 := by omega
          simp [hnegative, hgt]

variable (host : Host)

/-- A result has come on a line, so it is plain JSON. -/
theorem isPlain_of_decisionOf {events : List ChildEvent} {entries : List (Value × Value)}
    (h : decisionOf events = .result entries) : Json.IsPlain (.mapping entries) := by
  unfold decisionOf at h
  cases hfound : events.findSome? decision? with
  | none => simp [hfound] at h
  | some d =>
    rw [hfound, Option.getD_some] at h
    subst h
    obtain ⟨event, -, hevent⟩ := List.exists_of_findSome?_eq_some hfound
    match event with
    | .line (b :: octets) =>
      obtain ⟨entries', hobject, hresult⟩ := Option.bind_eq_some_iff.mp hevent
      split at hresult
      · cases hresult
        exact isPlain_object? hobject
      · cases hresult

/-- What the host does with a decision and the lines that it has kept. -/
def conclude (script : ChildScript) (timeLimit : Value) (decision : Decision) (logs : LogBuffer) :
    Action ExecutionResult := do
  match decision with
  | .result entries => Action.ofExcept (host.settle entries logs.lines)
  | .late => do
    Action.note .warning ("Execution timeout after " ++ timeLimit.display ++ "ms")
    let failure ← Action.ofExcept (Failure.ofTimeLimit timeLimit)
    return .failed .timeout failure.message logs.lines
  | .ended =>
    let report := errorReport script.errorChunks
    let message :=
      "Guest runtime exited without a result (exit code " ++ toString script.exitCode ++ ")"
    return .failed .host (if report.isEmpty then message else message ++ ": " ++ report) logs.lines

/-- Where the program is found by its name. -/
def foundByName? (programs : List (String × String)) : Option String :=
  match host.program with
  | .text name => (programs.lookup name).filter (!·.isEmpty)
  | _ => none

/-- What looking for the program comes to on a machine, none of which it changes. -/
def lookedUp (m : Machine) : Except Failure (Option String) := do
  host.program.requireHashable
  match host.foundByName? m.programs with
  | some path => return some path
  | none => do
    let path ← host.program.asPath
    if ← m.disk.isFile m.workdir path then return some host.program.display else return none

theorem run_programPath? (m : Machine) : host.programPath?.run m = (host.lookedUp m, m) := by
  unfold programPath? lookedUp
  simp only [Action.run_bind, Action.run_ofExcept, Action.run_get]
  cases host.program.requireHashable with
  | error failure => rfl
  | ok _ =>
    have hlook : ∀ found : Option String,
        ((match found with
          | some path => return some path
          | none => do
            let path ← Action.ofExcept host.program.asPath
            if ← Action.onDisk fun disk workdir => disk.isFile workdir path then
              return some host.program.display
            else return none : Action (Option String))).run m =
          ((match found with
            | some path => return some path
            | none => do
              let path ← host.program.asPath
              if ← m.disk.isFile m.workdir path then return some host.program.display
              else return none : Except Failure (Option String)), m) := by
      intro found
      cases found with
      | some path => rfl
      | none =>
        simp only [Action.run_bind, Action.run_ofExcept, Action.run_onDisk]
        cases host.program.asPath with
        | error failure => rfl
        | ok path =>
          simp only [bind, Except.bind]
          cases m.disk.isFile m.workdir path with
          | error failure => rfl
          | ok isFile => cases isFile <;> rfl
    exact hlook (host.foundByName? m.programs)

theorem exists_childVariables (h : ∀ v ∈ host.passedVariables, ∃ s, v = .text s)
    (outer : List (String × String)) :
    ∃ environment, host.childVariables outer = .ok environment := by
  have hpass : ∀ (names : List Value) (environment : List (String × String)),
      (∀ v ∈ names, ∃ s, v = .text s) →
      ∃ passed, passVariables outer environment names = .ok passed := by
    intro names
    induction names with
    | nil => exact fun environment _ => ⟨environment, rfl⟩
    | cons v rest ih =>
      intro environment hnames
      obtain ⟨⟨name, rfl⟩, hrest⟩ := List.forall_mem_cons.mp hnames
      rw [passVariables]
      cases outer.lookup name with
      | some value => exact ih _ hrest
      | none => exact ih _ hrest
  exact hpass _ _ h

/-- A run whose program has been found goes on as the program does, if it can be started. -/
theorem run_run_of_found (code : String) (timeLimit : Value) (table : BindingTable)
    (globals : Value) {m : Machine} {path : String} {environment : List (String × String)}
    (hfound : host.lookedUp m = .ok (some path))
    (henvironment : host.childVariables m.environment = .ok environment) :
    (host.run code timeLimit table globals).run m =
      match m.nextScript.refusal with
      | some reason =>
        (.ok (.failed .host ("Failed to start guest runtime: " ++ reason) []),
          { m with
            scripts := m.scripts.tail
            diagnostics :=
              m.diagnostics ++ [(.error, "Failed to start guest runtime: " ++ reason)] })
      | none =>
        (host.converse m.nextScript code timeLimit table globals).run
          { m with
            scripts := m.scripts.tail
            launches := m.launches ++
              [⟨path, host.runnerName, host.runner, environment, []⟩] } := by
  unfold run
  rw [Action.run_bind, run_programPath?, hfound]
  simp only [Action.run_bind, Action.run_get, Action.run_ofExcept, henvironment, Action.run_launch]
  cases m.nextScript.refusal with
  | some reason => rfl
  | none => rfl

/-- A line that a runner writes. -/
def written (line : String) : ChildEvent := .line (Utf8.encode line.toList)

/-- A host that keeps one log line. -/
def briefHost : Host := ⟨.text "node", "runner.js", "", [], 1, 1000⟩

end Host

end GuestCode
