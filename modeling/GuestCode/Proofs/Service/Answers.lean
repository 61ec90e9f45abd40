import GuestCode.Proofs.Execution.Results
import GuestCode.Proofs.Json.RoundTrip
import GuestCode.Proofs.Service.Session

/-!
# Answers of the service

What is written in a session is told here without looking at how answers are made: each request with
an id is answered in its turn, on the machine that the requests before it have left, with what has
come of its method. Requests without an id are performed, and lines that are no requests are passed
over. The session ends early only at a line that holds an integer with too many digits.

## Main statements

* `Server.Session`: a session, line by line.
* `Server.Handled.of_execute`: what an execution is answered with.
* `Server.exists_session`: the lines of a session, and the answers to them.
-/

namespace GuestCode

namespace Server

variable {s : Server} {request : List (Value × Value)} {m n : Machine} {name : String}
  {content : Value}

/-! ## Lines that cannot be read -/

/-- Why a line cannot be read. -/
def unreadable? (line : List UInt8) : Option Failure :=
  match requestOf line with
  | .error failure => some failure
  | .ok _ => none

/-- The lines before the first one that cannot be read. -/
def readable (lines : List (List UInt8)) : List (List UInt8) :=
  lines.takeWhile fun line => (unreadable? line).isNone

/-- A line that cannot be read holds an integer with too many digits. -/
theorem unreadable?_eq_some_iff {line : List UInt8} {failure : Failure} :
    unreadable? line = some failure ↔
      ∃ text digits, Utf8.decode line = .ok text ∧ Json.read text = .error (.tooManyDigits digits) ∧
        failure = .ofReadError text (.tooManyDigits digits) := by
  unfold unreadable? requestOf
  cases Utf8.decode line with
  | error flaw => simp
  | ok text =>
    dsimp only
    rcases hread : Json.read text with e | v
    · -- Of the two reasons why a text is no JSON one counts as a line that is passed over.
      cases e with
      | fault fault left => simp [Failure.ofReadError, hread]
      | tooManyDigits digits => simp [Failure.ofReadError, hread, eq_comm]
    · cases v <;> simp [hread]

/-- An integer with too many digits can stand on a line of its own. -/
theorem requestOf_of_tooManyDigits {digits : List Char} (hwhole : Json.IsWhole digits)
    (hmany : Json.maxIntegerDigits < digits.length) :
    requestOf (Utf8.encode (digits ++ ['\n'])) =
      .error (.mismatch .wrongValue ((Json.ReadError.tooManyDigits digits.length).message [])) := by
  have hread := Json.read_of_tooManyDigits hwhole hmany Json.blank_lineEnd
  rw [requestOf, Utf8.decode_encode]
  dsimp only
  rw [hread]
  rfl

/-! ## What becomes of a request -/

/-- The content of an answer that tells a fault. -/
def fault (code : Int) (message : String) : Value :=
  Value.record [("code", .int code), ("message", .text message)]

/-- What becomes of a request on a machine: the name and the content of the field that its answer
has, and the machine that is left. -/
inductive Handled (s : Server) (request : List (Value × Value)) (m : Machine) :
    String → Value → Machine → Prop where
  | unknown (unknown : methodOf? (methodName request) = none) :
      Handled s request m "error"
        (fault unknownMethod ("Method not found: " ++ (methodName request).display)) m
  | failed {method : ServiceMethod} {failure : Failure} {n : Machine}
      (known : methodOf? (methodName request) = some method)
      (fails : (s.perform (orEmpty (Value.field request "params")) method).run m =
        (.error failure, n)) :
      Handled s request m "error" (fault failedMethod failure.message) n
  | result {method : ServiceMethod} {v : Value} {n : Machine}
      (known : methodOf? (methodName request) = some method)
      (succeeds : (s.perform (orEmpty (Value.field request "params")) method).run m =
        (.ok v, n)) :
      Handled s request m "result" v n

namespace Handled

/-- What becomes of a request is determined by the server and the machine. -/
theorem unique {name' : String} {content' : Value} {n' : Machine}
    (h : Handled s request m name content n) (h' : Handled s request m name' content' n') :
    name = name' ∧ content = content' ∧ n = n' := by
  cases h with
  | unknown unknown =>
    cases h' with
    | unknown => exact ⟨rfl, rfl, rfl⟩
    | failed known => cases unknown.symm.trans known
    | result known => cases unknown.symm.trans known
  | failed known fails =>
    cases h' with
    | unknown unknown => cases unknown.symm.trans known
    | failed known' fails' =>
      cases known.symm.trans known'
      cases fails.symm.trans fails'
      exact ⟨rfl, rfl, rfl⟩
    | result known' succeeds =>
      cases known.symm.trans known'
      cases fails.symm.trans succeeds
  | result known succeeds =>
    cases h' with
    | unknown unknown => cases unknown.symm.trans known
    | failed known' fails =>
      cases known.symm.trans known'
      cases succeeds.symm.trans fails
    | result known' succeeds' =>
      cases known.symm.trans known'
      cases succeeds.symm.trans succeeds'
      exact ⟨rfl, rfl, rfl⟩

/-- Methods write no answers themselves, if the capabilities write nothing. -/
theorem sameOutput (hquiet : s.engine.table.KeepsOutput)
    (h : Handled s request m name content n) : n.output = m.output := by
  have hperform : ∀ method : ServiceMethod,
      (s.perform (orEmpty (Value.field request "params")) method).Keeps Machine.SameOutput := by
    intro method
    cases method with
    | greet => exact .of_reads (Action.reads_pure _)
    | listTools => exact .of_reads (Action.reads_pure _)
    | callTool =>
      unfold perform callTool
      refine .bind (.of_reads (Action.reads_ofExcept _)) fun entries => ?_
      dsimp only
      split
      · exact .of_reads (Action.reads_ofExcept _)
      · refine .bind (.of_reads (Action.reads_ofExcept _)) fun fields => ?_
        refine .bind (Engine.keepsOutput_execute hquiet _ _ _) fun r => ?_
        exact .of_reads (Action.reads_ofExcept _)
  cases h with
  | unknown => rfl
  | @failed method _ _ _ fails =>
    have hkept := hperform method m
    rwa [fails] at hkept
  | @result method _ _ _ succeeds =>
    have hkept := hperform method m
    rwa [succeeds] at hkept

end Handled

/-- A request that does not stop the server is handled, and the answer that tells what has become of
it can be written if one is to be given at all. -/
theorem exists_handled (hplain : Json.IsPlain (.mapping request)) (hgo : s.refusal? request = none)
    (m : Machine) :
    ∃ name content n, Handled s request m name content n ∧
      (s.answer? request).run m =
        (.ok (addressed (Value.field request "id")
          (envelope (Value.field request "id") name content)), n) ∧
      (Value.field request "id" ≠ .null → ∃ text,
        Json.write .line (envelope (Value.field request "id") name content) = .ok text) := by
  have hhashable := s.requireHashable_of_refusal? (isPlain_methodName hplain) hgo
  have hhandled : ∃ name content n, Handled s request m name content n ∧
      (s.answer? request).run m =
        (.ok (addressed (Value.field request "id")
          (envelope (Value.field request "id") name content)), n) := by
    cases hmethod : methodOf? (methodName request) with
    | none => exact ⟨_, _, m, .unknown hmethod, s.run_answer?_of_unknown hhashable hmethod m⟩
    | some method =>
      rcases hrun : (s.perform (orEmpty (Value.field request "params")) method).run m with
        ⟨failure | v, n⟩
      · exact ⟨_, _, n, .failed hmethod hrun, s.run_answer?_of_method hhashable hmethod hrun⟩
      · exact ⟨_, _, n, .result hmethod hrun, s.run_answer?_of_method hhashable hmethod hrun⟩
  obtain ⟨name, content, n, hhandled, hrun⟩ := hhandled
  refine ⟨name, content, n, hhandled, hrun, fun hid => ?_⟩
  -- Some answer to the request can be written, and there is only one.
  obtain ⟨name', content', n', hrun', hwrite⟩ := s.exists_run_answer? hplain hgo m
  obtain ⟨text, htext⟩ := hwrite hid
  have hsame := Option.some.inj <| ((addressed_eq_some.mpr ⟨hid, rfl⟩).symm.trans
    (Except.ok.inj (congrArg Prod.fst (hrun.symm.trans hrun')))).trans
      (addressed_eq_some.mpr ⟨hid, rfl⟩)
  exact ⟨text, by rw [hsame, htext]⟩

/-! ## Faults -/

/-- The names of the methods that a server has. -/
def methodNames : List Value := [.text "initialize", .text "tools/list", .text "tools/call"]

theorem methodOf?_eq_none_iff {name : Value} : methodOf? name = none ↔ name ∉ methodNames := by
  unfold methodOf? methodNames
  split <;> simp_all

/-- An answer tells a fault with a code. -/
def TellsFault (name : String) (content : Value) (code : Int) : Prop :=
  name = "error" ∧ ∃ message, content = fault code message

theorem tellsFault_fault {code code' : Int} {message : String} :
    TellsFault "error" (fault code message) code' ↔ code = code' := by
  simp [TellsFault, fault, Value.record]

theorem not_tellsFault_result {content : Value} {code : Int} :
    ¬TellsFault "result" content code := by
  rintro ⟨hname, -⟩
  exact absurd hname (by decide)

/-- The method of a request fails. -/
def Fails (s : Server) (request : List (Value × Value)) (m : Machine) : Prop :=
  ∃ method failure n, methodOf? (methodName request) = some method ∧
    (s.perform (orEmpty (Value.field request "params")) method).run m = (.error failure, n)

/-- The code of a fault says whether the method is not known or has failed. -/
theorem Handled.tellsFault_iff (h : Handled s request m name content n) :
    (TellsFault name content unknownMethod ↔ methodName request ∉ methodNames) ∧
      (TellsFault name content failedMethod ↔ Fails s request m) := by
  rw [← methodOf?_eq_none_iff]
  have hcodes : unknownMethod ≠ failedMethod := by decide
  cases h with
  | unknown unknown =>
    refine ⟨by simp [tellsFault_fault, unknown], ?_⟩
    simp [tellsFault_fault, hcodes, Fails, unknown]
  | failed known fails =>
    refine ⟨by simp [tellsFault_fault, hcodes.symm, known], ?_⟩
    simp only [tellsFault_fault, true_iff]
    exact ⟨_, _, _, known, fails⟩
  | result known succeeds =>
    refine ⟨by simp [not_tellsFault_result, known], ?_⟩
    simp [not_tellsFault_result, Fails, known, succeeds]

/-! ## Executions -/

/-- A request asks for the execution of what stands in some fields. -/
structure AsksToExecute (request fields : List (Value × Value)) : Prop where
  method : methodName request = .text "tools/call"
  tool : ∃ entries, orEmpty (Value.field request "params") = .mapping entries ∧
    Value.field? entries "name" = some (.text Tool.executeName) ∧
    orEmpty (Value.field entries "arguments") = .mapping fields

/-- The execution of what stands in some fields. -/
def execution (s : Server) (fields : List (Value × Value)) : Action ExecutionResult :=
  s.engine.execute ((Value.field? fields "code").getD (.text "")) (Value.field fields "timeoutMs")
    (Value.field fields "context")

/-- What is told of a result of which a report has been written. -/
def reported (r : ExecutionResult) (report : String) : Value :=
  Value.record
    (("content", .list [Value.record [("type", .text "text"), ("text", .text report)]]) ::
      if r.isOk then [] else [("isError", .bool true)])

/-- A result that is plain JSON can be reported. -/
theorem exists_toValue_result {r : ExecutionResult} (h : Json.IsPlain r.toValue) :
    ∃ report, Json.write .indented r.toValue = .ok report ∧
      ToolOutcome.toValue ⟨r.isOk, r.toValue, .null⟩ = .ok (reported r report) := by
  obtain ⟨report, hreport⟩ := h.exists_write .indented
  refine ⟨report, hreport, ?_⟩
  -- A text of an outcome is taken as it is, and a result is no text.
  have hmapping : ∃ entries, r.toValue = .mapping entries := by
    unfold ExecutionResult.toValue
    split <;> exact ⟨_, rfl⟩
  obtain ⟨entries, hentries⟩ := hmapping
  have htext : (ToolOutcome.mk r.isOk r.toValue .null).text = .ok (.text report) := by
    rw [hentries] at hreport ⊢
    simp only [ToolOutcome.text, hreport]
  rw [ToolOutcome.toValue, htext]
  rfl

theorem run_callTool_of_asks {fields : List (Value × Value)} (h : AsksToExecute request fields)
    (m : Machine) :
    (s.callTool (orEmpty (Value.field request "params"))).run m =
      match (s.execution fields).run m with
      | (.error failure, n) => (.error failure, n)
      | (.ok r, n) => (ToolOutcome.toValue ⟨r.isOk, r.toValue, .null⟩, n) := by
  obtain ⟨-, entries, hparams, htool, harguments⟩ := h
  have hsame : (!(Value.text Tool.executeName).same (.text Tool.executeName)) = false := by
    simp [Value.same]
  have hentries : (Value.mapping entries).entries = .ok entries := rfl
  have hfields : (Value.mapping fields).entries = .ok fields := rfl
  rw [hparams]
  unfold callTool execution
  rw [hentries, Action.run_bind, Action.run_ofExcept]
  dsimp only
  rw [htool, harguments, Option.getD_some, hsame, if_neg Bool.false_ne_true, hfields,
    Action.run_bind, Action.run_ofExcept]
  dsimp only
  rw [Action.run_bind]
  rcases (s.engine.execute ((Value.field? fields "code").getD (.text ""))
    (Value.field fields "timeoutMs") (Value.field fields "context")).run m with ⟨failure | r, n⟩
  · rfl
  · exact Action.run_ofExcept _ _

/-- An execution is answered with its report, which is marked if it has not succeeded; only an
execution that gives no result is answered with a fault. -/
theorem Handled.of_execute {fields : List (Value × Value)} (h : Handled s request m name content n)
    (hasks : AsksToExecute request fields) :
    (∃ failure, (s.execution fields).run m = (.error failure, n) ∧ name = "error" ∧
        content = fault failedMethod failure.message) ∨
      ∃ r report, (s.execution fields).run m = (.ok r, n) ∧
        Json.write .indented r.toValue = .ok report ∧ name = "result" ∧
        content = reported r report := by
  have hknown : methodOf? (methodName request) = some .callTool := by rw [hasks.method]; rfl
  have hperform : (s.perform (orEmpty (Value.field request "params")) .callTool).run m =
      (s.callTool (orEmpty (Value.field request "params"))).run m := rfl
  rw [run_callTool_of_asks hasks] at hperform
  rcases hrun : (s.execution fields).run m with ⟨failure | r, k⟩
  · rw [hrun] at hperform
    obtain ⟨rfl, rfl, rfl⟩ := h.unique (.failed hknown hperform)
    exact .inl ⟨failure, rfl, rfl, rfl⟩
  · obtain ⟨report, hreport, hvalue⟩ :=
      exists_toValue_result (s.engine.isPlain_of_execute hrun)
    rw [hrun] at hperform
    dsimp only at hperform
    rw [hvalue] at hperform
    obtain ⟨rfl, rfl, rfl⟩ := h.unique (.result hknown hperform)
    exact .inr ⟨r, report, rfl, hreport, rfl, rfl⟩

/-! ## Sessions -/

/-- A text is the answer to a request on a machine: it has the id of the request and one field more,
which tells what has become of the request. -/
structure Answers (s : Server) (request : List (Value × Value)) (m : Machine) (text : String)
    (name : String) (content : Value) (n : Machine) : Prop where
  handled : Handled s request m name content n
  oneField : name = "result" ∨ name = "error"
  written : Json.write .line (Value.record
    [("jsonrpc", .text "2.0"), ("id", Value.field request "id"), (name, content)]) = .ok text
  unknown : TellsFault name content unknownMethod ↔ methodName request ∉ methodNames
  failed : TellsFault name content failedMethod ↔ Fails s request m
  executed : ∀ fields, AsksToExecute request fields → ∀ r k,
    (s.execution fields).run m = (.ok r, k) → ∃ report,
      Json.write .indented r.toValue = .ok report ∧ name = "result" ∧ content = reported r report

theorem Handled.answers (h : Handled s request m name content n) {text : String}
    (hwrite : Json.write .line (envelope (Value.field request "id") name content) = .ok text) :
    Answers s request m text name content n where
  handled := h
  oneField := by cases h <;> simp
  written := hwrite
  unknown := h.tellsFault_iff.1
  failed := h.tellsFault_iff.2
  executed fields hasks r k hrun := by
    rcases h.of_execute hasks with
      ⟨failure, hrun', -⟩ | ⟨r', report, hrun', hreport, hname, hcontent⟩
    · cases hrun.symm.trans hrun'
    · cases hrun.symm.trans hrun'
      exact ⟨report, hreport, hname, hcontent⟩

/-- The lines of a session from one machine to another, and the answers that are written. -/
inductive Session (s : Server) : Machine → List (List UInt8) → List String → Machine → Prop where
  | done (m : Machine) : Session s m [] [] m
  /-- A line that is no request is passed over. -/
  | passed {line : List UInt8} {lines : List (List UInt8)} {texts : List String} {m n : Machine}
      (noRequest : requestOf line = .ok none) (others : Session s m lines texts n) :
      Session s m (line :: lines) texts n
  /-- A request without an id is performed, and nothing is written. -/
  | performed {line : List UInt8} {lines : List (List UInt8)} {texts : List String}
      {m n k : Machine} {request : List (Value × Value)} {name : String} {content : Value}
      (found : requestOf line = .ok (some request)) (noId : Value.field request "id" = .null)
      (handled : Handled s request m name content n) (others : Session s n lines texts k) :
      Session s m (line :: lines) texts k
  /-- A request with an id is answered. -/
  | answered {line : List UInt8} {lines : List (List UInt8)} {text : String} {texts : List String}
      {m n k : Machine} {request : List (Value × Value)} {name : String} {content : Value}
      (found : requestOf line = .ok (some request)) (hasId : Value.field request "id" ≠ .null)
      (answer : Answers s request m text name content n)
      (others : Session s { n with output := n.output ++ [text ++ "\n"] } lines texts k) :
      Session s m (line :: lines) (text :: texts) k

/-- The request on a line, if it has an id. -/
def addressed? (line : List UInt8) : Option (List (Value × Value)) :=
  match requestOf line with
  | .ok (some request) =>
    match Value.field request "id" with
    | .null => none
    | _ => some request
  | _ => none

namespace Session

variable {lines : List (List UInt8)} {texts : List String}

/-- The answers are those to the requests with an id, in their order. -/
theorem forall₂_addressed (h : Session s m lines texts n) :
    List.Forall₂ (fun request text => ∃ k name content k', Answers s request k text name content k')
      (lines.filterMap addressed?) texts := by
  induction h with
  | done => exact .nil
  | passed noRequest _ ih => simpa [addressed?, noRequest] using ih
  | performed found noId _ _ ih => simpa [addressed?, found, noId] using ih
  | @answered line _ _ _ m n _ request name content found hasId answer _ ih =>
    have haddressed : addressed? line = some request := by
      unfold addressed?
      rw [found]
      dsimp only
      split
      · next hnull => exact absurd hnull hasId
      · rfl
    rw [List.filterMap_cons_some haddressed]
    exact .cons ⟨m, name, content, n, answer⟩ ih

/-- Only the answers are written, each on a line. -/
theorem output_eq (hquiet : s.engine.table.KeepsOutput) (h : Session s m lines texts n) :
    n.output = m.output ++ texts.map fun text => text ++ "\n" := by
  induction h with
  | done m => simp
  | passed _ _ ih => exact ih
  | performed _ _ handled _ ih => rw [ih, handled.sameOutput hquiet]
  | answered _ _ answer _ ih =>
    rw [ih, answer.handled.sameOutput hquiet, List.map_cons, List.append_assoc]
    rfl

end Session

/-- Lines of which none stops the server make a session. -/
theorem exists_session_of_stop? {lines : List (List UInt8)}
    (h : ∀ line ∈ lines, s.stop? line = none) (m : Machine) :
    ∃ texts n, (s.serveLines lines).run m = (.ok (), n) ∧ Session s m lines texts n := by
  induction lines generalizing m with
  | nil => exact ⟨[], m, rfl, .done m⟩
  | cons line rest ih =>
    obtain ⟨hgo, hrest⟩ := List.forall_mem_cons.mp h
    unfold stop? at hgo
    split at hgo
    · cases hgo
    · next found =>
      have hrun : (s.serveLine line).run m = (.ok (), m) := by
        simp only [serveLine, found, Action.run_bind, Action.run_ofExcept, Action.run_pure]
      obtain ⟨texts, n, hothers, hsession⟩ := ih hrest m
      exact ⟨texts, n, by rw [s.serveLines_cons_run hrun, hothers], .passed found hsession⟩
    · next request found =>
      -- The request is performed whether it has an id or not; only the answer depends on it.
      obtain ⟨name, content, k, hhandled, hanswer, hwrite⟩ :=
        exists_handled (isPlain_of_requestOf found) hgo m
      have hrun := s.run_serveLine found m
      rw [hanswer] at hrun
      by_cases hid : Value.field request "id" = .null
      · rw [hid] at hrun
        obtain ⟨texts, n, hothers, hsession⟩ := ih hrest k
        exact ⟨texts, n, by rw [s.serveLines_cons_run hrun, hothers],
          .performed found hid hhandled hsession⟩
      · obtain ⟨text, htext⟩ := hwrite hid
        rw [addressed_eq_some.mpr ⟨hid, rfl⟩] at hrun
        simp only [htext] at hrun
        obtain ⟨texts, n, hothers, hsession⟩ := ih hrest _
        exact ⟨text :: texts, n, by rw [s.serveLines_cons_run hrun, hothers],
          .answered found hid (hhandled.answers htext) hsession⟩

/-- The request on a line, if there is one, names its method by a text, if at all. -/
def NamesMethod (line : List UInt8) : Prop :=
  ∀ request, requestOf line = .ok (some request) → ∃ name, methodName request = .text name

/-- A line that names its method by a text stops a server with a plain name and version only if it
cannot be read. -/
theorem stop?_eq_unreadable? (hname : Json.IsPlain s.name) (hversion : Json.IsPlain s.version)
    {line : List UInt8} (hline : NamesMethod line) : s.stop? line = unreadable? line := by
  unfold stop? unreadable?
  cases hrequest : requestOf line with
  | error failure => rfl
  | ok found =>
    cases found with
    | none => rfl
    | some request =>
      obtain ⟨name, hmethod⟩ := hline request hrequest
      exact (s.refusal?_eq_none_iff hname hversion (isPlain_of_requestOf hrequest)).mpr
        (by simp [hmethod])

theorem servedLines_eq_readable {lines : List (List UInt8)}
    (h : ∀ line ∈ lines, s.stop? line = unreadable? line) :
    s.servedLines lines = readable lines ∧
      lines.findSome? s.stop? = lines.findSome? unreadable? := by
  induction lines with
  | nil => exact ⟨rfl, rfl⟩
  | cons line rest ih =>
    obtain ⟨hline, hrest⟩ := List.forall_mem_cons.mp h
    obtain ⟨hserved, hfirst⟩ := ih hrest
    unfold servedLines readable at hserved ⊢
    rw [List.takeWhile_cons, List.takeWhile_cons, List.findSome?_cons, List.findSome?_cons, hline,
      hserved, hfirst]
    exact ⟨rfl, rfl⟩

/-- In a session whose requests name their methods by texts, all lines are served up to the first
one that holds an integer with too many digits, at which the session fails. The answers are those to
the requests with an id among these lines, in their order, and nothing else is written. -/
theorem exists_session (hname : Json.IsPlain s.name) (hversion : Json.IsPlain s.version)
    (hquiet : s.engine.table.KeepsOutput) {lines : List (List UInt8)}
    (hlines : ∀ line ∈ lines, NamesMethod line) (m : Machine) :
    ∃ texts n,
      (s.serveLines lines).run m =
        (match lines.findSome? unreadable? with
          | none => .ok ()
          | some failure => .error failure, n) ∧
      Session s m (readable lines) texts n ∧
      List.Forall₂
        (fun request text => ∃ k name content k', Answers s request k text name content k')
        ((readable lines).filterMap addressed?) texts ∧
      n.output = m.output ++ texts.map (fun text => text ++ "\n") ∧
      ∀ line failure, unreadable? line = some failure ↔
        ∃ text digits, Utf8.decode line = .ok text ∧
          Json.read text = .error (.tooManyDigits digits) ∧
          failure = .ofReadError text (.tooManyDigits digits) := by
  -- Requests that name their methods by texts stop the server in no other way.
  have hstop : ∀ line ∈ lines, s.stop? line = unreadable? line := fun line hline =>
    stop?_eq_unreadable? hname hversion (hlines line hline)
  obtain ⟨hserved, hfirst⟩ := servedLines_eq_readable hstop
  have hgo : ∀ line ∈ s.servedLines lines, s.stop? line = none := fun line hline =>
    Option.isNone_iff_eq_none.mp (List.all_eq_true.mp List.all_takeWhile line hline)
  obtain ⟨texts, n, hrun, hsession⟩ := exists_session_of_stop? hgo m
  have hall := s.run_serveLines_eq lines m
  rw [hrun, hfirst] at hall
  rw [hserved] at hsession
  exact ⟨texts, n, hall, hsession, hsession.forall₂_addressed, hsession.output_eq hquiet,
    fun line failure => unreadable?_eq_some_iff⟩

/-! ## Two sessions -/

/-- A request that asks for the greeting. -/
def greetRequest : List (Value × Value) :=
  [(.text "id", .int 2), (.text "method", .text "initialize")]

def greetLine : List UInt8 :=
  Utf8.encode "\x7b\"id\": 2, \"method\": \"initialize\"\x7d\n".toList

/-- A request whose method is not known. -/
def nopeRequest : List (Value × Value) := [(.text "id", .text "x"), (.text "method", .text "nope")]

def nopeLine : List UInt8 :=
  Utf8.encode "\x7b\"id\": \"x\", \"method\": \"nope\"\x7d\n".toList

/-- A line that is no request. -/
def strayLine : List UInt8 := Utf8.encode "[1]\n".toList

theorem requestOf_greetLine : requestOf greetLine = .ok (some greetRequest) := by cbv

theorem requestOf_nopeLine : requestOf nopeLine = .ok (some nopeRequest) := by cbv

theorem requestOf_strayLine : requestOf strayLine = .ok none := by cbv

theorem namesMethod_greetLine : NamesMethod greetLine := by
  intro request h
  obtain rfl : greetRequest = request :=
    Option.some.inj (Except.ok.inj (requestOf_greetLine.symm.trans h))
  exact ⟨"initialize", by cbv⟩

theorem keepsOutput_bareServer : bareServer.engine.table.KeepsOutput := by
  intro capability name method h
  cases h

/-- A server answers the two requests, and not the line between them. -/
theorem exists_session_strayLine :
    ∃ first last n,
      (bareServer.serveLines [nopeLine, strayLine, greetLine]).run (.bare [] []) = (.ok (), n) ∧
        n.output = [first ++ "\n", last ++ "\n"] := by
  have hlines : ∀ line ∈ [nopeLine, strayLine, greetLine], NamesMethod line := by
    simp only [List.forall_mem_cons]
    refine ⟨fun request h => ?_, fun request h => ?_, namesMethod_greetLine, by simp⟩
    · obtain rfl : nopeRequest = request :=
        Option.some.inj (Except.ok.inj (requestOf_nopeLine.symm.trans h))
      exact ⟨"nope", by cbv⟩
    · cases requestOf_strayLine.symm.trans h
  obtain ⟨texts, n, hrun, -, hanswers, houtput, -⟩ := exists_session (s := bareServer) (.text _)
    (.text _) keepsOutput_bareServer hlines (.bare [] [])
  have hreadable : readable [nopeLine, strayLine, greetLine] =
      [nopeLine, strayLine, greetLine] := by
    simp [readable, unreadable?, requestOf_nopeLine, requestOf_strayLine, requestOf_greetLine]
  have haddressed : [nopeLine, strayLine, greetLine].filterMap addressed? =
      [nopeRequest, greetRequest] := by
    have hnope : addressed? nopeLine = some nopeRequest := by
      rw [addressed?, requestOf_nopeLine]
      cbv
    have hstray : addressed? strayLine = none := by rw [addressed?, requestOf_strayLine]
    have hgreet : addressed? greetLine = some greetRequest := by
      rw [addressed?, requestOf_greetLine]
      cbv
    simp [hnope, hstray, hgreet]
  rw [hreadable, haddressed] at hanswers
  have hends : [nopeLine, strayLine, greetLine].findSome? unreadable? = none := by
    simp [unreadable?, requestOf_nopeLine, requestOf_strayLine, requestOf_greetLine]
  rw [hends] at hrun
  cases hanswers with
  | @cons _ first _ _ _ hrest =>
    cases hrest with
    | @cons _ last _ _ _ hnone =>
      cases hnone
      exact ⟨first, last, n, hrun, houtput⟩

/-- A line with an integer of one digit too many. -/
def longLine : List UInt8 := Utf8.encode (List.replicate 4301 '1' ++ ['\n'])

theorem isWhole_ones (n : Nat) : Json.IsWhole (List.replicate (n + 1) '1') := by
  have hall : Json.AllDigits (List.replicate (n + 1) '1') :=
    fun c hc => List.eq_of_mem_replicate hc ▸ rfl
  rw [List.replicate_succ] at hall ⊢
  exact .digits (by decide) hall

theorem requestOf_longLine :
    requestOf longLine = .error (.mismatch .wrongValue
      ("Exceeds the limit (4300 digits) for integer string conversion: value has 4301 digits; " ++
        "use sys.set_int_max_str_digits() to increase the limit")) := by
  have hlong := requestOf_of_tooManyDigits (isWhole_ones 4300)
    (by rw [List.length_replicate]; decide)
  rw [List.length_replicate] at hlong
  exact hlong

/-- An integer with too many digits keeps the server from greeting the client that asks for it on
the next line. -/
theorem serveLines_longInteger :
    (∀ line ∈ [longLine, greetLine], NamesMethod line) ∧
      [longLine, greetLine].filterMap addressed? = [greetRequest] ∧
      (bareServer.serveLines [longLine, greetLine]).run (.bare [] []) =
        (.error (.mismatch .wrongValue
          ("Exceeds the limit (4300 digits) for integer string conversion: value has 4301 digits; "
            ++ "use sys.set_int_max_str_digits() to increase the limit")), .bare [] []) := by
  refine ⟨?_, ?_, ?_⟩
  · simp only [List.forall_mem_cons]
    refine ⟨fun request h => ?_, namesMethod_greetLine, by simp⟩
    cases requestOf_longLine.symm.trans h
  · have hlong : addressed? longLine = none := by rw [addressed?, requestOf_longLine]
    have hgreet : addressed? greetLine = some greetRequest := by
      rw [addressed?, requestOf_greetLine]
      cbv
    simp [hlong, hgreet]
  · have hstop : bareServer.stop? longLine = some (.mismatch .wrongValue
        ("Exceeds the limit (4300 digits) for integer string conversion: value has 4301 digits; " ++
          "use sys.set_int_max_str_digits() to increase the limit")) := by
      rw [stop?, requestOf_longLine]
    rw [serveLines, Action.run_bind_error (bareServer.run_serveLine_of_stop? hstop _)]

end Server

end GuestCode
