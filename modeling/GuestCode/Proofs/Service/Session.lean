import GuestCode.Proofs.Json.Plain
import GuestCode.Proofs.Machine.Steps
import GuestCode.Service.Server
import Mathlib

/-!
# Sessions of the service

A session is the service of one line after the other. Whatever a method does, its outcome is put
into an answer, so a method cannot end the session. What can is the little that is done outside of
the methods: reading the line, looking up the name of the method, and writing the answer. A list or
a mapping as the name of a method cannot be looked up, and takes the session down with it.

## Main statements

* `Server.refusal?_eq_none_iff`: which requests stop a server whose name and version are plain.
* `Server.exists_run_serveLine`: a line is served, unless it is one of those that stop the server.
* `Server.run_serveLines_eq`: a session goes on up to the first line that stops the server.
-/

namespace GuestCode

/-! ## Answers are plain JSON -/

theorem ToolParameter.isPlain_toValue {p : ToolParameter} (h : Json.IsPlain p.fallback) :
    Json.IsPlain p.toValue := by
  unfold ToolParameter.toValue
  dsimp only
  split <;> simp [h]

/-- The description of a tool is plain if all values are that its parameters fall back to. -/
theorem Tool.isPlain_toValue {t : Tool} (h : ∀ p ∈ t.parameters, Json.IsPlain p.fallback) :
    Json.IsPlain t.toValue := by
  have hproperties : ∀ (ps : List ToolParameter) (entries : List (Value × Value)),
      (∀ p ∈ ps, Json.IsPlain p.fallback) → Json.IsPlain (.mapping entries) →
      Json.IsPlain (.mapping (ps.foldl
        (fun entries p => Value.insert (.text p.name) p.toValue entries) entries)) := by
    intro ps
    induction ps with
    | nil => exact fun _ _ hentries => hentries
    | cons p rest ih =>
      intro entries hps hentries
      obtain ⟨hp, hrest⟩ := List.forall_mem_cons.mp hps
      exact ih _ hrest (hentries.insert (ToolParameter.isPlain_toValue hp) p.name)
  have hproperties := hproperties t.parameters [] h (.mapping (by simp) (by simp))
  simp [Tool.toValue, hproperties]

/-- An outcome is told in plain JSON if its reason is plain. -/
theorem ToolOutcome.isPlain_toValue {o : ToolOutcome} {v : Value} (h : Json.IsPlain o.reason)
    (hv : o.toValue = .ok v) : Json.IsPlain v := by
  have htext : ∀ {t}, o.text = .ok t → Json.IsPlain t := by
    intro t ht
    unfold ToolOutcome.text at ht
    dsimp only at ht
    split at ht
    · cases ht
      split
      · exact h
      · exact .text _
    · split at ht
      · cases ht
        exact .text _
      · cases ht
    · split at ht
      · cases ht
        exact .text _
      · cases ht
    · cases ht
      exact .text _
  unfold ToolOutcome.toValue at hv
  cases ht : o.text with
  | error e => simp [ht, bind, Except.bind] at hv
  | ok t =>
    rw [ht] at hv
    cases hv
    have ht := htext ht
    split <;> simp [ht]

namespace Server

variable (s : Server)

theorem isPlain_toolList : Json.IsPlain s.toolList := by
  have htool :
      Json.IsPlain (Tool.execute (.int s.engine.configuration.sandbox.timeLimit)).toValue :=
    Tool.isPlain_toValue (by simp [Tool.execute])
  simp [toolList, Tool.descriptions, htool]

theorem isPlain_of_callTool {parameters v : Value} {m n : Machine}
    (h : (s.callTool parameters).run m = (.ok v, n)) : Json.IsPlain v := by
  unfold callTool at h
  obtain ⟨entries, m₁, -, h⟩ := Action.exists_of_run_bind h
  dsimp only at h
  split at h
  · rw [Action.run_ofExcept, Prod.mk.injEq] at h
    exact ToolOutcome.isPlain_toValue (.text _) h.1
  · obtain ⟨fields, m₂, -, h⟩ := Action.exists_of_run_bind h
    obtain ⟨result, m₃, -, h⟩ := Action.exists_of_run_bind h
    rw [Action.run_ofExcept, Prod.mk.injEq] at h
    exact ToolOutcome.isPlain_toValue .null h.1

theorem isPlain_envelope {id content : Value} (hid : Json.IsPlain id) (name : String)
    (hcontent : Json.IsPlain content) : Json.IsPlain (envelope id name content) := by
  simp [envelope, hid, hcontent]

/-! ## Lines that stop the server -/

/-- The name of the method that a request names. -/
def methodName (request : List (Value × Value)) : Value :=
  (Value.field? request "method").getD (.text "")

/-- Why a request stops the server: its method is named by a list or a mapping, or it is to be
greeted with a name or version of the server that JSON cannot hold. -/
def refusal? (request : List (Value × Value)) : Option Failure :=
  match methodName request with
  | .list _ => some (.mismatch .wrongKind "unhashable type: 'list'")
  | .mapping _ => some (.mismatch .wrongKind "unhashable type: 'dict'")
  | .text "initialize" =>
    match Value.field request "id" with
    | .null => none
    | id =>
      match Json.write .line (envelope id "result" s.greeting) with
      | .ok _ => none
      | .error e => some (.mismatch .wrongKind e.message)
  | _ => none

/-- Why a line stops the server: it holds a number with too many digits, or a request that does. -/
def stop? (line : List UInt8) : Option Failure :=
  match requestOf line with
  | .error failure => some failure
  | .ok none => none
  | .ok (some request) => s.refusal? request

/-! ## One request -/

/-- An answer, if there is an id that it can be addressed to. -/
def addressed (id answer : Value) : Option Value :=
  match id with
  | .null => none
  | _ => some answer

theorem addressed_eq_some {id answer a : Value} :
    addressed id answer = some a ↔ id ≠ .null ∧ answer = a := by
  cases id <;> simp [addressed]

/-- The answer to a request whose method has had an outcome. -/
def answerTo (id : Value) : Except Failure Value → Value
  | .ok result => envelope id "result" result
  | .error failure => faultAnswer id failedMethod failure.message

/-- A request is refused for a name that cannot be looked up. -/
theorem run_answer?_of_unhashable {request : List (Value × Value)} {failure : Failure}
    (h : (methodName request).requireHashable = .error failure) (m : Machine) :
    (s.answer? request).run m = (.error failure, m) := by
  rw [methodName] at h
  simp only [answer?, Action.run_bind, Action.run_ofExcept, h]

theorem run_answer?_of_unknown {request : List (Value × Value)}
    (h : (methodName request).requireHashable = .ok ())
    (hmethod : methodOf? (methodName request) = none) (m : Machine) :
    (s.answer? request).run m =
      (.ok (addressed (Value.field request "id")
        (faultAnswer (Value.field request "id") unknownMethod
          ("Method not found: " ++ (methodName request).display))), m) := by
  rw [methodName] at h hmethod ⊢
  simp only [answer?, Action.run_bind, Action.run_ofExcept, h, hmethod]
  rfl

/-- Whatever outcome a method has, it is put into an answer. -/
theorem run_answer?_of_method {request : List (Value × Value)} {method : ServiceMethod}
    (h : (methodName request).requireHashable = .ok ())
    (hmethod : methodOf? (methodName request) = some method) {m n : Machine}
    {outcome : Except Failure Value}
    (hrun : (s.perform (orEmpty (Value.field request "params")) method).run m = (outcome, n)) :
    (s.answer? request).run m =
      (.ok (addressed (Value.field request "id") (answerTo (Value.field request "id") outcome)),
        n) := by
  rw [methodName] at h hmethod
  simp only [answer?, Action.run_bind, Action.run_ofExcept, Action.run_attempt, h, hmethod, hrun]
  cases outcome with
  | error failure => rfl
  | ok v => rfl

/-- The name of a method in a request that does not stop the server can be looked up. -/
theorem requireHashable_of_refusal? {request : List (Value × Value)}
    (h : Json.IsPlain (methodName request)) (hgo : s.refusal? request = none) :
    (methodName request).requireHashable = .ok () := by
  unfold refusal? at hgo
  generalize methodName request = name at h hgo
  cases h with
  | list => cases hgo
  | mapping => cases hgo
  | _ => rfl

theorem isPlain_methodName {request : List (Value × Value)}
    (h : Json.IsPlain (.mapping request)) : Json.IsPlain (methodName request) := by
  unfold methodName Value.field?
  cases found : Value.lookup? (.text "method") request with
  | none => exact .text ""
  | some v => exact h.lookup? found

theorem isPlain_faultAnswer {id : Value} (hid : Json.IsPlain id) (code : Int) (message : String) :
    Json.IsPlain (faultAnswer id code message) :=
  isPlain_envelope hid "error" (by simp)

/-- A method other than the greeting yields plain JSON. -/
theorem isPlain_of_perform {parameters v : Value} {method : ServiceMethod} {m n : Machine}
    (hmethod : method ≠ .greet) (h : (s.perform parameters method).run m = (.ok v, n)) :
    Json.IsPlain v := by
  cases method with
  | greet => exact absurd rfl hmethod
  | listTools =>
    cases h
    exact s.isPlain_toolList
  | callTool => exact s.isPlain_of_callTool h

/-- Only one name stands for the greeting. -/
theorem methodOf?_eq_greet {name : Value} (h : methodOf? name = some .greet) :
    name = .text "initialize" := by
  unfold methodOf? at h
  split at h <;> simp_all

theorem exists_write_greeting {request : List (Value × Value)}
    (hname : methodName request = .text "initialize") (hgo : s.refusal? request = none)
    (haddressed : Value.field request "id" ≠ .null) :
    ∃ text, Json.write .line (envelope (Value.field request "id") "result" s.greeting) =
      .ok text := by
  simp only [refusal?, hname] at hgo
  cases hwrite : Json.write .line (envelope (Value.field request "id") "result" s.greeting) with
  | ok text => exact ⟨text, rfl⟩
  | error e => simp_all

/-- A server whose name and version are plain JSON is stopped by nothing but a list or a mapping as
the name of a method. -/
theorem refusal?_eq_none_iff (hname : Json.IsPlain s.name) (hversion : Json.IsPlain s.version)
    {request : List (Value × Value)} (h : Json.IsPlain (.mapping request)) :
    s.refusal? request = none ↔
      (∀ items, methodName request ≠ .list items) ∧
        ∀ entries, methodName request ≠ .mapping entries := by
  have hgreeting : Json.IsPlain (envelope (Value.field request "id") "result" s.greeting) := by
    refine isPlain_envelope (h.field "id") _ ?_
    simp [greeting, hname, hversion]
  obtain ⟨text, hwrite⟩ := hgreeting.exists_write .line
  unfold refusal?
  split
  · next items hlist => simp [hlist]
  · next entries hmapping => simp [hmapping]
  · next hgreet =>
    split
    · simp [hgreet]
    · simp [hgreet, hwrite]
  · next hlist hmapping _ => simp only [ne_eq, true_iff]; exact ⟨hlist, hmapping⟩

/-- A request that does not stop the server has an answer that can be written, if one is to be
given at all. -/
theorem exists_run_answer? {request : List (Value × Value)} (h : Json.IsPlain (.mapping request))
    (hgo : s.refusal? request = none) (m : Machine) :
    ∃ name content n, (s.answer? request).run m =
        (.ok (addressed (Value.field request "id")
          (envelope (Value.field request "id") name content)), n) ∧
      (Value.field request "id" ≠ .null →
        ∃ text,
          Json.write .line (envelope (Value.field request "id") name content) = .ok text) := by
  have hid := h.field "id"
  have hhashable := s.requireHashable_of_refusal? (isPlain_methodName h) hgo
  cases hmethod : methodOf? (methodName request) with
  | none =>
    exact ⟨_, _, m, s.run_answer?_of_unknown hhashable hmethod m,
      fun _ => (isPlain_faultAnswer hid _ _).exists_write _⟩
  | some method =>
    rcases hrun : (s.perform (orEmpty (Value.field request "params")) method).run m with
      ⟨failure | v, n⟩
    · exact ⟨_, _, n, s.run_answer?_of_method hhashable hmethod hrun,
        fun _ => (isPlain_faultAnswer hid _ _).exists_write _⟩
    · refine ⟨_, _, n, s.run_answer?_of_method hhashable hmethod hrun, fun haddressed => ?_⟩
      -- The greeting holds the name and the version as they were given, which need not be plain;
      -- that it can be written is known only from the request not being refused.
      by_cases hgreet : method = .greet
      · subst hgreet
        cases hrun
        exact s.exists_write_greeting (methodOf?_eq_greet hmethod) hgo haddressed
      · exact (isPlain_envelope hid _ (s.isPlain_of_perform hgreet hrun)).exists_write _

/-! ## One line -/

/-- What is served on a line is a plain request, if anything. -/
theorem isPlain_of_requestOf {line : List UInt8} {request : List (Value × Value)}
    (h : requestOf line = .ok (some request)) : Json.IsPlain (.mapping request) := by
  unfold requestOf at h
  split at h
  · cases h
  · split at h
    · next found =>
      cases h
      exact .of_read found
    · cases h
    · split at h <;> cases h

/-- The answer to a request is written after what the method has done. -/
theorem run_serveLine {line : List UInt8} {request : List (Value × Value)}
    (h : requestOf line = .ok (some request)) (m : Machine) :
    (s.serveLine line).run m =
      match (s.answer? request).run m with
      | (.error failure, n) => (.error failure, n)
      | (.ok none, n) => (.ok (), n)
      | (.ok (some answer), n) =>
        match Json.write .line answer with
        | .ok text => (.ok (), { n with output := n.output ++ [text ++ "\n"] })
        | .error e => (.error (.mismatch .wrongKind e.message), n) := by
  simp only [serveLine, h, Action.run_bind, Action.run_ofExcept]
  rcases (s.answer? request).run m with ⟨_ | _ | answer, n⟩
  · rfl
  · rfl
  · dsimp only
    cases Json.write .line answer with
    | error e => rfl
    | ok text => rfl

/-- A request that stops the server stops it before anything has been done for it. -/
theorem run_serveLine_of_refusal? {line : List UInt8} {request : List (Value × Value)}
    {failure : Failure} (h : requestOf line = .ok (some request))
    (hstop : s.refusal? request = some failure) (m : Machine) :
    (s.serveLine line).run m = (.error failure, m) := by
  unfold refusal? at hstop
  rw [s.run_serveLine h]
  split at hstop
  · next hname =>
    cases hstop
    rw [s.run_answer?_of_unhashable (by rw [hname, Value.requireHashable])]
  · next hname =>
    cases hstop
    rw [s.run_answer?_of_unhashable (by rw [hname, Value.requireHashable])]
  · -- The greeting is made, and fails when it is written.
    next hname =>
    have hgreet : (s.perform (orEmpty (Value.field request "params")) .greet).run m =
        (.ok s.greeting, m) := rfl
    rw [s.run_answer?_of_method (by rw [hname]; rfl) (by rw [hname]; rfl) hgreet]
    split at hstop
    · cases hstop
    · next id hid =>
      split at hstop
      · cases hstop
      · next e hwrite =>
        cases hstop
        rw [addressed_eq_some.mpr ⟨by simpa using hid, rfl⟩]
        simp only [answerTo, hwrite]
  · cases hstop

/-- A line that stops the server leaves everything as it was. -/
theorem run_serveLine_of_stop? {line : List UInt8} {failure : Failure}
    (h : s.stop? line = some failure) (m : Machine) :
    (s.serveLine line).run m = (.error failure, m) := by
  unfold stop? at h
  split at h
  · next found =>
    cases h
    simp [serveLine, found, Action.run_bind]
  · cases h
  · next found => exact s.run_serveLine_of_refusal? found h m

/-- What is written last is the answer to the request on a line, if there is one with an id. -/
def EndsAnswered (line : List UInt8) (n : Machine) : Prop :=
  ∀ request, requestOf line = .ok (some request) → Value.field request "id" ≠ .null →
    ∃ name content text before,
      Json.write .line (envelope (Value.field request "id") name content) = .ok text ∧
        n.output = before ++ [text ++ "\n"]

/-- Any other line is served, and answered if it asks for that. -/
theorem exists_run_serveLine {line : List UInt8} (h : s.stop? line = none) (m : Machine) :
    ∃ n, (s.serveLine line).run m = (.ok (), n) ∧ EndsAnswered line n := by
  unfold stop? at h
  split at h
  · cases h
  · next found =>
    refine ⟨m, by simp [serveLine, found, Action.run_bind], ?_⟩
    intro request hrequest
    rw [found] at hrequest
    cases hrequest
  · next request found =>
    obtain ⟨name, content, n, hrun, hwrite⟩ :=
      s.exists_run_answer? (isPlain_of_requestOf found) h m
    rw [s.run_serveLine found, hrun]
    by_cases hid : Value.field request "id" = .null
    · refine ⟨n, by simp [addressed, hid], ?_⟩
      intro other hother
      rw [found] at hother
      cases hother
      exact fun haddressed => absurd hid haddressed
    · obtain ⟨text, htext⟩ := hwrite hid
      rw [addressed_eq_some.mpr ⟨hid, rfl⟩]
      simp only [htext]
      refine ⟨_, rfl, ?_⟩
      intro other hother _
      rw [found] at hother
      cases hother
      exact ⟨name, content, text, n.output, htext, rfl⟩

/-! ## Many lines -/

/-- The lines that are served before the first one that stops the server. -/
def servedLines (lines : List (List UInt8)) : List (List UInt8) :=
  lines.takeWhile fun line => (s.stop? line).isNone

theorem serveLines_cons_run {line : List UInt8} {m n : Machine}
    (h : (s.serveLine line).run m = (.ok (), n)) (rest : List (List UInt8)) :
    (s.serveLines (line :: rest)).run m = (s.serveLines rest).run n := by
  rw [serveLines, Action.run_bind_ok h]

/-- Lines of which none stops the server are served to the last one, which is answered if it asks
for that. -/
theorem exists_run_serveLines_append {lines : List (List UInt8)} {line : List UInt8}
    (h : ∀ l ∈ lines ++ [line], s.stop? l = none) (m : Machine) :
    ∃ n, (s.serveLines (lines ++ [line])).run m = (.ok (), n) ∧ EndsAnswered line n := by
  induction lines generalizing m with
  | nil =>
    obtain ⟨n, hrun, hanswered⟩ := s.exists_run_serveLine (h line (by simp)) m
    refine ⟨n, ?_, hanswered⟩
    rw [List.nil_append, s.serveLines_cons_run hrun]
    rfl
  | cons first rest ih =>
    obtain ⟨hfirst, hothers⟩ := List.forall_mem_cons.mp h
    obtain ⟨m', hrun, -⟩ := s.exists_run_serveLine hfirst m
    obtain ⟨n, hrest, hanswered⟩ := ih hothers m'
    exact ⟨n, by rw [List.cons_append, s.serveLines_cons_run hrun, hrest], hanswered⟩

/-- A session ends with the lines that are served before the first one that stops the server, and
fails if there is one. -/
theorem run_serveLines_eq (lines : List (List UInt8)) (m : Machine) :
    (s.serveLines lines).run m =
      (match lines.findSome? s.stop? with
        | none => .ok ()
        | some failure => .error failure,
        ((s.serveLines (s.servedLines lines)).run m).2) := by
  induction lines generalizing m with
  | nil => rfl
  | cons line rest ih =>
    cases hstop : s.stop? line with
    | some failure =>
      have hrun := s.run_serveLine_of_stop? hstop m
      rw [serveLines, Action.run_bind_error hrun]
      simp [servedLines, hstop, serveLines]
    | none =>
      obtain ⟨n, hrun, -⟩ := s.exists_run_serveLine hstop m
      rw [s.serveLines_cons_run hrun, ih n]
      have hserved : s.servedLines (line :: rest) = line :: s.servedLines rest := by
        simp [servedLines, hstop]
      rw [hserved, s.serveLines_cons_run hrun, List.findSome?_cons, hstop]

/-- A session serves the lines up to the first one that stops the server: it fails if there is one,
nothing happens for that line and those after it, and each request before it that has an id is
answered. -/
theorem run_serveLines (lines : List (List UInt8)) (m : Machine) :
    ((s.serveLines lines).run m).1 =
        (match lines.findSome? s.stop? with
          | none => .ok ()
          | some failure => .error failure) ∧
      ((s.serveLines lines).run m).2 = ((s.serveLines (s.servedLines lines)).run m).2 ∧
      ∀ before line, before ++ [line] <+: s.servedLines lines →
        ∃ n, (s.serveLines (before ++ [line])).run m = (.ok (), n) ∧ EndsAnswered line n := by
  have hrun := s.run_serveLines_eq lines m
  refine ⟨by rw [hrun], by rw [hrun], fun before line hbefore => ?_⟩
  refine s.exists_run_serveLines_append (fun l hl => ?_) m
  have hgo := List.all_eq_true.mp List.all_takeWhile l (hbefore.subset hl)
  exact Option.isNone_iff_eq_none.mp hgo

/-- A server with the standard configuration and without capabilities. -/
def bareServer : Server where
  name := .text "codemode"
  version := .text "0.1.0"
  transport := .text "stdio"
  engine := ⟨.standard, ⟨.text "node", "runner.js", "", [], 1000, 10000⟩, ⟨[]⟩⟩

/-- A list as the name of a method keeps the server from greeting the client that asks for it on
the next line. -/
theorem serveLines_listMethod :
    (bareServer.serveLines
      [Utf8.encode "\x7b\"method\": []\x7d\n".toList,
        Utf8.encode "\x7b\"id\": 2, \"method\": \"initialize\"\x7d\n".toList]).run (.bare [] []) =
      (.error (.mismatch .wrongKind "unhashable type: 'list'"), .bare [] []) := by
  have hrequest : requestOf (Utf8.encode "\x7b\"method\": []\x7d\n".toList) =
      .ok (some [(.text "method", .list [])]) := by cbv
  have hstop : bareServer.stop? (Utf8.encode "\x7b\"method\": []\x7d\n".toList) =
      some (.mismatch .wrongKind "unhashable type: 'list'") := by
    rw [stop?, hrequest]
    cbv
  rw [serveLines, Action.run_bind_error (bareServer.run_serveLine_of_stop? hstop _)]

end Server

end GuestCode
