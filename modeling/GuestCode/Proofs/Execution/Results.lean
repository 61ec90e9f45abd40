import GuestCode.Proofs.Capability.Confined
import GuestCode.Proofs.Execution.Engine

/-!
# What an execution hands out

The result of an execution is told to others in JSON: its output comes from a message of the runner,
which was JSON before, and its error and its logs are texts. While a snippet is executed nothing is
written to the standard output, unless a capability does that.

## Main statements

* `Engine.isPlain_of_execute`: results are plain JSON.
* `Engine.keepsOutput_execute`: an execution leaves the standard output alone.
-/

namespace GuestCode

/-! ## Results are plain -/

namespace ExecutionResult

theorem isPlain_failed (kind : FailureKind) (message : String) (logs : List String) :
    Json.IsPlain (failed kind message logs).toValue := by
  simp [failed, toValue]

theorem isPlain_success {output : Value} (h : Json.IsPlain output) (logs : List String) :
    Json.IsPlain (success output logs).toValue := by
  simp [success, toValue, h]

end ExecutionResult

namespace Host

variable {host : Host} {r : ExecutionResult} {m n : Machine}

theorem isPlain_limitOutput {output limited : Value} (h : Json.IsPlain output)
    (hlimited : host.limitOutput output = .ok limited) : Json.IsPlain limited := by
  unfold limitOutput at hlimited
  split at hlimited
  · cases hlimited
  · split at hlimited
    · cases hlimited
      exact h
    · cases hlimited
      exact .text _

theorem isPlain_settle {entries : List (Value × Value)} {logs : List String}
    (hentries : Json.IsPlain (.mapping entries)) (h : host.settle entries logs = .ok r) :
    Json.IsPlain r.toValue := by
  unfold settle at h
  split at h
  · obtain ⟨output, houtput, rfl⟩ := Outcome.exists_of_map_eq_ok h
    have hplain := isPlain_limitOutput (hentries.field "output") houtput
    exact ExecutionResult.isPlain_success hplain logs
  · cases h
    simp [ExecutionResult.toValue]

theorem isPlain_conclude {script : ChildScript} {timeLimit : Value} {decision : Decision}
    (hdecision : ∀ entries, decision = .result entries → Json.IsPlain (.mapping entries))
    {logs : LogBuffer} (h : (host.conclude script timeLimit decision logs).run m = (.ok r, n)) :
    Json.IsPlain r.toValue := by
  unfold conclude at h
  cases decision with
  | result entries =>
    rw [Action.run_ofExcept] at h
    exact isPlain_settle (hdecision entries rfl) (congrArg Prod.fst h)
  | late =>
    obtain ⟨_, _, -, h⟩ := Action.exists_of_run_bind h
    obtain ⟨failure, _, -, h⟩ := Action.exists_of_run_bind h
    cases h
    exact ExecutionResult.isPlain_failed _ _ _
  | ended =>
    cases h
    exact ExecutionResult.isPlain_failed _ _ _

theorem isPlain_converse {script : ChildScript} {code : String} {timeLimit : Value}
    {table : BindingTable} {globals : Value}
    (h : (host.converse script code timeLimit table globals).run m = (.ok r, n)) :
    Json.IsPlain r.toValue := by
  unfold converse at h
  obtain ⟨_, _, -, h⟩ := Action.exists_of_run_bind h
  obtain ⟨seconds, m', -, h⟩ := Action.exists_of_run_bind h
  dsimp only at h
  split at h
  · obtain ⟨⟨decision, logs⟩, _, hlate, h⟩ := Action.exists_of_run_bind h
    cases hlate
    have hconclude : (host.conclude script timeLimit .late (.ofLimit host.maxLogLines)).run m' =
        (.ok r, n) := h
    exact isPlain_conclude (by simp) hconclude
  · obtain ⟨⟨decision, logs⟩, _, hserve, h⟩ := Action.exists_of_run_bind h
    obtain ⟨_, hdecided⟩ := run_serve table script.input (.ofLimit host.maxLogLines)
      script.events m'
    rw [hdecided] at hserve
    cases hserve
    exact isPlain_conclude (fun entries hentries => isPlain_of_decisionOf hentries) h

theorem isPlain_run {code : String} {timeLimit : Value} {table : BindingTable}
    {globals : Value} (h : (host.run code timeLimit table globals).run m = (.ok r, n)) :
    Json.IsPlain r.toValue := by
  unfold run at h
  obtain ⟨found, _, -, h⟩ := Action.exists_of_run_bind h
  cases found with
  | none =>
    cases h
    exact ExecutionResult.isPlain_failed _ _ _
  | some program =>
    obtain ⟨_, _, -, h⟩ := Action.exists_of_run_bind h
    obtain ⟨_, _, -, h⟩ := Action.exists_of_run_bind h
    obtain ⟨started, _, -, h⟩ := Action.exists_of_run_bind h
    cases started with
    | error reason =>
      obtain ⟨_, _, -, h⟩ := Action.exists_of_run_bind h
      cases h
      exact ExecutionResult.isPlain_failed _ _ _
    | ok script => exact isPlain_converse h

end Host

namespace Engine

variable (e : Engine)

theorem isPlain_runSnippet {code : String} {timeLimit : Int} {context : Value}
    {r : ExecutionResult} {m n : Machine}
    (h : (e.runSnippet code timeLimit context).run m = (.ok r, n)) : Json.IsPlain r.toValue := by
  unfold runSnippet at h
  obtain ⟨_, _, -, h⟩ := Action.exists_of_run_bind h
  obtain ⟨_, _, -, h⟩ := Action.exists_of_run_bind h
  exact Host.isPlain_run h

theorem isPlain_explained {r : ExecutionResult} (h : Json.IsPlain r.toValue) (code : String) :
    Json.IsPlain (e.explained code r).toValue := by
  unfold explained
  split
  · next kind message name hending =>
    split
    · -- Only the message has words more, and that is a text before and after.
      simp only [ExecutionResult.toValue, hending, Json.IsPlain.record_iff] at h
      simp only [ExecutionResult.toValue, Json.IsPlain.record_iff]
      simp_all
    · exact h
  · exact h

/-- What is told at the end of an execution: the result with words that say what to do. -/
def tellEnding (code : String) (r : ExecutionResult) : Action ExecutionResult := do
  noteEnding (e.explained code r)
  return e.explained code r

/-- The result that is told is that of the run, or the failure that the run has ended in. -/
theorem run_carryOut (code : String) (timeLimit : Int) (context : Value) (m : Machine) :
    (e.carryOut code timeLimit context).run m =
      match (e.runSnippet code timeLimit context).run m with
      | (.ok r, n) => (e.tellEnding code r).run n
      | (.error failure, n) =>
        (e.tellEnding code (.failed .host ("Execution error: " ++ failure.message) [])).run
          { n with
            diagnostics :=
              n.diagnostics ++ [(.error, "Execution failed: " ++ failure.message)] } := by
  unfold carryOut
  rw [Action.run_bind, Action.run_attempt]
  rcases (e.runSnippet code timeLimit context).run m with ⟨failure | r, n⟩
  · rfl
  · rfl

theorem isPlain_tellEnding {code : String} {told r : ExecutionResult} {m n : Machine}
    (htold : Json.IsPlain told.toValue) (h : (e.tellEnding code told).run m = (.ok r, n)) :
    Json.IsPlain r.toValue := by
  obtain ⟨_, _, -, h⟩ := Action.exists_of_run_bind h
  cases h
  exact e.isPlain_explained htold code

theorem isPlain_carryOut {code : String} {timeLimit : Int} {context : Value}
    {r : ExecutionResult} {m n : Machine}
    (h : (e.carryOut code timeLimit context).run m = (.ok r, n)) : Json.IsPlain r.toValue := by
  rw [run_carryOut] at h
  split at h
  · next hrun => exact e.isPlain_tellEnding (e.isPlain_runSnippet hrun) h
  · exact e.isPlain_tellEnding (ExecutionResult.isPlain_failed _ _ _) h

/-- The result of an execution is plain JSON. -/
theorem isPlain_of_execute {code timeLimit context : Value} {r : ExecutionResult} {m n : Machine}
    (h : (e.execute code timeLimit context).run m = (.ok r, n)) : Json.IsPlain r.toValue := by
  by_cases hcode : ∀ text, code = .text text → Text.trim text.toList = []
  · rw [e.run_execute_blank hcode] at h
    cases h
    exact ExecutionResult.isPlain_failed _ _ _
  · obtain ⟨text, hcode⟩ := Classical.not_forall.mp hcode
    obtain ⟨rfl, htext⟩ := Classical.not_imp.mp hcode
    rw [e.run_execute_text htext] at h
    split at h
    · cases h
    · exact e.isPlain_carryOut h

end Engine

/-! ## The standard output -/

/-- Nothing has been written to the standard output. -/
def Machine.SameOutput (m n : Machine) : Prop := n.output = m.output

instance : Std.Refl Machine.SameOutput := ⟨fun _ => rfl⟩

instance : IsTrans Machine Machine.SameOutput where
  trans _ _ _ h h' := Eq.trans h' h

namespace Action

theorem Keeps.attempt {α : Type} {R : Machine → Machine → Prop} {x : Action α} (h : x.Keeps R) :
    (Action.attempt x).Keeps R := fun m => by
  rw [run_attempt]
  exact h m

theorem keepsOutput_note (severity : Severity) (message : String) :
    (note severity message).Keeps Machine.SameOutput := fun _ => rfl

theorem keepsOutput_launch (l : Launch) : (launch l).Keeps Machine.SameOutput := fun m => by
  rw [run_launch]
  cases m.nextScript.refusal with
  | none => rfl
  | some reason => rfl

theorem keepsOutput_send (message : String) :
    (Action.send message).Keeps Machine.SameOutput := fun m => by
  unfold Action.send
  rw [run_modify]
  cases m.launches.getLast? with
  | none => rfl
  | some l => rfl

end Action

open GuestCode.Action

/-- The methods of a table leave the standard output alone. -/
def BindingTable.KeepsOutput (table : BindingTable) : Prop :=
  ∀ capability name method, table.method capability name = .ok method →
    ∀ arguments, (method.call arguments).Keeps Machine.SameOutput

namespace Host

variable {table : BindingTable}

theorem keepsOutput_send (input : ChildInput) (message : HostMessage) :
    (send input message).Keeps Machine.SameOutput := by
  unfold send
  split
  · exact .of_reads (reads_fail _)
  · split
    · exact Action.keepsOutput_send _
    · exact .of_reads (reads_pure _)

theorem keepsOutput_serveCall (h : table.KeepsOutput) (input : ChildInput) (c : CallRequest) :
    (serveCall table input c).Keeps Machine.SameOutput := by
  have hdispatch : (table.dispatch c.capability c.method c.arguments).Keeps Machine.SameOutput := by
    intro m
    unfold BindingTable.dispatch
    rw [Action.run_bind, Action.run_ofExcept]
    cases hmethod : table.method c.capability c.method with
    -- A method that is not there is refused before anything is done.
    | error failure => exact Std.Refl.refl m
    | ok method => exact h _ _ method hmethod c.arguments m
  have hanswer :
      (table.answer c.capability c.method c.arguments).Keeps Machine.SameOutput := by
    unfold BindingTable.answer
    refine .bind hdispatch.attempt fun outcome => ?_
    split
    · exact .of_reads (reads_pure _)
    · split
      · exact .of_reads (reads_pure _)
      · exact .of_reads (reads_pure _)
  have hsend : ∀ completes answer, (if completes = true then send input (.reply c.id answer)
      else pure () : Action Unit).Keeps Machine.SameOutput := by
    intro completes answer
    split
    · exact keepsOutput_send _ _
    · exact .of_reads (reads_pure _)
  exact .bind hanswer fun answer => hsend _ answer

theorem keepsOutput_serve (h : table.KeepsOutput) (input : ChildInput) (logs : LogBuffer)
    (events : List ChildEvent) : (serve table input logs events).Keeps Machine.SameOutput := by
  induction events generalizing logs with
  | nil => exact .of_reads (reads_pure _)
  | cons event rest ih =>
    match event with
    | .hang => exact .of_reads (reads_pure _)
    | .line [] => exact .of_reads (reads_pure _)
    | .line (b :: octets) =>
      rw [serve_line]
      split
      · exact ih logs
      · exact ih _
      · exact .bind (keepsOutput_serveCall h input _) fun _ => ih logs
      · exact .of_reads (reads_pure _)

variable (host : Host)

theorem keepsOutput_converse (h : table.KeepsOutput) (script : ChildScript) (code : String)
    (timeLimit globals : Value) :
    (host.converse script code timeLimit table globals).Keeps Machine.SameOutput := by
  unfold converse
  refine .bind (keepsOutput_send _ _) fun _ => ?_
  refine .bind (.of_reads (reads_ofExcept _)) fun seconds => ?_
  have hconclude : ∀ outcome : Decision × LogBuffer,
      (host.conclude script timeLimit outcome.1 outcome.2).Keeps Machine.SameOutput := by
    intro outcome
    unfold conclude
    split
    · exact .of_reads (reads_ofExcept _)
    · refine .bind (keepsOutput_note _ _) fun _ => ?_
      exact .bind (.of_reads (reads_ofExcept _)) fun _ => .of_reads (reads_pure _)
    · exact .of_reads (reads_pure _)
  dsimp only
  split
  · exact .bind (.of_reads (reads_pure _)) hconclude
  · exact .bind (keepsOutput_serve h _ _ _) hconclude

theorem keepsOutput_run (h : table.KeepsOutput) (code : String) (timeLimit globals : Value) :
    (host.run code timeLimit table globals).Keeps Machine.SameOutput := by
  have hprogram : host.programPath?.Reads := fun m => by rw [run_programPath?]
  unfold run
  refine .bind (.of_reads hprogram) fun found => ?_
  split
  · exact .of_reads (reads_pure _)
  · refine .bind (.of_reads reads_get) fun _ => .bind (.of_reads (reads_ofExcept _)) fun _ => ?_
    refine .bind (keepsOutput_launch _) fun started => ?_
    split
    · exact .bind (keepsOutput_note _ _) fun _ => .of_reads (reads_pure _)
    · exact host.keepsOutput_converse h _ _ _ _

end Host

namespace Engine

variable {e : Engine}

/-- An execution leaves the standard output alone, if the capabilities do. -/
theorem keepsOutput_execute (h : e.table.KeepsOutput) (code timeLimit context : Value) :
    (e.execute code timeLimit context).Keeps Machine.SameOutput := by
  have hsnippet : ∀ code limit,
      (e.runSnippet code limit context).Keeps Machine.SameOutput := fun code limit =>
    .bind (.of_reads (reads_ofExcept _)) fun _ =>
      .bind (.of_reads (reads_ofExcept _)) fun _ => e.host.keepsOutput_run h _ _ _
  have htold : ∀ code r, (e.tellEnding code r).Keeps Machine.SameOutput := by
    intro code r
    refine .bind ?_ fun _ => .of_reads (reads_pure _)
    unfold noteEnding
    split
    · exact keepsOutput_note _ _
    · exact .bind (.of_reads reads_get) fun _ => keepsOutput_note _ _
  intro m
  -- Code that is no text, or a blank one, is refused at once.
  by_cases hcode : ∀ text, code = .text text → Text.trim text.toList = []
  · rw [e.run_execute_blank hcode]
    rfl
  · obtain ⟨text, hcode⟩ := Classical.not_forall.mp hcode
    obtain ⟨rfl, htext⟩ := Classical.not_imp.mp hcode
    rw [e.run_execute_text htext]
    split
    · rfl
    · next message _ =>
      have hrun := hsnippet text (e.timeLimitOf timeLimit)
        { m with diagnostics := m.diagnostics ++ [(.info, message)] }
      rw [run_carryOut]
      split
      · next r n hr =>
        rw [hr] at hrun
        exact (htold text r n).trans hrun
      · next failure n hr =>
        rw [hr] at hrun
        exact (htold text _ _).trans hrun

/-- The standard capabilities leave the standard output alone. -/
theorem keepsOutput_of_make {c : Configuration} (h : make c none = .ok e) :
    e.table.KeepsOutput := by
  unfold make at h
  obtain ⟨host, -, h⟩ := Outcome.exists_of_bind_eq_ok h
  obtain ⟨bindings, hbindings, h⟩ := Outcome.exists_of_bind_eq_ok h
  obtain ⟨table, htable, h⟩ := Outcome.exists_of_bind_eq_ok h
  cases h
  intro capability name method hmethod arguments m
  have hkept := BindingTable.keeps_of_standardBindings hbindings htable hmethod
  rw [Machine.SameOutput, (hkept.call arguments m).others]

end Engine

end GuestCode
