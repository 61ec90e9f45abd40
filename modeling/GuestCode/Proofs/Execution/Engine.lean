import GuestCode.Execution.Engine
import GuestCode.Proofs.Data.Outcome
import GuestCode.Proofs.Execution.Run

/-!
# What comes of an execution

An execution tells in its result whatever goes wrong while the snippet is rewritten and run. Before
that it announces the snippet, with the time limit and a preview, and a failure to do so is told
nowhere. This module says when that happens, and what the results are like.

## Main statements

* `Masking.exists_previewWithin_iff`: the limits under which a text has a preview.
* `Host.errorIsText_run`: the error of a run is a text.
* `Engine.execute_result_iff`: when an execution gives a result, and what its error is.
-/

namespace GuestCode

/-! ## Previews -/

/-- The limits under which a text of a length has a preview: whole numbers, truth values, and any
other number that the length does not exceed. -/
inductive Masking.Fits : Value → Nat → Prop where
  | int (n : Int) (length : Nat) : Fits (.int n) length
  | bool (b : Bool) (length : Nat) : Fits (.bool b) length
  | float {x : Binary64} {length : Nat} (notLonger : x.compareInt? length ≠ some .lt) :
      Fits (.float x) length

theorem Masking.exists_previewWithin_iff {limit : Value} {masked : Bool} {text : List Char} :
    (∃ shown, previewWithin limit masked text = .ok shown) ↔ Fits limit text.length := by
  constructor
  · rintro ⟨shown, h⟩
    unfold previewWithin at h
    split at h
    · exact .int _ _
    · exact .bool _ _
    · next x =>
      split at h
      · cases h
      · next hnot => exact .float (by simpa using hnot)
    · cases h
  · intro h
    cases h with
    | int n => exact ⟨_, rfl⟩
    | bool b => exact ⟨_, rfl⟩
    | @float x _ notLonger =>
      have hnot : (x.compareInt? text.length == some .lt) = false := by simpa using notLonger
      unfold previewWithin
      dsimp only
      rw [hnot, if_neg Bool.false_ne_true]
      exact ⟨_, rfl⟩

/-! ## Errors -/

/-- A result whose error, if it has one, is a text. -/
def ExecutionResult.ErrorIsText (r : ExecutionResult) : Prop :=
  ∀ kind message name, r.ending = .error kind message name → ∃ text, message = .text text

theorem ExecutionResult.ErrorIsText.success (output : Value) (logs : List String) :
    (ExecutionResult.success output logs).ErrorIsText :=
  fun _ _ _ h => nomatch h

theorem ExecutionResult.ErrorIsText.failed (kind : FailureKind) (message : String)
    (logs : List String) : (ExecutionResult.failed kind message logs).ErrorIsText := by
  rintro _ _ _ ⟨⟩
  exact ⟨message, rfl⟩

theorem ExecutionResult.ErrorIsText.exists_of_not_ok {r : ExecutionResult} (h : r.ErrorIsText)
    (hnot : r.isOk = false) : ∃ kind text name, r.ending = .error kind (.text text) name := by
  unfold isOk at hnot
  cases hending : r.ending with
  | output value => simp [hending] at hnot
  | error kind message name =>
    obtain ⟨text, rfl⟩ := h kind message name hending
    exact ⟨kind, text, name, rfl⟩

namespace Host

variable {host : Host} {r : ExecutionResult} {m n : Machine}

theorem errorIsText_settle {entries : List (Value × Value)} {logs : List String}
    (h : host.settle entries logs = .ok r) : r.ErrorIsText := by
  unfold settle at h
  split at h
  · obtain ⟨output, -, rfl⟩ := Outcome.exists_of_map_eq_ok h
    exact .success output logs
  · cases h
    rintro _ _ _ ⟨⟩
    exact ⟨_, rfl⟩

theorem errorIsText_conclude {script : ChildScript} {timeLimit : Value} {decision : Decision}
    {logs : LogBuffer} (h : (host.conclude script timeLimit decision logs).run m = (.ok r, n)) :
    r.ErrorIsText := by
  unfold conclude at h
  cases decision with
  | result entries =>
    rw [Action.run_ofExcept] at h
    exact errorIsText_settle (congrArg Prod.fst h)
  | late =>
    obtain ⟨_, _, -, h⟩ := Action.exists_of_run_bind h
    obtain ⟨failure, _, -, h⟩ := Action.exists_of_run_bind h
    cases h
    exact .failed _ _ _
  | ended =>
    cases h
    exact .failed _ _ _

/-- The error of a run is a text. -/
theorem errorIsText_run {code : String} {timeLimit : Value} {table : BindingTable}
    {globals : Value} (h : (host.run code timeLimit table globals).run m = (.ok r, n)) :
    r.ErrorIsText := by
  unfold run at h
  obtain ⟨found, _, -, h⟩ := Action.exists_of_run_bind h
  cases found with
  | none =>
    cases h
    exact .failed _ _ _
  | some program =>
    obtain ⟨_, _, -, h⟩ := Action.exists_of_run_bind h
    obtain ⟨_, _, -, h⟩ := Action.exists_of_run_bind h
    obtain ⟨started, _, -, h⟩ := Action.exists_of_run_bind h
    cases started with
    | error reason =>
      obtain ⟨_, _, -, h⟩ := Action.exists_of_run_bind h
      cases h
      exact .failed _ _ _
    | ok script =>
      -- However the conversation ends, its result is made by concluding it.
      unfold converse at h
      obtain ⟨_, _, -, h⟩ := Action.exists_of_run_bind h
      obtain ⟨seconds, _, -, h⟩ := Action.exists_of_run_bind h
      dsimp only at h
      split at h
      · obtain ⟨⟨decision, logs⟩, _, -, h⟩ := Action.exists_of_run_bind h
        exact errorIsText_conclude h
      · obtain ⟨⟨decision, logs⟩, _, -, h⟩ := Action.exists_of_run_bind h
        exact errorIsText_conclude h

end Host

namespace Engine

variable (e : Engine)

theorem errorIsText_runSnippet {code : String} {timeLimit : Int} {context : Value}
    {r : ExecutionResult} {m n : Machine}
    (h : (e.runSnippet code timeLimit context).run m = (.ok r, n)) : r.ErrorIsText := by
  unfold runSnippet at h
  obtain ⟨_, _, -, h⟩ := Action.exists_of_run_bind h
  obtain ⟨_, _, -, h⟩ := Action.exists_of_run_bind h
  exact Host.errorIsText_run h

/-- The words that say what to do are a text, too. -/
theorem errorIsText_explained {r : ExecutionResult} (h : r.ErrorIsText) (code : String) :
    (e.explained code r).ErrorIsText := by
  unfold explained
  split
  · split
    · rintro _ _ _ ⟨⟩
      exact ⟨_, rfl⟩
    · exact h
  · exact h

/-! ## Executions -/

theorem exists_run_noteEnding (r : ExecutionResult) (m : Machine) :
    ∃ n, (noteEnding r).run m = (.ok (), n) := by
  unfold noteEnding
  cases r.ending with
  | output => exact ⟨_, rfl⟩
  | error kind message name => exact ⟨_, rfl⟩

theorem exists_writeLimit_iff {limit : Int} :
    (∃ written, writeLimit limit = .ok written) ↔
      limit.natAbs < Nat.pow 10 Text.Numeral.maxDigits := by
  unfold writeLimit
  constructor
  · rintro ⟨written, h⟩
    split at h
    · assumption
    · cases h
  · intro h
    exact ⟨_, if_pos h⟩

/-- How a snippet is announced in an environment. -/
def announcement (environment : List (String × String)) (code : String) (timeLimit : Int) :
    Except Failure String := do
  let limit ← writeLimit timeLimit
  let settings := e.configuration.diagnostics
  let masked := settings.masked.isTruthy || Masking.isRequested environment
  let shown ← Masking.previewWithin settings.maxPreview masked code.toList
  return "Executing snippet (timeout " ++ limit ++ "ms): " ++ String.ofList shown

/-- What it takes to announce a snippet: a time limit that can be written, and a limit of previews
that fits the snippet. -/
structure Announces (e : Engine) (code : String) (timeLimit : Int) : Prop where
  limitWritten : timeLimit.natAbs < Nat.pow 10 Text.Numeral.maxDigits
  previewFits : Masking.Fits e.configuration.diagnostics.maxPreview code.toList.length

theorem exists_announcement_iff {environment : List (String × String)} {code : String}
    {timeLimit : Int} :
    (∃ message, e.announcement environment code timeLimit = .ok message) ↔
      e.Announces code timeLimit := by
  unfold announcement
  constructor
  · rintro ⟨message, h⟩
    obtain ⟨limit, hlimit, h⟩ := Outcome.exists_of_bind_eq_ok h
    obtain ⟨shown, hshown, -⟩ := Outcome.exists_of_bind_eq_ok h
    exact ⟨exists_writeLimit_iff.mp ⟨limit, hlimit⟩,
      Masking.exists_previewWithin_iff.mp ⟨shown, hshown⟩⟩
  · intro h
    obtain ⟨limit, hlimit⟩ := exists_writeLimit_iff.mpr h.limitWritten
    obtain ⟨shown, hshown⟩ := Masking.exists_previewWithin_iff.mpr h.previewFits
    refine ⟨"Executing snippet (timeout " ++ limit ++ "ms): " ++ String.ofList shown, ?_⟩
    rw [hlimit]
    dsimp only [bind, Except.bind]
    rw [hshown]
    rfl

/-- What is left of an execution when the snippet has been announced. -/
def carryOut (e : Engine) (code : String) (timeLimit : Int) (context : Value) :
    Action ExecutionResult := do
  let r ←
    match ← Action.attempt (e.runSnippet code timeLimit context) with
    | .ok r => pure r
    | .error failure => do
      Action.note .error ("Execution failed: " ++ failure.message)
      pure (.failed .host ("Execution error: " ++ failure.message) [])
  let r := e.explained code r
  noteEnding r
  return r

/-- Whatever goes wrong in a run is told. -/
theorem exists_run_carryOut (code : String) (timeLimit : Int) (context : Value) (m : Machine) :
    ∃ r n, (e.carryOut code timeLimit context).run m = (.ok r, n) ∧ r.ErrorIsText := by
  have htold : ∀ (r : ExecutionResult) (n : Machine), r.ErrorIsText →
      ∃ r' n', ((do noteEnding (e.explained code r); return e.explained code r :
        Action ExecutionResult)).run n = (.ok r', n') ∧ r'.ErrorIsText := by
    intro r n htext
    obtain ⟨n', hnote⟩ := exists_run_noteEnding (e.explained code r) n
    exact ⟨e.explained code r, n', Action.run_bind_ok hnote _, e.errorIsText_explained htext code⟩
  unfold carryOut
  rw [Action.run_bind, Action.run_attempt]
  rcases hrun : (e.runSnippet code timeLimit context).run m with ⟨failure | r, n⟩
  · exact htold _ _ (.failed .host ("Execution error: " ++ failure.message) [])
  · exact htold r n (e.errorIsText_runSnippet hrun)

/-- The requests of which the snippet, if there is one, can be announced. -/
def Accepts (e : Engine) (code timeLimit : Value) : Prop :=
  ∀ text, code = .text text → Text.trim text.toList ≠ [] →
    e.Announces text (e.timeLimitOf timeLimit)

/-- Without a snippet nothing is done. -/
theorem run_execute_blank {code : Value}
    (hcode : ∀ text, code = .text text → Text.trim text.toList = [])
    (timeLimit context : Value) (m : Machine) :
    (e.execute code timeLimit context).run m =
      (.ok (.failed .host "Code is required" []), m) := by
  unfold execute
  split
  · next text =>
    rw [hcode text rfl]
    rfl
  · rfl

/-- A snippet is announced, and then executed. -/
theorem run_execute_text {code : String} (hcode : Text.trim code.toList ≠ [])
    (timeLimit context : Value) (m : Machine) :
    (e.execute (.text code) timeLimit context).run m =
      match e.announcement m.environment code (e.timeLimitOf timeLimit) with
      | .error failure => (.error failure, m)
      | .ok message =>
        (e.carryOut code (e.timeLimitOf timeLimit) context).run
          { m with diagnostics := m.diagnostics ++ [(.info, message)] } := by
  have hsome : (Text.trim code.toList).isEmpty = false := by simpa using hcode
  unfold execute announcement preview
  dsimp only
  rw [hsome, if_neg Bool.false_ne_true]
  simp only [Action.run_bind, Action.run_ofExcept, Action.run_get]
  cases writeLimit (e.timeLimitOf timeLimit) with
  | error failure => rfl
  | ok limit =>
    dsimp only [bind, Except.bind]
    cases Masking.previewWithin e.configuration.diagnostics.maxPreview
      (e.configuration.diagnostics.masked.isTruthy || Masking.isRequested m.environment)
      code.toList with
    | error failure => rfl
    | ok shown => rfl

theorem run_execute_cases (code timeLimit context : Value) (m : Machine) :
    (e.Accepts code timeLimit ∧ ∃ r n,
      (e.execute code timeLimit context).run m = (.ok r, n) ∧ r.ErrorIsText) ∨
    (¬e.Accepts code timeLimit ∧ ∃ failure,
      (e.execute code timeLimit context).run m = (.error failure, m)) := by
  by_cases hcode : ∀ text, code = .text text → Text.trim text.toList = []
  · exact .inl ⟨fun text htext hsome => absurd (hcode text htext) hsome, _, _,
      e.run_execute_blank hcode timeLimit context m, .failed _ _ _⟩
  · obtain ⟨text, hcode⟩ := Classical.not_forall.mp hcode
    obtain ⟨rfl, htext⟩ := Classical.not_imp.mp hcode
    have haccepts :
        e.Accepts (.text text) timeLimit ↔ e.Announces text (e.timeLimitOf timeLimit) := by
      constructor
      · exact fun h => h text rfl htext
      · rintro h _ ⟨⟩ -
        exact h
    rw [haccepts, ← @exists_announcement_iff e m.environment,
      e.run_execute_text htext timeLimit context m]
    cases e.announcement m.environment text (e.timeLimitOf timeLimit) with
    | error failure => exact .inr ⟨fun ⟨_, h⟩ => (nomatch h), failure, rfl⟩
    | ok message => exact .inl ⟨⟨message, rfl⟩, e.exists_run_carryOut text _ context _⟩

/-- An execution gives a result unless there is a snippet that it cannot announce. The error that a
result may have is a text, and an execution that gives no result has done nothing. -/
theorem execute_result_iff (code timeLimit context : Value) (m : Machine) :
    ((∃ r n, (e.execute code timeLimit context).run m = (.ok r, n)) ↔
      e.Accepts code timeLimit) ∧
    (∀ r n, (e.execute code timeLimit context).run m = (.ok r, n) → r.isOk = false →
      ∃ kind text name, r.ending = .error kind (.text text) name) ∧
    (∀ failure n, (e.execute code timeLimit context).run m = (.error failure, n) → n = m) := by
  rcases e.run_execute_cases code timeLimit context m with
    ⟨haccepts, r, n, hrun, htext⟩ | ⟨haccepts, failure, hrun⟩
  · rw [hrun]
    refine ⟨⟨fun _ => haccepts, fun _ => ⟨r, n, rfl⟩⟩, ?_, fun _ _ h => nomatch h⟩
    rintro _ _ ⟨⟩ hnot
    exact htext.exists_of_not_ok hnot
  · rw [hrun]
    refine ⟨⟨?_, fun h => absurd h haccepts⟩, fun _ _ h => (nomatch h), ?_⟩
    · rintro ⟨_, _, ⟨⟩⟩
    · rintro _ _ ⟨⟩
      rfl

theorem configuration_of_make {c : Configuration} {bindings : Option (List Binding)} {e : Engine}
    (h : make c bindings = .ok e) : e.configuration = c := by
  unfold make at h
  obtain ⟨_, -, h⟩ := Outcome.exists_of_bind_eq_ok h
  have htable : ∀ {bindings : List Binding} {host : Host},
      (do return Engine.mk c host (← BindingTable.ofBindings bindings)) = Except.ok e →
        e.configuration = c := by
    intro bindings host h
    obtain ⟨_, -, h⟩ := Outcome.exists_of_bind_eq_ok h
    rw [← Except.ok.inj h]
  cases bindings with
  | some bindings => exact htable h
  | none =>
    obtain ⟨_, -, h⟩ := Outcome.exists_of_bind_eq_ok h
    exact htable h

/-- The standard configuration, but for a limit of previews that is a text. -/
def spelledPreview : Configuration :=
  { Configuration.standard with
    diagnostics := { Configuration.standard.diagnostics with maxPreview := .text "200" } }

/-- Plain data can state such a configuration, there is an engine with it, and no snippet is
executed by that. -/
theorem execute_spelledPreview :
    Configuration.ofData []
        (Value.record [("logging", Value.record [("max_preview_length", .text "200")])]) =
      .ok spelledPreview ∧
    ∃ e, make spelledPreview none = .ok e ∧
      ∀ m, (e.execute (.text "return 1") .null .null).run m =
        (.error (.mismatch .wrongKind "'>' not supported between instances of 'int' and 'str'"),
          m) := by
  refine ⟨by cbv, ?_⟩
  have hok : (make spelledPreview none).isOk = true := by decide +kernel
  cases hmake : make spelledPreview none with
  | error failure => simp [hmake, Except.isOk, Except.toBool] at hok
  | ok e =>
    refine ⟨e, rfl, fun m => ?_⟩
    have hannouncement : e.announcement m.environment "return 1" (e.timeLimitOf .null) =
        .error (.mismatch .wrongKind
          "'>' not supported between instances of 'int' and 'str'") := by
      have hdigits : ∀ digits, 5 ≤ digits → 30000 < Nat.pow 10 digits := fun digits h =>
        calc 30000 < Nat.pow 10 5 := by decide
          _ ≤ Nat.pow 10 digits := Nat.pow_le_pow_right (by decide) h
      have hlimit : writeLimit (e.timeLimitOf .null) = .ok "30000" := by
        unfold writeLimit timeLimitOf
        rw [configuration_of_make hmake, if_pos]
        · rfl
        · exact hdigits Text.Numeral.maxDigits (by decide)
      unfold announcement
      rw [hlimit, configuration_of_make hmake]
      rfl
    rw [e.run_execute_text (by decide +kernel), hannouncement]

end Engine

end GuestCode
