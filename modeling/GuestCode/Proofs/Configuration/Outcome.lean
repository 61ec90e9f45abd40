import GuestCode.Configuration.File
import GuestCode.Proofs.Data.Outcome
import GuestCode.Proofs.Disk.Files
import GuestCode.Proofs.Machine.Steps
import Mathlib

/-!
# What becomes of configuration data

Plain data either state a configuration, whose time limit is positive, or fail to do so. Most failures
are told as failures of the configuration. Three are not: an infinite time limit has no integer part,
and the name and the list of variables are shown as texts, which integers with very many digits do not
have. A file adds one more: a scalar of a YAML text that has the tag of a value it is none of.

## Main statements

* `Configuration.timeLimit_pos`: the time limit of a configuration is positive.
* `Configuration.Escapes`, `Configuration.ofData_eq_error_iff`: the data that fail in another way.
* `Configuration.LoadEscapes`, `Configuration.run_load_eq_error_iff`: the files that do.
* `Configuration.ofData_load_outcome`: all outcomes of data and files.
-/

namespace GuestCode.Configuration

/-- Whether a failure is one of the configuration. -/
def IsTold (f : Failure) : Prop := ∃ message, f = .configuration message

/-! ## Settings -/

theorem isTold_of_sectionEntries {name : String} {v : Value} {f : Failure}
    (h : sectionEntries name v = .error f) : IsTold f := by
  unfold sectionEntries at h
  split at h
  · cases h
  · cases h
  · exact ⟨_, (Except.error.inj h).symm⟩

/-- A text, or octets, that are no numeral are values that make no sense. -/
theorem concernsValue_numeralFailure (base : Nat) (literal : String) (fault : Text.Numeral.Fault) :
    (Value.numeralFailure base literal fault).concernsValue = true := by
  cases fault <;> rfl

/-- An infinity has no integer part. -/
def infiniteLimit : Failure := .mismatch .overflow "cannot convert float infinity to integer"

/-- The whole number of a value that has none: the value is of the wrong kind, makes no sense, or is
infinite. -/
theorem cases_of_wholeNumber {v : Value} {f : Failure} (h : v.wholeNumber = .error f) :
    (∃ message, f = .mismatch .wrongKind message) ∨ f.concernsValue = true ∨
      ∃ negative, v = .float (.infinite negative) ∧ f = infiniteLimit := by
  have hread : ∀ {base : Nat} {chars : List Char} {literal : String},
      (Text.Numeral.read base chars).mapError (Value.numeralFailure base literal) = .error f →
        f.concernsValue = true := by
    intro base chars literal h
    obtain ⟨fault, -, rfl⟩ := Outcome.mapError_eq_error_iff.mp h
    exact concernsValue_numeralFailure base literal fault
  cases v with
  | int | bool => cases h
  | text => exact .inr (.inl (hread h))
  | bytes => exact .inr (.inl (hread h))
  | float x =>
    cases x with
    | finite => cases h
    | infinite negative => exact .inr (.inr ⟨negative, rfl, (Except.error.inj h).symm⟩)
    | nan => exact .inr (.inl (by rw [← Except.error.inj h]; rfl))
  | _ => exact .inl ⟨_, (Except.error.inj h).symm⟩

theorem pos_of_timeLimitOf {v : Value} {limit : Int} (h : timeLimitOf v = .ok limit) :
    0 < limit := by
  obtain ⟨n, -, h⟩ := Outcome.exists_of_bind_eq_ok h
  split at h
  · next hpos => exact Except.ok.inj h ▸ hpos
  · cases h

/-- A limit is refused in the documented way unless it is infinite. -/
theorem timeLimitOf_eq_error {v : Value} {f : Failure} (h : timeLimitOf v = .error f) :
    IsTold f ∨ ∃ negative, v = .float (.infinite negative) ∧ f = infiniteLimit := by
  rcases Outcome.bind_eq_error_iff.mp h with h | ⟨n, -, h⟩
  · unfold statedNumber at h
    split at h
    · cases h
    · cases h
    · next failure hkind hnumber =>
      rcases cases_of_wholeNumber hnumber with ⟨message, rfl⟩ | hvalue | hinfinite
      · exact absurd rfl (hkind message)
      · rw [if_pos hvalue] at h
        cases h
      · obtain ⟨negative, rfl, rfl⟩ := hinfinite
        exact .inr ⟨negative, rfl, (Except.error.inj h).symm⟩
  · split at h
    · cases h
    · exact .inl ⟨_, (Except.error.inj h).symm⟩

theorem timeLimitOf_infinite (negative : Bool) :
    timeLimitOf (.float (.infinite negative)) = .error infiniteLimit := rfl

/-- A value can be shown unless it holds an integer with too many digits. -/
theorem shown_eq_error_iff {v : Value} {f : Failure} :
    v.shown = .error f ↔ v.holdsLongInteger = true ∧ f = Value.tooManyDigits := by
  unfold Value.shown
  split
  · next h => simp [h, eq_comm]
  · next h => simp [h]

theorem variablesOf_eq_error_iff {v : Value} {f : Failure} :
    variablesOf v = .error f ↔
      (∀ items, v.unfolded ≠ .list items) ∧ v.holdsLongInteger = true ∧ f = Value.tooManyDigits := by
  unfold variablesOf
  split
  · next items h => simp [h]
  · next h =>
    rw [← shown_eq_error_iff]
    cases v.shown with
    | ok name => simp [Except.map]
    | error failure => simpa [Except.map] using fun _ items => h items

theorem nameOf_eq_error_iff {v : Value} {f : Failure} :
    nameOf v = .error f ↔
      v.isTruthy = true ∧ v.holdsLongInteger = true ∧ f = Value.tooManyDigits := by
  unfold nameOf
  split
  · next h => simp [h, shown_eq_error_iff]
  · next h => simp [h]

/-- The environment is refused in the documented way. -/
theorem isTold_of_withEnvironment {environment : List (String × String)} {c : Configuration}
    {f : Failure} (h : c.withEnvironment environment = .error f) : IsTold f := by
  rcases Outcome.bind_eq_error_iff.mp h with h | ⟨maxPreview, -, h⟩
  · unfold previewOverride at h
    split at h
    · cases h
    split at h
    · cases h
    split at h
    · cases h
    · exact ⟨_, (Except.error.inj h).symm⟩
  · cases h

theorem timeLimit_withEnvironment {environment : List (String × String)} {c c' : Configuration}
    (h : c.withEnvironment environment = .ok c') : c'.sandbox.timeLimit = c.sandbox.timeLimit := by
  obtain ⟨maxPreview, -, h⟩ := Outcome.exists_of_bind_eq_ok h
  exact Except.ok.inj h ▸ rfl

/-! ## Data -/

/-- The sandbox section of data whose sections are mappings or missing. -/
def States (entries sandbox : List (Value × Value)) : Prop :=
  sectionEntries "SandboxConfig" (Value.field entries "sandbox") = .ok sandbox ∧
    (∃ capabilities, sectionEntries "CapabilityConfig" (Value.field entries "capabilities") =
      .ok capabilities) ∧
    ∃ diagnostics, sectionEntries "LoggingConfig" (Value.field entries "logging") = .ok diagnostics

/-- The setting of the variables. -/
def variablesSetting (sandbox : List (Value × Value)) : Value :=
  settingOr sandbox "env_allowlist" (.list [])

/-- The setting of the time limit. -/
def limitSetting (sandbox : List (Value × Value)) : Value :=
  settingOr sandbox "default_timeout_ms" (.int standard.sandbox.timeLimit)

/-- The data that fail in a way that is not documented. The variables come first, then the time limit
and then the name. -/
inductive Escapes (entries : List (Value × Value)) : Failure → Prop where
  /-- What is given for the list of variables is no list, and it cannot be shown. -/
  | allowed {sandbox : List (Value × Value)} (states : States entries sandbox)
      (no_list : ∀ items, (variablesSetting sandbox).unfolded ≠ .list items)
      (long : (variablesSetting sandbox).holdsLongInteger = true) :
      Escapes entries Value.tooManyDigits
  /-- The time limit is infinite. -/
  | limit {sandbox : List (Value × Value)} {allowed : List Value} {negative : Bool}
      (states : States entries sandbox)
      (shown : variablesOf (variablesSetting sandbox) = .ok allowed)
      (infinite : limitSetting sandbox = .float (.infinite negative)) :
      Escapes entries infiniteLimit
  /-- The name cannot be shown. -/
  | name {sandbox : List (Value × Value)} {allowed : List Value} {limit : Int}
      (states : States entries sandbox)
      (shown : variablesOf (variablesSetting sandbox) = .ok allowed)
      (positive : timeLimitOf (limitSetting sandbox) = .ok limit)
      (truthy : (Value.field entries "name").isTruthy = true)
      (long : (Value.field entries "name").holdsLongInteger = true) :
      Escapes entries Value.tooManyDigits

section Data

variable {environment : List (String × String)} {entries : List (Value × Value)} {f : Failure}

theorem Escapes.not_isTold (h : Escapes entries f) : ¬IsTold f := by
  rintro ⟨message, rfl⟩
  cases h

/-- Data with sections fail by their variables, their time limit or their name. -/
theorem ofEntries_eq_error_iff {sandbox : List (Value × Value)} (h : States entries sandbox) :
    ofEntries entries = .error f ↔
      variablesOf (variablesSetting sandbox) = .error f ∨
        ∃ allowed, variablesOf (variablesSetting sandbox) = .ok allowed ∧
          (timeLimitOf (limitSetting sandbox) = .error f ∨
            ∃ limit, timeLimitOf (limitSetting sandbox) = .ok limit ∧
              nameOf (Value.field entries "name") = .error f) := by
  obtain ⟨hsandbox, ⟨_, hcapabilities⟩, _, hdiagnostics⟩ := h
  simp [ofEntries, Outcome.bind_eq_error_iff, hsandbox, hcapabilities, hdiagnostics,
    variablesSetting, limitSetting, pure, Except.pure]

theorem cases_of_ofEntries_eq_error (h : ofEntries entries = .error f) :
    IsTold f ∨ ∃ sandbox, States entries sandbox := by
  rcases Outcome.bind_eq_error_iff.mp h with h | ⟨sandbox, hsandbox, h⟩
  · exact .inl (isTold_of_sectionEntries h)
  rcases Outcome.bind_eq_error_iff.mp h with h | ⟨capabilities, hcapabilities, h⟩
  · exact .inl (isTold_of_sectionEntries h)
  rcases Outcome.bind_eq_error_iff.mp h with h | ⟨diagnostics, hdiagnostics, -⟩
  · exact .inl (isTold_of_sectionEntries h)
  exact .inr ⟨sandbox, hsandbox, ⟨capabilities, hcapabilities⟩, diagnostics, hdiagnostics⟩

theorem ofEntries_eq_error (h : ofEntries entries = .error f) : IsTold f ∨ Escapes entries f := by
  rcases cases_of_ofEntries_eq_error h with htold | ⟨sandbox, hstates⟩
  · exact .inl htold
  rcases (ofEntries_eq_error_iff hstates).mp h with hvariables | ⟨allowed, hvariables, h⟩
  · obtain ⟨hlist, hlong, rfl⟩ := variablesOf_eq_error_iff.mp hvariables
    exact .inr (.allowed hstates hlist hlong)
  rcases h with hlimit | ⟨limit, hlimit, hname⟩
  · rcases timeLimitOf_eq_error hlimit with htold | ⟨negative, hinfinite, rfl⟩
    · exact .inl htold
    · exact .inr (.limit hstates hvariables hinfinite)
  · obtain ⟨htruthy, hlong, rfl⟩ := nameOf_eq_error_iff.mp hname
    exact .inr (.name hstates hvariables hlimit htruthy hlong)

theorem Escapes.ofEntries_eq (h : Escapes entries f) : ofEntries entries = .error f := by
  cases h with
  | allowed states no_list long =>
    exact (ofEntries_eq_error_iff states).mpr
      (.inl (variablesOf_eq_error_iff.mpr ⟨no_list, long, rfl⟩))
  | limit states shown infinite =>
    exact (ofEntries_eq_error_iff states).mpr
      (.inr ⟨_, shown, .inl (by rw [infinite, timeLimitOf_infinite])⟩)
  | name states shown positive truthy long =>
    exact (ofEntries_eq_error_iff states).mpr
      (.inr ⟨_, shown, .inr ⟨_, positive, nameOf_eq_error_iff.mpr ⟨truthy, long, rfl⟩⟩⟩)

theorem ofData_mapping : ofData environment (.mapping entries) =
    ofEntries entries >>= withEnvironment environment := rfl

/-- The data that fail in a way that is not documented. -/
theorem ofData_eq_error_iff :
    ofData environment (.mapping entries) = .error f ∧ ¬IsTold f ↔ Escapes entries f := by
  rw [ofData_mapping, Outcome.bind_eq_error_iff]
  constructor
  · rintro ⟨h | ⟨c, -, h⟩, htold⟩
    · exact (ofEntries_eq_error h).resolve_left htold
    · exact absurd (isTold_of_withEnvironment h) htold
  · exact fun h => ⟨.inl h.ofEntries_eq, h.not_isTold⟩

/-- What the entries of data state section by section. -/
theorem exists_of_ofEntries {c : Configuration} (h : ofEntries entries = .ok c) :
    ∃ sandbox capabilities diagnostics allowed limit name,
      sectionEntries "SandboxConfig" (Value.field entries "sandbox") = .ok sandbox ∧
      sectionEntries "CapabilityConfig" (Value.field entries "capabilities") = .ok capabilities ∧
      sectionEntries "LoggingConfig" (Value.field entries "logging") = .ok diagnostics ∧
      variablesOf (variablesSetting sandbox) = .ok allowed ∧
      timeLimitOf (limitSetting sandbox) = .ok limit ∧
      nameOf (Value.field entries "name") = .ok name ∧
      c = ofSections name limit allowed sandbox capabilities diagnostics := by
  obtain ⟨sandbox, hsandbox, h⟩ := Outcome.exists_of_bind_eq_ok h
  obtain ⟨capabilities, hcapabilities, h⟩ := Outcome.exists_of_bind_eq_ok h
  obtain ⟨diagnostics, hdiagnostics, h⟩ := Outcome.exists_of_bind_eq_ok h
  obtain ⟨allowed, hallowed, h⟩ := Outcome.exists_of_bind_eq_ok h
  obtain ⟨limit, hlimit, h⟩ := Outcome.exists_of_bind_eq_ok h
  obtain ⟨name, hname, h⟩ := Outcome.exists_of_bind_eq_ok h
  exact ⟨sandbox, capabilities, diagnostics, allowed, limit, name, hsandbox, hcapabilities,
    hdiagnostics, hallowed, hlimit, hname, (Except.ok.inj h).symm⟩

/-- The time limit of a configuration is positive. -/
theorem timeLimit_pos {c : Configuration} (h : ofData environment (.mapping entries) = .ok c) :
    0 < c.sandbox.timeLimit := by
  obtain ⟨c', hentries, henvironment⟩ := Outcome.exists_of_bind_eq_ok (ofData_mapping ▸ h)
  rw [timeLimit_withEnvironment henvironment]
  obtain ⟨_, _, _, _, limit, _, -, -, -, -, hlimit, -, rfl⟩ := exists_of_ofEntries hentries
  exact pos_of_timeLimitOf hlimit

end Data

/-! ## Files -/

theorem isTold_readFailure {f : Failure} (h : (f.concernsSystem || f.concernsValue) = true) :
    IsTold (readFailure f) := by
  unfold readFailure
  split
  · exact ⟨_, rfl⟩
  · exact ⟨_, rfl⟩
  · rw [if_pos h]
    exact ⟨_, rfl⟩

theorem readFailure_of_other {f : Failure} (h : (f.concernsSystem || f.concernsValue) = false) :
    readFailure f = f := by
  unfold readFailure
  split
  · cases h
  · cases h
  · rw [if_neg (by rw [h]; exact Bool.false_ne_true)]

/-- What cannot be read is kept from it by the system, or is no text. -/
theorem concerns_of_readText {disk : Disk} {workdir : Place} {path : Path} {f : Failure}
    (h : disk.readText workdir path = .error f) : (f.concernsSystem || f.concernsValue) = true := by
  rcases Outcome.bind_eq_error_iff.mp h with h | ⟨octets, -, h⟩
  · unfold Disk.read at h
    split at h
    · rw [← Except.error.inj h]
      rfl
    · split at h
      · cases h
      all_goals
        rw [← Except.error.inj h]
        rfl
  · split at h
    · cases h
    · rw [← Except.error.inj h]
      rfl

theorem concerns_ofReadError (text : List Char) (e : Json.ReadError) :
    ((Failure.ofReadError text e).concernsSystem ||
      (Failure.ofReadError text e).concernsValue) = true := by
  cases e <;> rfl

section Files

variable {m : Machine} {path : Path} {f : Failure}

/-- A scalar of a YAML file has the tag of a value that it is none of, and this is told neither as
a failure of the system nor as one of a value that makes no sense. -/
structure SpoiltScalar (m : Machine) (path : Path) (f : Failure) : Prop where
  yaml : isJsonFile path = false
  spoilt : ∃ text, m.disk.readText m.workdir path = .ok text ∧
    Yaml.read text = .error (.noValue f)
  other : (f.concernsSystem || f.concernsValue) = false

/-- Reading data fails in the documented way, spoilt scalars apart. -/
theorem readData_eq_error_iff :
    readData m.disk m.workdir path = .error f ∧ ¬IsTold f ↔ SpoiltScalar m path f ∧ ¬IsTold f := by
  refine and_congr_left fun htold => ⟨fun h => ?_, fun ⟨hyaml, ⟨text, htext, hread⟩, hother⟩ => ?_⟩
  · rcases Outcome.bind_eq_error_iff.mp h with h | ⟨text, htext, h⟩
    · obtain ⟨failure, htext, rfl⟩ := Outcome.mapError_eq_error_iff.mp h
      exact absurd (isTold_readFailure (concerns_of_readText htext)) htold
    split at h
    · obtain ⟨e, -, rfl⟩ := Outcome.mapError_eq_error_iff.mp h
      exact absurd (isTold_readFailure (concerns_ofReadError text e)) htold
    · next hyaml =>
      obtain ⟨e, hread, rfl⟩ := Outcome.mapError_eq_error_iff.mp h
      cases e with
      | malformed => exact absurd ⟨_, rfl⟩ htold
      | noValue failure =>
        cases hother : failure.concernsSystem || failure.concernsValue with
        | true => exact absurd (isTold_readFailure hother) htold
        | false =>
          dsimp only
          rw [readFailure_of_other hother]
          exact ⟨by simpa using hyaml, ⟨text, Outcome.mapError_eq_ok_iff.mp htext, hread⟩, hother⟩
  · refine Outcome.bind_eq_error_iff.mpr (.inr ⟨text, Outcome.mapError_eq_ok_iff.mpr htext, ?_⟩)
    rw [hyaml, if_neg Bool.false_ne_true]
    exact Outcome.mapError_eq_error_iff.mpr ⟨_, hread, readFailure_of_other hother⟩

theorem readData_of_json {text : List Char} {v : Value} (hjson : isJsonFile path = true)
    (htext : m.disk.readText m.workdir path = .ok text) (hread : Json.read text = .ok v) :
    readData m.disk m.workdir path = .ok v := by
  unfold readData
  rw [htext, hjson]
  exact Outcome.mapError_eq_ok_iff.mpr hread

theorem run_load_of_isThere (hthere : m.disk.isThere m.workdir path = .ok true) :
    (load path).run m =
      (readData m.disk m.workdir path >>= ofFileData m.environment path, m) := by
  simp only [load, Action.run_bind, Action.run_onDisk, hthere, if_true, Action.run_get,
    Action.run_ofExcept]
  cases readData m.disk m.workdir path with
  | error failure => rfl
  | ok data => rfl

/-- The files that fail to load in a way that is not documented. -/
inductive LoadEscapes (m : Machine) (path : Path) : Failure → Prop where
  | reading {f : Failure} (spoilt : SpoiltScalar m path f) (untold : ¬IsTold f) :
      LoadEscapes m path f
  | data {data : Value} {entries : List (Value × Value)} {f : Failure}
      (read : readData m.disk m.workdir path = .ok data)
      (mapping : data.unfolded = .mapping entries) (escapes : Escapes entries f) :
      LoadEscapes m path f

/-- The standard settings can be shown. -/
theorem not_escapes_nil : ¬Escapes [] f := by
  rintro (⟨states, no_list, -⟩ | ⟨states, -, infinite⟩ | ⟨-, -, -, truthy, -⟩)
  · obtain rfl := Except.ok.inj states.1
    exact no_list [] rfl
  · obtain rfl := Except.ok.inj states.1
    cases infinite
  · cases truthy

/-- The files that fail to load in a way that is not documented. -/
theorem run_load_eq_error_iff (hthere : m.disk.isThere m.workdir path = .ok true) :
    ((load path).run m).1 = .error f ∧ ¬IsTold f ↔ LoadEscapes m path f := by
  rw [run_load_of_isThere hthere]
  dsimp only
  rw [Outcome.bind_eq_error_iff]
  constructor
  · rintro ⟨hread | ⟨data, hread, h⟩, htold⟩
    · exact .reading (readData_eq_error_iff.mp ⟨hread, htold⟩).1 htold
    · unfold ofFileData at h
      split at h
      · exact absurd (ofData_eq_error_iff.mp ⟨h, htold⟩) not_escapes_nil
      · next hentries => exact .data hread hentries (ofData_eq_error_iff.mp ⟨h, htold⟩)
      · exact absurd ⟨_, (Except.error.inj h).symm⟩ htold
  · rintro (⟨spoilt, untold⟩ | ⟨read, mapping, escapes⟩)
    · exact ⟨.inl (readData_eq_error_iff.mpr ⟨spoilt, untold⟩).1, untold⟩
    · refine ⟨.inr ⟨_, read, ?_⟩, escapes.not_isTold⟩
      unfold ofFileData
      rw [mapping]
      exact (ofData_eq_error_iff.mpr escapes).1

theorem timeLimit_pos_of_run_load {n : Machine} {c : Configuration}
    (hthere : m.disk.isThere m.workdir path = .ok true) (h : (load path).run m = (.ok c, n)) :
    0 < c.sandbox.timeLimit := by
  rw [run_load_of_isThere hthere] at h
  obtain ⟨data, -, h⟩ := Outcome.exists_of_bind_eq_ok (Prod.mk.inj h).1
  unfold ofFileData at h
  split at h
  · exact timeLimit_pos h
  · exact timeLimit_pos h
  · cases h

end Files

/-- The outcomes of data and of files: a configuration has a positive time limit, and the failures
that are none of the configuration are exactly those of `Escapes` and `LoadEscapes`. -/
theorem ofData_load_outcome (environment : List (String × String))
    (entries : List (Value × Value)) {m : Machine} {path : Path}
    (hthere : m.disk.isThere m.workdir path = .ok true) :
    ((∀ c, ofData environment (.mapping entries) = .ok c → 0 < c.sandbox.timeLimit) ∧
      ∀ f, ofData environment (.mapping entries) = .error f ∧ ¬IsTold f ↔ Escapes entries f) ∧
    (∀ c, ((load path).run m).1 = .ok c → 0 < c.sandbox.timeLimit) ∧
      ∀ f, ((load path).run m).1 = .error f ∧ ¬IsTold f ↔ LoadEscapes m path f :=
  ⟨⟨fun _ h => timeLimit_pos h, fun _ => ofData_eq_error_iff⟩,
    fun _ h => timeLimit_pos_of_run_load hthere (Prod.ext h rfl),
    fun _ => run_load_eq_error_iff hthere⟩

/-- Data with an infinite time limit. -/
def infiniteEntries : List (Value × Value) :=
  [(.text "sandbox", Value.record [("default_timeout_ms", .float (.infinite false))])]

theorem escapes_infiniteEntries : Escapes infiniteEntries infiniteLimit :=
  @Escapes.limit _ [(.text "default_timeout_ms", .float (.infinite false))] [] false
    ⟨by cbv, ⟨[], by cbv⟩, [], by cbv⟩ (by cbv) (by cbv)

/-- The text of a file with such data. -/
def infiniteText : List Char :=
  "\x7b\"sandbox\": \x7b\"default_timeout_ms\": Infinity\x7d\x7d".toList

/-- A machine with the file. -/
def infiniteMachine : Machine :=
  { Machine.bare [] [] with disk := ⟨[(["c.json"], .file (Utf8.encode infiniteText))]⟩ }

theorem holds_infiniteMachine : infiniteMachine.disk.Holds infiniteMachine.workdir ⟨"", ["c.json"]⟩
    ["c.json"] (Utf8.encode infiniteText) := by
  have hplain : Disk.IsPlain ⟨"", ["c.json"]⟩ := ⟨rfl, by decide, by decide⟩
  refine ⟨hplain.noNul, hplain.locate_eq (fun k hk => ?_) rfl nofun⟩
  match k, hk with
  | 0, _ => rfl

/-- The file fails to load, and this is not told as a failure of the configuration. -/
theorem ofData_load_outcome_infiniteMachine :
    ((load ⟨"", ["c.json"]⟩).run infiniteMachine).1 = .error infiniteLimit ∧
      ¬IsTold infiniteLimit := by
  have htext : infiniteMachine.disk.readText infiniteMachine.workdir ⟨"", ["c.json"]⟩ =
      .ok infiniteText := by
    rw [Disk.readText, holds_infiniteMachine.read]
    cbv
  have hdata : readData infiniteMachine.disk infiniteMachine.workdir ⟨"", ["c.json"]⟩ =
      .ok (.mapping infiniteEntries) := readData_of_json (by decide +kernel) htext (by cbv)
  exact ((ofData_load_outcome [] [] holds_infiniteMachine.isThere).2.2 infiniteLimit).mpr
    (.data hdata rfl escapes_infiniteEntries)

/-- Data with an infinite time limit fail in a way that is not documented. -/
theorem ofData_infiniteEntries :
    ofData [] (.mapping infiniteEntries) = .error infiniteLimit ∧ ¬IsTold infiniteLimit :=
  ⟨(ofData_eq_error_iff.mpr escapes_infiniteEntries).1, escapes_infiniteEntries.not_isTold⟩

end GuestCode.Configuration
