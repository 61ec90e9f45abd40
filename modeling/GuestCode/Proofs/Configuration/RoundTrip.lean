import GuestCode.Proofs.Configuration.Saving
import GuestCode.Proofs.Disk.Files
import GuestCode.Proofs.Json.Characters
import GuestCode.Proofs.Json.RoundTrip
import GuestCode.Proofs.Text.Utf8

/-!
# Saved configurations

A configuration that has been made of JSON data without floating-point numbers comes back as it was
when it is saved to a JSON file and loaded in the same environment. What was coerced when it was made
is not changed by being coerced again: the name is a text that is not empty, the time limit a positive
integer and the variables a list. What the environment says takes the same place again.

## Main statements

* `Configuration.ofEntries_toEntries`: a configuration as plain data states itself.
* `Configuration.withEnvironment_twice`: the environment has its say once.
* `Configuration.isExact_toValue`: what is made of exact data is exact.
* `Configuration.load_save`: a saved configuration is loaded as it was.
-/

namespace GuestCode

/-! ## Collections -/

namespace Value

theorem itemsHoldLongInteger_eq_false {items : List Value}
    (h : ∀ v ∈ items, v.holdsLongInteger = false) : itemsHoldLongInteger items = false := by
  induction items with
  | nil => rfl
  | cons v rest ih =>
    obtain ⟨hv, hrest⟩ := List.forall_mem_cons.mp h
    rw [itemsHoldLongInteger, hv, ih hrest, Bool.or_false]

theorem entriesHoldLongInteger_eq_false {entries : List (Value × Value)}
    (h : ∀ e ∈ entries, e.1.holdsLongInteger = false ∧ e.2.holdsLongInteger = false) :
    entriesHoldLongInteger entries = false := by
  induction entries with
  | nil => rfl
  | cons e rest ih =>
    obtain ⟨⟨hkey, hv⟩, hrest⟩ := List.forall_mem_cons.mp h
    rw [entriesHoldLongInteger, hkey, hv, ih hrest, Bool.or_false, Bool.or_false]

theorem itemsAreEndless_eq_false {items : List Value} (h : ∀ v ∈ items, v.isEndless = false) :
    itemsAreEndless items = false := by
  induction items with
  | nil => rfl
  | cons v rest ih =>
    obtain ⟨hv, hrest⟩ := List.forall_mem_cons.mp h
    rw [itemsAreEndless, hv, ih hrest, Bool.or_false]

theorem entriesAreEndless_eq_false {entries : List (Value × Value)}
    (h : ∀ e ∈ entries, e.1.isEndless = false ∧ e.2.isEndless = false) :
    entriesAreEndless entries = false := by
  induction entries with
  | nil => rfl
  | cons e rest ih =>
    obtain ⟨⟨hkey, hv⟩, hrest⟩ := List.forall_mem_cons.mp h
    rw [entriesAreEndless, hkey, hv, ih hrest, Bool.or_false, Bool.or_false]

end Value

/-! ## Exact data -/

/-- JSON data without floating-point numbers. Integers have no more digits than a JSON text may
have. -/
inductive Json.IsExact : Value → Prop where
  | null : IsExact .null
  | bool (b : Bool) : IsExact (.bool b)
  | int {n : Int} (few : n.natAbs < 10 ^ maxIntegerDigits) : IsExact (.int n)
  | text (s : String) : IsExact (.text s)
  | list {items : List Value} (members : ∀ v ∈ items, IsExact v) : IsExact (.list items)
  | record {fields : List (String × Value)} (distinct : (fields.map Prod.fst).Nodup)
      (values : ∀ f ∈ fields, IsExact f.2) : IsExact (Value.record fields)

namespace Json.IsExact

variable {v : Value} {entries : List (Value × Value)}

theorem isKept (h : IsExact v) : IsKept v := by
  induction h with
  | null => exact .null
  | bool b => exact .bool b
  | int few => exact .int few
  | text s => exact .text s
  | list _ ih => exact .list ih
  | record distinct _ ih => exact .record distinct ih

theorem holdsLongInteger (h : IsExact v) : v.holdsLongInteger = false := by
  induction h with
  | null | bool | text => rfl
  | int few =>
    rw [Value.holdsLongInteger, Value.isLongInteger, decide_eq_false_iff_not, Nat.not_le]
    exact few
  | list _ ih =>
    rw [Value.holdsLongInteger]
    exact Value.itemsHoldLongInteger_eq_false ih
  | record _ _ ih =>
    rw [Value.record, Value.holdsLongInteger]
    exact Value.entriesHoldLongInteger_eq_false (List.forall_mem_map.mpr fun f hf => ⟨rfl, ih f hf⟩)

theorem isEndless (h : IsExact v) : v.isEndless = false := by
  induction h with
  | null | bool | int | text => rfl
  | list _ ih =>
    rw [Value.isEndless]
    exact Value.itemsAreEndless_eq_false ih
  | record _ _ ih =>
    rw [Value.record, Value.isEndless]
    exact Value.entriesAreEndless_eq_false (List.forall_mem_map.mpr fun f hf => ⟨rfl, ih f hf⟩)

theorem settingOr {standard : Value} (h : IsExact (.mapping entries)) (hstandard : IsExact standard)
    (name : String) : IsExact (Configuration.settingOr entries name standard) := by
  obtain ⟨v, hv⟩ : ∃ v, Value.mapping entries = v := ⟨_, rfl⟩
  rw [hv] at h
  cases h with
  | @record fields distinct values =>
    obtain rfl : entries = fields.map fun f => (.text f.1, f.2) := Value.mapping.inj hv
    rw [Configuration.settingOr, Value.field?_record]
    cases hfield : fields.lookup name with
    | none => exact hstandard
    | some found =>
      obtain ⟨before, after, heq, -⟩ := List.lookup_eq_some_iff.mp hfield
      exact values (name, found) (by rw [heq]; simp)
  | _ => cases hv

/-- A value that counts as true is not shown as the empty text. -/
theorem display_ne_empty (h : IsExact v) (htruthy : v.isTruthy = true) : v.display ≠ "" := by
  have hfirst : ∀ {s t : String}, s ≠ "" → s ++ t ≠ "" := fun hs h =>
    hs (by simpa using (String.append_eq_empty_iff.mp h).1)
  cases h with
  | null => cases htruthy
  | bool b =>
    cases b with
    | false => cases htruthy
    | true => decide
  | int =>
    obtain ⟨c, cs, hcons, -⟩ := (Json.readAs_int ‹_›).exists_cons
    intro hempty
    rw [show toString _ = "" from hempty] at hcons
    cases hcons
  | text s =>
    rintro rfl
    cases htruthy
  | list => exact hfirst (hfirst (by decide))
  | record => exact hfirst (hfirst (by decide))

end Json.IsExact

/-! ## Numerals -/

namespace Text.Numeral

theorem lt_of_digitRun? {base : Nat} {afterDigit : Bool} {text rest : List Char}
    {digits : List Nat} (h : digitRun? base afterDigit text = some (digits, rest)) :
    ∀ d ∈ digits, d < base := by
  fun_induction digitRun? base afterDigit text generalizing digits with
  | case1 | case6 =>
    cases h
    simp
  | case2 | case4 | case7 => cases h
  | case3 _ _ _ ih => exact ih h
  | case5 afterDigit c cs _ d hdigit ih =>
    obtain ⟨⟨others, after⟩, hothers, heq⟩ := Option.map_eq_some_iff.mp h
    obtain ⟨rfl, rfl⟩ := Prod.mk.inj heq
    have hd := (Option.filter_eq_some_iff.mp hdigit).2
    exact List.forall_mem_cons.mpr ⟨of_decide_eq_true hd, ih hothers⟩

theorem foldl_digits_lt {base : Nat} {digits : List Nat} (h : ∀ d ∈ digits, d < base)
    (before : Nat) :
    digits.foldl (fun n d => n * base + d) before < (before + 1) * base ^ digits.length := by
  induction digits generalizing before with
  | nil => simp
  | cons d rest ih =>
    obtain ⟨hd, hrest⟩ := List.forall_mem_cons.mp h
    rw [List.foldl_cons, List.length_cons, Nat.pow_succ']
    calc _ < (before * base + d + 1) * base ^ rest.length := ih hrest _
      _ ≤ ((before + 1) * base) * base ^ rest.length :=
        Nat.mul_le_mul_right _ (by rw [Nat.add_mul, Nat.one_mul]; omega)
      _ = (before + 1) * (base * base ^ rest.length) := Nat.mul_assoc _ _ _

/-- A numeral has no more digits than are allowed. -/
theorem natAbs_lt_of_read {text : List Char} {n : Int} (h : read 10 text = .ok n) :
    n.natAbs < 10 ^ maxDigits := by
  unfold read at h
  dsimp only at h
  split at h
  · cases h
  next digits rest hdigits =>
  have hlt := foldl_digits_lt (lt_of_digitRun? hdigits) 0
  rw [Nat.zero_add, Nat.one_mul] at hlt
  split at h
  · cases h
  next hfew =>
  have hlength : digits.length ≤ maxDigits := by simpa using hfew
  split at h
  · refine Nat.lt_of_lt_of_le ?_ (Nat.pow_le_pow_right (by decide) hlength)
    obtain rfl := Except.ok.inj h
    split <;> simpa using hlt
  · cases h

end Text.Numeral

namespace Configuration

/-! ## A configuration as plain data -/

/-- The entries of a configuration as plain data. -/
def toEntries (c : Configuration) : List (Value × Value) :=
  match c.toValue with
  | .mapping entries => entries
  | _ => []

/-- A configuration with a name and a positive time limit states itself. -/
theorem ofEntries_toEntries {c : Configuration} (hname : c.name ≠ "")
    (hlimit : 0 < c.sandbox.timeLimit) : ofEntries c.toEntries = .ok c := by
  have hlimitOf : timeLimitOf (.int c.sandbox.timeLimit) = .ok c.sandbox.timeLimit := by
    simp [timeLimitOf, statedNumber, Value.wholeNumber, hlimit, bind, Except.bind, pure,
      Except.pure]
  have hnameOf : nameOf (.text c.name) = .ok c.name := by
    simp [nameOf, Value.isTruthy, hname, Value.shown, Value.holdsLongInteger, Value.display]
  have hvariablesOf : variablesOf (.list c.sandbox.passedVariables) =
      .ok c.sandbox.passedVariables := rfl
  -- Every setting is found under its name, so no standard setting is used.
  simp [ofEntries, toEntries, toValue, Value.record, Value.field, Value.field?, Value.lookup?,
    Value.same, sectionEntries, Value.unfolded, settingOr, ofSections, hlimitOf, hnameOf,
    hvariablesOf, bind, Except.bind, pure, Except.pure]

/-! ## The environment -/

section Environment

variable {environment : List (String × String)}

theorem override_twice (name : String) (v : Value) :
    override environment name (override environment name v) = override environment name v := by
  unfold override
  cases environment.lookup name with
  | none => rfl
  | some text => by_cases h : text.isEmpty = true <;> simp [h]

theorem previewOverride_twice {v maxPreview : Value}
    (h : previewOverride environment v = .ok maxPreview) :
    previewOverride environment maxPreview = .ok maxPreview := by
  unfold previewOverride at h ⊢
  cases hlookup : environment.lookup "MAX_LOG_PREVIEW_LENGTH" with
  | none => rfl
  | some text =>
    rw [hlookup] at h
    dsimp only at h ⊢
    split
    · rfl
    · next hempty =>
      rw [if_neg hempty] at h
      cases hread : Text.Numeral.read 10 text.toList with
      | ok n =>
        rw [hread] at h
        exact h
      | error fault =>
        rw [hread] at h
        cases h

/-- The environment has its say once: a second time changes nothing. -/
theorem withEnvironment_twice {c c' : Configuration} (h : c.withEnvironment environment = .ok c') :
    c'.withEnvironment environment = .ok c' := by
  obtain ⟨maxPreview, hpreview, h⟩ := Outcome.exists_of_bind_eq_ok h
  obtain rfl := Except.ok.inj h
  unfold withEnvironment
  rw [show (c.overridden environment maxPreview).diagnostics.maxPreview = maxPreview from rfl,
    previewOverride_twice hpreview]
  have hmasked : ∀ v : Value, (if wantsMask environment then .bool true
      else if wantsMask environment then .bool true else v) =
        if wantsMask environment then .bool true else v := fun v => by split <;> rfl
  simp only [overridden, override_twice, hmasked]
  rfl

end Environment

/-! ## Exact configurations -/

section Exact

variable {environment : List (String × String)} {entries : List (Value × Value)}

theorem natAbs_lt_of_read {text : List Char} {n : Int} (h : Text.Numeral.read 10 text = .ok n) :
    n.natAbs < 10 ^ Json.maxIntegerDigits := by
  have hsame : Json.maxIntegerDigits = Text.Numeral.maxDigits := rfl
  rw [hsame]
  exact Text.Numeral.natAbs_lt_of_read h

theorem natAbs_lt_of_statedNumber {v : Value} {n : Int} (hv : Json.IsExact v)
    (h : statedNumber v = .ok n) : n.natAbs < 10 ^ Json.maxIntegerDigits := by
  have hone : 1 < 10 ^ Json.maxIntegerDigits := Nat.one_lt_pow (by decide) (by decide)
  have hzero : 0 < 10 ^ Json.maxIntegerDigits := Nat.lt_trans Nat.zero_lt_one hone
  unfold statedNumber at h
  split at h
  · next hnumber =>
    obtain rfl := Except.ok.inj h
    cases hv with
    | int few => exact Except.ok.inj hnumber ▸ few
    | bool b =>
      rw [← Except.ok.inj hnumber]
      cases b with
      | false => exact hzero
      | true => exact hone
    | text s => exact natAbs_lt_of_read (Outcome.mapError_eq_ok_iff.mp hnumber)
    | _ => cases hnumber
  · exact Except.ok.inj h ▸ hzero
  · split at h
    · exact Except.ok.inj h ▸ hzero
    · cases h

theorem isExact_of_sectionEntries {name : String} {v : Value} {section' : List (Value × Value)}
    (hv : Json.IsExact v) (h : sectionEntries name v = .ok section') :
    Json.IsExact (.mapping section') := by
  cases hv with
  | null =>
    obtain rfl := Except.ok.inj h
    exact @Json.IsExact.record [] (by simp) (by simp)
  | record distinct values =>
    obtain rfl := Except.ok.inj h
    exact .record distinct values
  | _ => cases h

theorem isExact_of_variablesOf {v : Value} {allowed : List Value} (hv : Json.IsExact v)
    (h : variablesOf v = .ok allowed) : Json.IsExact (.list allowed) := by
  have hshown : v.shown.map (fun name => [Value.text name]) = .ok allowed →
      Json.IsExact (.list allowed) := by
    intro h
    obtain ⟨name, -, rfl⟩ := Outcome.exists_of_map_eq_ok h
    exact .list (by simp [Json.IsExact.text])
  cases hv with
  | list members =>
    obtain rfl := Except.ok.inj h
    exact .list members
  | _ => exact hshown h

theorem ne_empty_of_nameOf {v : Value} {name : String} (hv : Json.IsExact v)
    (h : nameOf v = .ok name) : name ≠ "" := by
  unfold nameOf at h
  split at h
  · next htruthy =>
    unfold Value.shown at h
    split at h
    · cases h
    · exact Except.ok.inj h ▸ hv.display_ne_empty htruthy
  · rw [← Except.ok.inj h]
    decide

theorem isExact_override {v : Value} (hv : Json.IsExact v) (name : String) :
    Json.IsExact (override environment name v) := by
  unfold override
  split
  · split
    · exact hv
    · exact .text _
  · exact hv

theorem isExact_of_previewOverride {v maxPreview : Value} (hv : Json.IsExact v)
    (h : previewOverride environment v = .ok maxPreview) : Json.IsExact maxPreview := by
  unfold previewOverride at h
  split at h
  · exact Except.ok.inj h ▸ hv
  split at h
  · exact Except.ok.inj h ▸ hv
  split at h
  · next hread => exact Except.ok.inj h ▸ .int (natAbs_lt_of_read hread)
  · cases h

/-- A configuration that has been made of exact data has a name and exact settings. -/
theorem isExact_of_ofData {c : Configuration} (hentries : Json.IsExact (.mapping entries))
    (h : ofData environment (.mapping entries) = .ok c) :
    c.name ≠ "" ∧ Json.IsExact c.toValue := by
  obtain ⟨c', hstated, h⟩ := Outcome.exists_of_bind_eq_ok (ofData_mapping ▸ h)
  obtain ⟨maxPreview, hpreview, h⟩ := Outcome.exists_of_bind_eq_ok h
  obtain rfl := Except.ok.inj h
  obtain ⟨sandbox, capabilities, diagnostics, allowed, limit, name, hsandbox, hcapabilities,
    hdiagnostics, hallowed, hlimit, hname, rfl⟩ := exists_of_ofEntries hstated
  have hfield : ∀ name, Json.IsExact (Value.field entries name) :=
    fun name => hentries.settingOr .null name
  have hsandbox := isExact_of_sectionEntries (hfield _) hsandbox
  have hcapabilities := isExact_of_sectionEntries (hfield _) hcapabilities
  have hdiagnostics := isExact_of_sectionEntries (hfield _) hdiagnostics
  have hint : ∀ {n : Int}, n.natAbs < 10 ^ 10 → Json.IsExact (.int n) := fun h =>
    .int (Nat.lt_of_lt_of_le h (Nat.pow_le_pow_right (by decide) (by decide)))
  have hlimit : Json.IsExact (.int limit) := by
    obtain ⟨n, hn, hpos⟩ := Outcome.exists_of_bind_eq_ok hlimit
    split at hpos
    · obtain rfl := Except.ok.inj hpos
      exact .int (natAbs_lt_of_statedNumber (hsandbox.settingOr (hint (by decide)) _) hn)
    · cases hpos
  have hallowed := isExact_of_variablesOf (hsandbox.settingOr (.list (by simp)) _) hallowed
  have hpreview := isExact_of_previewOverride
    (hdiagnostics.settingOr (hint (by decide)) "max_preview_length") hpreview
  refine ⟨ne_empty_of_nameOf (hfield _) hname, .record (by simp) ?_⟩
  simp only [List.forall_mem_cons, List.not_mem_nil, false_implies, implies_true, and_true]
  refine ⟨.text _, .record (by simp) ?_, .record (by simp) ?_, .record (by simp) ?_⟩
  · simp only [List.forall_mem_cons, List.not_mem_nil, false_implies, implies_true, and_true]
    exact ⟨isExact_override (hsandbox.settingOr (.text _) _) _, hlimit,
      isExact_override (hsandbox.settingOr (.text _) _) _, hallowed,
      hsandbox.settingOr (hint (by decide)) _, hsandbox.settingOr (hint (by decide)) _,
      hsandbox.settingOr (.bool _) _⟩
  · simp only [List.forall_mem_cons, List.not_mem_nil, false_implies, implies_true, and_true]
    exact ⟨hcapabilities.settingOr (.text _) _, hcapabilities.settingOr (.text _) _,
      isExact_override (hcapabilities.settingOr .null _) _⟩
  · simp only [List.forall_mem_cons, List.not_mem_nil, false_implies, implies_true, and_true]
    refine ⟨hdiagnostics.settingOr (.text _) _, ?_, hpreview⟩
    dsimp only [overridden]
    split
    · exact .bool true
    · exact hdiagnostics.settingOr (.bool _) _

end Exact

/-! ## Files -/

/-- A configuration that has been made of exact data states itself in the same environment. -/
theorem ofData_toValue {environment : List (String × String)} {entries : List (Value × Value)}
    {c : Configuration} (hentries : Json.IsExact (.mapping entries))
    (h : ofData environment (.mapping entries) = .ok c) :
    ofData environment (.mapping c.toEntries) = .ok c := by
  obtain ⟨hname, -⟩ := isExact_of_ofData hentries h
  have hstates := ofEntries_toEntries hname (timeLimit_pos h)
  obtain ⟨c', -, henvironment⟩ := Outcome.exists_of_bind_eq_ok (ofData_mapping ▸ h)
  rw [ofData_mapping, hstates]
  exact withEnvironment_twice henvironment

/-- A file can be written at a path: its folder is there or can be made. -/
def CanWrite (m : Machine) (path : Path) : Prop :=
  ∃ folders disk, m.disk.makeFolders m.workdir path.parent = (folders, none) ∧
    folders.write m.workdir path [] = .ok disk

/-- Whether a file can be written does not depend on what is written. -/
theorem exists_write {disk disk' : Disk} {workdir : Place} {path : Path} {octets : List UInt8}
    (h : disk.write workdir path octets = .ok disk') (octets' : List UInt8) :
    ∃ disk'', disk.write workdir path octets' = .ok disk'' := by
  unfold Disk.write at h ⊢
  split at h
  · cases h
  next hnul =>
  rw [if_neg hnul]
  split at h
  · exact ⟨_, rfl⟩
  · exact ⟨_, rfl⟩
  · cases h
  · cases h
  · cases h

section Files

variable {m n : Machine} {path : Path} {c : Configuration}

/-- A configuration that has been made of exact data can be saved to a JSON file wherever a file can
be written, and the file is loaded as the same configuration. -/
theorem load_save {entries : List (Value × Value)} (hentries : Json.IsExact (.mapping entries))
    (hdata : ofData m.environment (.mapping entries) = .ok c) (hjson : isJsonFile path = true)
    (hpath : CanWrite m path) :
    ∃ n, (save c path).run m = (.ok (), n) ∧ n.environment = m.environment ∧
      (load path).run n = (.ok c, n) := by
  obtain ⟨-, hexact⟩ := isExact_of_ofData hentries hdata
  obtain ⟨text, htext⟩ := @Json.IsPlain.exists_write .indented _ hexact.isKept.isPlain
  obtain ⟨folders, _, hfolders, hempty⟩ := hpath
  obtain ⟨disk, hwrite⟩ := exists_write hempty (Utf8.encode text.toList)
  have hheld : CanHold path c.toValue := ⟨fun _ => ⟨text, htext⟩, hexact.holdsLongInteger⟩
  have hdraft : draft path c.toValue = .whole text := by
    rw [draft, if_pos hjson, Json.draft_eq_whole htext hexact.holdsLongInteger]
  refine ⟨{ m with disk := disk },
    run_save hfolders hexact.isEndless hheld (hdraft ▸ hwrite), rfl, ?_⟩
  obtain ⟨place, hholds, -, -⟩ := Disk.exists_of_write hwrite
  have hread := hholds.readText (Json.not_mem_of_write htext)
  have hvalue : Json.read text.toList = .ok c.toValue :=
    hexact.isKept.reread_eq ▸ hexact.isKept.isReadable.read_write htext
  rw [run_load_of_isThere (m := { m with disk := disk }) hholds.isThere,
    readData_of_json (m := { m with disk := disk }) hjson hread hvalue]
  exact congrArg (·, _) (ofData_toValue hentries hdata)

end Files

/-- Data whose name, time limit and list of variables are coerced. -/
def looseEntries : List (Value × Value) :=
  [(.text "name", .bool true), (.text "unknown", .null),
    (.text "sandbox", Value.record
      [("default_timeout_ms", .text "500"), ("env_allowlist", .text "PATH")])]

theorem isExact_looseEntries : Json.IsExact (.mapping looseEntries) := by
  have hsandbox : Json.IsExact (Value.record
      [("default_timeout_ms", .text "500"), ("env_allowlist", .text "PATH")]) :=
    .record (by simp) (by simp [Json.IsExact.text])
  exact @Json.IsExact.record [("name", .bool true), ("unknown", .null), ("sandbox", _)] (by simp)
    (by simp [Json.IsExact.null, Json.IsExact.bool, hsandbox])

/-- What such data state. -/
def looseConfiguration : Configuration :=
  { standard with
    name := "True"
    sandbox := { standard.sandbox with timeLimit := 500, passedVariables := [.text "PATH"] } }

theorem ofEntries_looseEntries : ofEntries looseEntries = .ok looseConfiguration := by
  have hallowed : variablesOf (.text "PATH") = .ok [.text "PATH"] := by cbv
  have hlimit : timeLimitOf (.text "500") = .ok 500 := by cbv
  have hname : nameOf (.bool true) = .ok "True" := by cbv
  simp [ofEntries, looseEntries, looseConfiguration, standard, Value.record, Value.field,
    Value.field?, Value.lookup?, Value.same, sectionEntries, Value.unfolded, settingOr, ofSections,
    hallowed, hlimit, hname, bind, Except.bind, pure, Except.pure]

/-- They are saved and loaded in a folder where nothing is yet, under a projects root that the
environment sets. -/
theorem load_save_looseEntries :
    ∃ c n, c = looseConfiguration.overridden [("PROJECTS_PATH", "/p")] (.int 200) ∧
      (save c ⟨"", ["c.json"]⟩).run (Machine.bare [("PROJECTS_PATH", "/p")] []) = (.ok (), n) ∧
      (load ⟨"", ["c.json"]⟩).run n = (.ok c, n) := by
  have hdata : ofData [("PROJECTS_PATH", "/p")] (.mapping looseEntries) =
      .ok (looseConfiguration.overridden [("PROJECTS_PATH", "/p")] (.int 200)) := by
    rw [ofData_mapping, ofEntries_looseEntries]
    rfl
  have hwrite : Disk.empty.write [] ⟨"", ["c.json"]⟩ [] =
      .ok (Disk.empty.put ["c.json"] (.file [])) :=
    Disk.write_of_vacant rfl (Disk.locate_eq_ok_iff.mpr
      ⟨by decide, .missing rfl ⟨by decide, by decide, by simp, rfl⟩ rfl⟩)
  have hpath : CanWrite (Machine.bare [("PROJECTS_PATH", "/p")] []) ⟨"", ["c.json"]⟩ :=
    ⟨Disk.empty, _, by cbv, hwrite⟩
  have hjson : isJsonFile ⟨"", ["c.json"]⟩ = true := by decide +kernel
  obtain ⟨n, hsave, -, hload⟩ := load_save isExact_looseEntries hdata hjson hpath
  exact ⟨_, n, rfl, hsave, hload⟩

end Configuration

end GuestCode
