import GuestCode.Json.Reader
import GuestCode.Json.Writer
import GuestCode.Proofs.Data.Outcome
import Mathlib.Algebra.Group.Nat.Defs

/-!
# Plain JSON values

Of all values only some are plain JSON: scalars without dates and octets, lists, and mappings whose
keys are texts. What is read from a JSON text is plain, and a plain value can always be written, in
any layout. So whatever comes in as JSON can go out again.

## Main statements

* `Json.IsPassedOn.of_read`: what the reader passes on from scalars to collections.
* `Json.IsPlain.of_read`: what is read is plain JSON.
* `Json.IsPlain.exists_writeAt`: what is plain JSON can be written.
-/

namespace GuestCode

/-- A field of a record is the first one of its name. -/
theorem Value.field?_record (fields : List (String × Value)) (name : String) :
    Value.field? (fields.map fun f => (.text f.1, f.2)) name = fields.lookup name := by
  rw [Value.field?]
  induction fields with
  | nil => rfl
  | cons f rest ih =>
    rw [List.map_cons, Value.lookup?, Value.same, List.lookup_cons, ih]
    by_cases heq : f.1 = name
    · simp [heq]
    · have hne : (name == f.1) = false := by simpa using Ne.symm heq
      simp [heq, hne]

theorem Value.field_record (fields : List (String × Value)) (name : String) :
    Value.field (fields.map fun f => (.text f.1, f.2)) name = (fields.lookup name).getD .null := by
  rw [Value.field, Value.field?_record]

namespace Json

/-- Plain JSON values. -/
inductive IsPlain : Value → Prop where
  | null : IsPlain .null
  | bool (b : Bool) : IsPlain (.bool b)
  | int (n : Int) : IsPlain (.int n)
  | float (x : Binary64) : IsPlain (.float x)
  | text (s : String) : IsPlain (.text s)
  | list {items : List Value} (members : ∀ v ∈ items, IsPlain v) : IsPlain (.list items)
  | mapping {entries : List (Value × Value)} (keys : ∀ e ∈ entries, ∃ s, e.1 = .text s)
      (values : ∀ e ∈ entries, IsPlain e.2) : IsPlain (.mapping entries)

namespace IsPlain

attribute [simp] null bool int float text

@[simp] theorem list_iff {items : List Value} :
    IsPlain (.list items) ↔ ∀ v ∈ items, IsPlain v :=
  ⟨fun | .list members => members, .list⟩

/-! ## Entries -/

theorem mapping_iff {entries : List (Value × Value)} :
    IsPlain (.mapping entries) ↔
      (∀ e ∈ entries, ∃ s, e.1 = .text s) ∧ ∀ e ∈ entries, IsPlain e.2 :=
  ⟨fun | .mapping keys values => ⟨keys, values⟩, fun ⟨keys, values⟩ => .mapping keys values⟩

theorem mapping_cons_iff {e : Value × Value} {rest : List (Value × Value)} :
    IsPlain (.mapping (e :: rest)) ↔
      (∃ s, e.1 = .text s) ∧ IsPlain e.2 ∧ IsPlain (.mapping rest) := by
  simp only [mapping_iff, List.forall_mem_cons, and_assoc, and_left_comm]

@[simp] theorem record_iff {fields : List (String × Value)} :
    IsPlain (Value.record fields) ↔ ∀ f ∈ fields, IsPlain f.2 := by
  simp only [Value.record, mapping_iff, List.forall_mem_map, Value.text.injEq, exists_eq',
    implies_true, true_and]

@[simp] theorem texts (items : List String) : IsPlain (Value.texts items) := by
  simp [Value.texts]

theorem lookup? {key v : Value} {entries : List (Value × Value)} (h : IsPlain (.mapping entries))
    (found : Value.lookup? key entries = some v) : IsPlain v := by
  induction entries with
  | nil => simp [Value.lookup?] at found
  | cons e rest ih =>
    obtain ⟨-, hv, hrest⟩ := mapping_cons_iff.mp h
    rw [Value.lookup?] at found
    split at found
    · cases found
      exact hv
    · exact ih hrest found

/-- What stands under a name in a plain mapping is plain, be it only the null of a missing entry. -/
theorem field {entries : List (Value × Value)} (h : IsPlain (.mapping entries)) (name : String) :
    IsPlain (Value.field entries name) := by
  rw [Value.field, Value.field?]
  cases found : Value.lookup? (.text name) entries with
  | none => exact .null
  | some v => exact h.lookup? found

theorem insert {entries : List (Value × Value)} {v : Value} (h : IsPlain (.mapping entries))
    (hv : IsPlain v) (key : String) :
    IsPlain (.mapping (Value.insert (.text key) v entries)) := by
  induction entries with
  | nil => exact mapping_cons_iff.mpr ⟨⟨key, rfl⟩, hv, .mapping (by simp) (by simp)⟩
  | cons e rest ih =>
    obtain ⟨hkey, hold, hrest⟩ := mapping_cons_iff.mp h
    rw [Value.insert]
    split
    · exact mapping_cons_iff.mpr ⟨hkey, hv, hrest⟩
    · exact mapping_cons_iff.mpr ⟨hkey, hold, ih hrest⟩

end IsPlain

/-! ## Reading -/

theorem digitsValue_lt {digits : List Char} (h : ∀ c ∈ digits, c.isDigit = true) :
    digitsValue digits < 10 ^ digits.length := by
  have hgoes : ∀ {digits : List Char} (before : Nat), (∀ c ∈ digits, c.isDigit = true) →
      digits.foldl (fun n c => n * 10 + (c.toNat - '0'.toNat)) before <
        (before + 1) * 10 ^ digits.length := by
    intro digits
    induction digits with
    | nil => simp
    | cons c rest ih =>
      intro before h
      obtain ⟨hc, hrest⟩ := List.forall_mem_cons.mp h
      have hdigit : c.toNat - '0'.toNat < 10 := by
        obtain ⟨hzero, hnine⟩ := Char.isDigit_iff_toNat.mp hc
        exact Nat.sub_lt_left_of_lt_add hzero (Nat.lt_succ_of_le hnine)
      -- One more digit takes the value to less than ten times what it was less than before.
      rw [List.foldl_cons, List.length_cons, Nat.pow_succ']
      calc _ < (before * 10 + (c.toNat - '0'.toNat) + 1) * 10 ^ rest.length := ih _ hrest
        _ ≤ ((before + 1) * 10) * 10 ^ rest.length := Nat.mul_le_mul_right _ (by omega)
        _ = (before + 1) * (10 * 10 ^ rest.length) := Nat.mul_assoc _ _ _
  simpa [digitsValue] using hgoes 0 h

theorem isDigit_of_readWhole? {text whole rest : List Char}
    (h : readWhole? text = some (whole, rest)) : ∀ c ∈ whole, c.isDigit = true := by
  unfold readWhole? at h
  split at h
  · cases h
    simp
  · split at h
    · cases h
      exact fun c hc => List.all_eq_true.mp List.all_takeWhile c hc
    · cases h
  · cases h

/-- A property of values that the reader passes on: scalars that are read have it, and collections
of values that have it. -/
structure IsPassedOn (P : Value → Prop) : Prop where
  null : P .null
  bool (b : Bool) : P (.bool b)
  int {n : Int} (few : n.natAbs < 10 ^ maxIntegerDigits) : P (.int n)
  float (x : Binary64) : P (.float x)
  text (s : String) : P (.text s)
  list {items : List Value} (members : ∀ v ∈ items, P v) : P (.list items)
  empty : P (.mapping [])
  insert {entries : List (Value × Value)} {v : Value} (before : P (.mapping entries)) (value : P v)
    (key : String) : P (.mapping (Value.insert (.text key) v entries))

namespace IsPassedOn

variable {P : Value → Prop}

theorem of_readNumber? (hP : IsPassedOn P) {negative : Bool} {text rest : List Char} {v : Value}
    (h : readNumber? negative text = some (.ok (v, rest))) : P v := by
  obtain ⟨⟨whole, after⟩, hwhole, h⟩ := Option.map_eq_some_iff.mp h
  dsimp only at h
  -- A whole part alone is an integer within the limit; anything more makes the number a float.
  split at h
  · split at h
    · cases h
    · next hfew =>
      cases h
      have hvalue : digitsValue whole < 10 ^ maxIntegerDigits :=
        Nat.lt_of_lt_of_le (digitsValue_lt (isDigit_of_readWhole? hwhole))
          (Nat.pow_le_pow_right (by decide) (Nat.not_lt.mp hfew))
      refine hP.int ?_
      split
      · rwa [Int.natAbs_neg]
      · exact hvalue
  · cases h
    exact hP.float _

theorem of_readNamed (hP : IsPassedOn P) {text rest : List Char} {v : Value}
    (h : readNamed text = .ok (v, rest)) : P v := by
  have hnamed : ∀ entry ∈ namedValues, P entry.2 := by
    simp [namedValues, hP.null, hP.bool, hP.float]
  rw [readNamed] at h
  split at h
  · next entry found =>
    cases h
    exact hnamed entry (List.mem_of_find?_eq_some found)
  · simp [failAt] at h

/-- A number, or else a named value. -/
theorem of_scalar (hP : IsPassedOn P) {negative : Bool} {text full rest : List Char} {v : Value}
    (h : (readNumber? negative text).getD (readNamed full) = .ok (v, rest)) : P v := by
  cases found : readNumber? negative text with
  | none =>
    rw [found] at h
    exact hP.of_readNamed h
  | some outcome =>
    rw [found, Option.getD_some] at h
    subst h
    exact hP.of_readNumber? found

theorem of_readers (hP : IsPassedOn P) (fuel : Nat) :
    (∀ {text v rest}, readValue fuel text = .ok (v, rest) → P v) ∧
    (∀ {text items rest}, readItems fuel text = .ok (items, rest) → ∀ v ∈ items, P v) ∧
    ∀ {before text entries rest}, P (.mapping before) →
      readEntries fuel before text = .ok (entries, rest) → P (.mapping entries) := by
  -- The three readers call one another with one round less.
  induction fuel with
  | zero => simp [readValue, readItems, readEntries, failAt]
  | succ fuel ih =>
    obtain ⟨ofValue, ofItems, ofEntries⟩ := ih
    refine ⟨fun {text v rest} h => ?_, fun {text items rest} h => ?_,
      fun {before text entries rest} hbefore h => ?_⟩
    · unfold readValue at h
      split at h
      · obtain ⟨⟨s, after⟩, -, h⟩ := Outcome.exists_of_map_eq_ok h
        cases h
        exact hP.text s
      · split at h
        · cases h
          exact hP.list (by simp)
        · obtain ⟨⟨items, after⟩, found, h⟩ := Outcome.exists_of_map_eq_ok h
          cases h
          exact hP.list (ofItems found)
      · split at h
        · cases h
          exact hP.empty
        · obtain ⟨⟨entries, after⟩, found, h⟩ := Outcome.exists_of_map_eq_ok h
          cases h
          exact ofEntries hP.empty found
      · exact hP.of_scalar h
      · exact hP.of_scalar h
    · unfold readItems at h
      obtain ⟨⟨first, after⟩, hfirst, h⟩ := Outcome.exists_of_bind_eq_ok h
      dsimp only at h
      split at h
      · obtain ⟨⟨others, last⟩, hothers, h⟩ := Outcome.exists_of_bind_eq_ok h
        cases h
        exact List.forall_mem_cons.mpr ⟨ofValue hfirst, ofItems hothers⟩
      · cases h
        exact List.forall_mem_cons.mpr ⟨ofValue hfirst, by simp⟩
      · cases h
    · unfold readEntries at h
      split at h
      · obtain ⟨⟨key, after⟩, -, h⟩ := Outcome.exists_of_bind_eq_ok h
        dsimp only at h
        split at h
        · obtain ⟨⟨value, after'⟩, hvalue, h⟩ := Outcome.exists_of_bind_eq_ok h
          have hinserted := hP.insert hbefore (ofValue hvalue) key
          dsimp only at h
          split at h
          · exact ofEntries hinserted h
          · cases h
            exact hinserted
          · cases h
        · cases h
      · cases h

theorem of_read (hP : IsPassedOn P) {text : List Char} {v : Value} (h : read text = .ok v) :
    P v := by
  unfold read at h
  split at h
  · cases h
  · split at h
    · cases h
    · next v' rest found =>
      dsimp only at h
      split at h
      · cases h
        exact (hP.of_readers _).1 found
      · cases h

end IsPassedOn

theorem isPassedOn_isPlain : IsPassedOn IsPlain where
  null := .null
  bool := .bool
  int _ := .int _
  float := .float
  text := .text
  list := .list
  empty := .mapping (by simp) (by simp)
  insert := .insert

/-- What is read from a JSON text is plain. -/
theorem IsPlain.of_read {text : List Char} {v : Value} (h : read text = .ok v) : IsPlain v :=
  isPassedOn_isPlain.of_read h

theorem IsPlain.of_readOctets? {octets : List UInt8} {v : Value} (h : readOctets? octets = some v) :
    IsPlain v := by
  obtain ⟨text, -, h⟩ := Option.bind_eq_some_iff.mp h
  unfold read? at h
  cases found : read text with
  | error e => simp [found, Except.toOption] at h
  | ok w =>
    simp only [found, Except.toOption, Option.some.injEq] at h
    exact h ▸ .of_read found

/-! ## Writing -/

variable (layout : Layout) (fallback : Value → Except WriteError String)

private theorem exists_writeItems {items : List Value}
    (h : ∀ v ∈ items, ∀ level, ∃ text, writeAt layout fallback level v = .ok text) (level : Nat) :
    ∃ parts, writeItems layout fallback level items = .ok parts := by
  induction items with
  | nil => exact ⟨[], by rw [writeItems]⟩
  | cons v rest ih =>
    obtain ⟨first, hfirst⟩ := h v (by simp) level
    obtain ⟨others, hothers⟩ := ih fun w hw => h w (by simp [hw])
    exact ⟨first :: others, by rw [writeItems, hfirst, hothers]; rfl⟩

private theorem exists_writeEntries {entries : List (Value × Value)}
    (keys : ∀ e ∈ entries, ∃ s, e.1 = .text s)
    (values : ∀ e ∈ entries, ∀ level, ∃ text, writeAt layout fallback level e.2 = .ok text)
    (level : Nat) : ∃ parts, writeEntries layout fallback level entries = .ok parts := by
  induction entries with
  | nil => exact ⟨[], by rw [writeEntries]⟩
  | cons e rest ih =>
    obtain ⟨key, v⟩ := e
    obtain ⟨s, rfl⟩ := keys (key, v) (by simp)
    obtain ⟨first, hfirst⟩ := values (.text s, v) (by simp) level
    obtain ⟨others, hothers⟩ := ih (fun e he => keys e (by simp [he]))
      fun e he => values e (by simp [he])
    exact ⟨(quote layout.asciiOnly s ++ ": " ++ first) :: others, by
      rw [writeEntries]
      simp only [keyText?, hfirst, hothers]
      rfl⟩

/-- What is plain JSON can be written, whatever happens to other values. -/
theorem IsPlain.exists_writeAt {v : Value} (h : IsPlain v) (level : Nat) :
    ∃ text, writeAt layout fallback level v = .ok text := by
  induction h generalizing level with
  | null => exact ⟨_, by rw [writeAt]⟩
  | bool b => exact ⟨_, by rw [writeAt]⟩
  | int n => exact ⟨_, by rw [writeAt]⟩
  | float x => exact ⟨_, by rw [writeAt]⟩
  | text s => exact ⟨_, by rw [writeAt]⟩
  | list _ ih =>
    obtain ⟨parts, hparts⟩ := exists_writeItems layout fallback ih (level + 1)
    exact ⟨_, by rw [writeAt, hparts]; rfl⟩
  | mapping keys _ ih =>
    obtain ⟨parts, hparts⟩ := exists_writeEntries layout fallback keys ih (level + 1)
    exact ⟨_, by rw [writeAt, hparts]; rfl⟩

theorem IsPlain.exists_write {v : Value} (h : IsPlain v) : ∃ text, write layout v = .ok text :=
  h.exists_writeAt layout _ 0

theorem IsPlain.exists_encode {v : Value} (h : IsPlain v) : ∃ text, encode v = .ok text :=
  h.exists_writeAt .line _ 0

end Json

end GuestCode
