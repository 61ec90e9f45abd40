import GuestCode.Proofs.Json.Numerals
import GuestCode.Proofs.Json.Plain
import GuestCode.Proofs.Json.Strings
import Mathlib.Data.List.Forall2

/-!
# Values that are written and read

What has been written of a value, in any layout, can be read: the same scalars, the same members in
the same order, the same entries in the same order. Keys have become texts, of which the last entry
counts where two are the same, and floating-point numbers have become what is read from their texts.
Only integers may have too many digits to be read.

A value is read in the midst of a text, so all statements have the text after it in view. Of this
text only matters that it does not go on with a number.

## Main statements

* `Json.reread`: the value that is read from the text of a value.
* `Json.IsReadable.readAs`: the text of a value within another text.
* `Json.IsReadable.read_write`, `Json.IsReadable.read_encode`: whole texts.
* `Json.IsKept.reread_eq`: the values that are read as they were.
-/

namespace GuestCode.Json

/-! ## Values after reading -/

/-- The number that is read from the text of a number. -/
def rereadFloat (x : Binary64) : Binary64 :=
  match readValue 1 (x.text Binary64.jsonStyle).toList with
  | .ok (.float y, _) => y
  | _ => x

mutual

/-- The value that is read from the text of a value. -/
def reread : Value → Value
  | .float x => .float (rereadFloat x)
  | .list items | .tuple items => .list (rereadItems items)
  | .mapping entries => .mapping (rereadEntries entries [])
  | v => v

/-- The members that are read from the texts of members. -/
def rereadItems : List Value → List Value
  | [] => []
  | v :: rest => reread v :: rereadItems rest

/-- The entries that are read from the texts of entries, after those read before. -/
def rereadEntries : List (Value × Value) → List (Value × Value) → List (Value × Value)
  | [], before => before
  | (k, v) :: rest, before =>
    rereadEntries rest (Value.insert (.text ((keyText? k).getD "")) (reread v) before)

end

theorem rereadItems_eq_map (items : List Value) : rereadItems items = items.map reread := by
  induction items with
  | nil => rfl
  | cons v rest ih => rw [rereadItems, ih, List.map_cons]

@[simp] theorem reread_text (s : String) : reread (.text s) = .text s := by
  rw [reread] <;> nofun

@[simp] theorem reread_list (items : List Value) :
    reread (.list items) = .list (items.map reread) := by
  rw [reread, rereadItems_eq_map]

/-- Puts fields after the entries of a mapping, one after the other. -/
def insertFields (fields : List (String × Value)) (before : List (Value × Value)) :
    List (Value × Value) :=
  fields.foldl (fun entries field => Value.insert (.text field.1) field.2 entries) before

/-- An entry as the field that is read from its text. -/
def rereadField (e : Value × Value) : String × Value := ((keyText? e.1).getD "", reread e.2)

theorem reread_mapping (entries : List (Value × Value)) :
    reread (.mapping entries) = .mapping (insertFields (entries.map rereadField) []) := by
  have hentries : ∀ before,
      rereadEntries entries before = insertFields (entries.map rereadField) before := by
    induction entries with
    | nil => exact fun before => rfl
    | cons e rest ih =>
      intro before
      rw [rereadEntries, ih]
      rfl
  rw [reread, hentries]

/-- An entry under a new key comes last. -/
theorem insert_eq_append {fields : List (String × Value)} {key : String} {v : Value}
    (hnew : key ∉ fields.map Prod.fst) :
    Value.insert (.text key) v (fields.map fun f => (.text f.1, f.2)) =
      (fields ++ [(key, v)]).map fun f => (.text f.1, f.2) := by
  induction fields with
  | nil => rfl
  | cons f fields ih =>
    -- The first entry has another key, so it stays where it is.
    rw [List.map_cons, List.mem_cons, not_or] at hnew
    obtain ⟨hne, hnew⟩ := hnew
    have hdifferent : ¬Value.same (.text f.1) (.text key) = true := by
      rw [Value.same, beq_iff_eq]
      exact Ne.symm hne
    rw [List.map_cons, Value.insert, if_neg hdifferent, ih hnew, List.cons_append, List.map_cons]

theorem insertFields_eq_append {fields before : List (String × Value)}
    (h : ((before ++ fields).map Prod.fst).Nodup) :
    insertFields fields (before.map fun f => (.text f.1, f.2)) =
      (before ++ fields).map fun f => (.text f.1, f.2) := by
  induction fields generalizing before with
  | nil => rw [List.append_nil, insertFields, List.foldl_nil]
  | cons f fields ih =>
    have hnew : f.1 ∉ before.map Prod.fst := by
      rw [List.map_append, List.nodup_append] at h
      exact fun hmem => h.2.2 _ hmem _ List.mem_cons_self rfl
    rw [List.append_cons] at h ⊢
    rw [← ih h, insertFields, List.foldl_cons, insert_eq_append hnew, insertFields]

/-- Fields with distinct names keep their order. -/
theorem reread_record {fields : List (String × Value)} (h : (fields.map Prod.fst).Nodup) :
    reread (Value.record fields) = Value.record (fields.map fun f => (f.1, reread f.2)) := by
  have hfields : (fields.map fun f => (Value.text f.1, f.2)).map rereadField =
      fields.map fun f => (f.1, reread f.2) := by
    rw [List.map_map]
    rfl
  have hdistinct :
      ((([] : List (String × Value)) ++
        fields.map fun f => (f.1, reread f.2)).map Prod.fst).Nodup := by
    rw [List.nil_append, List.map_map]
    exact h
  rw [Value.record, reread_mapping, hfields]
  exact congrArg Value.mapping (insertFields_eq_append hdistinct)

/-! ## Values that can be read -/

/-- The values whose texts can be read, if they have one: scalars that JSON has, integers with few
digits, and lists, groups and mappings of such values. -/
inductive IsReadable : Value → Prop where
  | null : IsReadable .null
  | bool (b : Bool) : IsReadable (.bool b)
  | int {n : Int} (few : n.natAbs < 10 ^ maxIntegerDigits) : IsReadable (.int n)
  | float (x : Binary64) : IsReadable (.float x)
  | text (s : String) : IsReadable (.text s)
  | list {items : List Value} (members : ∀ v ∈ items, IsReadable v) : IsReadable (.list items)
  | tuple {items : List Value} (members : ∀ v ∈ items, IsReadable v) : IsReadable (.tuple items)
  | mapping {entries : List (Value × Value)} (keys : ∀ e ∈ entries, IsReadable e.1)
      (values : ∀ e ∈ entries, IsReadable e.2) : IsReadable (.mapping entries)

namespace IsReadable

theorem record {fields : List (String × Value)} (h : ∀ f ∈ fields, IsReadable f.2) :
    IsReadable (Value.record fields) := by
  refine .mapping (fun e he => ?_) fun e he => ?_
  · obtain ⟨f, -, rfl⟩ := List.mem_map.mp he
    exact .text f.1
  · obtain ⟨f, hf, rfl⟩ := List.mem_map.mp he
    exact h f hf

theorem mem {entries : List (Value × Value)} (h : IsReadable (.mapping entries)) :
    ∀ e ∈ entries, IsReadable e.1 ∧ IsReadable e.2 := by
  cases h with
  | mapping keys values => exact fun e he => ⟨keys e he, values e he⟩

theorem insert {entries : List (Value × Value)} {key v : Value}
    (h : IsReadable (.mapping entries)) (hkey : IsReadable key) (hv : IsReadable v) :
    IsReadable (.mapping (Value.insert key v entries)) := by
  have hinserted : ∀ e ∈ Value.insert key v entries, IsReadable e.1 ∧ IsReadable e.2 := by
    have hmem := h.mem
    clear h
    induction entries with
    | nil => exact List.forall_mem_singleton.mpr ⟨hkey, hv⟩
    | cons e rest ih =>
      obtain ⟨he, hrest⟩ := List.forall_mem_cons.mp hmem
      rw [Value.insert]
      split
      · exact List.forall_mem_cons.mpr ⟨⟨he.1, hv⟩, hrest⟩
      · exact List.forall_mem_cons.mpr ⟨he, ih hrest⟩
  exact .mapping (fun e he => (hinserted e he).1) fun e he => (hinserted e he).2

end IsReadable

theorem isPassedOn_isReadable : IsPassedOn IsReadable where
  null := .null
  bool := .bool
  int := .int
  float := .float
  text := .text
  list := .list
  empty := .mapping (by simp) (by simp)
  insert before value key := before.insert (.text key) value

/-- What is read from a JSON text can be read again. -/
theorem IsReadable.of_read {text : List Char} {v : Value} (h : read text = .ok v) :
    IsReadable v :=
  isPassedOn_isReadable.of_read h

/-- The values that are read as they were: scalars, lists, and mappings with distinct texts as keys.
Of the floating-point numbers only some may be known to be read as they were. -/
inductive IsKept : Value → Prop where
  | null : IsKept .null
  | bool (b : Bool) : IsKept (.bool b)
  | int {n : Int} (few : n.natAbs < 10 ^ maxIntegerDigits) : IsKept (.int n)
  | float {x : Binary64} (same : rereadFloat x = x) : IsKept (.float x)
  | text (s : String) : IsKept (.text s)
  | list {items : List Value} (members : ∀ v ∈ items, IsKept v) : IsKept (.list items)
  | record {fields : List (String × Value)} (distinct : (fields.map Prod.fst).Nodup)
      (values : ∀ f ∈ fields, IsKept f.2) : IsKept (Value.record fields)

namespace IsKept

variable {v : Value}

theorem isPlain (h : IsKept v) : IsPlain v := by
  induction h with
  | null => exact .null
  | bool b => exact .bool b
  | int => exact .int _
  | float => exact .float _
  | text s => exact .text s
  | list _ ih => exact .list ih
  | record _ _ ih => exact IsPlain.record_iff.mpr ih

theorem isReadable (h : IsKept v) : IsReadable v := by
  induction h with
  | null => exact .null
  | bool b => exact .bool b
  | int few => exact .int few
  | float => exact .float _
  | text s => exact .text s
  | list _ ih => exact .list ih
  | record _ _ ih => exact .record ih

theorem reread_eq (h : IsKept v) : reread v = v := by
  induction h with
  | null => rfl
  | bool b => rfl
  | int => rfl
  | float same => rw [reread, same]
  | text s => exact reread_text s
  | list _ ih => rw [reread_list, List.map_congr_left ih, List.map_id']
  | record distinct _ ih =>
    rw [reread_record distinct, List.map_congr_left fun f hf => by rw [ih f hf], List.map_id']

end IsKept

/-! ## Texts that are read as a value -/

/-- A text that is read as a value within any other text. -/
def ReadAs (text : List Char) (v : Value) : Prop :=
  ∀ fuel rest, text.length ≤ fuel → EndsNumber rest → readValue fuel (text ++ rest) = .ok (v, rest)

/-- The blanks of JSON. -/
def Blank (text : List Char) : Prop := ∀ c ∈ text, c ∈ [' ', '\t', '\n', '\r']

theorem blank_nil : Blank [] := nofun

theorem blank_lineEnd : Blank ['\n'] := by simp [Blank]

theorem skipBlanks_append {blank text : List Char} (hblank : Blank blank)
    (htext : ∀ c ∈ text.head?, c ∉ [' ', '\t', '\n', '\r']) :
    skipBlanks (blank ++ text) = text := by
  have hall : ∀ c ∈ blank, (c == ' ' || c == '\t' || c == '\n' || c == '\r') = true := by
    intro c hc
    simpa [or_assoc] using hblank c hc
  rw [skipBlanks, List.dropWhile_append_of_pos hall]
  cases text with
  | nil => rfl
  | cons c rest =>
    have hno : (c == ' ' || c == '\t' || c == '\n' || c == '\r') = false := by
      simpa [and_assoc] using htext c rfl
    rw [List.dropWhile_cons, hno, if_neg Bool.false_ne_true]

/-- After a value stand blanks, a comma or a bracket. -/
theorem endsNumber_of_head? {rest : List Char}
    (h : ∀ c ∈ rest.head?, c ∈ [' ', '\t', '\n', '\r', ',', ']', '\x7d']) : EndsNumber rest := by
  have hall : ∀ c ∈ [' ', '\t', '\n', '\r', ',', ']', '\x7d'],
      c.isDigit = false ∧ c ∉ ['.', 'e', 'E'] := by simp [Char.isDigit]
  exact fun c hc => hall c (h c hc)

theorem endsNumber_blank {blank : List Char} (hblank : Blank blank) : EndsNumber blank :=
  endsNumber_of_head? fun c hc =>
    List.mem_append_left [',', ']', '\x7d'] (hblank c (List.mem_of_mem_head? hc))

theorem endsNumber_append {blank rest : List Char} {c : Char} (hblank : Blank blank)
    (hc : c ∈ [',', ']', '\x7d']) : EndsNumber (blank ++ c :: rest) := by
  refine endsNumber_of_head? fun d hd => ?_
  cases blank with
  | nil =>
    obtain rfl : c = d := by simpa using hd
    exact List.mem_append_right [' ', '\t', '\n', '\r'] hc
  | cons b others =>
    obtain rfl : b = d := by simpa using hd
    exact List.mem_append_left [',', ']', '\x7d'] (hblank b List.mem_cons_self)

theorem endsNumber_nil : EndsNumber [] := nofun

/-- The characters that no value starts with, as far as they matter to readers. -/
def noStart : List Char := [' ', '\t', '\n', '\r', ']', '\uFEFF']

theorem exists_readValue_eq_error {c : Char} (hc : c ∈ noStart) (fuel : Nat) (text : List Char) :
    ∃ e, readValue fuel (c :: text) = .error e := by
  cases fuel with
  | zero => exact ⟨_, by rw [readValue]; rfl⟩
  | succ fuel =>
    simp only [noStart, List.mem_cons, List.not_mem_nil, or_false] at hc
    rcases hc with rfl | rfl | rfl | rfl | rfl | rfl
    all_goals exact ⟨_, rfl⟩

theorem ReadAs.exists_cons {text : List Char} {v : Value} (h : ReadAs text v) :
    ∃ c rest, text = c :: rest ∧ c ∉ noStart := by
  cases text with
  | nil =>
    have hread := h 0 [] (Nat.le_refl 0) endsNumber_nil
    cases hread
  | cons c rest =>
    refine ⟨c, rest, rfl, fun hc => ?_⟩
    obtain ⟨e, herror⟩ := exists_readValue_eq_error hc (c :: rest).length (rest ++ [])
    have hread := h _ [] (Nat.le_refl _) endsNumber_nil
    rw [List.cons_append, herror] at hread
    cases hread

/-! ## Scalars -/

theorem readValue_of_isDigit {c : Char} (hc : c.isDigit = true) (fuel : Nat) (rest : List Char) :
    readValue (fuel + 1) (c :: rest) =
      (readNumber? false (c :: rest)).getD (readNamed (c :: rest)) := by
  rw [readValue]
  all_goals
    rintro others heq
    obtain ⟨rfl, -⟩ := List.cons.inj heq
    exact absurd hc (by decide)

theorem readValue_minus (fuel : Nat) (rest : List Char) :
    readValue (fuel + 1) ('-' :: rest) =
      (readNumber? true rest).getD (readNamed ('-' :: rest)) := by
  rw [readValue]

/-- Fuel for a text is fuel for its first character. -/
theorem exists_fuel {c : Char} {rest : List Char} {fuel : Nat} (h : (c :: rest).length ≤ fuel) :
    ∃ less, fuel = less + 1 ∧ rest.length ≤ less := by
  rw [List.length_cons] at h
  exact ⟨fuel - 1, by omega, by omega⟩

theorem readAs_named {name : List Char} {v : Value} {c : Char} {cs : List Char}
    (hname : name = c :: cs)
    (hread : ∀ fuel rest, readValue (fuel + 1) (name ++ rest) = .ok (v, rest)) :
    ReadAs name v := by
  intro fuel rest hfuel _
  rw [hname] at hfuel
  obtain ⟨less, rfl, -⟩ := exists_fuel hfuel
  exact hread less rest

theorem readAs_null : ReadAs "null".toList .null := readAs_named rfl fun _ _ => rfl

theorem readAs_bool (b : Bool) : ReadAs (if b then "true" else "false").toList (.bool b) := by
  cases b with
  | false => exact readAs_named rfl fun _ _ => rfl
  | true => exact readAs_named rfl fun _ _ => rfl

theorem readAs_int {n : Int} (hn : n.natAbs < 10 ^ maxIntegerDigits) :
    ReadAs (toString n).toList (.int n) := by
  intro fuel rest hfuel hrest
  cases n with
  | ofNat n =>
    have hdigits : (toString (Int.ofNat n)).toList = Nat.toDigits 10 n := Nat.toList_repr
    obtain ⟨c, cs, hcons⟩ := List.exists_cons_of_ne_nil (isWhole_toDigits n).ne_nil
    have hc : c.isDigit = true := allDigits_toDigits n c (hcons ▸ List.mem_cons_self)
    -- A digit starts nothing but a number.
    have hnumber := readNumber?_toDigits false (n := n) hn hrest
    rw [hcons, List.cons_append] at hnumber
    rw [hdigits, hcons] at hfuel ⊢
    obtain ⟨less, rfl, -⟩ := exists_fuel hfuel
    rw [List.cons_append, readValue_of_isDigit hc, hnumber]
    rfl
  | negSucc n =>
    have hdigits : (toString (Int.negSucc n)).toList = '-' :: Nat.toDigits 10 (n + 1) := by
      have htext : toString (Int.negSucc n) = "-" ++ Nat.repr (n + 1) := rfl
      rw [htext, String.toList_append, Nat.toList_repr]
      rfl
    have hnumber := readNumber?_toDigits true (n := n + 1) hn hrest
    rw [hdigits] at hfuel ⊢
    obtain ⟨less, rfl, -⟩ := exists_fuel hfuel
    rw [List.cons_append, readValue_minus, hnumber]
    rfl

/-- The text of a number is read as some number, whatever follows. -/
theorem exists_readValue_float (x : Binary64) : ∃ y, ∀ fuel {rest}, EndsNumber rest →
    readValue (fuel + 1) ((x.text Binary64.jsonStyle).toList ++ rest) = .ok (.float y, rest) := by
  cases x with
  | nan => exact ⟨.nan, fun _ _ _ => rfl⟩
  | infinite negative =>
    cases negative with
    | false => exact ⟨.infinite false, fun _ _ _ => rfl⟩
    | true => exact ⟨.infinite true, fun _ _ _ => rfl⟩
  | finite negative mantissa exponent =>
    obtain ⟨⟨c, cs, hcons, hc⟩, reads⟩ :=
      isFloatText_magnitude Binary64.jsonStyle mantissa exponent
    obtain ⟨y, hread⟩ := reads negative
    refine ⟨y, fun fuel rest hrest => ?_⟩
    have hnumber := hread hrest
    cases negative with
    | false =>
      rw [hcons, List.cons_append] at hnumber ⊢
      rw [readValue_of_isDigit hc, hnumber]
      rfl
    | true =>
      have htext : (Binary64.text Binary64.jsonStyle (.finite true mantissa exponent)).toList =
          '-' :: (Binary64.text Binary64.jsonStyle (.finite false mantissa exponent)).toList := by
        simp [Binary64.text]
      rw [htext, List.cons_append, readValue_minus, hnumber]
      rfl

theorem readAs_float (x : Binary64) :
    ReadAs (x.text Binary64.jsonStyle).toList (reread (.float x)) := by
  obtain ⟨y, hread⟩ := exists_readValue_float x
  have hy : rereadFloat x = y := by
    have halone := hread 0 endsNumber_nil
    rw [List.append_nil] at halone
    rw [rereadFloat, halone]
  intro fuel rest hfuel hrest
  cases fuel with
  -- No text is empty, so there is some fuel.
  | zero =>
    have hempty := List.length_eq_zero_iff.mp (Nat.le_zero.mp hfuel)
    have halone := hread 0 endsNumber_nil
    rw [hempty] at halone
    cases halone
  | succ less => rw [reread, hy, hread less hrest]

theorem readAs_text (asciiOnly : Bool) (s : String) :
    ReadAs (quote asciiOnly s).toList (.text s) := by
  intro fuel rest hfuel _
  rw [toList_quote] at hfuel ⊢
  obtain ⟨less, rfl, -⟩ := exists_fuel hfuel
  rw [List.cons_append, List.append_assoc, List.singleton_append, readValue, readString_append]
  rfl

/-! ## Lists and mappings -/

/-- The layout between brackets: blanks, the parts with commas and blanks between them, blanks. -/
theorem exists_toList_bracketed (layout : Layout) (level : Nat) (opening closing : String)
    {parts : List String} (h : parts ≠ []) :
    ∃ before between after, Blank before ∧ Blank between ∧ Blank after ∧
      (bracketed layout level opening closing parts).toList =
        opening.toList ++ (before ++
          ((',' :: between).intercalate (parts.map String.toList) ++
            (after ++ closing.toList))) := by
  have hparts : parts.isEmpty = false := by simpa using h
  unfold bracketed
  rw [hparts, if_neg Bool.false_ne_true]
  split
  -- On one line a blank follows each comma; else each part has a line with its indentation.
  · refine ⟨[], [' '], [], blank_nil, by simp [Blank], blank_nil, ?_⟩
    simp [String.toList_intercalate]
  · next width _ =>
    have hline : ∀ n, Blank ('\n' :: List.replicate n ' ') := by
      intro n c hc
      rcases List.mem_cons.mp hc with rfl | hc
      · decide
      · rw [List.eq_of_mem_replicate hc]
        decide
    refine ⟨_, _, _, hline (width * (level + 1)), hline (width * (level + 1)),
      hline (width * level), ?_⟩
    simp [String.toList_intercalate, String.toList_append]

/-- What starts a list of parts is what starts the first one. -/
theorem head?_intercalate_append (separator : List Char) {part : List Char} (h : part ≠ [])
    (parts : List (List Char)) (rest : List Char) :
    (separator.intercalate (part :: parts) ++ rest).head? = part.head? := by
  obtain ⟨c, cs, rfl⟩ := List.exists_cons_of_ne_nil h
  cases parts with
  | nil => rw [List.intercalate_singleton, List.cons_append, List.head?_cons, List.head?_cons]
  | cons => simp [List.intercalate_cons_cons]

theorem skipBlanks_start {blank rest : List Char} (hblank : Blank blank)
    (hrest : ∀ c ∈ rest.head?, c ∉ noStart) : skipBlanks (blank ++ rest) = rest :=
  skipBlanks_append hblank fun c hc hmem => hrest c hc (List.mem_append_left [']', '\uFEFF'] hmem)

theorem skipBlanks_cons {c : Char} {rest : List Char} (hc : c ∉ [' ', '\t', '\n', '\r']) :
    skipBlanks (c :: rest) = c :: rest :=
  skipBlanks_append blank_nil fun _ hd => Option.some.inj hd ▸ hc

section Steps

variable {fuel : Nat} {v value : Value} {key : String} {items : List Value}
  {before entries : List (Value × Value)} {text rest others last : List Char}

theorem readItems_last (hfirst : readValue fuel text = .ok (v, rest))
    (hbracket : skipBlanks rest = ']' :: last) : readItems (fuel + 1) text = .ok ([v], last) := by
  rw [readItems, hfirst]
  dsimp only [bind, Except.bind]
  rw [hbracket]
  rfl

theorem readItems_more (hfirst : readValue fuel text = .ok (v, rest))
    (hcomma : skipBlanks rest = ',' :: others)
    (hothers : readItems fuel (skipBlanks others) = .ok (items, last)) :
    readItems (fuel + 1) text = .ok (v :: items, last) := by
  rw [readItems, hfirst]
  dsimp only [bind, Except.bind]
  rw [hcomma]
  change ((readItems fuel (skipBlanks others)).bind fun read => .ok (v :: read.1, read.2)) = _
  rw [hothers]
  rfl

theorem readEntries_key (hkey : readString text = .ok (key, ':' :: rest)) :
    readEntries (fuel + 1) before ('"' :: text) = (do
      let (value, rest) ← readValue fuel (skipBlanks rest)
      let entries := Value.insert (.text key) value before
      match skipBlanks rest with
      | ',' :: rest => readEntries fuel entries (skipBlanks rest)
      | '\x7d' :: rest => return (entries, rest)
      | rest => failAt .noComma rest) := by
  have hcolon : skipBlanks (':' :: rest) = ':' :: rest := rfl
  rw [readEntries, hkey]
  dsimp only [bind, Except.bind]
  rw [hcolon]
  rfl

theorem readEntries_last (hkey : readString text = .ok (key, ':' :: rest))
    (hvalue : readValue fuel (skipBlanks rest) = .ok (value, others))
    (hbracket : skipBlanks others = '\x7d' :: last) :
    readEntries (fuel + 1) before ('"' :: text) =
      .ok (Value.insert (.text key) value before, last) := by
  rw [readEntries_key hkey, hvalue]
  dsimp only [bind, Except.bind]
  rw [hbracket]
  rfl

theorem readEntries_more (before : List (Value × Value))
    (hkey : readString text = .ok (key, ':' :: rest))
    (hvalue : readValue fuel (skipBlanks rest) = .ok (value, others))
    (hcomma : skipBlanks others = ',' :: last) :
    readEntries (fuel + 1) before ('"' :: text) =
      readEntries fuel (Value.insert (.text key) value before) (skipBlanks last) := by
  rw [readEntries_key hkey, hvalue]
  dsimp only [bind, Except.bind]
  rw [hcomma]
  rfl

theorem readValue_items {fuel : Nat} (h : readItems fuel text = .ok (items, last))
    (hblanks : skipBlanks rest = text) (hstart : ']' ∉ text.head?) :
    readValue (fuel + 1) ('[' :: rest) = .ok (.list items, last) := by
  rw [readValue, hblanks]
  split
  · exact absurd rfl hstart
  · rw [h]
    rfl

theorem readValue_entries {fuel : Nat} (h : readEntries fuel [] text = .ok (entries, last))
    (hblanks : skipBlanks rest = text) (hstart : '\x7d' ∉ text.head?) :
    readValue (fuel + 1) ('\x7b' :: rest) = .ok (.mapping entries, last) := by
  rw [readValue, hblanks]
  split
  · exact absurd rfl hstart
  · rw [h]
    rfl

end Steps

/-- The members of a list are read in their order. -/
theorem readItems_append {between after : List Char} (hbetween : Blank between)
    (hafter : Blank after) (rest : List Char) {parts : List (List Char)} {items : List Value}
    (h : List.Forall₂ ReadAs parts items) (hparts : parts ≠ []) {fuel : Nat}
    (hfuel : ((',' :: between).intercalate parts).length < fuel) :
    readItems fuel ((',' :: between).intercalate parts ++ (after ++ ']' :: rest)) =
      .ok (items, rest) := by
  induction h generalizing fuel with
  | nil => exact absurd rfl hparts
  | @cons part v parts items hpart hothers ih =>
    obtain ⟨fuel, rfl⟩ := Nat.exists_eq_succ_of_ne_zero (Nat.ne_of_gt (Nat.zero_lt_of_lt hfuel))
    cases hothers with
    | nil =>
      rw [List.intercalate_singleton] at hfuel ⊢
      have hread := hpart fuel (after ++ ']' :: rest) (Nat.le_of_lt_succ hfuel)
        (endsNumber_append hafter (by decide))
      exact readItems_last hread (skipBlanks_append hafter (by simp))
    | @cons second w parts items hsecond hlater =>
      rw [List.intercalate_cons_cons] at hfuel ⊢
      simp only [List.length_append, List.length_cons] at hfuel
      have hshort : ((',' :: between).intercalate (second :: parts)).length < fuel := by omega
      have hread := ih (List.cons_ne_nil _ _) hshort
      -- After the comma and the blanks the reader finds what the next part starts with.
      obtain ⟨c, cs, rfl, hc⟩ := hsecond.exists_cons
      have hhead := head?_intercalate_append (',' :: between)
        (List.cons_ne_nil c cs) parts (after ++ ']' :: rest)
      rw [List.append_assoc, List.append_assoc]
      generalize (',' :: between).intercalate ((c :: cs) :: parts) ++ (after ++ ']' :: rest) =
        later at hread hhead ⊢
      have hblanks : skipBlanks (between ++ later) = later :=
        skipBlanks_start hbetween fun d hd => Option.some.inj (hhead.symm.trans hd) ▸ hc
      have hfirst := hpart fuel (',' :: (between ++ later)) (by omega)
        (endsNumber_append blank_nil (by decide))
      exact readItems_more hfirst (skipBlanks_cons (by decide)) (hblanks.symm ▸ hread)

/-- A list of texts that are read as values. -/
theorem readAs_bracketed_items (layout : Layout) (level : Nat) {parts : List String}
    {items : List Value} (h : List.Forall₂ ReadAs (parts.map String.toList) items) :
    ReadAs (bracketed layout level "[" "]" parts).toList (.list items) := by
  by_cases hparts : parts = []
  · subst hparts
    obtain rfl : items = [] := List.forall₂_nil_left_iff.mp h
    have htext : (bracketed layout level "[" "]" []).toList = ['[', ']'] := by simp [bracketed]
    rw [htext]
    exact readAs_named rfl fun _ _ => rfl
  · obtain ⟨before, between, after, hbefore, hbetween, hafter, htext⟩ :=
      exists_toList_bracketed layout level "[" "]" hparts
    have hopening : "[".toList = ['['] := rfl
    have hclosing : "]".toList = [']'] := rfl
    rw [htext, hopening, hclosing, List.singleton_append]
    generalize hchars : parts.map String.toList = texts at h
    have htexts : texts ≠ [] := hchars ▸ mt List.map_eq_nil_iff.mp hparts
    intro fuel rest hfuel _
    -- The two brackets are the fuel that the reader spends on the list itself.
    obtain ⟨less, rfl, hless⟩ := exists_fuel hfuel
    simp only [List.length_append, List.length_singleton] at hless
    have hshort : ((',' :: between).intercalate texts).length < less := by omega
    have hread := readItems_append hbetween hafter rest h htexts hshort
    rw [List.cons_append, List.append_assoc, List.append_assoc, List.append_assoc,
      List.singleton_append]
    cases h with
    | nil => exact absurd rfl htexts
    | @cons part v texts items hpart =>
      obtain ⟨c, cs, rfl, hc⟩ := hpart.exists_cons
      have hhead := head?_intercalate_append (',' :: between)
        (List.cons_ne_nil c cs) texts (after ++ ']' :: rest)
      have hstart : ∀ d ∈ ((',' :: between).intercalate ((c :: cs) :: texts) ++
          (after ++ ']' :: rest)).head?, d ∉ noStart :=
        fun d hd => Option.some.inj (hhead.symm.trans hd) ▸ hc
      exact readValue_items hread (skipBlanks_start hbefore hstart)
        fun hbracket => hstart _ hbracket (by decide)

/-- A text that is read as a field, first its name and then its value, within any other text. -/
def ReadAsField (part : List Char) (field : String × Value) : Prop :=
  ∃ body, part = '"' :: body ∧ ∀ fuel later, part.length ≤ fuel → EndsNumber later →
    ∃ rest, readString (body ++ later) = .ok (field.1, ':' :: rest) ∧
      readValue fuel (skipBlanks rest) = .ok (field.2, later)

theorem readAsField (asciiOnly : Bool) (name : String) {text : List Char} {v : Value}
    (h : ReadAs text v) :
    ReadAsField ((quote asciiOnly name).toList ++ ':' :: ' ' :: text) (name, v) := by
  rw [toList_quote]
  refine ⟨_, List.cons_append, fun fuel later hfuel hlater => ?_⟩
  have hshort : text.length ≤ fuel := by
    simp only [List.length_append, List.length_cons] at hfuel
    omega
  obtain ⟨c, cs, rfl, hc⟩ := h.exists_cons
  refine ⟨' ' :: (c :: cs ++ later), ?_, ?_⟩
  · rw [List.append_assoc, List.append_assoc]
    exact readString_append asciiOnly name _
  · have hblank : skipBlanks ([' '] ++ (c :: cs ++ later)) = c :: cs ++ later :=
      skipBlanks_start (by simp [Blank]) fun d hd => Option.some.inj hd ▸ hc
    rw [← List.singleton_append, hblank]
    exact h fuel later hshort hlater

/-- The fields of a mapping are read in their order, each put after those read before. -/
theorem readEntries_append {between after : List Char} (hbetween : Blank between)
    (hafter : Blank after) (rest : List Char) {parts : List (List Char)}
    {fields : List (String × Value)} (h : List.Forall₂ ReadAsField parts fields)
    (hparts : parts ≠ []) {fuel : Nat}
    (hfuel : ((',' :: between).intercalate parts).length < fuel) (before : List (Value × Value)) :
    readEntries fuel before ((',' :: between).intercalate parts ++ (after ++ '\x7d' :: rest)) =
      .ok (insertFields fields before, rest) := by
  induction h generalizing fuel before with
  | nil => exact absurd rfl hparts
  | @cons part field parts fields hpart hothers ih =>
    obtain ⟨fuel, rfl⟩ := Nat.exists_eq_succ_of_ne_zero (Nat.ne_of_gt (Nat.zero_lt_of_lt hfuel))
    obtain ⟨body, rfl, hreads⟩ := hpart
    cases hothers with
    | nil =>
      rw [List.intercalate_singleton] at hfuel ⊢
      obtain ⟨others, hkey, hvalue⟩ := hreads fuel (after ++ '\x7d' :: rest)
        (Nat.le_of_lt_succ hfuel) (endsNumber_append hafter (by decide))
      exact readEntries_last hkey hvalue (skipBlanks_append hafter (by simp))
    | @cons second next parts fields hsecond hlater =>
      rw [List.intercalate_cons_cons] at hfuel ⊢
      simp only [List.length_append, List.length_cons] at hfuel
      have hshort : ((',' :: between).intercalate (second :: parts)).length < fuel := by omega
      have hread := ih (List.cons_ne_nil _ _) hshort
        (Value.insert (.text field.1) field.2 before)
      obtain ⟨cs, rfl, -⟩ := hsecond
      have hhead := head?_intercalate_append (',' :: between)
        (List.cons_ne_nil '"' cs) parts (after ++ '\x7d' :: rest)
      rw [List.append_assoc, List.append_assoc]
      generalize (',' :: between).intercalate (('"' :: cs) :: parts) ++ (after ++ '\x7d' :: rest) =
        later at hread hhead ⊢
      have hblanks : skipBlanks (between ++ later) = later :=
        skipBlanks_start hbetween fun d hd => Option.some.inj (hhead.symm.trans hd) ▸ by decide
      obtain ⟨others, hkey, hvalue⟩ := hreads fuel (',' :: (between ++ later))
        (by simp only [List.length_cons]; omega)
        (endsNumber_append blank_nil (by decide))
      have hstep := readEntries_more before hkey hvalue (skipBlanks_cons (by decide))
      rw [hblanks, hread] at hstep
      exact hstep

/-- Texts that are read as fields of a mapping. -/
theorem readAs_bracketed_fields (layout : Layout) (level : Nat) {parts : List String}
    {fields : List (String × Value)}
    (h : List.Forall₂ ReadAsField (parts.map String.toList) fields) :
    ReadAs (bracketed layout level "\x7b" "\x7d" parts).toList
      (.mapping (insertFields fields [])) := by
  by_cases hparts : parts = []
  · subst hparts
    obtain rfl : fields = [] := List.forall₂_nil_left_iff.mp h
    have htext : (bracketed layout level "\x7b" "\x7d" []).toList = ['\x7b', '\x7d'] := by
      simp [bracketed]
    rw [htext]
    exact readAs_named rfl fun _ _ => rfl
  · obtain ⟨before, between, after, hbefore, hbetween, hafter, htext⟩ :=
      exists_toList_bracketed layout level "\x7b" "\x7d" hparts
    have hopening : "\x7b".toList = ['\x7b'] := rfl
    have hclosing : "\x7d".toList = ['\x7d'] := rfl
    rw [htext, hopening, hclosing, List.singleton_append]
    generalize hchars : parts.map String.toList = texts at h
    have htexts : texts ≠ [] := hchars ▸ mt List.map_eq_nil_iff.mp hparts
    intro fuel rest hfuel _
    obtain ⟨less, rfl, hless⟩ := exists_fuel hfuel
    simp only [List.length_append, List.length_singleton] at hless
    have hshort : ((',' :: between).intercalate texts).length < less := by omega
    have hread := readEntries_append hbetween hafter rest h htexts hshort []
    rw [List.cons_append, List.append_assoc, List.append_assoc, List.append_assoc,
      List.singleton_append]
    cases h with
    | nil => exact absurd rfl htexts
    | @cons part field texts fields hpart =>
      obtain ⟨cs, rfl, -⟩ := hpart
      have hhead := head?_intercalate_append (',' :: between)
        (List.cons_ne_nil '"' cs) texts (after ++ '\x7d' :: rest)
      refine readValue_entries hread (skipBlanks_start hbefore fun d hd => ?_) fun hbrace => ?_
      · exact Option.some.inj (hhead.symm.trans hd) ▸ by decide
      · cases hhead.symm.trans hbrace

/-! ## Values -/

section Writing

variable {layout : Layout} {fallback : Value → Except WriteError String} {level : Nat}

theorem forall₂_writeItems {items : List Value} {parts : List String}
    (members : ∀ v ∈ items, ∀ {level text}, writeAt layout fallback level v = .ok text →
      ReadAs text.toList (reread v))
    (h : writeItems layout fallback level items = .ok parts) :
    List.Forall₂ ReadAs (parts.map String.toList) (items.map reread) := by
  induction items generalizing parts with
  | nil =>
    rw [writeItems] at h
    cases h
    exact .nil
  | cons v rest ih =>
    rw [writeItems] at h
    obtain ⟨hv, hrest⟩ := List.forall_mem_cons.mp members
    obtain ⟨first, hfirst, h⟩ := Outcome.exists_of_bind_eq_ok h
    obtain ⟨others, hothers, h⟩ := Outcome.exists_of_bind_eq_ok h
    cases h
    exact .cons (hv hfirst) (ih hrest hothers)

theorem forall₂_writeEntries {entries : List (Value × Value)} {parts : List String}
    (values : ∀ e ∈ entries, ∀ {level text}, writeAt layout fallback level e.2 = .ok text →
      ReadAs text.toList (reread e.2))
    (h : writeEntries layout fallback level entries = .ok parts) :
    List.Forall₂ ReadAsField (parts.map String.toList) (entries.map rereadField) := by
  induction entries generalizing parts with
  | nil =>
    rw [writeEntries] at h
    cases h
    exact .nil
  | cons e rest ih =>
    obtain ⟨k, v⟩ := e
    obtain ⟨hv, hrest⟩ := List.forall_mem_cons.mp values
    rw [writeEntries] at h
    cases hkey : keyText? k with
    -- Under a key without a text nothing is written.
    | none => simp [hkey] at h
    | some key =>
      rw [hkey] at h
      obtain ⟨first, hfirst, h⟩ := Outcome.exists_of_bind_eq_ok h
      obtain ⟨others, hothers, h⟩ := Outcome.exists_of_bind_eq_ok h
      cases h
      have hname : rereadField (k, v) = (key, reread v) := by rw [rereadField, hkey]; rfl
      refine .cons ?_ (ih hrest hothers)
      rw [hname]
      simpa [String.toList_append] using readAsField layout.asciiOnly key (hv hfirst)

/-- What has been written of a value, within any other text, is read as the value. -/
theorem IsReadable.readAs {v : Value} (h : IsReadable v) {text : String}
    (hwrite : writeAt layout fallback level v = .ok text) : ReadAs text.toList (reread v) := by
  induction h generalizing level text with
  | null =>
    cases hwrite
    exact readAs_null
  | bool b =>
    cases hwrite
    exact readAs_bool b
  | int few =>
    cases hwrite
    exact readAs_int few
  | float x =>
    cases hwrite
    exact readAs_float x
  | text s =>
    cases hwrite
    exact (reread_text s).symm ▸ readAs_text layout.asciiOnly s
  | list _ ih | tuple _ ih =>
    rw [writeAt] at hwrite
    obtain ⟨parts, hparts, hwrite⟩ := Outcome.exists_of_bind_eq_ok hwrite
    cases hwrite
    rw [reread, rereadItems_eq_map]
    exact readAs_bracketed_items layout level (forall₂_writeItems (fun v hv => ih v hv) hparts)
  | mapping _ _ _ ih =>
    rw [writeAt] at hwrite
    obtain ⟨parts, hparts, hwrite⟩ := Outcome.exists_of_bind_eq_ok hwrite
    cases hwrite
    rw [reread_mapping]
    exact readAs_bracketed_fields layout level
      (forall₂_writeEntries (fun e he => ih e he) hparts)

end Writing

/-- A text that is read as a value within other texts is read as this value alone, and before
blanks. -/
theorem ReadAs.read_append {text blank : List Char} {v : Value} (h : ReadAs text v)
    (hblank : Blank blank) : read (text ++ blank) = .ok v := by
  have hread := h (2 * (text ++ blank).length + 1) blank
    (by rw [List.length_append]; omega) (endsNumber_blank hblank)
  have hend : skipBlanks (blank ++ []) = [] := skipBlanks_append hblank nofun
  obtain ⟨c, cs, rfl, hc⟩ := h.exists_cons
  have hmark : ¬((c :: cs ++ blank).head? == some '\uFEFF') = true := by
    rw [beq_iff_eq]
    rintro heq
    cases heq
    exact hc (by decide)
  have hstart : skipBlanks (c :: cs ++ blank) = c :: cs ++ blank :=
    skipBlanks_start blank_nil fun d hd => Option.some.inj hd ▸ hc
  rw [List.append_nil] at hend
  rw [read, if_neg hmark, hstart, hread]
  dsimp only
  rw [hend]
  rfl

theorem ReadAs.read_eq {text : List Char} {v : Value} (h : ReadAs text v) :
    read text = .ok v := by
  have hread := h.read_append blank_nil
  rwa [List.append_nil] at hread

/-- An integer with too many digits is no value. -/
theorem read_of_tooManyDigits {digits blank : List Char} (hwhole : IsWhole digits)
    (hmany : maxIntegerDigits < digits.length) (hblank : Blank blank) :
    read (digits ++ blank) = .error (.tooManyDigits digits.length) := by
  have hnumber := readNumber?_whole false hwhole (endsNumber_blank hblank)
  rw [if_pos hmany] at hnumber
  obtain ⟨c, cs, rfl⟩ := List.exists_cons_of_ne_nil hwhole.ne_nil
  have hc : c.isDigit = true := hwhole.allDigits c List.mem_cons_self
  have hmark : ¬((c :: cs ++ blank).head? == some '\uFEFF') = true := by
    rw [beq_iff_eq]
    rintro heq
    cases heq
    exact absurd hc (by decide)
  have hstart : skipBlanks (c :: (cs ++ blank)) = c :: (cs ++ blank) := by
    refine skipBlanks_cons fun hmem => ?_
    have hno : ∀ d ∈ [' ', '\t', '\n', '\r'], ¬d.isDigit = true := by simp
    exact hno c hmem hc
  rw [read, if_neg hmark, List.cons_append, hstart, readValue_of_isDigit hc, ← List.cons_append,
    hnumber]
  rfl

namespace IsReadable

variable {v : Value} {text : String}

theorem read_write {layout : Layout} (h : IsReadable v) (hwrite : write layout v = .ok text) :
    read text.toList = .ok (reread v) :=
  (h.readAs hwrite).read_eq

theorem read_encode (h : IsReadable v) (hwrite : encode v = .ok text) :
    read text.toList = .ok (reread v) :=
  (h.readAs hwrite).read_eq

end IsReadable

end GuestCode.Json
