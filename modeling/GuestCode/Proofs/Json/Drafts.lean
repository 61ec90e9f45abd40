import GuestCode.Json.Draft
import GuestCode.Proofs.Data.Outcome

/-!
# Whole and broken texts

The draft of a value is its JSON text, or breaks off. It breaks off at what JSON cannot hold and at
integers with too many digits, and at nothing else.

## Main statements

* `Json.fault_draft_eq_none_iff`: the values whose text does not break off.
* `Json.draft_eq_whole`: where it does not, the draft is the text.
* `Json.isRefusal_of_draft`: why it breaks off.
-/

namespace GuestCode

/-! ## Drafts -/

namespace Draft

theorem whole_followedBy (text : String) (draft : Draft) :
    (whole text).followedBy draft = ⟨text ++ draft.text, draft.fault⟩ := rfl

theorem whole_followedBy_whole (text text' : String) :
    (whole text).followedBy (whole text') = whole (text ++ text') := rfl

theorem followedBy_followedBy (first second third : Draft) :
    (first.followedBy second).followedBy third = first.followedBy (second.followedBy third) := by
  rcases first with ⟨text, _ | f⟩
  · rcases second with ⟨text', _ | f⟩
    · simp [followedBy, String.append_assoc]
    · rfl
  · rfl

theorem fault_followedBy {draft next : Draft} {f : Failure} (h : draft.fault = some f) :
    (draft.followedBy next).fault = some f := by
  rw [followedBy, h]
  exact h

end Draft

namespace Json

variable (layout : Layout)

/-- Why a JSON text breaks off: at an integer with too many digits, or at what JSON cannot hold. -/
inductive IsRefusal : Failure → Prop where
  | long : IsRefusal Value.tooManyDigits
  | unsupported (e : WriteError) : IsRefusal (refusal e)

/-- A draft that is some text after a break, or breaks off where there is none. -/
inductive Drafted (lead : String) (written : Except WriteError String) (long : Bool)
    (draft : Draft) : Prop where
  | whole {text : String} (written_eq : written = .ok text) (short : long = false)
      (draft_eq : draft = .whole (lead ++ text))
  | broken {f : Failure} (cause : long = true ∨ ∃ e, written = .error e)
      (fault : draft.fault = some f) (refused : IsRefusal f)

/-- Several items, each with a break before it. -/
def withBreaks (lead separator : String) (items : List String) : String :=
  if items.isEmpty then "" else lead ++ separator.intercalate items

theorem withBreaks_cons (lead separator text : String) (others : List String) :
    withBreaks lead separator (text :: others) =
      lead ++ text ++ withBreaks separator separator others := by
  cases others with
  | nil => simp [withBreaks]
  | cons => simp [withBreaks, String.intercalate_cons_cons, String.append_assoc]

theorem bracketed_eq (level : Nat) (opening closing : String) {items : List String}
    (h : items ≠ []) :
    bracketed layout level opening closing items =
      opening ++ itemBreak layout (level + 1) ++
        (itemSeparator layout (level + 1)).intercalate items ++ itemBreak layout level ++
        closing := by
  have hitems : items.isEmpty = false := by simpa using h
  rw [bracketed, hitems, if_neg Bool.false_ne_true, itemBreak, itemBreak, itemSeparator, itemBreak]
  cases layout.indent with
  | none => simp
  | some width => simp [String.append_assoc]

section Parts

variable {lead separator : String} {written : Except WriteError String}
  {parts : Except WriteError (List String)} {long longParts : Bool} {draft draftParts : Draft}

/-- Text that is written before a value belongs to its text. -/
theorem Drafted.after (h : Drafted "" written long draft) (before text : String) :
    Drafted before (written.map (text ++ ·)) long
      ((Draft.whole (before ++ text)).followedBy draft) := by
  cases h with
  | broken cause fault refused =>
    refine .broken (cause.imp_right ?_) fault refused
    rintro ⟨e, rfl⟩
    exact ⟨e, rfl⟩
  | whole written_eq short draft_eq =>
    subst written_eq draft_eq
    exact .whole rfl short (by simp [Draft.whole_followedBy_whole, String.append_assoc])

/-- Items are written one after the other. -/
theorem Drafted.cons (h : Drafted lead written long draft)
    (hparts : Drafted "" (parts.map (withBreaks separator separator)) longParts draftParts) :
    Drafted "" ((do return (← written) :: (← parts)).map (withBreaks lead separator))
      (long || longParts) (draft.followedBy draftParts) := by
  cases h with
  | broken cause fault refused =>
    refine .broken ?_ (Draft.fault_followedBy fault) refused
    rcases cause with rfl | ⟨e, rfl⟩
    · exact .inl rfl
    · exact .inr ⟨e, rfl⟩
  | whole written_eq short draft_eq =>
    subst written_eq short draft_eq
    cases hparts with
    | broken cause fault refused =>
      refine .broken (cause.imp_right ?_) fault refused
      rintro ⟨e, he⟩
      rcases parts with e' | texts
      · exact ⟨e', rfl⟩
      · cases he
    | whole written_eq short draft_eq =>
      obtain ⟨texts, rfl, rfl⟩ := Outcome.exists_of_map_eq_ok written_eq
      refine .whole rfl short ?_
      rw [draft_eq, Draft.whole_followedBy_whole, withBreaks_cons]
      simp

/-- Items between brackets. -/
theorem Drafted.bracketed {level : Nat} {opening closing before after : String}
    (h : Drafted "" (parts.map (withBreaks after (itemSeparator layout (level + 1)))) long draft)
    (hbefore : before ++ after = lead ++ opening ++ itemBreak layout (level + 1))
    (hne : parts ≠ .ok []) :
    Drafted lead (parts.map (bracketed layout level opening closing)) long
      ((Draft.whole before).followedBy
        (draft.followedBy (.whole (itemBreak layout level ++ closing)))) := by
  cases h with
  | broken cause fault refused =>
    refine .broken (cause.imp_right ?_) ?_ refused
    · rintro ⟨e, he⟩
      rcases parts with e' | texts
      · exact ⟨e', rfl⟩
      · cases he
    · rw [Draft.whole_followedBy]
      exact Draft.fault_followedBy fault
  | whole written_eq short draft_eq =>
    obtain ⟨texts, rfl, rfl⟩ := Outcome.exists_of_map_eq_ok written_eq
    have htexts : texts ≠ [] := fun hnil => hne (hnil ▸ rfl)
    refine .whole rfl short ?_
    rw [draft_eq, Draft.whole_followedBy_whole, Draft.whole_followedBy_whole, withBreaks,
      if_neg (by simpa using htexts), bracketed_eq layout level opening closing htexts]
    have hrest : ∀ rest, before ++ (after ++ rest) =
        lead ++ (opening ++ (itemBreak layout (level + 1) ++ rest)) := by
      intro rest
      rw [← String.append_assoc, hbefore]
      simp only [String.append_assoc]
    simp only [String.append_assoc, String.empty_append, hrest]

end Parts

theorem writeItems_ne_nil {level : Nat} {fallback : Value → Except WriteError String} {v : Value}
    {rest : List Value} : writeItems layout fallback level (v :: rest) ≠ .ok [] := by
  intro h
  obtain ⟨first, -, h⟩ := Outcome.exists_of_bind_eq_ok h
  obtain ⟨others, -, h⟩ := Outcome.exists_of_bind_eq_ok h
  cases h

theorem writeEntries_ne_nil {level : Nat} {fallback : Value → Except WriteError String}
    {e : Value × Value} {rest : List (Value × Value)} :
    writeEntries layout fallback level (e :: rest) ≠ .ok [] := by
  intro h
  rw [writeEntries] at h
  split at h
  · cases h
  · obtain ⟨first, -, h⟩ := Outcome.exists_of_bind_eq_ok h
    obtain ⟨others, -, h⟩ := Outcome.exists_of_bind_eq_ok h
    cases h

/-- What the writer does with a value that JSON cannot hold. -/
abbrev refuse (v : Value) : Except WriteError String := .error (.unsupportedValue v.shortKindName)

mutual

theorem drafted_draftAt (level : Nat) (lead : String) (v : Value) :
    Drafted lead (writeAt layout refuse level v) v.holdsLongInteger
      (draftAt layout level lead v) := by
  match v with
  | .int n =>
    rw [draftAt, writeAt, Value.holdsLongInteger]
    split
    · next h => exact .broken (.inl h) rfl .long
    · next h => exact .whole rfl (by simpa using h) rfl
  | .list [] | .tuple [] | .mapping [] => exact .whole rfl rfl rfl
  | .list (first :: rest) | .tuple (first :: rest) =>
    exact (drafted_draftItems (level + 1) _ (first :: rest)).bracketed layout
      (by simp [String.append_assoc]) (writeItems_ne_nil layout)
  | .mapping (e :: rest) =>
    exact (drafted_draftEntries (level + 1) "" (e :: rest)).bracketed layout (by simp)
      (writeEntries_ne_nil layout)
  | .null | .bool _ | .float _ | .text _  => exact .whole rfl rfl rfl
  | .date _ | .moment _ | .bytes _ | .set _ | .knot .. | .again .. =>
    exact .broken (.inr ⟨_, rfl⟩) rfl (.unsupported _)

theorem drafted_draftItems (level : Nat) (lead : String) (items : List Value) :
    Drafted "" ((writeItems layout refuse level items).map
        (withBreaks lead (itemSeparator layout level)))
      (Value.itemsHoldLongInteger items) (draftItems layout level lead items) := by
  match items with
  | [] => exact .whole rfl rfl rfl
  | v :: rest =>
    exact (drafted_draftAt level lead v).cons (drafted_draftItems level _ rest)

theorem drafted_draftEntries (level : Nat) (lead : String) (entries : List (Value × Value)) :
    Drafted "" ((writeEntries layout refuse level entries).map
        (withBreaks lead (itemSeparator layout level)))
      (Value.entriesHoldLongInteger entries) (draftEntries layout level lead entries) := by
  match entries with
  | [] => exact .whole rfl rfl rfl
  | (k, v) :: rest =>
    rw [draftEntries, writeEntries, Value.entriesHoldLongInteger]
    cases keyText? k with
    | none => exact .broken (.inr ⟨_, rfl⟩) rfl (.unsupported _)
    | some key =>
      by_cases hlong : k.holdsLongInteger = true
      · simp only [hlong]
        exact .broken (.inl rfl) rfl .long
      · have hshort : k.holdsLongInteger = false := by simpa using hlong
        have hfirst := (drafted_draftAt level "" v).after lead (quote layout.asciiOnly key ++ ": ")
        have hall := hfirst.cons (drafted_draftEntries level (itemSeparator layout level) rest)
        rw [Draft.followedBy_followedBy, ← String.append_assoc] at hall
        rw [hshort, Bool.false_or]
        dsimp only
        rw [if_neg Bool.false_ne_true]
        have hmap : ∀ {written : Except WriteError String} {parts : Except WriteError (List String)}
            (text : String), (do return (← written.map (text ++ ·)) :: (← parts)) =
              (do
                let first ← written
                let others ← parts
                return (text ++ first) :: others) := by
          intro written parts text
          cases written <;> rfl
        rw [hmap] at hall
        exact hall

end

variable {layout} {v : Value} {text : String}

/-- What JSON can hold, and has no integers with too many digits, is written as a whole. -/
theorem draft_eq_whole (hwrite : write layout v = .ok text) (hshort : v.holdsLongInteger = false) :
    draft layout v = .whole text := by
  cases drafted_draftAt layout 0 "" v with
  | broken cause =>
    rcases cause with hlong | ⟨e, he⟩
    · cases hshort.symm.trans hlong
    · cases he.symm.trans hwrite
  | whole written_eq _ draft_eq =>
    obtain rfl := Except.ok.inj (written_eq.symm.trans hwrite)
    rw [draft, draft_eq, String.empty_append]

/-- The text of a value does not break off if JSON can hold the value, and no integer in it has too
many digits. -/
theorem fault_draft_eq_none_iff :
    (draft layout v).fault = none ↔
      (∃ text, write layout v = .ok text) ∧ v.holdsLongInteger = false := by
  constructor
  · intro hnone
    cases drafted_draftAt layout 0 "" v with
    | broken _ fault => cases fault.symm.trans hnone
    | whole written_eq short => exact ⟨⟨_, written_eq⟩, short⟩
  · rintro ⟨⟨text, hwrite⟩, hshort⟩
    rw [draft_eq_whole hwrite hshort]
    rfl

theorem isRefusal_of_draft {f : Failure} (h : (draft layout v).fault = some f) : IsRefusal f := by
  cases drafted_draftAt layout 0 "" v with
  | broken _ fault refused =>
    obtain rfl := Option.some.inj (fault.symm.trans h)
    exact refused
  | whole _ _ draft_eq =>
    rw [draft, draft_eq] at h
    cases h

end Json

end GuestCode
