import GuestCode.Capability.Guides
import GuestCode.Proofs.Data.Outcome
import GuestCode.Proofs.Data.Sorting
import GuestCode.Proofs.Disk.Folders
import GuestCode.Proofs.Machine.Steps
import Mathlib.Data.List.Lex
import Mathlib.Data.Prod.Lex
import Mathlib.Data.String.Basic

/-!
# Which guides can be listed

A file of guides is passed over if it cannot be read, or if the data in front of it are no YAML. All
other faults of a single file are the end of the list: octets that are no text, and data that can be
read but make no guide, since the priority is infinite, a value that should name things has no
members, or an integer is too long to be shown.

## Main statements

* `Guide.exists_make_iff`: the data that a guide can be made of.
* `Guides.IsPassable`, `Guides.isPassable_iff`: the files that do not spoil the list.
* `Guides.index_eq_ok_iff`: what is listed, and when.
* `Guides.exists_run_search_iff`: when a search for anything finds something.
-/

namespace GuestCode

/-- A failure that is passed over when guides are listed. -/
def Failure.IsPassedOver (failure : Failure) : Prop :=
  (failure.concernsSystem || failure.concernsCapability) = true

/-- An outcome that is no failure but that of a value that does not fit. -/
def MismatchesOnly {α : Type} (outcome : Except Failure α) : Prop :=
  ∀ failure, outcome = .error failure → ∃ kind message, failure = .mismatch kind message

namespace MismatchesOnly

variable {α β : Type}

theorem ok (a : α) : MismatchesOnly (.ok a) := nofun

theorem error (kind : Mismatch) (message : String) :
    MismatchesOnly (.error (.mismatch kind message) : Except Failure α) := by
  intro failure h
  cases h
  exact ⟨kind, message, rfl⟩

theorem bind {x : Except Failure α} {f : α → Except Failure β} (hx : MismatchesOnly x)
    (hf : ∀ a, MismatchesOnly (f a)) : MismatchesOnly (x >>= f) := by
  intro failure h
  rcases Outcome.bind_eq_error_iff.mp h with h | ⟨a, -, h⟩
  · exact hx failure h
  · exact hf a failure h

theorem mapM {f : α → Except Failure β} (hf : ∀ a, MismatchesOnly (f a)) (xs : List α) :
    MismatchesOnly (xs.mapM f) := by
  intro failure h
  obtain ⟨before, x, after, -, hx, -⟩ := Outcome.mapM_eq_error_iff.mp h
  exact hf x failure hx

/-- A value that does not fit is not passed over. -/
theorem not_isPassedOver {outcome : Except Failure α} (h : MismatchesOnly outcome)
    {failure : Failure} (hfailure : outcome = .error failure) : ¬failure.IsPassedOver := by
  obtain ⟨kind, message, rfl⟩ := h failure hfailure
  exact Bool.false_ne_true

end MismatchesOnly

/-! ## Data of guides -/

namespace Value

theorem isLongInteger_zero : isLongInteger 0 = false := by
  have hpos : ∀ digits, 0 < Nat.pow 10 digits := fun _ => Nat.pow_pos (by decide)
  exact decide_eq_false (hpos Text.Numeral.maxDigits).not_ge

/-- What has a long integer in it is not empty. -/
theorem isTruthy_of_holdsLongInteger {v : Value} (h : v.holdsLongInteger = true) :
    v.isTruthy = true := by
  cases v with
  | int n =>
    rw [holdsLongInteger] at h
    refine bne_iff_ne.mpr ?_
    rintro rfl
    rw [isLongInteger_zero] at h
    cases h
  | list items | tuple items | set items | mapping items =>
    cases items with
    | nil => cases h
    | cons => rfl
  | knot label body =>
    rw [holdsLongInteger] at h
    rw [isTruthy]
    exact isTruthy_of_holdsLongInteger h
  | _ => cases h

theorem exists_shown_iff {v : Value} :
    (∃ text, v.shown = .ok text) ↔ v.holdsLongInteger = false := by
  rw [shown]
  split
  · next h => simp [h]
  · next h => simp [h]

/-- A value is a whole number or denotes one, it does not by its kind or by what it says, or it is
infinite. -/
theorem wholeNumber_cases (v : Value) :
    (∃ n, v.wholeNumber = .ok n) ∨
    (∃ kind message, v.wholeNumber = .error (.mismatch kind message) ∧
      (kind = .wrongKind ∨ kind = .wrongValue)) ∨
    ∃ negative, v = .float (.infinite negative) := by
  have hnumeral : ∀ base literal (outcome : Except Text.Numeral.Fault Int),
      (∃ n, outcome.mapError (numeralFailure base literal) = .ok n) ∨
      ∃ kind message, outcome.mapError (numeralFailure base literal) =
        .error (.mismatch kind message) ∧ (kind = .wrongKind ∨ kind = .wrongValue) := by
    rintro base literal (fault | n)
    · cases fault <;> exact .inr ⟨_, _, rfl, .inr rfl⟩
    · exact .inl ⟨n, rfl⟩
  cases v with
  | int n => exact .inl ⟨n, rfl⟩
  | bool b => exact .inl ⟨_, rfl⟩
  | float x =>
    cases x with
    | finite negative mantissa exponent => exact .inl ⟨_, rfl⟩
    | nan => exact .inr (.inl ⟨_, _, rfl, .inr rfl⟩)
    | infinite negative => exact .inr (.inr ⟨negative, rfl⟩)
  | text s => exact (hnumeral _ _ _).imp_right .inl
  | bytes octets => exact (hnumeral _ _ _).imp_right .inl
  | _ => exact .inr (.inl ⟨_, _, rfl, .inl rfl⟩)

theorem mismatchesOnly_shown (v : Value) : MismatchesOnly v.shown := by
  unfold shown
  split
  · exact .error _ _
  · exact .ok _

theorem mismatchesOnly_members (v : Value) : MismatchesOnly v.members := by
  unfold members
  split
  all_goals first | exact .ok _ | exact .error _ _

end Value

/-! ## The order of paths -/

/-- Paths are in order as the pairs of their roots and names are. -/
theorem Path.precedes_eq_false_iff {p q : Path} :
    q.precedes p = false ↔ toLex (p.root, p.names) ≤ toLex (q.root, q.names) := by
  rw [← not_lt, Prod.Lex.toLex_lt_toLex, ← Bool.not_eq_true, Path.precedes]
  simp

namespace Guide

/-- A value that names can be read from: null, or one with members of which each can be shown. -/
def HoldsNames (v : Value) : Prop :=
  v = .null ∨ ∃ members, v.members = .ok members ∧ ∀ w ∈ members, w.holdsLongInteger = false

theorem exists_nameList_iff {v : Value} :
    (∃ names, nameList v = .ok names) ↔ HoldsNames v := by
  have hmembers : (∃ names, (v.members >>= fun members => members.mapM Value.shown) = .ok names) ↔
      ∃ members, v.members = .ok members ∧ ∀ w ∈ members, w.holdsLongInteger = false := by
    rw [Outcome.exists_bind_eq_ok_iff]
    refine exists_congr fun members => and_congr_right fun _ => ?_
    rw [Outcome.exists_mapM_eq_ok_iff]
    exact forall₂_congr fun _ _ => Value.exists_shown_iff
  unfold nameList HoldsNames
  split
  · simp
  · next s =>
    -- The members of a text are its characters.
    refine iff_of_true ⟨_, rfl⟩ (.inr ⟨_, rfl, ?_⟩)
    simp [Value.holdsLongInteger]
  · next hnull _ => rw [hmembers, or_iff_right hnull]

/-- Only an infinite priority is one that cannot be made do with. -/
theorem exists_priorityOf_iff {entries : List (Value × Value)} :
    (∃ n, priorityOf entries = .ok n) ↔
      ∀ negative, Value.field? entries "priority" ≠ some (.float (.infinite negative)) := by
  unfold priorityOf
  rcases hfield : Value.field? entries "priority" with _ | v
  · simp [Value.wholeNumber]
  rw [Option.getD_some]
  rcases Value.wholeNumber_cases v with ⟨n, hn⟩ | ⟨kind, message, hv, hkind⟩ | ⟨negative, rfl⟩
  · rw [hn]
    refine iff_of_true ⟨n, rfl⟩ ?_
    rintro negative heq
    cases Option.some.inj heq
    cases hn
  · rw [hv]
    refine iff_of_true ⟨50, ?_⟩ ?_
    · rcases hkind with rfl | rfl
      · rfl
      · rfl
    · rintro negative heq
      cases Option.some.inj heq
      cases hv
      simp at hkind
  · refine iff_of_false ?_ fun hfinite => hfinite negative rfl
    rintro ⟨n, hn⟩
    cases hn

theorem mismatchesOnly_priorityOf (entries : List (Value × Value)) :
    MismatchesOnly (priorityOf entries) := by
  unfold priorityOf
  rcases Value.wholeNumber_cases ((Value.field? entries "priority").getD (.int 50)) with
    ⟨n, hn⟩ | ⟨kind, message, hv, rfl | rfl⟩ | ⟨negative, hv⟩
  · rw [hn]
    exact .ok n
  · rw [hv]
    exact .ok 50
  · rw [hv]
    exact .ok 50
  · rw [hv]
    exact .error _ _

theorem mismatchesOnly_nameList (v : Value) : MismatchesOnly (nameList v) := by
  unfold nameList
  split
  · exact .ok _
  · exact .ok _
  · exact .bind v.mismatchesOnly_members fun members => .mapM Value.mismatchesOnly_shown members

/-- A text as the last choice is always one that can be shown. -/
theorem holdsLongInteger_firstOf_append (values : List Value) (s : String) :
    (firstOf (values ++ [.text s])).holdsLongInteger = (firstOf values).holdsLongInteger := by
  rw [firstOf, firstOf, List.find?_append]
  cases hfind : values.find? Value.isTruthy with
  | some v => rfl
  | none =>
    -- No value before the text counts as true, so none holds a long integer.
    have hnone : ((values.getLast?).getD .null).holdsLongInteger = false := by
      cases hlast : values.getLast? with
      | none => rfl
      | some v =>
        have hfalse := List.find?_eq_none.mp hfind v (List.mem_of_getLast? hlast)
        exact Bool.eq_false_iff.mpr fun h => hfalse (Value.isTruthy_of_holdsLongInteger h)
    have htext : ((([Value.text s].find? Value.isTruthy)).getD (.text s)) = .text s := by
      rw [List.find?_singleton]
      split <;> rfl
    rw [Option.none_or, List.getLast?_concat, Option.getD_some, htext, Option.getD_none, hnone]
    rfl

theorem firstOf_singleton (v : Value) : firstOf [v] = v := by
  rw [firstOf, List.find?_singleton]
  split <;> rfl

/-- Data that a guide can be made of. -/
structure IsUsable (entries : List (Value × Value)) : Prop where
  finite : ∀ negative, Value.field? entries "priority" ≠ some (.float (.infinite negative))
  texts : ∀ v ∈ [Value.field entries "id",
      firstOf [Value.field entries "summary", Value.field entries "title"],
      Value.field entries "scope", Value.field entries "version"], v.holdsLongInteger = false
  names : ∀ v ∈ [firstOf [Value.field entries "tags", Value.field entries "keywords"],
      Value.field entries "requires", Value.field entries "excludes"], HoldsNames v

theorem exists_shown_firstOf_iff {values : List Value} {s : String} :
    (∃ text, (firstOf (values ++ [.text s])).shown = .ok text) ↔
      (firstOf values).holdsLongInteger = false := by
  rw [Value.exists_shown_iff, holdsLongInteger_firstOf_append]

/-- A guide is made of data exactly if they are usable, whatever the text after them is. -/
theorem exists_make_iff {entries : List (Value × Value)} {body : List Char} {file : String} :
    (∃ guide, make entries body file = .ok guide) ↔ IsUsable entries := by
  have hone : ∀ {v : Value} {s : String}, (∃ text, (firstOf [v, .text s]).shown = .ok text) ↔
      v.holdsLongInteger = false := by
    intro v s
    have h := @exists_shown_firstOf_iff [v] s
    rwa [firstOf_singleton] at h
  have htwo : ∀ {v w : Value} {s : String},
      (∃ text, (firstOf [v, w, .text s]).shown = .ok text) ↔
        (firstOf [v, w]).holdsLongInteger = false :=
    fun {v w s} => @exists_shown_firstOf_iff [v, w] s
  have hpure : ∀ guide : Guide, ∃ g, (pure guide : Except Failure Guide) = .ok g :=
    fun guide => ⟨guide, rfl⟩
  -- No step depends on the outcome of another one, so each has its own condition.
  simp only [make, Outcome.exists_bind_eq_ok_iff, hpure, and_true, exists_and_right,
    exists_priorityOf_iff, hone, htwo, exists_nameList_iff]
  constructor
  · rintro ⟨hfinite, hid, hsummary, htags, hscope, hversion, hrequires, hexcludes⟩
    exact ⟨hfinite, by simp [hid, hsummary, hscope, hversion], by simp [htags, hrequires, hexcludes]⟩
  · rintro ⟨hfinite, htexts, hnames⟩
    simp only [List.forall_mem_cons] at htexts hnames
    obtain ⟨hid, hsummary, hscope, hversion, -⟩ := htexts
    obtain ⟨htags, hrequires, hexcludes, -⟩ := hnames
    exact ⟨hfinite, hid, hsummary, htags, hscope, hversion, hrequires, hexcludes⟩

/-- Data that are not usable are not passed over. -/
theorem mismatchesOnly_make (entries : List (Value × Value)) (body : List Char) (file : String) :
    MismatchesOnly (make entries body file) := by
  unfold make
  refine .bind (mismatchesOnly_priorityOf entries) fun _ => ?_
  refine .bind (Value.mismatchesOnly_shown _) fun _ => ?_
  refine .bind (Value.mismatchesOnly_shown _) fun _ => ?_
  refine .bind (mismatchesOnly_nameList _) fun _ => ?_
  refine .bind (Value.mismatchesOnly_shown _) fun _ => ?_
  refine .bind (Value.mismatchesOnly_shown _) fun _ => ?_
  refine .bind (mismatchesOnly_nameList _) fun _ => ?_
  exact .bind (mismatchesOnly_nameList _) fun _ => .ok _

theorem isUsable_nil : IsUsable [] := by
  refine ⟨nofun, ?_, ?_⟩
  · decide
  · simp only [List.forall_mem_cons]
    exact ⟨.inl rfl, .inl rfl, .inl rfl, by simp⟩

end Guide

namespace Guides

variable {disk : Disk} {workdir : Place} {folder file : Path}

/-! ## Files of guides -/

/-- A file of guides that does not spoil the list: one that cannot be read, or one with a text that
has no data in front, data that are no YAML, or data that a guide can be made of. -/
inductive IsPassable (disk : Disk) (workdir : Place) (folder file : Path) : Prop where
  | unreadable {failure : Failure} (unread : disk.read workdir file = .error failure)
      (passedOver : failure.IsPassedOver)
  | plain {text : List Char} (read : disk.readText workdir file = .ok text)
      (noData : Guide.frontMatter.matchAt? (.ofText (Guide.joinLineEnds text)) = none)
  | refused {text : List Char} {m : Text.Pattern.Found} {failure : Failure}
      (read : disk.readText workdir file = .ok text)
      (found : Guide.frontMatter.matchAt? (.ofText (Guide.joinLineEnds text)) = some m)
      (data : Guide.dataOf (m.captured 1) (nameInside folder file) = .error failure)
      (passedOver : failure.IsPassedOver)
  | usable {text : List Char} {m : Text.Pattern.Found} {entries : List (Value × Value)}
      (read : disk.readText workdir file = .ok text)
      (found : Guide.frontMatter.matchAt? (.ofText (Guide.joinLineEnds text)) = some m)
      (data : Guide.dataOf (m.captured 1) (nameInside folder file) = .ok entries)
      (usable : Guide.IsUsable entries)

/-- A text with data in front makes the guide that the data and the text after them make. -/
theorem parse_of_found {text : List Char} {m : Text.Pattern.Found} {name : String}
    (hfound : Guide.frontMatter.matchAt? (.ofText (Guide.joinLineEnds text)) = some m) :
    Guide.parse text name = Guide.dataOf (m.captured 1) name >>= fun entries =>
      Guide.make entries (Text.trim m.after) name := by
  rw [Guide.parse, Guide.divide, hfound]
  dsimp only
  cases Guide.dataOf (m.captured 1) name with
  | error failure => rfl
  | ok entries => rfl

theorem parse_of_plain {text : List Char} {name : String}
    (hnone : Guide.frontMatter.matchAt? (.ofText (Guide.joinLineEnds text)) = none) :
    Guide.parse text name = Guide.make [] (Text.trim (Guide.joinLineEnds text)) name := by
  rw [Guide.parse, Guide.divide, hnone]
  dsimp only [bind, Except.bind]

theorem read_of_readText {text : List Char} (h : disk.readText workdir file = .ok text) :
    read disk workdir folder file = Guide.parse text (nameInside folder file) := by
  rw [read, h]
  rfl

/-- What fails for a file that does not spoil the list is passed over. -/
theorem IsPassable.isPassedOver (h : IsPassable disk workdir folder file) {failure : Failure}
    (hfailure : read disk workdir folder file = .error failure) : failure.IsPassedOver := by
  cases h with
  | unreadable unread passedOver =>
    rw [read, Disk.readText, unread] at hfailure
    cases hfailure
    exact passedOver
  | plain hread noData =>
    obtain ⟨guide, hguide⟩ := Guide.exists_make_iff.mpr Guide.isUsable_nil
    rw [read_of_readText hread, parse_of_plain noData, hguide] at hfailure
    cases hfailure
  | refused hread found data passedOver =>
    rw [read_of_readText hread, parse_of_found found, data] at hfailure
    cases hfailure
    exact passedOver
  | usable hread found data husable =>
    obtain ⟨guide, hguide⟩ := Guide.exists_make_iff.mpr husable
    rw [read_of_readText hread, parse_of_found found, data] at hfailure
    cases hguide.symm.trans hfailure

theorem isPassable_iff : IsPassable disk workdir folder file ↔
    ∀ failure, read disk workdir folder file = .error failure → failure.IsPassedOver := by
  refine ⟨fun h _ => h.isPassedOver, fun h => ?_⟩
  cases hoctets : disk.read workdir file with
  | error failure =>
    refine .unreadable hoctets (h failure ?_)
    rw [read, Disk.readText, hoctets]
    rfl
  | ok octets =>
    cases hdecoded : Utf8.decode octets with
    | error flaw =>
      -- Octets that are no text are a value that does not fit.
      have hread : read disk workdir folder file =
          .error (.mismatch .undecodable flaw.message) := by
        rw [read, Disk.readText, hoctets]
        dsimp only [bind, Except.bind]
        rw [hdecoded]
      exact absurd (h _ hread) Bool.false_ne_true
    | ok text =>
      have hread : disk.readText workdir file = .ok (Utf8.universalLineEnds text) := by
        rw [Disk.readText, hoctets]
        dsimp only [bind, Except.bind]
        rw [hdecoded]
        rfl
      cases hfound : Guide.frontMatter.matchAt?
          (.ofText (Guide.joinLineEnds (Utf8.universalLineEnds text))) with
      | none => exact .plain hread hfound
      | some m =>
        have hparse := (read_of_readText hread).trans (@parse_of_found _ m (nameInside folder file) hfound)
        cases hdata : Guide.dataOf (m.captured 1) (nameInside folder file) with
        | error failure =>
          refine .refused hread hfound hdata (h failure ?_)
          rw [hparse, hdata]
          rfl
        | ok entries =>
          rw [hdata] at hparse
          cases hmake : Guide.make entries (Text.trim m.after) (nameInside folder file) with
          | ok guide => exact .usable hread hfound hdata (Guide.exists_make_iff.mp ⟨guide, hmake⟩)
          | error failure =>
            have hpassed := h failure (hparse.trans hmake)
            exact absurd hpassed ((Guide.mismatchesOnly_make _ _ _).not_isPassedOver hmake)

/-! ## The list -/

theorem read?_eq_ok_iff {found : Option Guide} : read? disk workdir folder file = .ok found ↔
    IsPassable disk workdir folder file ∧ found = (read disk workdir folder file).toOption := by
  rw [isPassable_iff, read?]
  cases read disk workdir folder file with
  | ok guide => simp [Except.toOption, eq_comm]
  | error failure =>
    have hpassed : (∀ f, (Except.error failure : Except Failure Guide) = .error f →
        f.IsPassedOver) ↔ (failure.concernsSystem || failure.concernsCapability) = true :=
      ⟨fun h => h failure rfl, fun h f hf => by cases hf; exact h⟩
    rw [hpassed]
    dsimp only
    split
    · next h => simp [h, Except.toOption, eq_comm]
    · next h => simp [h]

theorem read?_eq_error_iff {failure : Failure} : read? disk workdir folder file = .error failure ↔
    read disk workdir folder file = .error failure ∧ ¬failure.IsPassedOver := by
  rw [read?, Failure.IsPassedOver]
  cases read disk workdir folder file with
  | ok guide => simp
  | error other =>
    dsimp only
    split
    · next h =>
      refine iff_of_false nofun ?_
      rintro ⟨heq, hkept⟩
      cases heq
      exact hkept h
    · next h =>
      constructor
      · intro heq
        cases heq
        exact ⟨rfl, h⟩
      · rintro ⟨heq, -⟩
        cases heq
        rfl

/-- Guides are listed exactly if no file spoils the list, and then they are those of all the files
that a guide can be read from. -/
theorem index_eq_ok_iff {guides : List Guide} : index disk workdir folder = .ok guides ↔
    ∃ paths, files disk workdir folder = .ok paths ∧
      (∀ file ∈ paths, IsPassable disk workdir folder file) ∧
      guides = paths.filterMap fun file => (read disk workdir folder file).toOption := by
  rw [index]
  constructor
  · intro h
    obtain ⟨paths, hpaths, h⟩ := Outcome.exists_of_bind_eq_ok h
    obtain ⟨found, hfound, h⟩ := Outcome.exists_of_bind_eq_ok h
    have hpassable : ∀ file ∈ paths, IsPassable disk workdir folder file := by
      intro file hfile
      obtain ⟨guide, hguide⟩ := Outcome.exists_mapM_eq_ok_iff.mp ⟨found, hfound⟩ file hfile
      exact (read?_eq_ok_iff.mp hguide).1
    have hall := Outcome.mapM_eq_ok_map fun file hfile =>
      read?_eq_ok_iff.mpr ⟨hpassable file hfile, rfl⟩
    cases hall.symm.trans hfound
    cases h
    exact ⟨paths, hpaths, hpassable, by rw [List.filterMap_map]; rfl⟩
  · rintro ⟨paths, hpaths, hpassable, rfl⟩
    have hall := Outcome.mapM_eq_ok_map fun file hfile =>
      read?_eq_ok_iff.mpr ⟨hpassable file hfile, rfl⟩
    rw [hpaths]
    dsimp only [bind, Except.bind]
    rw [hall]
    dsimp only [pure, Except.pure]
    rw [List.filterMap_map]
    rfl

/-- The list fails with what fails for the first file that spoils it. -/
theorem index_eq_error_iff {paths : List Path} {failure : Failure}
    (hpaths : files disk workdir folder = .ok paths) :
    index disk workdir folder = .error failure ↔ ∃ before file after,
      paths = before ++ file :: after ∧ (∀ f ∈ before, IsPassable disk workdir folder f) ∧
      read disk workdir folder file = .error failure ∧ ¬failure.IsPassedOver := by
  have hfirst : ∀ before : List Path, (∀ f ∈ before, ∃ found,
      read? disk workdir folder f = .ok found) ↔
        ∀ f ∈ before, IsPassable disk workdir folder f := by
    intro before
    refine forall₂_congr fun f _ => ?_
    simp only [read?_eq_ok_iff, exists_and_left, exists_eq, and_true]
  have hfails : index disk workdir folder = .error failure ↔
      paths.mapM (read? disk workdir folder) = .error failure := by
    rw [index, hpaths]
    dsimp only [bind, Except.bind]
    cases paths.mapM (read? disk workdir folder) with
    | error other => simp
    | ok found => simp [pure, Except.pure]
  rw [hfails, Outcome.mapM_eq_error_iff]
  simp only [read?_eq_error_iff, hfirst]
  constructor
  · rintro ⟨before, file, after, heq, hfile, hbefore⟩
    exact ⟨before, file, after, heq, hbefore, hfile⟩
  · rintro ⟨before, file, after, heq, hbefore, hfile⟩
    exact ⟨before, file, after, heq, hfile, hbefore⟩

/-! ## The files of a folder -/

/-- A file of guides that is so many folders deep in a folder, none of which is a link. -/
inductive IsWithin (disk : Disk) (workdir : Place) : Nat → Path → Path → Prop where
  | own {folder : Path} {name : String} (listed : name ∈ disk.names workdir folder)
      (named : isGuideName name = true) : IsWithin disk workdir 0 folder (folder.child name)
  | inner {depth : Nat} {folder file : Path} {name : String}
      (listed : name ∈ disk.names workdir folder)
      (entered : disk.isFolder workdir (folder.child name) = .ok true)
      (noLink : disk.isLink workdir (folder.child name) = false)
      (within : IsWithin disk workdir depth (folder.child name) file) :
      IsWithin disk workdir (depth + 1) folder file

/-- The files that are found are all those that are not too deep. -/
theorem mem_filesUpTo {limit : Nat} {paths : List Path}
    (h : filesUpTo disk workdir limit folder = .ok paths) :
    file ∈ paths ↔ ∃ depth < limit, IsWithin disk workdir depth folder file := by
  induction limit generalizing folder paths with
  | zero =>
    cases h
    simp
  | succ limit ih =>
    rw [filesUpTo] at h
    obtain ⟨inner, hinner, h⟩ := Outcome.exists_of_bind_eq_ok h
    cases h
    rw [List.mem_append, List.mem_map, List.mem_flatten]
    constructor
    · rintro (⟨name, hname, rfl⟩ | ⟨deeper, hdeeper, hfile⟩)
      · obtain ⟨hlisted, hnamed⟩ := List.mem_filter.mp hname
        exact ⟨0, Nat.succ_pos _, .own hlisted hnamed⟩
      · obtain ⟨name, hlisted, hname⟩ := (Outcome.mem_of_mapM_eq_ok hinner).mp hdeeper
        obtain ⟨entered, hentered, hname⟩ := Outcome.exists_of_bind_eq_ok hname
        split at hname
        · next hreal =>
          obtain ⟨rfl, hlink⟩ := Bool.and_eq_true_iff.mp hreal
          obtain ⟨depth, hdepth, hwithin⟩ := (ih hname).mp hfile
          exact ⟨depth + 1, Nat.succ_lt_succ hdepth,
            .inner hlisted hentered (by simpa using hlink) hwithin⟩
        · cases hname
          cases hfile
    · rintro ⟨depth, hdepth, hwithin⟩
      cases hwithin with
      | own listed named => exact .inl ⟨_, List.mem_filter.mpr ⟨listed, named⟩, rfl⟩
      | @inner depth _ _ name listed entered noLink within =>
        -- The folder was entered, and all went well in it since all went well.
        obtain ⟨deeper, hdeeper⟩ := Outcome.exists_mapM_eq_ok_iff.mp ⟨inner, hinner⟩ name listed
        refine .inr ⟨deeper, (Outcome.mem_of_mapM_eq_ok hinner).mpr ⟨name, listed, hdeeper⟩, ?_⟩
        dsimp only at hdeeper
        rw [entered, noLink] at hdeeper
        exact (ih hdeeper).mpr ⟨depth, Nat.lt_of_succ_lt_succ hdepth, within⟩

theorem mem_files {paths : List Path} (h : files disk workdir folder = .ok paths) :
    file ∈ paths ↔ disk.isFolder workdir folder = .ok true ∧
      ∃ depth ≤ disk.entries.length, IsWithin disk workdir depth folder file := by
  obtain ⟨there, hthere, h⟩ := Outcome.exists_of_bind_eq_ok h
  cases there with
  | false =>
    cases h
    simp [hthere]
  | true =>
    obtain ⟨found, hfound, h⟩ := Outcome.exists_of_bind_eq_ok h
    cases h
    rw [List.mem_mergeSort, mem_filesUpTo hfound, and_iff_right hthere]
    simp only [Nat.lt_succ_iff]

/-- The files come in the order of their paths. -/
theorem pairwise_files {paths : List Path} (h : files disk workdir folder = .ok paths) :
    paths.Pairwise fun p q => q.precedes p = false := by
  obtain ⟨there, hthere, h⟩ := Outcome.exists_of_bind_eq_ok h
  cases there with
  | false =>
    cases h
    exact .nil
  | true =>
    obtain ⟨found, hfound, h⟩ := Outcome.exists_of_bind_eq_ok h
    cases h
    have hsorted := @List.pairwise_mergeSort _ (fun p q : Path => !q.precedes p)
      (fun p q r hpq hqr => by
        simp only [Bool.not_eq_true', Path.precedes_eq_false_iff] at hpq hqr ⊢
        exact hpq.trans hqr)
      (fun p q => by
        simp only [Bool.or_eq_true, Bool.not_eq_true', Path.precedes_eq_false_iff]
        exact le_total _ _) found
    exact hsorted.imp (by simp)

/-! ## Search for anything -/

/-- A guide whose tenth of its priority is not too large to be a score. -/
def HasScore (g : Guide) : Prop :=
  ∀ negative, Binary64.ofRatio (decide (g.priority < 0)) g.priority.natAbs 10 ≠ .infinite negative

theorem exists_score_iff {points : Nat} {g : Guide} :
    (∃ s, score points g = .ok s) ↔ HasScore g := by
  unfold score HasScore
  split
  · next negative hinfinite =>
    refine iff_of_false (by simp) fun h => h negative hinfinite
  · next hfinite => exact iff_of_true ⟨_, rfl⟩ fun negative h => hfinite negative h

/-- Without keywords each guide is found, with its score. -/
theorem scored_nil {guides : List Guide} {found : List (Binary64 × Guide)}
    (h : scored [] guides = .ok found) : found.map Prod.snd = guides := by
  induction guides generalizing found with
  | nil =>
    cases h
    rfl
  | cons g rest ih =>
    obtain ⟨s, -, h⟩ := Outcome.exists_of_bind_eq_ok h
    obtain ⟨others, hothers, h⟩ := Outcome.exists_of_bind_eq_ok h
    cases h
    rw [List.map_cons, ih hothers]

theorem exists_scored_nil_iff {guides : List Guide} :
    (∃ found, scored [] guides = .ok found) ↔ ∀ g ∈ guides, HasScore g := by
  induction guides with
  | nil => exact iff_of_true ⟨[], rfl⟩ (by simp)
  | cons g rest ih =>
    have hstep : scored [] (g :: rest) = score (matchOf [] g) g >>= fun s =>
      scored [] rest >>= fun others => .ok ((s, g) :: others) := rfl
    rw [hstep, Outcome.exists_bind_eq_ok_iff, List.forall_mem_cons, ← ih, ← @exists_score_iff
      (matchOf [] g)]
    constructor
    · rintro ⟨s, hs, hothers⟩
      obtain ⟨others, hothers, -⟩ := Outcome.exists_bind_eq_ok_iff.mp hothers
      exact ⟨⟨s, hs⟩, others, hothers⟩
    · rintro ⟨⟨s, hs⟩, others, hothers⟩
      exact ⟨s, hs, Outcome.exists_bind_eq_ok_iff.mpr ⟨others, hothers, _, rfl⟩⟩

/-- What a search tells its caller of a guide. -/
def report (found : Binary64 × Guide) : Value :=
  Value.record
    [("id", .text found.2.id), ("score", .float found.1), ("summary", .text found.2.summary),
      ("filePath", .text found.2.file), ("tags", Value.texts found.2.tags),
      ("priority", .int found.2.priority)]

/-- What a search tells its caller. -/
def searchReply (found : List (Binary64 × Guide)) : Value :=
  Value.record [("guides", .list (found.map report))]

/-- A search for anything gives the guides their scores and tells of the ten with the highest. -/
theorem run_search_null {m : Machine} :
    (search folder .null).run m =
      (do
        let found ← scored [] (← index m.disk m.workdir folder)
        return searchReply ((← Value.sortDescending (fun f => .float f.1) found).take 10), m) := by
  have hentries : Value.null.optionalEntries = .ok [] := rfl
  have hkeywords : Guide.nameList (Value.field [] "keywords") = .ok [] := rfl
  have hlimit : (Guide.firstOf [Value.field [] "limit", .int 10]).wholeNumber = .ok 10 := rfl
  simp only [search, Action.run_bind, Action.run_ofExcept, hentries, hkeywords, hlimit,
    Action.run_onDisk]
  cases index m.disk m.workdir folder with
  | error failure => rfl
  | ok guides =>
    dsimp only [bind, Except.bind]
    rw [List.map_nil]
    cases scored [] guides with
    | error failure => rfl
    | ok found =>
      dsimp only
      cases Value.sortDescending (fun f : Binary64 × Guide => .float f.1) found with
      | error failure => rfl
      | ok sorted => rfl

/-- Scores can be compared. -/
theorem exists_sortDescending (found : List (Binary64 × Guide)) :
    ∃ sorted, Value.sortDescending (fun f => .float f.1) found = .ok sorted ∧
      sorted.Perm found := by
  have hcompared : ∀ f ∈ found, ∀ g ∈ found,
      ∃ before, Value.less (.float f.1) (.float g.1) = .ok before :=
    fun f _ g _ => @Value.exists_less_of_orderKind _ _ .number rfl rfl (by decide)
  obtain ⟨sorted, hsorted, hperm, -⟩ :=
    (Value.sorts_sortDescending (fun f : Binary64 × Guide => .float f.1) found).exists_ok hcompared
  exact ⟨sorted, hsorted, hperm⟩

/-- A search for anything succeeds exactly if the guides can be listed and each has a score. -/
theorem exists_run_search_iff {m : Machine} :
    (∃ reply, (search folder .null).run m = (.ok reply, m)) ↔
      ∃ guides, index m.disk m.workdir folder = .ok guides ∧ ∀ g ∈ guides, HasScore g := by
  simp only [run_search_null, Prod.mk.injEq, and_true, Outcome.exists_bind_eq_ok_iff]
  refine exists_congr fun guides => and_congr_right fun _ => ?_
  rw [← exists_scored_nil_iff]
  refine exists_congr fun found => and_iff_left ?_
  obtain ⟨sorted, hsorted, -⟩ := exists_sortDescending found
  exact ⟨sorted, hsorted, _, rfl⟩

/-- One bad file can hide all guides: exactly those that `IsPassable` leaves out do, and the list fails
with what fails for the first of them. Otherwise all guides are listed that can be read, in the order
of the paths of their files. -/
theorem index_passes_over (folder : Path) (m : Machine) :
    (∀ guides, index m.disk m.workdir folder = .ok guides ↔
      ∃ paths, files m.disk m.workdir folder = .ok paths ∧
        (∀ file ∈ paths, IsPassable m.disk m.workdir folder file) ∧
        guides = paths.filterMap fun file => (read m.disk m.workdir folder file).toOption) ∧
    (∀ paths, files m.disk m.workdir folder = .ok paths →
      (paths.Pairwise fun p q => q.precedes p = false) ∧
      (∀ file, file ∈ paths ↔ m.disk.isFolder m.workdir folder = .ok true ∧
        ∃ depth ≤ m.disk.entries.length, IsWithin m.disk m.workdir depth folder file) ∧
      ∀ failure, index m.disk m.workdir folder = .error failure ↔ ∃ before file after,
        paths = before ++ file :: after ∧
        (∀ f ∈ before, IsPassable m.disk m.workdir folder f) ∧
        read m.disk m.workdir folder file = .error failure ∧ ¬failure.IsPassedOver) ∧
    ((∃ reply, (search folder .null).run m = (.ok reply, m)) ↔
      ∃ guides, index m.disk m.workdir folder = .ok guides ∧ ∀ g ∈ guides, HasScore g) ∧
    ∀ reply n, (search folder .null).run m = (.ok reply, n) →
      ∃ sorted : List (Binary64 × Guide), reply = searchReply (sorted.take 10) ∧
        ∃ guides, index m.disk m.workdir folder = .ok guides ∧ (sorted.map Prod.snd).Perm guides := by
  refine ⟨fun _ => index_eq_ok_iff, fun paths hpaths => ?_, exists_run_search_iff, ?_⟩
  · exact ⟨pairwise_files hpaths, fun _ => mem_files hpaths, fun _ => index_eq_error_iff hpaths⟩
  · intro reply n h
    rw [run_search_null] at h
    obtain ⟨h, -⟩ := Prod.mk.inj h
    obtain ⟨guides, hguides, h⟩ := Outcome.exists_of_bind_eq_ok h
    obtain ⟨found, hfound, h⟩ := Outcome.exists_of_bind_eq_ok h
    obtain ⟨sorted, hsorted, hperm⟩ := exists_sortDescending found
    rw [hsorted] at h
    cases h
    exact ⟨sorted, rfl, guides, hguides, scored_nil hfound ▸ hperm.map Prod.snd⟩

/-! ## A file that is no text -/

/-- A disk with a file of guides that is no text, and a guide. -/
def spoiltDisk : Disk :=
  ⟨[(["guides"], .folder), (["guides", "bad.md"], .file [0xff]),
    (["guides", "good.md"], .file (Utf8.encode "# Good".toList))]⟩

/-- The folder of the guides. -/
def guidesFolder : Path := ⟨"", ["guides"]⟩

theorem locate_spoiltDisk {name : String} {octets : List UInt8}
    (hname : Disk.IsPlain (guidesFolder.child name))
    (hthere : spoiltDisk.entry? ["guides", name] = some (.file octets)) :
    spoiltDisk.locate [] .thing (guidesFolder.child name) =
      .ok (.found ["guides", name] (.file octets)) := by
  refine hname.locate_eq (fun k hk => ?_) hthere nofun
  match k, hk with
  | 0, _ | 1, _ => rfl

/-- What is said in a file of the spoilt disk. -/
theorem read_spoiltDisk {name : String} {octets : List UInt8}
    (hname : Disk.IsPlain (guidesFolder.child name))
    (hthere : spoiltDisk.entry? ["guides", name] = some (.file octets)) :
    spoiltDisk.read [] (guidesFolder.child name) = .ok octets :=
  Disk.Holds.read ⟨hname.noNul, locate_spoiltDisk hname hthere⟩

/-- A guide is not listed since another file is no text. -/
theorem index_spoiltDisk :
    (∀ guides, index spoiltDisk [] guidesFolder ≠ .ok guides) ∧
    ∃ guide, read spoiltDisk [] guidesFolder (guidesFolder.child "good.md") = .ok guide ∧
      guide.summary = "Good" := by
  have hbad : Disk.IsPlain (guidesFolder.child "bad.md") := ⟨rfl, by decide, by decide⟩
  have hgood : Disk.IsPlain (guidesFolder.child "good.md") := ⟨rfl, by decide, by decide⟩
  constructor
  · intro guides h
    obtain ⟨paths, hpaths, hpassable, -⟩ := index_eq_ok_iff.mp h
    have hfolder : Disk.IsPlain guidesFolder := ⟨rfl, by decide, by decide⟩
    have hlocate : spoiltDisk.locate [] .thing guidesFolder = .ok (.found ["guides"] .folder) := by
      refine hfolder.locate_eq (fun k hk => ?_) rfl nofun
      match k, hk with
      | 0, _ => rfl
    have hlisted : "bad.md" ∈ spoiltDisk.names [] guidesFolder :=
      (Disk.mem_names hlocate).mpr ⟨_, rfl⟩
    have hfile : guidesFolder.child "bad.md" ∈ paths := (mem_files hpaths).mpr
      ⟨Disk.isFolder_of_locate rfl hlocate, 0, Nat.zero_le _, .own hlisted (by decide)⟩
    -- Its octets are no text, which is not passed over.
    have hread : read spoiltDisk [] guidesFolder (guidesFolder.child "bad.md") =
        .error (.mismatch .undecodable (Utf8.Flaw.message ⟨0, [0xff], .invalidStart⟩)) := by
      rw [read, Disk.readText, read_spoiltDisk hbad rfl]
      rfl
    exact Bool.false_ne_true ((hpassable _ hfile).isPassedOver hread)
  · have hread : spoiltDisk.readText [] (guidesFolder.child "good.md") = .ok "# Good".toList := by
      rw [Disk.readText, read_spoiltDisk hgood rfl]
      decide +kernel
    have hsummary : (Guide.parse "# Good".toList
        (nameInside guidesFolder (guidesFolder.child "good.md"))).toOption.map Guide.summary =
          some "Good" := by
      decide +kernel
    obtain ⟨guide, hguide, heq⟩ := Option.map_eq_some_iff.mp hsummary
    exact ⟨guide, (read_of_readText hread).trans (Outcome.eq_ok_of_toOption hguide), heq⟩

end Guides

end GuestCode
