import GuestCode.Proofs.Rewrite.ModuleImports
import GuestCode.Proofs.Rewrite.ModuleLists

/-!
# Removing module syntax

Six rules are applied one after the other, one for each form of declarations. All but the one for
lists go over a program item by item: in its turn a declaration that is recognised becomes what is
left of it, and no other rule changes it before or after.

A list with nothing behind the names takes all blanks behind it, so that the items behind it go up
until one is not blank. Such a program is settled from the right: a rest is settled if the rule
makes of its lines what it should, and also of what stands behind the blanks in front of them.

## Main statements

* `ModuleSyntax.removeImports_text`: what the rules for imports make of a program.
* `ModuleSyntax.settle`, `ModuleSyntax.settles`: what the rule for lists makes of a program.
* `ModuleSyntax.normalizeExports_joinLines`: what the other rules for exports make of it.
* `ModuleSyntax.normalizeExports_removeImports`: the rewritten program.
-/

namespace GuestCode

open Text Text.Pattern Grammar Rewrite

namespace ModuleSyntax

variable {rule : Rule} {word : List Char} {program : List Item} {n : Nat}

/-! ## Declarations after some rules -/

namespace Form

/-- Which of the rules is made for a form, in their order. -/
def turn : Form → Nat
  | fromImport _ => 1
  | bareImport _ => 2
  | listExport _ => 3
  | starExport _ => 4
  | defaultExport _ => 5
  | declaredExport _ => 6

/-- What a declaration is after the first rules. -/
def after (n : Nat) (form : Form) : List Char := if form.turn ≤ n then form.left else form.text

/-- Blanks are left of a declaration that is recognised, unless it exports what stands behind it. -/
theorem isBlank_of_mem_left {form : Form} (hturn : form.turn ≤ 4) (hform : form.IsRecognised) :
    ∀ c ∈ form.left, isBlank c = true := by
  cases form with
  | fromImport d | bareImport d | starExport d =>
    rw [left, if_pos hform]
    exact d.ending.isBlank_of_mem_left
  | listExport d => exact d.close.isBlank_of_mem_left hform
  | defaultExport | declaredExport => exact absurd hturn (by simp [turn])

/-- What is left of a declaration that is recognised is plain. -/
theorem isPlain_left {form : Form} (h : IsPlain form.tail) (hform : form.IsRecognised) :
    IsPlain form.left := by
  by_cases hturn : form.turn ≤ 4
  · exact isPlain_of_isBlank (isBlank_of_mem_left hturn hform)
  cases form with
  | fromImport | bareImport | listExport | starExport => exact absurd (by simp [turn]) hturn
  | defaultExport d =>
    rw [left, if_pos hform]
    exact h.of_infix ⟨d.gap.text ++ ("default".toList ++ d.gap'.text), [], by
      simp [tail, DefaultExport.tail]⟩
  | declaredExport d => exact h.of_infix (List.suffix_append _ _).isInfix

/-- A declaration that is not recognised is left as it is, unless it is a list. -/
theorem left_eq_text {form : Form} (hlist : form.turn ≠ 3) (hform : ¬form.IsRecognised) :
    form.left = form.text := by
  cases form with
  | fromImport | bareImport | starExport | defaultExport => exact if_neg hform
  | listExport => exact absurd rfl hlist
  | declaredExport => exact absurd trivial hform

/-- The other rules pass over a declaration before and after its turn. -/
theorem passes_after {form : Form} (h : Announces word rule.pattern) (hword : word ∈ marks)
    (hplain : IsPlain form.tail) (hlist : form.turn = 3 → n < 3)
    (hpasses : Passes rule form.text (if form.turn = n + 1 then form.left else form.text)) :
    Passes rule (form.after n) (form.after (n + 1)) := by
  rcases Nat.lt_trichotomy form.turn (n + 1) with hlt | heq | hgt
  · rw [after, after, if_pos (by omega), if_pos (by omega)]
    by_cases hform : form.IsRecognised
    · exact h.passes hword (isPlain_left hplain hform word hword)
    · rw [if_neg (by omega)] at hpasses
      rwa [left_eq_text (by omega) hform]
  · rw [if_pos heq] at hpasses
    rwa [after, after, if_neg (by omega), if_pos (by omega)]
  · rw [if_neg (by omega)] at hpasses
    rwa [after, after, if_neg (by omega), if_neg (by omega)]

end Form

/-! ### Each rule -/

theorem import_ne_export : "import".toList ≠ "export".toList := by decide

section Rules

variable (form : Form) (h : IsPlain form.tail)
include h

/-- A rule for the other word passes over a declaration. -/
theorem passes_of_ne (hannounces : Announces word rule.pattern) (hword : word ∈ marks)
    (hne : word ≠ form.word) : Passes rule form.text form.text := by
  have hmark : form.word ∈ marks := by
    cases form with
    | fromImport | bareImport => exact import_mem_marks
    | listExport | starExport | defaultExport | declaredExport => exact export_mem_marks
  exact hannounces.passes hword (not_infix_of_ne hword hmark hne h)

theorem passes_importFrom :
    Passes (.remove importFrom) form.text (if form.turn = 1 then form.left else form.text) := by
  cases form with
  | fromImport d => exact d.passes_importFrom h
  | bareImport d => exact d.passes_importFrom h
  | listExport | starExport | defaultExport | declaredExport =>
    exact passes_of_ne _ h announces_importFrom import_mem_marks import_ne_export

theorem passes_importBare :
    Passes (.remove importBare) form.text (if form.turn = 2 then form.left else form.text) := by
  cases form with
  | fromImport d => exact d.passes_importBare h
  | bareImport d => exact d.passes_importBare h
  | listExport | starExport | defaultExport | declaredExport =>
    exact passes_of_ne _ h announces_importBare import_mem_marks import_ne_export

variable (hlist : form.turn ≠ 3)
include hlist

theorem passes_exportList : Passes (.keep exportList [1]) form.text form.text := by
  cases form with
  | fromImport | bareImport =>
    exact passes_of_ne _ h announces_exportList export_mem_marks import_ne_export.symm
  | listExport => exact absurd rfl hlist
  | starExport d => exact d.passes_exportList h
  | defaultExport d => exact d.passes_exportList h
  | declaredExport d => exact d.passes_exportList h

theorem passes_exportStar :
    Passes (.keep exportStar [1]) form.text (if form.turn = 4 then form.left else form.text) := by
  cases form with
  | fromImport | bareImport =>
    exact passes_of_ne _ h announces_exportStar export_mem_marks import_ne_export.symm
  | listExport => exact absurd rfl hlist
  | starExport d => exact d.passes_exportStar h
  | defaultExport d => exact d.passes_exportStar h
  | declaredExport d => exact d.passes_exportStar h

theorem passes_exportDefault :
    Passes (.keep exportDefault [1, 2]) form.text
      (if form.turn = 5 then form.left else form.text) := by
  cases form with
  | fromImport | bareImport =>
    exact passes_of_ne _ h announces_exportDefault export_mem_marks import_ne_export.symm
  | listExport => exact absurd rfl hlist
  | starExport d => exact d.passes_exportDefault h
  | defaultExport d => exact d.passes_exportDefault h
  | declaredExport d => exact d.passes_exportDefault h

theorem passes_exportDeclaration :
    Passes (.keep exportDeclaration [1, 2]) form.text
      (if form.turn = 6 then form.left else form.text) := by
  cases form with
  | fromImport | bareImport =>
    exact passes_of_ne _ h announces_exportDeclaration export_mem_marks import_ne_export.symm
  | listExport => exact absurd rfl hlist
  | starExport d => exact d.passes_exportDeclaration h
  | defaultExport d => exact d.passes_exportDeclaration h
  | declaredExport d => exact d.passes_exportDeclaration h

end Rules

/-! ## Items after some rules -/

namespace Item

/-- What an item is after the first rules. -/
def after (n : Nat) : Item → List Char
  | plain text _ => text
  | declaration form _ => form.after n

/-- Whether an item is a list of exports. -/
def IsList : Item → Prop
  | declaration form _ => form.turn = 3
  | plain .. => False

theorem after_zero (item : Item) : item.after 0 = item.text := by
  cases item with
  | plain => rfl
  | declaration form => cases form <;> rfl

theorem after_two (item : Item) : item.after 2 = item.withoutImport := by
  cases item with
  | plain => rfl
  | declaration form => cases form <;> rfl

theorem after_six (item : Item) : item.after 6 = item.left := by
  cases item with
  | plain => rfl
  | declaration form => cases form <;> rfl

/-- A rule makes of each item what it is after its turn. -/
theorem passes_after {item : Item} (h : Announces word rule.pattern) (hword : word ∈ marks)
    (hlist : item.IsList → n < 3)
    (hpasses : ∀ form : Form, IsPlain form.tail → (form.turn = 3 → n < 3) →
      Passes rule form.text (if form.turn = n + 1 then form.left else form.text)) :
    Passes rule (item.after n) (item.after (n + 1)) := by
  cases item with
  | plain text htext => exact h.passes hword (htext word hword)
  | declaration form hform =>
    exact Form.passes_after h hword hform hlist (hpasses form hform hlist)

end Item

/-- A rule makes of a program what its items are after its turn. -/
theorem apply_after (h : Announces word rule.pattern) (hword : word ∈ marks)
    (hlist : ∀ i ∈ program, i.IsList → n < 3)
    (hpasses : ∀ form : Form, IsPlain form.tail → (form.turn = 3 → n < 3) →
      Passes rule form.text (if form.turn = n + 1 then form.left else form.text)) :
    rule.apply false (joinLines (program.map (Item.after n))) =
      joinLines (program.map (Item.after (n + 1))) :=
  apply_joinLines h hword fun i hi => Item.passes_after h hword (hlist i hi) hpasses

/-- Imports are removed. -/
theorem removeImports_text (program : List Item) :
    removeImports false (text program) = joinLines (program.map (Item.after 2)) := by
  have htext : text program = joinLines (program.map (Item.after 0)) := by
    rw [text, show Item.after 0 = Item.text from funext Item.after_zero]
  have hfirst := @apply_after _ _ program 0 announces_importFrom import_mem_marks
    (fun _ _ _ => by decide) fun form h _ => passes_importFrom form h
  have hsecond := @apply_after _ _ program 1 announces_importBare import_mem_marks
    (fun _ _ _ => by decide) fun form h _ => passes_importBare form h
  rw [htext]
  show (Rule.remove importBare).apply false ((Rule.remove importFrom).apply false _) = _
  rw [hfirst, hsecond]

/-- The rules for exports other than lists. -/
theorem normalizeExports_joinLines (hlist : ∀ i ∈ program, ¬i.IsList) :
    Rule.applyAll false [.keep exportStar [1], .keep exportDefault [1, 2],
        .keep exportDeclaration [1, 2]] (joinLines (program.map (Item.after 3))) =
      joinLines (program.map Item.left) := by
  have hnone : ∀ {n : Nat}, ∀ i ∈ program, i.IsList → n < 3 :=
    fun i hi h => absurd h (hlist i hi)
  have hfirst := @apply_after _ _ program 3 announces_exportStar export_mem_marks hnone
    fun form h hform => passes_exportStar form h fun h => absurd (hform h) (by decide)
  have hsecond := @apply_after _ _ program 4 announces_exportDefault export_mem_marks hnone
    fun form h hform => passes_exportDefault form h fun h => absurd (hform h) (by decide)
  have hthird := @apply_after _ _ program 5 announces_exportDeclaration export_mem_marks hnone
    fun form h hform => passes_exportDeclaration form h fun h => absurd (hform h) (by decide)
  show (Rule.keep exportDeclaration [1, 2]).apply false ((Rule.keep exportDefault [1, 2]).apply
    false ((Rule.keep exportStar [1]).apply false _)) = _
  rw [hfirst, hsecond, hthird, show Item.after 6 = Item.left from funext Item.after_six]

/-! ## Lists -/

instance : (close : ListEnd) → Decidable close.IsUnclosed
  | .unclosed _ => .isTrue trivial
  | .semicolon .. | .origin .. => .isFalse id

instance : (item : Item) → Decidable item.IsUnclosed
  | .declaration (.listExport d) _ => inferInstanceAs (Decidable d.close.IsUnclosed)
  | .plain .. | .declaration (.fromImport _) _ | .declaration (.bareImport _) _
  | .declaration (.starExport _) _ | .declaration (.defaultExport _) _
  | .declaration (.declaredExport _) _ => .isFalse id

/-- An item without the list that it may be, and without blanks before it if it is plain and they
are taken by a list before it. -/
def Item.settled (behind : Bool) : Item → Item
  | plain text h =>
    if behind then plain (trimStart text) (h.of_infix (List.dropWhile_suffix _).isInfix)
    else plain text h
  | declaration (.listExport d) h => plain d.close.left (d.isPlain_left h)
  | declaration form h => declaration form h

/-- Declarations other than lists stay. -/
theorem Item.settled_declaration {form : Form} (hlist : form.turn ≠ 3) (h : IsPlain form.tail)
    (behind : Bool) : (declaration form h).settled behind = declaration form h := by
  cases form with
  | listExport => exact absurd rfl hlist
  | fromImport | bareImport | starExport | defaultExport | declaredExport => rfl

/-- A program without its lists. Behind a list with nothing behind the names, the blank items go up
to the first item that is not blank. -/
def settle : Bool → List Item → List Item
  | false, [] => []
  | true, [] => [.plain [] isPlain_nil]
  | behind, item :: rest =>
    if (behind && (item.after 2).all isBlank) || item.IsUnclosed then settle true rest
    else item.settled behind :: settle false rest

theorem settle_of_blank {item : Item} (h : (item.after 2).all isBlank = true) (rest : List Item) :
    settle true (item :: rest) = settle true rest := by
  rw [settle, if_pos (by simp [h])]

theorem settle_of_isUnclosed {item : Item} (h : item.IsUnclosed) (behind : Bool)
    (rest : List Item) : settle behind (item :: rest) = settle true rest := by
  rw [settle, if_pos (by simp [h])]

theorem settle_of_not {item : Item} {behind : Bool} (h : ¬item.IsUnclosed)
    (hblank : behind = true → (item.after 2).all isBlank = false) (rest : List Item) :
    settle behind (item :: rest) = item.settled behind :: settle false rest := by
  rw [settle, if_neg]
  cases behind with
  | false => simpa using h
  | true => simpa [h] using hblank rfl

/-- An item that is not blank and has nothing to be trimmed does not look at what is before it. -/
theorem settle_of_nonblank {item : Item} (hblank : (item.after 2).all isBlank = false)
    (hsettled : item.settled true = item.settled false) (rest : List Item) :
    settle true (item :: rest) = settle false (item :: rest) := by
  rw [settle, settle, hblank, hsettled]
  rfl

theorem settle_true_ne_nil (items : List Item) : settle true items ≠ [] := by
  induction items with
  | nil => exact List.cons_ne_nil _ _
  | cons item rest ih =>
    rw [settle]
    split
    · exact ih
    · exact List.cons_ne_nil _ _

theorem settle_cons_ne_nil (behind : Bool) (item : Item) (rest : List Item) :
    settle behind (item :: rest) ≠ [] := by
  rw [settle]
  split
  · exact settle_true_ne_nil rest
  · exact List.cons_ne_nil _ _

/-- What holds of each settled item, and of an empty one, holds of a settled program. -/
theorem forall_mem_settle {holds : Item → Prop} {items : List Item}
    (hnil : ∀ h, holds (.plain [] h)) (hitems : ∀ i ∈ items, ∀ behind, holds (i.settled behind))
    (behind : Bool) : ∀ i ∈ settle behind items, holds i := by
  induction items generalizing behind with
  | nil =>
    cases behind with
    | false => exact List.forall_mem_nil _
    | true => exact List.forall_mem_singleton.mpr (hnil _)
  | cons item rest ih =>
    obtain ⟨hitem, hrest⟩ := List.forall_mem_cons.mp hitems
    rw [settle]
    split
    · exact ih hrest true
    · exact List.forall_mem_cons.mpr ⟨hitem behind, ih hrest false⟩

/-- There is no list in a settled program. -/
theorem not_isList_of_mem_settle (behind : Bool) (items : List Item) :
    ∀ i ∈ settle behind items, ¬i.IsList := by
  have hitems : ∀ i ∈ items, ∀ behind, ¬(i.settled behind).IsList := by
    intro item _ behind
    cases item with
    | plain =>
      rw [Item.settled]
      split
      · exact id
      · exact id
    | declaration form h =>
      by_cases hlist : form.turn = 3
      · cases form with
        | listExport => exact id
        | fromImport | bareImport | starExport | defaultExport | declaredExport => cases hlist
      · rw [Item.settled_declaration hlist]
        exact hlist
  exact forall_mem_settle (fun _ => id) hitems behind

/-- Behind blank items a declaration comes next. -/
def MeetsDeclaration : List Item → Prop
  | [] => False
  | item :: rest =>
    if (item.after 2).all isBlank then MeetsDeclaration rest
    else ∃ form h, item = .declaration form h

/-- What the items are after the rules for imports, each behind a line end. -/
def linesFrom (items : List Item) : List Char := items.flatMap fun i => '\n' :: i.after 2

theorem endsLine_linesFrom (items : List Item) : EndsLine (linesFrom items) := by
  cases items with
  | nil => exact endsLine_nil
  | cons => exact endsLine_cons _

theorem joinLines_map_eq {f : Item → List Char} {items : List Item} (h : items ≠ []) :
    '\n' :: joinLines (items.map f) = items.flatMap fun i => '\n' :: f i := by
  obtain ⟨item, rest, rfl⟩ := List.exists_cons_of_ne_nil h
  rw [List.map_cons, joinLines, List.flatMap_map]
  rfl

/-- An import that is not removed, or an export, does not start with a blank. -/
theorem Form.any_head?_after_two {form : Form} (h : (form.after 2).all isBlank = false)
    (rest : List Char) : (form.after 2 ++ rest).head?.any isBlank = false := by
  have htext : form.after 2 = form.text := by
    rw [after] at h ⊢
    split
    · next hturn =>
      rw [if_pos hturn] at h
      apply left_eq_text (by omega)
      intro hform
      have hblank := List.all_eq_true.mpr (isBlank_of_mem_left (by omega) hform)
      exact nomatch h.symm.trans hblank
    · rfl
  rw [htext]
  cases form <;> rfl

theorem any_head?_trimStart (text : List Char) : (trimStart text).head?.any isBlank = false := by
  rw [trimStart]
  cases hdrop : text.dropWhile isBlank with
  | nil => rfl
  | cons c cs =>
    have hhead := List.head?_dropWhile_not isBlank text
    rw [hdrop] at hhead
    simpa using hhead

theorem trimStart_of_any_head? {text : List Char} (h : text.head?.any isBlank = false) :
    trimStart text = text := by
  cases text with
  | nil => rfl
  | cons c cs => exact List.dropWhile_cons_of_neg (by simpa using h)

/-- The blanks before a declaration end with a line end. -/
theorem getLast?_takeWhile_linesFrom {items : List Item} (h : MeetsDeclaration items) :
    ((linesFrom items).takeWhile isBlank).getLast? = some '\n' := by
  induction items with
  | nil => exact h.elim
  | cons item rest ih =>
    rw [MeetsDeclaration] at h
    have htext : linesFrom (item :: rest) = '\n' :: (item.after 2 ++ linesFrom rest) := rfl
    rw [htext, List.takeWhile_cons_of_pos (by decide)]
    split at h
    · next hblank =>
      have hall : ∀ c ∈ item.after 2, isBlank c = true := List.all_eq_true.mp hblank
      rw [List.takeWhile_append_of_pos hall, ← List.cons_append,
        List.getLast?_append, ih h, Option.some_or]
    · next hblank =>
      obtain ⟨form, hform, rfl⟩ := h
      have hhead := Form.any_head?_after_two (Bool.eq_false_iff.mpr hblank) (linesFrom rest)
      have hnone : (form.after 2 ++ linesFrom rest).takeWhile isBlank = [] := by
        cases htext : form.after 2 ++ linesFrom rest with
        | nil => rfl
        | cons c cs =>
          rw [htext] at hhead
          exact List.takeWhile_cons_of_neg (by simpa using hhead)
      show ('\n' :: (form.after 2 ++ linesFrom rest).takeWhile isBlank).getLast? = _
      rw [hnone]
      rfl

/-- What the rule for lists makes of a text from a place on. -/
def withoutLists (before : Option Char) (offset : Nat) (text : List Char) : List Char :=
  exportList.replaceFrom (Rule.keep exportList [1]).replacement before offset text

/-- What the rule for lists makes of what stands behind an item: of the lines as they are, and of
what is left of them behind a list. -/
structure Settles (items : List Item) : Prop where
  lines : ∀ before offset, withoutLists before offset (linesFrom items) =
    (settle false items).flatMap fun i => '\n' :: i.after 3
  behind : ∀ before offset, (MeetsDeclaration items → StartsLine before) →
    withoutLists before offset (trimStart (linesFrom items)) =
      joinLines ((settle true items).map (Item.after 3))

/-- The rule for lists settles an item, if it is no list with nothing behind the names. -/
theorem Item.passes_settled {item : Item} (h : ¬item.IsUnclosed) :
    Passes (.keep exportList [1]) (item.after 2) ((item.settled false).after 3) := by
  cases item with
  | plain text hplain =>
    exact announces_exportList.passes export_mem_marks (hplain _ export_mem_marks)
  | declaration form hform =>
    by_cases hlist : form.turn = 3
    · cases form with
      | listExport d => exact d.passes_exportList hform h
      | fromImport | bareImport | starExport | defaultExport | declaredExport => cases hlist
    · rw [settled_declaration hlist]
      apply Form.passes_after announces_exportList export_mem_marks hform (absurd · hlist)
      rw [if_neg hlist]
      exact passes_exportList form hform hlist

/-- At the start of a line an item is settled. -/
theorem Settles.item {item : Item} {rest : List Item} (h : Settles rest)
    (hapart : IsApart (item :: rest)) {before : Option Char} (hbefore : StartsLine before)
    (offset : Nat) : withoutLists before offset (item.after 2 ++ linesFrom rest) =
      joinLines ((settle false (item :: rest)).map (Item.after 3)) := by
  by_cases hunclosed : item.IsUnclosed
  · have hnot := hapart.1 hunclosed
    simp only [← Item.after_two] at hnot
    rw [settle_of_isUnclosed hunclosed]
    cases item with
    | plain => exact hunclosed.elim
    | declaration form hform =>
      cases form with
      | fromImport | bareImport | starExport | defaultExport | declaredExport =>
        exact hunclosed.elim
      | listExport d =>
        obtain ⟨gap, hclose⟩ : ∃ gap, d.close = .unclosed gap := by
          cases hclose : d.close with
          | unclosed gap => exact ⟨gap, rfl⟩
          | semicolon | origin =>
            rw [Item.IsUnclosed, hclose] at hunclosed
            exact hunclosed.elim
        -- The list goes on over the blanks behind it.
        obtain ⟨before', offset', hline, htaken⟩ := d.replaceFrom_unclosed hclose
          (fun c hc => List.all_eq_true.mp List.all_takeWhile c hc)
          (any_head?_trimStart (linesFrom rest)) hnot hbefore offset
        rw [trimStart, List.takeWhile_append_dropWhile] at htaken
        refine htaken.trans (h.behind before' offset' fun hmeets => hline ?_)
        exact getLast?_takeWhile_linesFrom hmeets
  · obtain ⟨before', offset', hitem⟩ := Item.passes_settled hunclosed before offset (linesFrom rest)
      hbefore (endsLine_linesFrom rest)
    rw [settle_of_not hunclosed (absurd · Bool.false_ne_true), List.map_cons, joinLines,
      List.flatMap_map]
    refine hitem.trans (congrArg _ ?_)
    exact h.lines before' offset'

/-- The rule for lists settles each program. -/
theorem settles {items : List Item} (hapart : IsApart items) : Settles items := by
  induction items with
  | nil => exact ⟨fun _ _ => rfl, fun _ _ _ => rfl⟩
  | cons item rest ih =>
    have hrest := ih hapart.2
    have htext : linesFrom (item :: rest) = '\n' :: (item.after 2 ++ linesFrom rest) := rfl
    have htrim : trimStart (linesFrom (item :: rest)) =
      trimStart (item.after 2 ++ linesFrom rest) := List.dropWhile_cons_of_pos (by decide)
    constructor
    · intro before offset
      rw [htext, withoutLists, announces_exportList.replaceFrom_line export_mem_marks,
        ← joinLines_map_eq (settle_cons_ne_nil false item rest)]
      refine congrArg _ ?_
      exact @Settles.item _ _ hrest hapart (some '\n') rfl (offset + 1)
    · intro before offset hbefore
      rw [htrim]
      by_cases hblank : (item.after 2).all isBlank = true
      · have hall : ∀ c ∈ item.after 2, isBlank c = true := List.all_eq_true.mp hblank
        rw [trimStart, List.dropWhile_append_of_pos hall, settle_of_blank hblank]
        apply hrest.behind
        intro hmeets
        apply hbefore
        rwa [MeetsDeclaration, if_pos hblank]
      · cases item with
        | plain text hplain =>
          have htext : trimStart (text ++ linesFrom rest) = trimStart text ++ linesFrom rest := by
            rw [trimStart, List.dropWhile_append, if_neg]
            · rfl
            · simpa [Item.after] using hblank
          have hnot : ¬"export".toList <:+: trimStart text :=
            (hplain.of_infix (List.dropWhile_suffix _).isInfix) _ export_mem_marks
          rw [settle_of_not id fun _ => Bool.eq_false_iff.mpr hblank]
          refine (congrArg _ htext).trans ?_
          rw [withoutLists, announces_exportList.replaceFrom_append export_mem_marks hnot
            (endsLine_linesFrom rest), List.map_cons, joinLines, List.flatMap_map]
          exact congrArg _ (hrest.lines _ _)
        | declaration form hform =>
          have hhead : ((Item.declaration form hform).after 2 ++ linesFrom rest).head?.any isBlank =
            false := Form.any_head?_after_two (Bool.eq_false_iff.mpr hblank) (linesFrom rest)
          have hmeets : MeetsDeclaration (.declaration form hform :: rest) := by
            rw [MeetsDeclaration, if_neg hblank]
            exact ⟨form, hform, rfl⟩
          have hsettle : settle true (.declaration form hform :: rest) =
              settle false (.declaration form hform :: rest) :=
            settle_of_nonblank (Bool.eq_false_iff.mpr hblank) (by cases form <;> rfl) rest
          rw [hsettle, trimStart_of_any_head? hhead]
          exact hrest.item hapart (hbefore hmeets) offset

/-- What is left of a program is what is left of its items, when it is settled. -/
theorem normalizeExports_removeImports (h : IsApart program) :
    normalizeExports false (removeImports false (text program)) =
      joinLines ((settle false program).map Item.left) := by
  have hlists : (Rule.keep exportList [1]).apply false (joinLines (program.map (Item.after 2))) =
      joinLines ((settle false program).map (Item.after 3)) := by
    rw [Rule.apply, if_neg Bool.false_ne_true, replace_eq_replaceFrom]
    cases program with
    | nil => rfl
    | cons item rest =>
      rw [List.map_cons, joinLines, List.flatMap_map]
      exact @Settles.item item rest (settles h.2) h none rfl 0
  have hrules : ∀ source, normalizeExports false source =
      Rule.applyAll false [.keep exportStar [1], .keep exportDefault [1, 2],
        .keep exportDeclaration [1, 2]] ((Rule.keep exportList [1]).apply false source) := by
    intro source
    simp only [normalizeExports, Rule.applyAll, List.foldl_cons, List.foldl_nil]
  rw [removeImports_text, hrules, hlists]
  exact normalizeExports_joinLines (not_isList_of_mem_settle false program)

end ModuleSyntax

end GuestCode
