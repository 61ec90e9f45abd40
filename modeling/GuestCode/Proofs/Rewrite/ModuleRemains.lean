import GuestCode.Proofs.Rewrite.ModuleRemoval
import Mathlib.Algebra.Order.BigOperators.Group.List
import Mathlib.Algebra.Order.Group.Nat

/-!
# What remains of programs with module syntax

Behind the rewritings of imports and exports, the lines of a program are the lines that are left of
its items. If each declaration is recognised, these are the lines that are to remain, and the words
of module syntax do not occur in them; then no module syntax is found, for the redacted view of a
text says no word that the text does not say. If a declaration is not recognised, too much of it is
left.

## Main statements

* `infix_of_infix_redact`: words in redacted views.
* `ModuleSyntax.solidLines_normalizeExports_removeImports`: the lines of a rewritten program.
* `ModuleSyntax.removal_iff`: when the module syntax is removed and nothing else.
-/

namespace GuestCode

open Text Text.Pattern Grammar Rewrite

variable {word source : List Char} {c : Char}

/-! ## Redacted views -/

namespace Segment

/-- In the redacted view of a segment that is no code there is no character of a word. -/
theorem exists_cons_redacted {s : Segment} (hcode : s.kind ≠ .code)
    (hword : ∀ c ∈ word, c ∉ [' ', '"', '\n']) :
    ∃ c cs, s.redacted = c :: cs ∧ ∀ d ∈ c :: cs, d ∉ word := by
  have hkind : (s.kind == .code) = false := by simpa using hcode
  have hmem : ∀ c ∈ s.redacted, c ∈ [' ', '"', '\n'] := by
    rw [redacted, hkind, if_neg Bool.false_ne_true]
    intro c hc
    rcases List.mem_append.mp hc with hc | hc
    · have hmark : c ∈ [' '] ∨ c ∈ ['"', '"'] := by
        split at hc
        · exact .inl hc
        · exact .inr hc
      simp only [List.mem_cons, List.not_mem_nil, or_false] at hmark ⊢
      tauto
    · rw [List.eq_of_mem_replicate hc]
      decide
  have hne : s.redacted ≠ [] := by
    rw [redacted, hkind, if_neg Bool.false_ne_true]
    split
    · exact List.cons_ne_nil _ _
    · exact List.cons_ne_nil _ _
  obtain ⟨c, cs, hcons⟩ := List.exists_cons_of_ne_nil hne
  exact ⟨c, cs, hcons, fun d hd hdword => hword d hdword (hmem d (hcons ▸ hd))⟩

theorem redacted_of_code {s : Segment} (hcode : s.kind = .code) : s.redacted = s.text := by
  rw [redacted, hcode]
  rfl

variable {segments : List Segment}

/-- A word at the start of a redacted view stands at the start of what is viewed. -/
theorem prefix_of_prefix_redacted (hword : ∀ c ∈ word, c ∉ [' ', '"', '\n'])
    (h : word <+: segments.flatMap redacted) : word <+: segments.flatMap Segment.text := by
  induction segments generalizing word with
  | nil => exact h
  | cons s segments ih =>
    rw [List.flatMap_cons] at h ⊢
    by_cases hcode : s.kind = .code
    · rw [redacted_of_code hcode] at h
      obtain ⟨after, hafter⟩ := h
      rcases List.append_eq_append_iff.mp hafter with ⟨rest, hrest, -⟩ | ⟨rest, rfl, hrest⟩
      · rw [hrest, List.append_assoc]
        exact List.prefix_append _ _
      · exact (List.prefix_append_right_inj _).mpr
          (ih (fun c hc => hword c (List.mem_append_right _ hc)) ⟨after, hrest.symm⟩)
    · obtain ⟨c, cs, hcons, hnot⟩ := exists_cons_redacted hcode hword
      cases word with
      | nil => exact List.nil_prefix
      | cons d ds =>
        rw [hcons] at h
        obtain ⟨rfl, -⟩ := List.cons_prefix_cons.mp h
        exact absurd (.head _) (hnot _ (.head _))

/-- A word in a redacted view stands in what is viewed. -/
theorem infix_of_infix_redacted (hword : ∀ c ∈ word, c ∉ [' ', '"', '\n'])
    (h : word <:+: segments.flatMap redacted) : word <:+: segments.flatMap Segment.text := by
  induction segments with
  | nil => exact h
  | cons s segments ih =>
    rw [List.flatMap_cons] at h ⊢
    have hlater : word <:+: segments.flatMap redacted →
        word <:+: s.text ++ segments.flatMap Segment.text :=
      fun h => (ih h).trans (List.suffix_append _ _).isInfix
    by_cases hcode : s.kind = .code
    · rw [redacted_of_code hcode] at h
      rcases infix_append_cases h with hinfix | hinfix | ⟨u, v, rfl, -, -, hsuffix, hprefix⟩
      · exact hinfix.trans (List.prefix_append _ _).isInfix
      · exact hlater hinfix
      · obtain ⟨front, hfront⟩ := hsuffix
        obtain ⟨back, hback⟩ := prefix_of_prefix_redacted
          (fun c hc => hword c (List.mem_append_right u hc)) hprefix
        exact ⟨front, back, by rw [← hfront, ← hback]; simp⟩
    · obtain ⟨c, cs, hcons, hnot⟩ := exists_cons_redacted hcode hword
      cases word with
      | nil => exact List.nil_infix
      | cons d ds =>
        rw [hcons] at h
        have hfirst : d ∉ c :: cs := fun hmem => hnot d hmem (.head _)
        exact hlater (infix_of_infix_append hfirst h)

end Segment

/-- The redacted view of a snippet says no word that the snippet does not say. -/
theorem infix_of_infix_redact (hword : ∀ c ∈ word, c ∉ [' ', '"', '\n'])
    (h : word <:+: redact source) : word <:+: source := by
  have hinfix := Segment.infix_of_infix_redacted hword h
  rwa [Segment.flatMap_split] at hinfix

namespace ModuleSyntax

/-- A plain text has no module syntax. -/
theorem hasModuleSyntax_of_isPlain (h : IsPlain source) :
    Dialect.hasModuleSyntax source = false := by
  have hview : ∀ word ∈ marks, ¬word <:+: redact source := by
    have hall : ∀ word ∈ marks, ∀ c ∈ word, c ∉ [' ', '"', '\n'] := by decide
    exact fun word hword hinfix => h word hword (infix_of_infix_redact (hall word hword) hinfix)
  have hnone : ∀ {patterns others : List Pattern} {s : String}, s.toList ∈ marks →
      (all (patterns ++ lit s :: others)).occursIn (redact source) = false := by
    intro patterns others s hs
    apply Bool.eq_false_iff.mpr
    intro hoccurs
    obtain ⟨u, v, huv, hmatch⟩ := occursIn_iff.mp hoccurs
    obtain ⟨m, hm⟩ := Option.ne_none_iff_exists'.mp hmatch
    obtain ⟨htakes, htext, -⟩ := exists_of_matchAt? hm
    apply hview s.toList hs
    apply (infix_of_takes htakes).trans
    exact ⟨u, m.after, by rw [huv, show v = _ from htext, List.append_assoc]⟩
  have hall : ∀ p ∈ Dialect.modulePatterns, p.occursIn (redact source) = false := by
    simp only [Dialect.modulePatterns, List.forall_mem_cons, List.not_mem_nil, false_implies,
      implies_true, and_true]
    exact ⟨@hnone [Dialect.statementEdge] _ "import" (by decide),
      @hnone [Dialect.statementEdge] _ "import" (by decide),
      @hnone [Dialect.statementEdge] _ "export" (by decide),
      @hnone [Dialect.statementEdge] _ "export" (by decide)⟩
  apply List.any_eq_false.mpr
  exact fun p hp => Bool.eq_false_iff.mp (hall p hp)

/-! ## Lines -/

theorem splitOn_cons_line (text : List Char) :
    splitOn '\n' ('\n' :: text) = [] :: splitOn '\n' text :=
  splitOn_append '\n' [] text

/-- A blank before a text makes no difference to its lines. -/
theorem solidLines_cons_of_isBlank (h : isBlank c = true) (text : List Char) :
    solidLines (c :: text) = solidLines text := by
  by_cases hline : c = '\n'
  · subst hline
    rw [solidLines, splitOn_cons_line]
    rfl
  · obtain ⟨first, others, hparts⟩ := List.exists_cons_of_ne_nil (splitOn_ne_nil '\n' text)
    have hne : (c == '\n') = false := by simpa using hline
    have htrim : trim (c :: first) = trim first := by
      rw [trim, trim, trimStart, List.dropWhile_cons_of_pos h]
      rfl
    rw [solidLines, solidLines, splitOn, hne, if_neg Bool.false_ne_true, hparts]
    simp only [List.map_cons, htrim]

theorem solidLines_append_of_isBlank {gap : List Char} (h : ∀ c ∈ gap, isBlank c = true)
    (text : List Char) : solidLines (gap ++ text) = solidLines text := by
  induction gap with
  | nil => rfl
  | cons c cs ih =>
    obtain ⟨hc, hcs⟩ := List.forall_mem_cons.mp h
    rw [List.cons_append, solidLines_cons_of_isBlank hc, ih hcs]

theorem solidLines_of_isBlank {gap : List Char} (h : ∀ c ∈ gap, isBlank c = true) :
    solidLines gap = [] := by
  have hgap := solidLines_append_of_isBlank h []
  rwa [List.append_nil] at hgap

theorem solidLines_trimStart (text : List Char) :
    solidLines (trimStart text) = solidLines text := by
  have hgap := solidLines_append_of_isBlank
    (fun c hc => List.all_eq_true.mp (@List.all_takeWhile _ isBlank text) c hc) (trimStart text)
  rwa [trimStart, List.takeWhile_append_dropWhile, eq_comm] at hgap

theorem solidLines_append_line (u v : List Char) :
    solidLines (u ++ '\n' :: v) = solidLines u ++ solidLines v := by
  rw [solidLines, splitOn_append, List.map_append, List.filter_append]
  rfl

theorem solidLines_joinLines (texts : List (List Char)) :
    solidLines (joinLines texts) = texts.flatMap solidLines := by
  cases texts with
  | nil => rfl
  | cons text texts =>
    rw [joinLines]
    induction texts generalizing text with
    | nil => simp
    | cons next texts ih =>
      rw [List.flatMap_cons, List.cons_append, solidLines_append_line, ih]
      rfl

/-- The characters of a text that are no blanks. -/
def letters (text : List Char) : List Char := text.filter fun c => !isBlank c

@[simp] theorem letters_append (u v : List Char) : letters (u ++ v) = letters u ++ letters v :=
  List.filter_append ..

theorem letters_of_isBlank {gap : List Char} (h : ∀ c ∈ gap, isBlank c = true) :
    letters gap = [] := by
  apply List.filter_eq_nil_iff.mpr
  intro c hc
  simp [h c hc]

theorem letters_trim (text : List Char) : letters (trim text) = letters text := by
  obtain ⟨gap, gap', hgap, hgap', htext⟩ := exists_append_trim text
  have hletters := congrArg letters htext
  rw [letters_append, letters_append, letters_of_isBlank hgap, letters_of_isBlank hgap',
    List.nil_append, List.append_nil] at hletters
  exact hletters.symm

/-- All characters of a text that are no blanks are in its lines. -/
theorem flatMap_letters_solidLines (text : List Char) :
    (solidLines text).flatMap letters = letters text := by
  have hfilter : ∀ lines : List (List Char),
      ((lines.map trim).filter (· ≠ [])).flatMap letters = lines.flatMap letters := by
    intro lines
    induction lines with
    | nil => rfl
    | cons line lines ih =>
      rw [List.map_cons, List.flatMap_cons, ← letters_trim line]
      by_cases hnil : trim line = []
      · rw [List.filter_cons_of_neg (by simpa using hnil), ih, hnil]
        rfl
      · rw [List.filter_cons_of_pos (by simpa using hnil), List.flatMap_cons, ih]
  have hsplit : (splitOn '\n' text).flatMap letters = letters text := by
    induction text with
    | nil => rfl
    | cons c cs ih =>
      by_cases hline : c = '\n'
      · subst hline
        rw [splitOn_cons_line, List.flatMap_cons, ih]
        rfl
      · obtain ⟨first, others, hparts⟩ := List.exists_cons_of_ne_nil (splitOn_ne_nil '\n' cs)
        have hne : (c == '\n') = false := by simpa using hline
        rw [hparts, List.flatMap_cons] at ih
        rw [splitOn, hne, if_neg Bool.false_ne_true, hparts]
        calc letters ([c] ++ first) ++ others.flatMap letters
            = letters [c] ++ (letters first ++ others.flatMap letters) := by
              rw [letters_append, List.append_assoc]
          _ = letters (c :: cs) := by
              rw [ih, ← letters_append]
              rfl
  rw [solidLines, hfilter, hsplit]

/-! ## What is left -/

/-- What is left of an item that is recognised is plain. -/
theorem Item.isPlain_left {item : Item} (h : item.IsRecognised) : IsPlain item.left := by
  cases item with
  | plain text hplain => exact hplain
  | declaration form hform => exact Form.isPlain_left hform h

/-- An item that is recognised has the lines left that are to remain. -/
theorem Form.solidLines_left {form : Form} (h : form.IsRecognised) :
    solidLines form.left = solidLines form.remains := by
  cases form with
  | fromImport | bareImport | listExport | starExport =>
    exact solidLines_of_isBlank (isBlank_of_mem_left (by simp [turn]) h)
  | defaultExport => rw [left, if_pos h, remains]
  | declaredExport => rfl

theorem Item.solidLines_left {item : Item} (h : item.IsRecognised) :
    solidLines item.left = solidLines item.remains := by
  cases item with
  | plain => rfl
  | declaration form hform => exact Form.solidLines_left h

/-- Of a declaration that is not recognised there is more left than is to remain. -/
theorem Form.length_letters_lt {form : Form} (h : ¬form.IsRecognised) :
    (letters form.remains).length < (letters form.left).length := by
  have himport : (letters "import".toList).length = 6 := by decide
  have hexport : (letters "export".toList).length = 6 := by decide
  have hfrom : (letters "from".toList).length = 4 := by decide
  cases form with
  | fromImport d | bareImport d =>
    rw [left, if_neg h, text, letters_append, List.length_append]
    show 0 < (letters "import".toList).length + _
    omega
  | listExport d =>
    cases hclose : d.close with
    | unclosed | semicolon => exact absurd (by simp [IsRecognised, hclose, ListEnd.IsRecognised]) h
    | origin gap gap' source ending =>
      have hname : source.name = [] := by simpa [IsRecognised, hclose, ListEnd.IsRecognised] using h
      rw [left, hclose, ListEnd.left, if_pos hname, letters_append, List.length_append]
      show 0 < (letters "from".toList).length + _
      omega
  | starExport d =>
    rw [left, if_neg h, text, letters_append, List.length_append]
    show 0 < (letters "export".toList).length + _
    omega
  | defaultExport d =>
    rw [left, if_neg h]
    show (letters d.body).length < (letters ("export".toList ++ (d.gap.text ++
      ("default".toList ++ (d.gap'.text ++ d.body))))).length
    simp only [letters_append, List.length_append]
    omega
  | declaredExport => exact absurd trivial h

theorem Item.length_letters_lt {item : Item} (h : ¬item.IsRecognised) :
    (letters item.remains).length < (letters item.left).length := by
  cases item with
  | plain => exact absurd trivial h
  | declaration form hform => exact Form.length_letters_lt h

/-- An item that is blank once imports are removed has no lines left. -/
theorem Item.solidLines_left_of_blank {item : Item} (h : (item.after 2).all isBlank = true) :
    solidLines item.left = [] := by
  cases item with
  | plain => exact solidLines_of_isBlank (List.all_eq_true.mp h)
  | declaration form hform =>
    by_cases hturn : form.turn ≤ 2
    · rw [after, Form.after, if_pos hturn] at h
      exact solidLines_of_isBlank (List.all_eq_true.mp h)
    · rw [after, Form.after, if_neg hturn] at h
      cases form <;> cases h

theorem Item.solidLines_left_of_isUnclosed {item : Item} (h : item.IsUnclosed) :
    solidLines item.left = [] := by
  cases item with
  | plain => exact h.elim
  | declaration form =>
    cases form with
    | fromImport | bareImport | starExport | defaultExport | declaredExport => exact h.elim
    | listExport d =>
      show solidLines d.close.left = []
      cases hclose : d.close with
      | unclosed => rfl
      | semicolon | origin =>
        rw [IsUnclosed, hclose] at h
        exact h.elim

theorem Item.solidLines_left_settled (item : Item) (behind : Bool) :
    solidLines (item.settled behind).left = solidLines item.left := by
  cases item with
  | plain text =>
    cases behind with
    | false => rfl
    | true => exact solidLines_trimStart text
  | declaration form => cases form <;> rfl

/-- Settling a program makes no difference to the lines that are left. -/
theorem flatMap_solidLines_settle (behind : Bool) (items : List Item) :
    ((settle behind items).flatMap fun i => solidLines i.left) =
      items.flatMap fun i => solidLines i.left := by
  induction items generalizing behind with
  | nil =>
    cases behind with
    | false => rfl
    | true => rfl
  | cons item rest ih =>
    rw [settle, List.flatMap_cons]
    split
    · next hblank =>
      have hnone : solidLines item.left = [] := by
        rcases Bool.or_eq_true_iff.mp hblank with hblank | hunclosed
        · exact Item.solidLines_left_of_blank (Bool.and_eq_true_iff.mp hblank).2
        · exact Item.solidLines_left_of_isUnclosed (of_decide_eq_true hunclosed)
      rw [ih, hnone, List.nil_append]
    · rw [List.flatMap_cons, ih, Item.solidLines_left_settled]

theorem Item.isRecognised_settled {item : Item} (h : item.IsRecognised) (behind : Bool) :
    (item.settled behind).IsRecognised := by
  cases item with
  | plain => cases behind <;> trivial
  | declaration form hform =>
    by_cases hlist : form.turn = 3
    · cases form with
      | listExport => trivial
      | fromImport | bareImport | starExport | defaultExport | declaredExport => cases hlist
    · rwa [settled_declaration hlist]

theorem IsPlain.joinLines {texts : List (List Char)} (h : ∀ text ∈ texts, IsPlain text) :
    IsPlain (joinLines texts) := by
  cases texts with
  | nil => exact isPlain_nil
  | cons text texts =>
    obtain ⟨htext, htexts⟩ := List.forall_mem_cons.mp h
    rw [ModuleSyntax.joinLines]
    clear h
    induction texts generalizing text with
    | nil => simpa using htext
    | cons next texts ih =>
      obtain ⟨hnext, hlater⟩ := List.forall_mem_cons.mp htexts
      exact htext.append_cons (ih next hnext hlater)

/-! ## Rewritten programs -/

theorem solidLines_normalizeExports_removeImports {program : List Item} (h : IsApart program) :
    solidLines (normalizeExports false (removeImports false (text program))) =
      program.flatMap fun i => solidLines i.left := by
  rw [normalizeExports_removeImports h, solidLines_joinLines, List.flatMap_map,
    flatMap_solidLines_settle]

theorem isPlain_normalizeExports_removeImports {program : List Item} (h : IsApart program)
    (hrecognised : ∀ i ∈ program, i.IsRecognised) :
    IsPlain (normalizeExports false (removeImports false (text program))) := by
  rw [normalizeExports_removeImports h]
  apply IsPlain.joinLines
  intro text htext
  obtain ⟨i, hi, rfl⟩ := List.mem_map.mp htext
  apply Item.isPlain_left
  exact forall_mem_settle (fun _ => trivial)
    (fun i hi behind => Item.isRecognised_settled (hrecognised i hi) behind) false i hi

/-- Equal lines have equally many letters. -/
theorem isRecognised_of_flatMap {program : List Item}
    (h : (program.flatMap fun i => solidLines i.left) =
      program.flatMap fun i => solidLines i.remains) :
    ∀ i ∈ program, i.IsRecognised := by
  have hcount : ∀ f : Item → List Char,
      ((program.flatMap fun i => solidLines (f i)).flatMap letters).length =
        (program.map fun i => (letters (f i)).length).sum := by
    intro f
    rw [List.flatMap_assoc, List.length_flatMap]
    simp only [flatMap_letters_solidLines]
  have hsum := (hcount Item.remains).symm.trans
    ((congrArg (fun lines => (lines.flatMap letters).length) h.symm).trans (hcount Item.left))
  intro i hi
  by_contra hform
  refine (List.sum_lt_sum _ _ (fun j _ => ?_) ⟨i, hi, Item.length_letters_lt hform⟩).ne hsum
  by_cases hj : j.IsRecognised
  · rw [← flatMap_letters_solidLines, ← flatMap_letters_solidLines j.left, Item.solidLines_left hj]
  · exact (Item.length_letters_lt hj).le

/-- The rewritings of imports and exports remove the module syntax of a program, keep its plain
lines in their order and leave of its declarations what is to remain, if and only if each
declaration is recognised, as long as no list of exports goes on in the lines behind it. -/
theorem removal_iff (program : List Item) (h : IsApart program) :
    let result := normalizeExports false (removeImports false (text program))
    (Dialect.hasModuleSyntax result = false ∧
      solidLines result = program.flatMap fun i => solidLines i.remains) ↔
        ∀ i ∈ program, i.IsRecognised := by
  intro result
  have hlines := solidLines_normalizeExports_removeImports h
  constructor
  · rintro ⟨-, hremains⟩
    exact isRecognised_of_flatMap (hlines.symm.trans hremains)
  · intro hall
    refine ⟨hasModuleSyntax_of_isPlain (isPlain_normalizeExports_removeImports h hall), ?_⟩
    exact hlines.trans (List.flatMap_congr fun i hi => Item.solidLines_left (hall i hi))

instance : (item : Item) → Decidable item.IsRecognised
  | .plain .. => .isTrue trivial
  | .declaration form _ => inferInstanceAs (Decidable form.IsRecognised)

def noBlanks : Blanks := ⟨[], List.forall_mem_nil _⟩

def oneBlank : Blanks := ⟨[' '], by decide⟩

/-- A list of exports above a plain line, between an import over two lines and a default export. -/
def mixed : List Item :=
  [.declaration (.fromImport ⟨oneBlank, "\x7b a,\n  b \x7d ".toList,
      oneBlank, Specifier.mk '"' ['m'] (by decide) (by decide),
      ⟨[], true, noBlanks, by decide⟩, by decide, by decide, by decide, by decide⟩)
      (by decide +kernel),
    .declaration (.listExport ⟨oneBlank, none, " a ".toList,
      .unclosed noBlanks, by decide, by decide⟩) (by decide +kernel),
    .plain [] isPlain_nil,
    .plain "  run(a)".toList (by decide +kernel),
    .declaration (.defaultExport ⟨oneBlank, oneBlank, "b;".toList,
      by decide, by decide, by decide⟩) (by decide +kernel)]

theorem isApart_mixed : IsApart mixed := by
  refine ⟨False.elim, fun _ => ?_, False.elim, False.elim, False.elim, trivial⟩
  rintro (⟨rest, h⟩ | ⟨gap, source, rest, -, h⟩)
  · cases h
  · cases h

theorem removal_mixed :
    text mixed =
        ("import \x7b a,\n  b \x7d from \"m\";\nexport \x7b a \x7d\n\n" ++
          "  run(a)\nexport default b;").toList ∧
      IsApart mixed ∧
      solidLines (normalizeExports false (removeImports false (text mixed))) =
        ["run(a)".toList, "b;".toList] := by
  have hall : ∀ i ∈ mixed, i.IsRecognised := by decide
  have hremoval := (removal_iff mixed isApart_mixed).mpr hall
  exact ⟨by decide +kernel, isApart_mixed, hremoval.2⟩

/-- A default export without a blank behind its words. -/
def defaultArray : List Item :=
  [.declaration (.defaultExport ⟨oneBlank, noBlanks,
    "[1, 2]".toList, by decide, by decide, by decide⟩) (by decide +kernel),
    .plain [] isPlain_nil]

/-- A list of exports above a line that starts with a semicolon. -/
def semicolonBelow : List Item :=
  [.declaration (.listExport ⟨oneBlank, none, " a ".toList,
      .unclosed noBlanks, by decide, by decide⟩) (by decide +kernel),
    .plain ";f()".toList (by decide +kernel)]

/-- A default export stays, and is found to be module syntax, if its value stands right behind the
words; and a list of exports takes a semicolon from the plain line below it. -/
theorem removal_fails :
    (text defaultArray = "export default[1, 2]\n".toList ∧
      normalizeExports false (removeImports false (text defaultArray)) =
        text defaultArray ∧
      Dialect.hasModuleSyntax (text defaultArray) = true) ∧
    (text semicolonBelow = "export \x7b a \x7d\n;f()".toList ∧
      normalizeExports false (removeImports false (text semicolonBelow)) =
        "f()".toList) := by
  decide +kernel

end ModuleSyntax
end GuestCode
