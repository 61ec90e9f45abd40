import GuestCode.Proofs.Snippet.ImportGrammar
import GuestCode.Proofs.Text.Edges
import GuestCode.Proofs.Text.Preferred
import GuestCode.Proofs.Text.Words

/-!
# The names that imports bind

The clause of an import is found between the word `import` and the next `from` with a module behind
it. Nothing but a semicolon keeps a declaration without bindings from being taken as the start of
such a clause, up to the `from` of a later declaration. The names of that one are found in spite of
what stands before them; but if it binds a list and nothing else, what stands before the list ends
with the word `import`, which is then taken for a name.

## Main statements

* `Imports.mem_clauseNames`: the names that are found in a clause, whatever is taken with it.
* `Imports.mem_namesFrom`: the names that are found in a program, one declaration after the other.
* `Imports.importedNames_text`: exactly the names that a program binds are found, unless a list
  follows an open declaration without bindings.
-/

namespace GuestCode

open Text Text.Pattern

namespace Imports

variable {c : Char} {lead text front back rest : List Char}

/-! ## Words of names and items -/

theorem Name.ne_nil (name : Name) : name.text ≠ [] := by
  obtain ⟨c, cs, h, -⟩ := exists_of_isIdentifier name.isIdentifier
  rw [h]
  exact List.cons_ne_nil c cs

theorem Name.isBlank_of_mem (name : Name) : ∀ c ∈ name.text, isBlank c = false := by
  intro c hc
  apply Bool.eq_false_iff.mpr
  intro hblank
  exact nomatch (name.isNameChar c hc).symm.trans (isNameChar_of_isBlank hblank)

/-- No character of a name is one of the marks of a declaration. -/
theorem Name.not_mem_text (name : Name) (h : Grammar.isNameChar c = false) : c ∉ name.text := by
  intro hc
  exact nomatch (name.isNameChar c hc).symm.trans h

theorem Gap.not_mem_text (gap : Gap) (h : isBlank c = false) : c ∉ gap.text := by
  intro hc
  exact nomatch (gap.isBlank_of_mem c hc).symm.trans h

theorem Gap.blank_getLast? (gap : Gap) : ∀ c ∈ gap.text.getLast?, isBlank c = true :=
  fun c hc => gap.isBlank_of_mem c (List.mem_of_getLast? hc)

@[simp] theorem blankSeparated_name (name : Name) : blankSeparated name.text = [name.text] :=
  blankSeparated_word name.ne_nil name.isBlank_of_mem

@[simp] theorem blankSeparated_text_gap (gap : Gap) : blankSeparated gap.text = [] :=
  blankSeparated_of_blank gap.isBlank_of_mem

@[simp] theorem blankSeparated_append_gap (text : List Char) (gap : Gap) (rest : List Char) :
    blankSeparated (text ++ (gap.text ++ rest)) = blankSeparated text ++ blankSeparated rest :=
  blankSeparated_gap gap.ne_nil gap.isBlank_of_mem text rest

@[simp] theorem blankSeparated_gap_append (gap : Gap) (rest : List Char) :
    blankSeparated (gap.text ++ rest) = blankSeparated rest :=
  blankSeparated_append_gap [] gap rest

@[simp] theorem blankSeparated_append_end (text : List Char) (gap : Gap) :
    blankSeparated (text ++ gap.text) = blankSeparated text := by
  have h := blankSeparated_append_gap text gap []
  rwa [List.append_nil, blankSeparated_nil, List.append_nil] at h

theorem blankSeparated_keyword : ∀ word ∈ keywords, blankSeparated word = [word] := by decide

/-- The words of an item. -/
def Item.words (item : Item) : List (List Char) :=
  (item.typed.elim [] fun _ => ["type".toList]) ++
    item.name.text :: item.renamed.elim [] fun (_, _, name) => ["as".toList, name.text]

theorem blankSeparated_item (item : Item) : blankSeparated item.text = item.words := by
  obtain ⟨typed, name, renamed⟩ := item
  have hname : blankSeparated (name.text ++ renamedText renamed) =
      name.text :: renamed.elim [] fun (_, _, name) => ["as".toList, name.text] := by
    cases renamed with
    | none => simp [renamedText]
    | some other =>
      obtain ⟨gap, gap', name'⟩ := other
      have has := blankSeparated_keyword "as".toList (by decide)
      simp only [renamedText, Option.elim, blankSeparated_append_gap, blankSeparated_name, has]
      rfl
  cases typed with
  | none => exact hname
  | some gap =>
    have htype := blankSeparated_keyword "type".toList (by decide)
    simp only [Item.text, typeText, Option.elim, List.append_assoc, blankSeparated_append_gap,
      htype, hname]
    rfl

theorem Name.ne_keyword (name : Name) {word : List Char} (h : word ∈ keywords) :
    name.text ≠ word := by
  rintro rfl
  exact name.not_mem h

/-- The name that an item binds is found, whatever blanks are around the item. -/
theorem listedName?_eq {item : Item} (h : blankSeparated text = item.words) :
    listedName? text = some item.bound.text := by
  obtain ⟨typed, name, renamed⟩ := item
  have htype : name.text ≠ ['t', 'y', 'p', 'e'] := name.ne_keyword (by decide)
  have has : ['a', 's'] ≠ name.text := (name.ne_keyword (by decide)).symm
  have hidentifier := name.isIdentifier
  rw [listedName?, h]
  cases typed with
  | none =>
    cases renamed with
    | none => simp [Item.words, Item.bound, htype, has, hidentifier]
    | some other =>
      have hother := other.2.2.isIdentifier
      simp [Item.words, Item.bound, htype, hother]
  | some =>
    cases renamed with
    | none => simp [Item.words, Item.bound, has, hidentifier]
    | some other =>
      have hother := other.2.2.isIdentifier
      simp [Item.words, Item.bound, hother]

theorem listedName?_of_blank (h : blankSeparated text = []) : listedName? text = none := by
  rw [listedName?, h]
  rfl

/-- The last word of a text outside braces is the name that it binds. -/
theorem plainName?_eq {name : Name} (h : (blankSeparated text).getLast? = some name.text) :
    plainName? text = some name.text := by
  have htype : name.text ≠ ['t', 'y', 'p', 'e'] := name.ne_keyword (by decide)
  have has : name.text ≠ ['a', 's'] := name.ne_keyword (by decide)
  have hidentifier := name.isIdentifier
  simp [plainName?, h, htype, has, hidentifier]

theorem plainName?_of_blank (h : blankSeparated text = []) : plainName? text = none := by
  rw [plainName?, h]
  rfl

/-! ## Lists in braces -/

theorem not_mem_of_isPlainChar (h : ∀ c ∈ text, isPlainChar c = true)
    (hc : isPlainChar c = false) : c ∉ text := by
  intro hmem
  exact nomatch (h c hmem).symm.trans hc

/-- The names of the items of a list are found, whatever blanks stand before the first one. -/
theorem filterMap_listedName? (items : Items) (gap : Gap) :
    (splitOn ',' (gap.text ++ items.text)).filterMap listedName? = items.names.map Name.text := by
  have hcomma : ∀ (gap : Gap) (item : Item) (gap' : Gap),
      ',' ∉ gap.text ++ (item.text ++ gap'.text) := by
    intro gap item gap'
    apply not_mem_of_isPlainChar _ (by decide)
    simp only [List.forall_mem_append]
    exact ⟨gap.plain, item.plain, gap'.plain⟩
  have hname : ∀ (gap : Gap) (item : Item) (gap' : Gap),
      listedName? (gap.text ++ (item.text ++ gap'.text)) = some item.bound.text := by
    intro gap item gap'
    apply listedName?_eq
    rw [blankSeparated_gap_append, blankSeparated_append_end, blankSeparated_item]
  induction items generalizing gap with
  | none =>
    have hnot : ',' ∉ gap.text := not_mem_of_isPlainChar gap.plain (by decide)
    have hnone := listedName?_of_blank (blankSeparated_text_gap gap)
    rw [Items.text, List.append_nil, splitOn_eq_singleton hnot, List.filterMap_cons, hnone]
    rfl
  | last item gap' =>
    rw [Items.text, splitOn_eq_singleton (hcomma gap item gap'), List.filterMap_cons, hname]
    rfl
  | more item gap' gap'' others ih =>
    have hdivide : gap.text ++ (Items.more item gap' gap'' others).text =
        (gap.text ++ (item.text ++ gap'.text)) ++ ',' :: (gap''.text ++ others.text) := by
      simp [Items.text]
    rw [hdivide, splitOn_append_cons (hcomma gap item gap'), List.filterMap_cons, hname]
    dsimp only
    rw [ih]
    rfl

/-- A list in braces starts with a brace. -/
theorem matchAt?_bracedList_eq_none {p : Progress} (h : p.rest.head? ≠ some '\x7b') :
    bracedList.matchAt? p = none := by
  apply matchAt?_eq_none_of_not_takes
  intro u v hrest hu
  obtain ⟨brace, w, rfl, hbrace, -⟩ := takes_all_cons.mp hu
  obtain rfl := takes_lit.mp hbrace
  rw [hrest] at h
  exact h rfl

/-- No list starts in a text without braces. -/
theorem matchAt?_bracedList_of_not_mem (h : '\x7b' ∉ front) (before : Option Char) (offset : Nat)
    (rest : List Char) : ∀ u v, front = u ++ v → v ≠ [] → bracedList.matchAt?
      ⟨u.getLast?.or before, v ++ rest, offset + u.length, []⟩ = none := by
  intro u v huv hv
  obtain ⟨c, cs, rfl⟩ := List.exists_cons_of_ne_nil hv
  apply matchAt?_bracedList_eq_none
  intro hc
  apply h
  obtain rfl := Option.some.inj hc
  rw [huv]
  simp

theorem search?_bracedList_eq_none (h : '\x7b' ∉ text) : bracedList.search? text = none := by
  have hskip := searchFrom?_append_of_none (matchAt?_bracedList_of_not_mem h none 0 [])
  rw [List.append_nil] at hskip
  rw [search?, hskip]
  exact matchAt?_bracedList_eq_none (by simp)

/-- The first list of a text. -/
theorem search?_bracedList {inner : List Char} (hfront : '\x7b' ∉ front) (hinner : '\x7d' ∉ inner)
    (back : List Char) :
    bracedList.search? (front ++ ('\x7b' :: (inner ++ ['\x7d']) ++ back)) =
      some ⟨front.length, '\x7b' :: (inner ++ ['\x7d']), back,
        [⟨1, front.length + 1, inner⟩]⟩ := by
  have hall : ∀ c ∈ inner, (!"\x7d".toList.contains c) = true := by
    intro c hc
    have hne := ne_of_mem_of_not_mem hc hinner
    simpa using hne
  obtain ⟨q, hprefers, hrest, hcaptures⟩ : ∃ q, bracedList.Prefers ⟨front.getLast?.or none,
        '\x7b' :: (inner ++ ['\x7d']) ++ back, 0 + front.length, []⟩ q ∧ q.rest = back ∧
      q.captures = [⟨1, 0 + front.length + 1, inner⟩] := by
    rw [List.cons_append, List.append_assoc]
    refine ⟨_, prefers_all_cons (prefers_lit "\x7b") (prefers_all_cons
      (prefers_capture_star_char hall ?_) (prefers_lit "\x7d")), rfl, rfl⟩
    rfl
  have hmatch := matchAt?_of_prefers hprefers hrest
  have hskip := searchFrom?_append_of_none (matchAt?_bracedList_of_not_mem hfront none 0
    ('\x7b' :: (inner ++ ['\x7d']) ++ back))
  rw [search?, hskip, searchFrom?_of_match hmatch, hcaptures, Nat.zero_add]

/-! ## Clauses -/

/-- What may be taken with a clause: blanks and words, without the marks of a clause. -/
structure IsLead (lead : List Char) : Prop where
  not_mem : ∀ c ∈ [',', '\x7b'], c ∉ lead
  blank : ∀ c ∈ lead.getLast?, isBlank c = true

theorem clauseNames_of_not_mem (h : '\x7b' ∉ text) :
    clauseNames text = (splitOn ',' text).filterMap plainName? := by
  rw [clauseNames, search?_bracedList_eq_none h]

/-- The names of a list, and those that stand before it. -/
theorem clauseNames_braces (h : '\x7b' ∉ front) (list : Braces) :
    clauseNames (front ++ list.text) =
      list.names.map Name.text ++ (splitOn ',' front).filterMap plainName? := by
  have hinner : '\x7d' ∉ list.inner := by
    intro hmem
    rcases list.plain_or_comma _ hmem with hplain | heq
    · exact nomatch hplain
    · cases heq
  have hsearch := search?_bracedList h hinner []
  rw [List.append_nil] at hsearch
  rw [Braces.text, clauseNames, hsearch]
  dsimp only
  rw [show Found.captured _ 1 = list.inner from rfl, List.take_left, List.append_nil]
  congr 1
  exact filterMap_listedName? list.items list.gap

theorem Name.plainName?_append (name : Name) (h : IsLead lead) :
    plainName? (lead ++ name.text) = some name.text := by
  apply plainName?_eq
  rw [blankSeparated_append h.blank, blankSeparated_name, List.getLast?_concat]

theorem Name.plainName?_append_gap (name : Name) (gap : Gap) (h : IsLead lead) :
    plainName? (lead ++ (name.text ++ gap.text)) = some name.text := by
  apply plainName?_eq
  rw [blankSeparated_append h.blank, blankSeparated_append_end, blankSeparated_name,
    List.getLast?_concat]

theorem Whole.plainName?_append (whole : Whole) (h : IsLead lead) :
    plainName? (lead ++ whole.text) = some whole.name.text := by
  apply plainName?_eq
  have hstar : blankSeparated ['*'] = [['*']] := by decide
  have has := blankSeparated_keyword "as".toList (by decide)
  rw [blankSeparated_append h.blank, Whole.text, ← List.singleton_append,
    blankSeparated_append_gap, blankSeparated_append_gap, blankSeparated_name, hstar, has,
    ← List.append_assoc, ← List.append_assoc, List.getLast?_concat]

theorem Gap.isLead (gap : Gap) : IsLead gap.text := by
  have hall : ∀ c ∈ [',', '\x7b'], isPlainChar c = false := by decide
  exact ⟨fun c hc => not_mem_of_isPlainChar gap.plain (hall c hc), gap.blank_getLast?⟩

/-- A text behind a lead holds no mark if it holds none itself. -/
theorem IsLead.not_mem_append (hlead : IsLead lead) (hc : c ∈ [',', '\x7b'])
    (hplain : ∀ c ∈ text, isPlainChar c = true ∨ c = '*') : c ∉ lead ++ text := by
  have hall : ∀ c ∈ [',', '\x7b'], isPlainChar c = false ∧ c ≠ '*' := by decide
  obtain ⟨hnot, hstar⟩ := hall c hc
  intro hmem
  rcases List.mem_append.mp hmem with hmem | hmem
  · exact hlead.not_mem c hc hmem
  · rcases hplain c hmem with htrue | heq
    · exact nomatch htrue.symm.trans hnot
    · exact hstar heq

theorem Name.plain_or_star (name : Name) : ∀ c ∈ name.text, isPlainChar c = true ∨ c = '*' :=
  fun c hc => .inl (name.plain c hc)

theorem Name.plain_or_star_gap (name : Name) (gap : Gap) :
    ∀ c ∈ name.text ++ gap.text, isPlainChar c = true ∨ c = '*' :=
  fun c hc => .inl (List.forall_mem_append.mpr ⟨name.plain, gap.plain⟩ c hc)

/-- The names of a clause are found, whatever is taken with it; and if it is a list, the last word
of what is taken with it may be one more. -/
theorem mem_clauseNames (clause : Clause) (hlead : IsLead lead) {name : List Char} :
    name ∈ clauseNames (lead ++ clause.text) ↔ name ∈ clause.names.map Name.text ∨
      (∃ list, clause = .inBraces list) ∧ plainName? lead = some name := by
  have hcomma : ',' ∈ [',', '\x7b'] := by decide
  have hbrace : '\x7b' ∈ [',', '\x7b'] := by decide
  cases clause with
  | byDefault default =>
    have hnames : clauseNames (lead ++ default.text) = [default.text] := by
      rw [clauseNames_of_not_mem (hlead.not_mem_append hbrace default.plain_or_star),
        splitOn_eq_singleton (hlead.not_mem_append hcomma default.plain_or_star),
        List.filterMap_cons, default.plainName?_append hlead]
      rfl
    simp [Clause.text, Clause.names, hnames]
  | asWhole whole =>
    have hnames : clauseNames (lead ++ whole.text) = [whole.name.text] := by
      rw [clauseNames_of_not_mem (hlead.not_mem_append hbrace whole.plain_or_star),
        splitOn_eq_singleton (hlead.not_mem_append hcomma whole.plain_or_star),
        List.filterMap_cons, whole.plainName?_append hlead]
      rfl
    simp [Clause.text, Clause.names, hnames]
  | inBraces list =>
    have hfront : (splitOn ',' lead).filterMap plainName? = (plainName? lead).toList := by
      rw [splitOn_eq_singleton (hlead.not_mem ',' hcomma)]
      cases hname : plainName? lead <;> simp [hname]
    rw [Clause.text, clauseNames_braces (hlead.not_mem _ hbrace), hfront, List.mem_append,
      Option.mem_toList]
    simp [Clause.names]
  | defaultAndWhole default gap gap' whole =>
    have hdivide : lead ++ (Clause.defaultAndWhole default gap gap' whole).text =
        (lead ++ (default.text ++ gap.text)) ++ ',' :: (gap'.text ++ whole.text) := by
      simp [Clause.text]
    have hnot : '\x7b' ∉ lead ++ (Clause.defaultAndWhole default gap gap' whole).text := by
      rw [hdivide]
      intro hmem
      rcases List.mem_append.mp hmem with hmem | hmem
      · exact hlead.not_mem_append hbrace (default.plain_or_star_gap gap) hmem
      · rcases List.mem_cons.mp hmem with heq | hmem
        · cases heq
        · exact gap'.isLead.not_mem_append hbrace whole.plain_or_star hmem
    have hnames : clauseNames (lead ++ (Clause.defaultAndWhole default gap gap' whole).text) =
        [default.text, whole.name.text] := by
      rw [clauseNames_of_not_mem hnot, hdivide,
        splitOn_append_cons (hlead.not_mem_append hcomma (default.plain_or_star_gap gap)),
        splitOn_eq_singleton (gap'.isLead.not_mem_append hcomma whole.plain_or_star),
        List.filterMap_cons, default.plainName?_append_gap gap hlead, List.filterMap_cons,
        whole.plainName?_append gap'.isLead]
      rfl
    simp [Clause.names, hnames]
  | defaultAndBraces default gap gap' list =>
    have hdivide : lead ++ (Clause.defaultAndBraces default gap gap' list).text =
        ((lead ++ (default.text ++ gap.text)) ++ ',' :: gap'.text) ++ list.text := by
      simp [Clause.text]
    have hnot : '\x7b' ∉ (lead ++ (default.text ++ gap.text)) ++ ',' :: gap'.text := by
      intro hmem
      rcases List.mem_append.mp hmem with hmem | hmem
      · exact hlead.not_mem_append hbrace (default.plain_or_star_gap gap) hmem
      · rcases List.mem_cons.mp hmem with heq | hmem
        · cases heq
        · exact gap'.isLead.not_mem _ hbrace hmem
    have hnone := plainName?_of_blank (blankSeparated_text_gap gap')
    have hnames : clauseNames (lead ++ (Clause.defaultAndBraces default gap gap' list).text) =
        list.names.map Name.text ++ [default.text] := by
      rw [hdivide, clauseNames_braces hnot,
        splitOn_append_cons (hlead.not_mem_append hcomma (default.plain_or_star_gap gap)),
        splitOn_eq_singleton (gap'.isLead.not_mem ',' hcomma), List.filterMap_cons,
        default.plainName?_append_gap gap hlead, List.filterMap_cons, hnone]
      rfl
    simp [Clause.names, hnames, or_comm]

/-! ## The match of a clause -/

/-- What ends a clause. -/
def clauseEnd : List Pattern := [blanks, wordEdge, lit "from", blanks, lit "\"\""]

theorem importClause_eq : importClause = all ([wordEdge, lit "import", someBlanks,
    opt (.seq (lit "type") someBlanks), .capture 1 (lazyStar (noneOf ";"))] ++ clauseEnd) := rfl

/-- What ends a clause is the word `from` and the name of a module, with blanks around the word. -/
theorem takes_clauseEnd {w : List Char} (h : (all clauseEnd).Takes w) :
    ∃ gap gap' : List Char, (∀ c ∈ gap, isBlank c = true) ∧ (∀ c ∈ gap', isBlank c = true) ∧
      w = (gap ++ ("from".toList ++ gap')) ++ "\"\"".toList := by
  obtain ⟨gap, edge, rfl, hgap, hedge⟩ := takes_all_cons.mp h
  obtain ⟨_, word, rfl, rfl, hword⟩ := takes_all_cons.mp hedge
  obtain ⟨_, behind, rfl, hfrom, hbehind⟩ := takes_all_cons.mp hword
  obtain ⟨gap', quotes, rfl, hgap', hquotes⟩ := takes_all_cons.mp hbehind
  obtain rfl := takes_lit.mp hfrom
  obtain rfl := takes_lit.mp hquotes
  exact ⟨gap, gap', takes_blanks.mp hgap, takes_blanks.mp hgap', by simp⟩

/-- A clause starts with the word `import`. -/
theorem matchAt?_importClause_eq_none {p : Progress} (h : p.rest.head? ≠ some 'i') :
    importClause.matchAt? p = none := by
  apply matchAt?_eq_none_of_not_takes
  intro u v hrest hu
  obtain ⟨_, word, rfl, rfl, hword⟩ := takes_all_cons.mp hu
  obtain ⟨_, behind, rfl, himport, -⟩ := takes_all_cons.mp hword
  obtain rfl := takes_lit.mp himport
  rw [hrest] at h
  exact h rfl

/-- A clause reaches as far as the word `from`, and not over a semicolon. -/
theorem matchAt?_importClause_of_not_mem {p : Progress} (hrest : p.rest = front ++ back)
    (hfront : 'f' ∉ front) (hback : ∀ c ∈ back.head?, c = ';') :
    importClause.matchAt? p = none := by
  apply matchAt?_eq_none_of_not_takes
  intro u v huv hu
  rw [importClause_eq] at hu
  obtain ⟨w, x, rfl, hw, hx⟩ := takes_all_append.mp hu
  obtain ⟨gap, gap', hgap, -, rfl⟩ := takes_clauseEnd hx
  have hsemicolon : ';' ∉ w ++ gap := by
    intro hmem
    rcases List.mem_append.mp hmem with hmem | hmem
    · exact @not_mem_of_takes_all [';'] _ (by decide +kernel) _ hw ';' hmem (.head _)
    · exact nomatch hgap ';' hmem
  have hsplit : front ++ back =
      (w ++ gap) ++ 'f' :: ("rom".toList ++ (gap' ++ ("\"\"".toList ++ v))) := by
    rw [← hrest, huv]
    simp
  rcases List.append_eq_append_iff.mp hsplit with ⟨x, hx, rfl⟩ | ⟨x, hx, hword⟩
  · -- What comes after the front would be taken before the word, so that it holds no semicolon.
    cases x with
    | nil => cases hback 'f' rfl
    | cons d x =>
      obtain rfl := hback d rfl
      exact hsemicolon (by simp [hx])
  · cases x with
    | nil =>
      rw [List.nil_append] at hword
      rw [← hword] at hback
      cases hback 'f' rfl
    | cons d x =>
      obtain ⟨rfl, -⟩ := List.cons.inj hword
      exact hfront (by simp [hx])

/-! ### The ends of a clause -/

theorem Name.exists_last (name : Name) :
    ∃ c, name.text.getLast? = some c ∧ isBlank c = false :=
  ⟨_, List.getLast?_eq_some_getLast name.ne_nil,
    name.isBlank_of_mem _ (List.getLast_mem name.ne_nil)⟩

theorem Whole.exists_last (whole : Whole) :
    ∃ c, whole.text.getLast? = some c ∧ isBlank c = false := by
  obtain ⟨c, hc, hblank⟩ := whole.name.exists_last
  refine ⟨c, ?_, hblank⟩
  rw [Whole.text, ← List.append_assoc, ← List.append_assoc, ← List.cons_append,
    List.getLast?_append_of_ne_nil _ whole.name.ne_nil, hc]

theorem Braces.exists_last (list : Braces) :
    ∃ c, list.text.getLast? = some c ∧ isBlank c = false := by
  refine ⟨'\x7d', ?_, by decide⟩
  rw [Braces.text, ← List.cons_append, List.getLast?_concat]

/-- A clause does not end with a blank. -/
theorem Clause.exists_last (clause : Clause) :
    ∃ c, clause.text.getLast? = some c ∧ isBlank c = false := by
  have hbehind : ∀ {text rest : List Char}, (∃ c, rest.getLast? = some c ∧ isBlank c = false) →
      ∃ c, (text ++ rest).getLast? = some c ∧ isBlank c = false := by
    rintro text rest ⟨c, hc, hblank⟩
    exact ⟨c, by rw [List.getLast?_append, hc, Option.some_or], hblank⟩
  cases clause with
  | byDefault name => exact name.exists_last
  | asWhole whole => exact whole.exists_last
  | inBraces list => exact list.exists_last
  | defaultAndWhole name gap gap' whole =>
    rw [Clause.text, ← List.cons_append]
    exact hbehind (hbehind (hbehind whole.exists_last))
  | defaultAndBraces name gap gap' list =>
    rw [Clause.text, ← List.cons_append]
    exact hbehind (hbehind (hbehind list.exists_last))

/-- A clause starts with a name that blanks follow, or with a mark. -/
theorem Clause.exists_first (clause : Clause) (gap : Gap) (rest : List Char) :
    (∃ (name : Name) (gap' : Gap) (rest' : List Char),
        clause.text ++ (gap.text ++ rest) = name.text ++ (gap'.text ++ rest')) ∨
      ∃ c ∈ ['*', '\x7b'], (clause.text ++ (gap.text ++ rest)).head? = some c := by
  cases clause with
  | byDefault name => exact .inl ⟨name, gap, rest, rfl⟩
  | asWhole whole => exact .inr ⟨'*', by decide, rfl⟩
  | inBraces list => exact .inr ⟨'\x7b', by decide, rfl⟩
  | defaultAndWhole name gap' gap'' whole => exact .inl ⟨name, gap', _, by simp [Clause.text]; rfl⟩
  | defaultAndBraces name gap' gap'' list => exact .inl ⟨name, gap', _, by simp [Clause.text]; rfl⟩

theorem Name.exists_cons (name : Name) : ∃ c cs, name.text = c :: cs ∧ isBlank c = false := by
  obtain ⟨c, cs, htext⟩ := List.exists_cons_of_ne_nil name.ne_nil
  exact ⟨c, cs, htext, name.isBlank_of_mem c (htext ▸ .head cs)⟩

/-- A clause does not start with a blank. -/
theorem Clause.any_head? (clause : Clause) (gap : Gap) (rest : List Char) :
    (clause.text ++ (gap.text ++ rest)).head?.any isBlank = false := by
  rcases clause.exists_first gap rest with ⟨name, gap', rest', htext⟩ | ⟨c, hc, hhead⟩
  · obtain ⟨c, cs, hname, hblank⟩ := name.exists_cons
    rw [htext, hname]
    exact hblank
  · have hall : ∀ c ∈ ['*', '\x7b'], isBlank c = false := by decide
    rw [hhead]
    exact hall c hc

theorem Gap.any_head? (gap : Gap) (rest : List Char) {accepts : Char → Bool}
    (h : ∀ c, isBlank c = true → accepts c = false) :
    (gap.text ++ rest).head?.any accepts = false := by
  obtain ⟨c, cs, htext⟩ := List.exists_cons_of_ne_nil gap.ne_nil
  rw [htext]
  exact h c (gap.isBlank_of_mem c (htext ▸ .head cs))

/-- The word `type` and blanks. -/
def typeWord : Pattern := .seq (lit "type") someBlanks

/-- A clause does not start with the word `type`. -/
theorem Clause.ends_typeWord (clause : Clause) (gap : Gap) {p : Progress}
    (h : p.rest = clause.text ++ (gap.text ++ rest)) : typeWord.ends p = [] := by
  apply ends_eq_nil_of_not_takes
  rintro _ v huv ⟨_, blanks, rfl, htype, hblanks⟩
  obtain rfl := takes_lit.mp htype
  obtain ⟨hne, hblanks⟩ := takes_plus_char.mp hblanks
  rw [h, List.append_assoc] at huv
  rcases clause.exists_first gap rest with ⟨name, gap', rest', htext⟩ | ⟨c, hc, hhead⟩
  · rw [htext] at huv
    have hstop : (blanks ++ v).head?.any Grammar.isNameChar = false :=
      Gap.any_head? ⟨blanks, hblanks, hne⟩ v fun _ => isNameChar_of_isBlank
    obtain ⟨heq, -⟩ := run_append_inj name.isNameChar (by decide)
      (gap'.any_head? rest' fun _ => isNameChar_of_isBlank) hstop huv
    exact name.ne_keyword (by decide) heq
  · rw [huv] at hhead
    obtain rfl := Option.some.inj hhead
    revert hc
    decide

/-- The end of a clause does not match before the clause ends. -/
theorem Clause.ends_clauseEnd (clause : Clause) {gap gap' : Gap} {u v : List Char} {p : Progress}
    (hlead : 'f' ∉ lead) (huv : lead ++ clause.text = u ++ v) (hv : v ≠ [])
    (h : p.rest = v ++ (gap.text ++ ("from".toList ++ (gap'.text ++ ("\"\"".toList ++ rest))))) :
    (all clauseEnd).ends p = [] := by
  apply ends_eq_nil_of_not_takes
  intro w after hw htakes
  obtain ⟨before, behind, hbefore, hbehind, rfl⟩ := takes_clauseEnd htakes
  have hquote : '"' ∉ clause.text := by
    intro hmem
    exact not_mem_of_isFrontChar (clause.allowed _ hmem) (by decide)
  have hnot : ∀ {text : List Char}, '"' ∉ text → ∀ c ∈ text, (c != '"') = true := by
    intro text hmem c hc
    simpa using ne_of_mem_of_not_mem hc hmem
  have htaken : ∀ c ∈ before ++ ("from".toList ++ behind), (c != '"') = true := by
    simp only [List.forall_mem_append]
    refine ⟨hnot fun hmem => ?_, by decide, hnot fun hmem => ?_⟩
    · exact nomatch hbefore '"' hmem
    · exact nomatch hbehind '"' hmem
  rw [h, List.append_assoc] at hw
  by_cases hmem : '"' ∈ v
  · -- The quotes after the end would be those of a lead, in which the word does not stand.
    obtain ⟨x, y, rfl, hx⟩ := List.eq_append_cons_of_mem hmem
    rw [List.append_assoc, List.cons_append] at hw
    obtain ⟨heq, -⟩ := run_append_inj (hnot hx) htaken rfl rfl hw
    have hword : 'f' ∈ u ++ x := by simp [heq]
    rw [← List.append_assoc] at huv
    rcases List.append_eq_append_iff.mp huv with ⟨z, -, hz⟩ | ⟨z, hz, -⟩
    · exact hquote (by simp [hz])
    · apply hlead
      rw [hz]
      exact List.mem_append_left _ hword
  · -- Else what stands before the word would be blank, but a clause does not end with a blank.
    have hfront : ∀ c ∈ v ++ (gap.text ++ ("from".toList ++ gap'.text)), (c != '"') = true := by
      simp only [List.forall_mem_append]
      exact ⟨hnot hmem, hnot (gap.not_mem_text (by decide)), by decide,
        hnot (gap'.not_mem_text (by decide))⟩
    have hdivide : v ++ (gap.text ++ ("from".toList ++ (gap'.text ++ ("\"\"".toList ++ rest)))) =
        (v ++ (gap.text ++ ("from".toList ++ gap'.text))) ++ ("\"\"".toList ++ rest) := by
      simp only [List.append_assoc]
    rw [hdivide] at hw
    obtain ⟨heq, -⟩ := run_append_inj hfront htaken rfl rfl hw
    have hblank : ∀ {text : List Char}, (∀ c ∈ text, isBlank c = true) →
        text.filter (fun c => !isBlank c) = [] := by
      intro text htext
      apply List.filter_eq_nil_iff.mpr
      intro c hc
      simp [htext c hc]
    have hfilter := congrArg (List.filter fun c => !isBlank c) heq
    simp only [List.filter_append, hblank gap.isBlank_of_mem, hblank gap'.isBlank_of_mem,
      hblank hbefore, hblank hbehind, List.nil_append] at hfilter
    have hnone := List.filter_eq_nil_iff.mp (List.append_left_eq_self.mp hfilter)
    obtain ⟨c, hc, hcblank⟩ := clause.exists_last
    have hlast : v.getLast? = some c := by
      rw [← List.getLast?_append_of_ne_nil u hv, ← huv, List.getLast?_append, hc, Option.some_or]
    have hfalse := hnone c (List.mem_of_getLast? hlast)
    rw [hcblank] at hfalse
    exact hfalse rfl

/-- The end of a clause matches. -/
theorem exists_prefers_clauseEnd (gap gap' : Gap) (before : Option Char) (offset : Nat)
    (captures : List Capture) (rest : List Char) : ∃ q, (all clauseEnd).Prefers
        ⟨before, gap.text ++ ("from".toList ++ (gap'.text ++ ("\"\"".toList ++ rest))), offset,
          captures⟩ q ∧
      q.rest = rest ∧ q.captures = captures := by
  have hedge : isEdge (gap.text.getLast?.or before)
      ("from".toList ++ (gap'.text ++ ("\"\"".toList ++ rest))) = true := by
    have hlast := List.getLast?_eq_some_getLast gap.ne_nil
    have hblank :=
      Segment.isWordChar_of_isBlank (gap.isBlank_of_mem _ (List.getLast_mem gap.ne_nil))
    rw [isEdge, hlast, Option.some_or, Option.any_some, hblank]
    rfl
  have hquotes := prefers_all_cons (@prefers_lit
    (gap'.text.getLast?.or ("from".toList.getLast?.or (gap.text.getLast?.or before)))
    (offset + gap.text.length + "from".toList.length + gap'.text.length) captures rest "\"\"")
    (prefers_all_nil _)
  have hfrom := prefers_all_cons (prefers_lit "from")
    (prefers_all_cons (prefers_star_char gap'.isBlank_of_mem rfl) hquotes)
  exact ⟨_, prefers_all_cons (prefers_star_char gap.isBlank_of_mem rfl)
    (prefers_all_cons (prefers_condition hedge) hfrom), rfl, rfl⟩

/-- How a clause is taken, with what is taken with it. -/
theorem exists_prefers_importClause (clause : Clause) {gap gap' gap'' : Gap} {taken : List Char}
    {before : Option Char} {offset : Nat} (hbefore : before.any isWordChar = false)
    (hlead : ∀ c ∈ lead, c ≠ 'f' ∧ c ≠ ';')
    (hhead : (taken ++ ((lead ++ clause.text) ++ (gap'.text ++ ("from".toList ++ (gap''.text ++
      ("\"\"".toList ++ rest)))))).head?.any isBlank = false)
    (htype : ∀ before offset rest, ∃ before',
      (opt typeWord).Prefers ⟨before, taken ++ ((lead ++ clause.text) ++ (gap'.text ++ rest)),
          offset, []⟩
        ⟨before', (lead ++ clause.text) ++ (gap'.text ++ rest), offset + taken.length, []⟩) :
    ∃ q, importClause.Prefers ⟨before, "import".toList ++ (gap.text ++ (taken ++
          ((lead ++ clause.text) ++ (gap'.text ++ ("from".toList ++
            (gap''.text ++ ("\"\"".toList ++ rest))))))), offset, []⟩ q ∧ q.rest = rest ∧
      ∃ place, q.captures = [⟨1, place, lead ++ clause.text⟩] := by
  obtain ⟨before', hopt⟩ := htype (gap.text.getLast?.or ("import".toList.getLast?.or before))
    (offset + "import".toList.length + gap.text.length)
    ("from".toList ++ (gap''.text ++ ("\"\"".toList ++ rest)))
  obtain ⟨q, hend, hrest, hcaptures⟩ := exists_prefers_clauseEnd gap' gap''
    ((lead ++ clause.text).getLast?.or before')
    (offset + "import".toList.length + gap.text.length + taken.length +
      (lead ++ clause.text).length)
    [⟨1, offset + "import".toList.length + gap.text.length + taken.length, lead ++ clause.text⟩]
    rest
  have hrun : ∀ c ∈ lead ++ clause.text, (!";".toList.contains c) = true := by
    intro c hc
    have hne : c ≠ ';' := by
      rcases List.mem_append.mp hc with hc | hc
      · exact (hlead c hc).2
      · rintro rfl
        exact not_mem_of_isFrontChar (clause.allowed _ hc) (by decide)
    simpa using hne
  have hnot : 'f' ∉ lead := fun hmem => (hlead 'f' hmem).1 rfl
  have hclause := prefers_capture_lazy 1 hrun
    (fun u v huv hv p hp => clause.ends_clauseEnd hnot huv hv hp) hend
  have hedge : isEdge before ("import".toList ++ (gap.text ++ (taken ++ ((lead ++ clause.text) ++
      (gap'.text ++ ("from".toList ++ (gap''.text ++ ("\"\"".toList ++ rest)))))))) = true := by
    rw [isEdge, hbefore]
    rfl
  refine ⟨q, ?_, hrest, _, hcaptures⟩
  exact prefers_all_cons (prefers_condition hedge) (prefers_all_cons (prefers_lit "import")
    (prefers_all_cons (prefers_plus_char gap.ne_nil gap.isBlank_of_mem hhead)
      (prefers_all_cons hopt hclause)))

/-! ## What is taken with a clause -/

/-- What ends with a blank, or is empty. -/
def EndsBlank (text : List Char) : Prop := ∀ c ∈ text.getLast?, isBlank c = true

theorem EndsBlank.append (hrest : EndsBlank rest) (h : EndsBlank text) :
    EndsBlank (text ++ rest) := by
  intro c hc
  rw [List.getLast?_append, Option.mem_def, Option.or_eq_some_iff] at hc
  rcases hc with hc | ⟨-, hc⟩
  · exact hrest c hc
  · exact h c hc

/-- A text that does not end with what stands before it. -/
theorem EndsBlank.append_of_ne_nil (hrest : EndsBlank rest) (hne : rest ≠ []) (text : List Char) :
    EndsBlank (text ++ rest) := by
  intro c hc
  rw [List.getLast?_append_of_ne_nil text hne] at hc
  exact hrest c hc

theorem Declaration.endsBlank_back (declaration : Declaration) :
    EndsBlank declaration.back ∧ declaration.back ≠ [] := by
  have hgap := declaration.ending.gap.blank_getLast?
  have hne := declaration.ending.gap.ne_nil
  constructor
  · rw [Declaration.back, Ending.text, ← List.append_assoc]
    exact EndsBlank.append_of_ne_nil hgap hne _
  · simp [Declaration.back, Ending.text, hne]

theorem endsBlank_view (program : List Declaration) : EndsBlank (view program) := by
  induction program with
  | nil => exact fun c hc => nomatch hc
  | cons declaration program ih =>
    obtain ⟨hback, hne⟩ := declaration.endsBlank_back
    rw [view, List.flatMap_cons, Declaration.view, ← List.append_assoc]
    exact ih.append (hback.append_of_ne_nil hne _)

/-- The characters of what may be taken with a clause. -/
def isLeadChar (c : Char) : Bool := isBlank c || "import\"ye".toList.contains c

theorem isLeadChar_of_isBlank {c : Char} (h : isBlank c = true) : isLeadChar c = true :=
  Bool.or_eq_true_iff.mpr (.inl h)

/-- What an open declaration without bindings leaves in the redacted view. -/
theorem Declaration.IsOpenBare.isLeadChar {declaration : Declaration} (h : declaration.IsOpenBare) :
    (∀ c ∈ declaration.back, Imports.isLeadChar c = true) ∧
      ∀ c ∈ declaration.view, Imports.isLeadChar c = true := by
  obtain ⟨hbindings, hsemicolon⟩ := h
  have hback : ∀ c ∈ declaration.back, Imports.isLeadChar c = true := by
    rw [Declaration.back, Ending.text, hsemicolon]
    simp only [Option.elim, List.nil_append, List.forall_mem_append]
    constructor
    · intro c hc
      rw [List.eq_of_mem_replicate hc]
      decide
    · exact fun c hc => isLeadChar_of_isBlank (declaration.ending.gap.isBlank_of_mem c hc)
  refine ⟨hback, ?_⟩
  rw [Declaration.view, Declaration.front, hbindings]
  simp only [Option.elim, List.append_nil, List.forall_mem_append]
  refine ⟨⟨by decide, fun c hc => ?_⟩, by decide, hback⟩
  exact isLeadChar_of_isBlank (declaration.gap.isBlank_of_mem c hc)

variable {pending : List Declaration}

theorem isLeadChar_view (h : ∀ d ∈ pending, d.IsOpenBare) :
    ∀ c ∈ view pending, isLeadChar c = true := by
  intro c hc
  obtain ⟨d, hd, hc⟩ := List.mem_flatMap.mp hc
  exact (h d hd).isLeadChar.2 c hc

/-- What is taken with the clause of a declaration that stands behind open ones without bindings. -/
def leadOf (gap : Gap) (typed : Option Gap) : List Declaration → List Char
  | [] => []
  | first :: pending => "\"\"".toList ++ (first.back ++ (view pending ++
      ("import".toList ++ (gap.text ++ typeText typed))))

variable {gap : Gap} {typed : Option Gap}

theorem endsBlank_typeText (gap : Gap) (typed : Option Gap) :
    EndsBlank (gap.text ++ typeText typed) := by
  cases typed with
  | none =>
    rw [typeText, Option.elim, List.append_nil]
    exact gap.blank_getLast?
  | some gap' =>
    rw [typeText, Option.elim, ← List.append_assoc]
    exact EndsBlank.append_of_ne_nil gap'.blank_getLast? gap'.ne_nil _

theorem isLeadChar_leadOf (h : ∀ d ∈ pending, d.IsOpenBare) :
    ∀ c ∈ leadOf gap typed pending, isLeadChar c = true := by
  have hgap : ∀ (gap : Gap), ∀ c ∈ gap.text, isLeadChar c = true :=
    fun gap c hc => isLeadChar_of_isBlank (gap.isBlank_of_mem c hc)
  cases pending with
  | nil => simp [leadOf]
  | cons first pending =>
    obtain ⟨hfirst, hpending⟩ := List.forall_mem_cons.mp h
    simp only [leadOf, List.forall_mem_append]
    refine ⟨by decide, hfirst.isLeadChar.1, isLeadChar_view hpending, by decide, hgap gap, ?_⟩
    cases typed with
    | none => simp [typeText]
    | some gap' => exact List.forall_mem_append.mpr ⟨by decide, hgap gap'⟩

theorem isLead_leadOf (h : ∀ d ∈ pending, d.IsOpenBare) : IsLead (leadOf gap typed pending) := by
  have hall : ∀ c ∈ [',', '\x7b'], isLeadChar c = false := by decide
  constructor
  · intro c hc hmem
    exact nomatch (hall c hc).symm.trans (isLeadChar_leadOf h c hmem)
  · cases pending with
    | nil => exact fun c hc => nomatch hc
    | cons first pending =>
      have hne : gap.text ++ typeText typed ≠ [] := by simp [gap.ne_nil]
      rw [leadOf, ← List.append_assoc, ← List.append_assoc, ← List.append_assoc]
      exact (endsBlank_typeText gap typed).append_of_ne_nil hne _

/-- The last word of what is taken with a clause. -/
theorem plainName?_leadOf {name : List Char} :
    plainName? (leadOf gap typed pending) = some name ↔
      pending ≠ [] ∧ typed = none ∧ name = "import".toList := by
  cases pending with
  | nil => simp [leadOf, plainName?]
  | cons first pending =>
    have himport := blankSeparated_keyword "import".toList (by decide)
    have htype := blankSeparated_keyword "type".toList (by decide)
    obtain ⟨hback, hne⟩ := first.endsBlank_back
    have hfront : EndsBlank ("\"\"".toList ++ (first.back ++ view pending)) := by
      rw [← List.append_assoc]
      exact (endsBlank_view pending).append (hback.append_of_ne_nil hne _)
    rw [leadOf, plainName?, ← List.append_assoc first.back, ← List.append_assoc,
      blankSeparated_append hfront, blankSeparated_append_gap, himport]
    cases typed with
    | none =>
      rw [typeText, Option.elim, blankSeparated_nil, List.append_nil, List.getLast?_concat]
      have hname : Option.filter (fun name => Grammar.isIdentifier name && name != "as".toList &&
          name != "type".toList) (some "import".toList) = some "import".toList := by decide
      rw [hname]
      simp [eq_comm]
    | some gap' =>
      rw [typeText, Option.elim, blankSeparated_append_end, htype, ← List.append_assoc,
        List.getLast?_concat]
      have hname : Option.filter (fun name => Grammar.isIdentifier name && name != "as".toList &&
          name != "type".toList) (some "type".toList) = none := by decide
      rw [hname]
      simp

/-! ## One declaration after the other -/

/-- The clauses that are found in a text behind another one. -/
def clausesFrom (before : Option Char) (offset : Nat) (text : List Char) : List (List Char) :=
  (importClause.partsFrom before offset 0 text).filterMap fun
    | .plain _ => none
    | .found m => some (m.captured 1)

variable {before : Option Char} {offset : Nat}

theorem clausesFrom_append_of_none
    (h : ∀ u v, text = u ++ v → v ≠ [] → ∀ p : Progress, p.rest = v ++ rest →
      importClause.matchAt? p = none) :
    clausesFrom before offset (text ++ rest) =
      clausesFrom (text.getLast?.or before) (offset + text.length) rest := by
  have hparts := @partsFrom_append_of_none importClause before offset text rest
    fun u v huv hv => h u v huv hv _ rfl
  rw [clausesFrom, hparts, List.filterMap_append, List.filterMap_map]
  have hplain : ∀ cs : List Char, cs.filterMap ((fun
      | .plain _ => none
      | .found m => some (m.captured 1) : Part → Option (List Char)) ∘ Part.plain) = [] := by
    intro cs
    exact List.filterMap_eq_nil_iff.mpr fun c _ => rfl
  rw [hplain]
  rfl

theorem clausesFrom_append_of_match {w : List Char} {q : Progress} {place : Nat} (hne : w ≠ [])
    (h : importClause.Prefers ⟨before, w ++ rest, offset, []⟩ q) (hrest : q.rest = rest)
    (hcaptures : q.captures = [⟨1, place, text⟩]) :
    clausesFrom before offset (w ++ rest) =
      text :: clausesFrom (w.getLast?.or before) (offset + w.length) rest := by
  have hmatch := matchAt?_of_prefers h hrest
  have hcaptured : Found.captured ⟨offset, w, rest, q.captures⟩ 1 = text := by
    rw [hcaptures]
    rfl
  rw [clausesFrom, partsFrom_of_match hne hmatch rfl, List.filterMap_cons]
  dsimp only
  rw [hcaptured]
  rfl

/-- No clause starts in a text without the first character of the word `import`. -/
theorem clausesFrom_append_of_not_mem (h : 'i' ∉ text) :
    clausesFrom before offset (text ++ rest) =
      clausesFrom (text.getLast?.or before) (offset + text.length) rest := by
  apply clausesFrom_append_of_none
  intro u v huv hv p hp
  obtain ⟨c, cs, rfl⟩ := List.exists_cons_of_ne_nil hv
  apply matchAt?_importClause_eq_none
  rw [hp]
  intro hc
  obtain rfl := Option.some.inj hc
  apply h
  rw [huv]
  simp

theorem not_mem_back (declaration : Declaration) : 'i' ∉ declaration.back := by
  intro hmem
  rcases List.mem_append.mp hmem with hmem | hmem
  · cases List.eq_of_mem_replicate hmem
  · rcases declaration.ending.isBlank_of_mem _ hmem with hblank | heq
    · cases hblank
    · cases heq

/-- After a declaration no word goes on. -/
theorem any_getLast?_back (declaration : Declaration) (before : Option Char) :
    (declaration.back.getLast?.or before).any isWordChar = false := by
  obtain ⟨hback, hne⟩ := declaration.endsBlank_back
  have hlast := List.getLast?_eq_some_getLast hne
  rw [hlast, Option.some_or]
  exact Segment.isWordChar_of_isBlank (hback _ hlast)

/-- A clause is found with what is taken with it, and the search goes on behind the quotes. -/
theorem exists_clausesFrom_of_clause (clause : Clause) {gap gap' gap'' : Gap} {taken : List Char}
    (hbefore : before.any isWordChar = false) (hlead : ∀ c ∈ lead, c ≠ 'f' ∧ c ≠ ';')
    (hhead : (taken ++ ((lead ++ clause.text) ++ (gap'.text ++ ("from".toList ++ (gap''.text ++
      ("\"\"".toList ++ rest)))))).head?.any isBlank = false)
    (htype : ∀ before offset rest, ∃ before',
      (opt typeWord).Prefers ⟨before, taken ++ ((lead ++ clause.text) ++ (gap'.text ++ rest)),
          offset, []⟩
        ⟨before', (lead ++ clause.text) ++ (gap'.text ++ rest), offset + taken.length, []⟩) :
    ∃ before' offset', clausesFrom before offset ("import".toList ++ (gap.text ++ (taken ++
        ((lead ++ clause.text) ++ (gap'.text ++ ("from".toList ++
          (gap''.text ++ ("\"\"".toList ++ rest)))))))) =
      (lead ++ clause.text) :: clausesFrom before' offset' rest := by
  obtain ⟨q, hprefers, hrest, place, hcaptures⟩ :=
    exists_prefers_importClause clause hbefore hlead hhead htype
  obtain ⟨w, hw⟩ : ∃ w, "import".toList ++ (gap.text ++ (taken ++ ((lead ++ clause.text) ++
      (gap'.text ++ ("from".toList ++ (gap''.text ++ "\"\"".toList)))))) = w := ⟨_, rfl⟩
  have hdivide : "import".toList ++ (gap.text ++ (taken ++ ((lead ++ clause.text) ++ (gap'.text ++
      ("from".toList ++ (gap''.text ++ ("\"\"".toList ++ rest))))))) = w ++ rest := by
    rw [← hw]
    simp only [List.append_assoc]
  have hne : w ≠ [] := by
    rw [← hw]
    exact List.cons_ne_nil _ _
  rw [hdivide] at hprefers ⊢
  exact ⟨_, _, clausesFrom_append_of_match hne hprefers hrest hcaptures⟩

/-- The word `type` of a declaration is taken before its clause. -/
theorem exists_prefers_typeText (clause : Clause) (gap : Gap) (typed : Option Gap)
    (before : Option Char) (offset : Nat) (rest : List Char) : ∃ before', (opt typeWord).Prefers
      ⟨before, typeText typed ++ (clause.text ++ (gap.text ++ rest)), offset, []⟩
      ⟨before', clause.text ++ (gap.text ++ rest), offset + (typeText typed).length, []⟩ := by
  cases typed with
  | none => exact ⟨before, prefers_opt_of_nil (clause.ends_typeWord gap rfl)⟩
  | some gap' =>
    have hblanks := @prefers_plus_char isBlank ("type".toList.getLast?.or before)
      (offset + "type".toList.length) [] gap'.text (clause.text ++ (gap.text ++ rest)) gap'.ne_nil
      gap'.isBlank_of_mem (clause.any_head? gap rest)
    have hword : typeWord.Prefers _ _ := prefers_all_cons (prefers_lit "type")
      (prefers_all_cons hblanks (prefers_all_nil _))
    rw [Nat.add_assoc, ← List.length_append, ← List.append_assoc] at hword
    exact ⟨_, prefers_opt hword⟩

/-- Quotes are no word. -/
theorem ends_typeWord_quotes {p : Progress} (h : p.rest = "\"\"".toList ++ rest) :
    typeWord.ends p = [] := by
  apply ends_eq_nil_of_not_takes
  rintro _ v huv ⟨_, blanks, rfl, htype, -⟩
  obtain rfl := takes_lit.mp htype
  rw [h] at huv
  cases huv

/-- Open declarations without bindings and the clause of the next declaration are taken as one
clause. -/
theorem exists_clausesFrom_of_bindings {d : Declaration} {bindings : Bindings}
    (hpending : ∀ d ∈ pending, d.IsOpenBare) (hbindings : d.bindings = some bindings)
    (hbefore : before.any isWordChar = false) (rest : List Char) :
    ∃ before' offset', before'.any isWordChar = false ∧
      clausesFrom before offset (view pending ++ (d.view ++ rest)) =
        (leadOf d.gap bindings.typed pending ++ bindings.clause.text) ::
          clausesFrom before' offset' rest := by
  have hlead : ∀ c ∈ leadOf d.gap bindings.typed pending, c ≠ 'f' ∧ c ≠ ';' := by
    intro c hc
    have hchar := isLeadChar_leadOf hpending c hc
    constructor
    · rintro rfl
      cases hchar
    · rintro rfl
      cases hchar
  obtain ⟨before', offset', hclauses⟩ : ∃ before' offset',
      clausesFrom before offset (view pending ++ (d.view ++ rest)) =
        (leadOf d.gap bindings.typed pending ++ bindings.clause.text) ::
          clausesFrom before' offset' (d.back ++ rest) := by
    cases pending with
    | nil =>
      have htext : view [] ++ (d.view ++ rest) = "import".toList ++ (d.gap.text ++
          (typeText bindings.typed ++ (([] ++ bindings.clause.text) ++ (bindings.gap.text ++
            ("from".toList ++ (bindings.gap'.text ++ ("\"\"".toList ++ (d.back ++ rest)))))))) := by
        simp [view, Declaration.view, Declaration.front, hbindings, Bindings.text]
      rw [htext]
      refine exists_clausesFrom_of_clause bindings.clause hbefore hlead ?_
        (exists_prefers_typeText bindings.clause bindings.gap bindings.typed)
      cases bindings.typed with
      | none => exact bindings.clause.any_head? bindings.gap _
      | some => rfl
    | cons first pending =>
      obtain ⟨hfirst, -⟩ := (List.forall_mem_cons.mp hpending).1
      have htext : view (first :: pending) ++ (d.view ++ rest) = "import".toList ++
          (first.gap.text ++ ([] ++ ((leadOf d.gap bindings.typed (first :: pending) ++
            bindings.clause.text) ++ (bindings.gap.text ++ ("from".toList ++
              (bindings.gap'.text ++ ("\"\"".toList ++ (d.back ++ rest)))))))) := by
        simp [view, Declaration.view, Declaration.front, hbindings, hfirst, Bindings.text, leadOf]
      rw [htext]
      refine exists_clausesFrom_of_clause bindings.clause hbefore hlead rfl fun before _ _ => ?_
      exact ⟨before, prefers_opt_of_nil (ends_typeWord_quotes (List.append_assoc _ _ _))⟩
  rw [hclauses, clausesFrom_append_of_not_mem (not_mem_back d)]
  exact ⟨_, _, any_getLast?_back d _, rfl⟩

/-- A declaration without bindings that a semicolon ends keeps what stands before it from being
taken for the start of a clause. -/
theorem exists_clausesFrom_of_semicolon {d : Declaration}
    (hpending : ∀ d ∈ pending, d.IsOpenBare) (hbindings : d.bindings = none)
    (hsemicolon : d.ending.semicolon ≠ none) (rest : List Char) :
    ∃ before' offset', before'.any isWordChar = false ∧
      clausesFrom before offset (view pending ++ (d.view ++ rest)) =
        clausesFrom before' offset' rest := by
  obtain ⟨⟨blanks, hblank⟩, hblanks⟩ := Option.ne_none_iff_exists'.mp hsemicolon
  obtain ⟨front, hfront⟩ : ∃ front, view pending ++ ("import".toList ++ (d.gap.text ++
      ("\"\"".toList ++ (List.replicate (d.specifier.text.count '\n') '\n' ++ blanks)))) =
    front := ⟨_, rfl⟩
  have hdivide : view pending ++ (d.view ++ rest) =
      front ++ ((';' :: d.ending.gap.text) ++ rest) := by
    rw [← hfront]
    simp [Declaration.view, Declaration.front, hbindings, Declaration.back, Ending.text, hblanks]
  have hchars : ∀ c ∈ front, isLeadChar c = true := by
    rw [← hfront]
    simp only [List.forall_mem_append]
    refine ⟨isLeadChar_view hpending, by decide,
      fun c hc => isLeadChar_of_isBlank (d.gap.isBlank_of_mem c hc), by decide, fun c hc => ?_,
      fun c hc => isLeadChar_of_isBlank (hblank c hc)⟩
    rw [List.eq_of_mem_replicate hc]
    decide
  -- Up to the semicolon there is no `from`.
  have hskip := @clausesFrom_append_of_none front ((';' :: d.ending.gap.text) ++ rest) before offset
    fun u v huv _ p hp => matchAt?_importClause_of_not_mem hp
      (fun hmem => by
        have hchar := hchars 'f' (huv ▸ List.mem_append_right u hmem)
        cases hchar)
      (fun c hc => (Option.some.inj hc).symm)
  have hnot : 'i' ∉ ';' :: d.ending.gap.text := by
    intro hmem
    rcases List.mem_cons.mp hmem with heq | hmem
    · cases heq
    · exact d.ending.gap.not_mem_text (by decide) hmem
  rw [hdivide, hskip, clausesFrom_append_of_not_mem hnot]
  refine ⟨_, _, ?_, rfl⟩
  have hlast := List.getLast?_eq_some_getLast d.ending.gap.ne_nil
  rw [List.getLast?_cons, hlast]
  exact Segment.isWordChar_of_isBlank
    (d.ending.gap.isBlank_of_mem _ (List.getLast_mem d.ending.gap.ne_nil))

/-! ## Lists behind open declarations -/

/-- Whether a list, and nothing else, is bound right behind an open declaration without bindings. -/
def ListFollowsOpenBare (program : List Declaration) : Prop :=
  ∃ bare listed : Declaration, bare.IsOpenBare ∧ listed.IsListOnly ∧ [bare, listed] <:+: program

theorem Declaration.IsListOnly.not_isOpenBare {d : Declaration} (h : d.IsListOnly) :
    ¬d.IsOpenBare := by
  obtain ⟨bindings, list, hbindings, -⟩ := h
  rintro ⟨hnone, -⟩
  rw [hbindings] at hnone
  cases hnone

theorem not_listFollowsOpenBare (h : ∀ d ∈ pending, d.IsOpenBare) :
    ¬ListFollowsOpenBare pending := by
  rintro ⟨bare, listed, -, hlisted, hinfix⟩
  exact hlisted.not_isOpenBare (h listed (List.IsInfix.subset hinfix (by simp)))

theorem listFollowsOpenBare_cons {d : Declaration} {program : List Declaration} :
    ListFollowsOpenBare (d :: program) ↔
      (d.IsOpenBare ∧ ∃ listed ∈ program.head?, listed.IsListOnly) ∨
        ListFollowsOpenBare program := by
  constructor
  · rintro ⟨bare, listed, hbare, hlisted, hinfix⟩
    rcases List.infix_cons_iff.mp hinfix with hprefix | hinfix
    · obtain ⟨rfl, hlater⟩ := List.cons_prefix_cons.mp hprefix
      obtain ⟨rest, hrest⟩ := hlater
      rw [← hrest]
      exact .inl ⟨hbare, listed, rfl, hlisted⟩
    · exact .inr ⟨bare, listed, hbare, hlisted, hinfix⟩
  · rintro (⟨hbare, listed, hhead, hlisted⟩ | ⟨bare, listed, hbare, hlisted, hinfix⟩)
    · obtain ⟨rest, rfl⟩ := List.head?_eq_some_iff.mp hhead
      exact ⟨d, listed, hbare, hlisted, (List.prefix_append [d, listed] rest).isInfix⟩
    · exact ⟨bare, listed, hbare, hlisted, List.infix_cons hinfix⟩

/-- Behind open declarations, a list follows one of them if it is the next declaration. -/
theorem listFollowsOpenBare_append {d : Declaration} {program : List Declaration}
    (hpending : ∀ d ∈ pending, d.IsOpenBare) (hd : ¬d.IsOpenBare) :
    ListFollowsOpenBare (pending ++ d :: program) ↔
      (pending ≠ [] ∧ d.IsListOnly) ∨ ListFollowsOpenBare program := by
  induction pending with
  | nil => simp [listFollowsOpenBare_cons, hd]
  | cons first pending ih =>
    obtain ⟨hfirst, hpending⟩ := List.forall_mem_cons.mp hpending
    rw [List.cons_append, listFollowsOpenBare_cons, ih hpending]
    cases pending with
    | nil => simp [hfirst]
    | cons next pending =>
      have hnext : ¬next.IsListOnly := fun h => h.not_isOpenBare (hpending next (.head _))
      simp [hnext]

/-- The names that are found in a program: those that it binds, and the word `import` if a list is
taken with an open declaration without bindings. -/
theorem mem_clausesFrom (hpending : ∀ d ∈ pending, d.IsOpenBare)
    (hbefore : before.any isWordChar = false) (program : List Declaration) {name : List Char} :
    name ∈ (clausesFrom before offset (view pending ++ view program)).flatMap clauseNames ↔
      name ∈ names program ∨
        (name = "import".toList ∧ ListFollowsOpenBare (pending ++ program)) := by
  -- The induction goes over the program; open declarations are kept until a clause takes them.
  induction program generalizing pending before offset with
  | nil =>
    have hskip := @clausesFrom_append_of_none (view pending) [] before offset
      fun u v huv _ p hp => matchAt?_importClause_of_not_mem hp
        (fun hmem => by
          have hchar := isLeadChar_view hpending 'f' (huv ▸ List.mem_append_right u hmem)
          cases hchar)
        (fun c hc => nomatch hc)
    have hnone := not_listFollowsOpenBare hpending
    rw [show view [] = [] from rfl, hskip, List.append_nil]
    simp [clausesFrom, partsFrom, names, hnone]
  | cons d program ih =>
    have hview : view (d :: program) = d.view ++ view program := List.flatMap_cons
    cases hbindings : d.bindings with
    | some bindings =>
      have hopen : ¬d.IsOpenBare := by
        rintro ⟨hnone, -⟩
        rw [hbindings] at hnone
        cases hnone
      have hnames :
          names (d :: program) = bindings.clause.names.map Name.text ++ names program := by
        simp [names, Declaration.names, hbindings]
      have hlist : d.IsListOnly ↔
          bindings.typed = none ∧ ∃ list, bindings.clause = .inBraces list := by
        simp [Declaration.IsListOnly, hbindings]
      obtain ⟨before', offset', hbefore', hclauses⟩ :=
        @exists_clausesFrom_of_bindings _ _ offset _ _ hpending hbindings hbefore (view program)
      have hlater := @ih [] before' offset' (by simp) hbefore'
      rw [show view [] ++ view program = view program from rfl] at hlater
      rw [hview, hclauses, List.flatMap_cons, List.mem_append,
        mem_clauseNames bindings.clause (isLead_leadOf hpending), plainName?_leadOf, hlater,
        listFollowsOpenBare_append hpending hopen, hnames, hlist, List.mem_append, List.nil_append]
      tauto
    | none =>
      have hnames : names (d :: program) = names program := by
        simp [names, Declaration.names, hbindings]
      rw [hview, hnames]
      cases hsemicolon : d.ending.semicolon with
      | none =>
        have hopen : ∀ d' ∈ pending ++ [d], d'.IsOpenBare := by
          simp only [List.forall_mem_append, List.forall_mem_singleton]
          exact ⟨hpending, hbindings, hsemicolon⟩
        have hkept : view pending ++ (d.view ++ view program) =
            view (pending ++ [d]) ++ view program := by
          simp [view]
        rw [hkept, List.append_cons pending d program]
        exact ih hopen hbefore
      | some =>
        have hopen : ¬d.IsOpenBare := by
          rintro ⟨-, hnone⟩
          rw [hsemicolon] at hnone
          cases hnone
        have hlist : ¬d.IsListOnly := by
          rintro ⟨bindings, list, hsome, -⟩
          rw [hbindings] at hsome
          cases hsome
        obtain ⟨before', offset', hbefore', hclauses⟩ :=
          @exists_clausesFrom_of_semicolon _ _ offset _ hpending hbindings (by simp [hsemicolon])
            (view program)
        have hlater := @ih [] before' offset' (by simp) hbefore'
        rw [hclauses, listFollowsOpenBare_append hpending hopen]
        simpa [hlist, show view [] = [] from rfl] using hlater

theorem not_mem_names (program : List Declaration) {word : List Char} (h : word ∈ keywords) :
    word ∉ names program := by
  intro hmem
  obtain ⟨name, -, rfl⟩ := List.mem_map.mp hmem
  exact name.not_mem h

/-- The names that are found in a program of imports are told once each. They are those that the
program binds, and the word `import` if a list follows an open declaration without bindings; so they
are exactly the names that are bound if and only if there is no such list. -/
theorem importedNames_text (program : List Declaration) :
    (importedNames (Imports.text program)).Nodup ∧
      (∀ name, name ∈ importedNames (Imports.text program) ↔ name ∈ names program ∨
        (name = "import".toList ∧ ListFollowsOpenBare program)) ∧
      ((∀ name, name ∈ importedNames (Imports.text program) ↔ name ∈ names program) ↔
        ¬ListFollowsOpenBare program) := by
  have hmem : ∀ name, name ∈ importedNames (Imports.text program) ↔ name ∈ names program ∨
      (name = "import".toList ∧ ListFollowsOpenBare program) := by
    intro name
    have hclauses : (importClause.findAll (view program)).map (fun m => m.captured 1) =
        clausesFrom none 0 (view program) := by
      rw [findAll, parts, clausesFrom, List.map_filterMap]
      congr 1
      funext part
      cases part <;> rfl
    rw [importedNames, mem_distinct, redact_text, ← List.flatMap_map, hclauses]
    show name ∈ (clausesFrom none 0 (view [] ++ view program)).flatMap clauseNames ↔
      name ∈ names program ∨ (name = "import".toList ∧ ListFollowsOpenBare ([] ++ program))
    exact mem_clausesFrom (by simp) rfl program
  refine ⟨nodup_distinct _, hmem, ?_⟩
  constructor
  · intro hexact hfollows
    have hnot : "import".toList ∉ names program := not_mem_names program (by decide)
    apply hnot
    rw [← hexact, hmem]
    exact .inr ⟨rfl, hfollows⟩
  · intro hnot name
    rw [hmem, or_iff_left]
    exact fun h => hnot h.2

theorem isBlank_of_mem_blank : ∀ c ∈ [' '], isBlank c = true := by decide

/-- A declaration without bindings and without a semicolon, and a list on the next line. -/
def bareThenList : List Declaration :=
  have hletter : ∀ {c : Char}, c ≠ '\'' → c ≠ '\\' → c ≠ '\n' → Segment.QuotedBody '\'' [c] :=
    fun hquote hslash hline => .char hquote hslash hline .nil
  [{ gap := blank
     bindings := none
     specifier := ⟨'\'', ['m'], by decide, hletter (by decide) (by decide) (by decide)⟩
     ending := lineEnd },
   { gap := blank
     bindings := some
      { typed := none
        clause := .inBraces ⟨blank, .last ⟨none, ⟨['a'], by decide, by decide⟩, none⟩ blank⟩
        gap := blank
        gap' := blank }
     specifier := ⟨'\'', ['n'], by decide, hletter (by decide) (by decide) (by decide)⟩
     ending := lineEnd }]
where
  blank : Gap := ⟨[' '], isBlank_of_mem_blank, by decide⟩
  lineEnd : Ending := ⟨none, ⟨['\n'], by decide, by decide⟩, by decide⟩

/-- The list on the second line is taken with the first one, and so the word `import` is found
beside the one name that is bound. -/
theorem importedNames_bareThenList :
    Imports.text bareThenList = "import 'm'\nimport \x7b a \x7d from 'n'\n".toList ∧
      importedNames (Imports.text bareThenList) = [['a'], "import".toList] ∧
      names bareThenList = [['a']] := by
  decide +kernel

end Imports

end GuestCode
