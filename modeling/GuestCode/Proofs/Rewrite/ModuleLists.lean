import GuestCode.Proofs.Rewrite.ModuleExports

/-!
# What is made of lists of exports

The rule for lists of exports removes a list up to its end. If nothing is written behind the names,
it goes on over all blanks behind the list, and over line ends too. There it stops, unless a
semicolon comes next, or the module that the names would come from.

## Main statements

* `ModuleSyntax.ListEnd.leads`, `ModuleSyntax.leads_closing`: the ends of lists are recognised.
* `ModuleSyntax.ListExport.passes_exportList`: what is left of a list with something behind the
  names.
* `ModuleSyntax.ListExport.replaceFrom_unclosed`: lists with nothing behind the names.
-/

namespace GuestCode

open Text Text.Pattern Grammar Rewrite

namespace ModuleSyntax

variable {before : Option Char} {rest : List Char}

/-! ## The end of a list -/

/-- What the rule for lists asks for behind the names. -/
def closingParts : List Pattern :=
  [blanks, opt (all [lit "from", blanks, quotedModule 2]), statementEnd]

/-- Where nothing is found behind the blanks behind a list, the blanks are taken. -/
theorem leads_closing_blanks {gap : List Char} (hgap : ∀ c ∈ gap, isBlank c = true)
    (hhead : rest.head?.any isBlank = false) (hsemicolon : rest.head? ≠ some ';')
    (hfrom : ∀ before offset captures,
      (all [lit "from", blanks, quotedModule 2]).ends ⟨before, rest, offset, captures⟩ = []) :
    (all closingParts).Leads before gap rest := by
  have hspace : rest.head?.any isSpace = false := by
    cases rest with
    | nil => rfl
    | cons c cs =>
      apply Bool.eq_false_iff.mpr
      intro hspace
      have hall : ∀ c ∈ " \t".toList, isBlank c = true := by decide
      exact nomatch hhead.symm.trans (hall c (by simpa [isSpace] using hspace))
  have hnone : ∀ c ∈ rest.head?, (lit ";").mayStart c = false := by
    intro c hc
    apply beq_eq_false_iff_ne.mpr
    rintro rfl
    exact hsemicolon hc
  have hend : statementEnd.Leads (gap.getLast?.or before) [] rest :=
    Leads.cons_nil (leads_spaces hspace)
      (Leads.cons_nil (leads_opt_of_head rfl hnone) (leads_spaces hspace))
  have h : (all closingParts).Leads before (gap ++ []) rest :=
    Leads.cons (leads_star_char hgap hhead)
      (Leads.cons_nil (leads_opt_of_nil (hfrom _)) hend)
  rwa [List.append_nil] at h

/-- Where a list does not go on, the blanks behind it are taken. -/
theorem leads_closing {gap : List Char} (hgap : ∀ c ∈ gap, isBlank c = true)
    (hhead : rest.head?.any isBlank = false) (hnot : ¬ContinuesList rest) :
    (all closingParts).Leads before gap rest := by
  apply leads_closing_blanks hgap hhead
  · intro hsemicolon
    obtain ⟨cs, rfl⟩ := List.head?_eq_some_iff.mp hsemicolon
    exact hnot (.inl ⟨cs, rfl⟩)
  · intro before offset captures
    apply List.eq_nil_iff_forall_not_mem.mpr
    intro q hq
    obtain ⟨q₁, hq₁, hq⟩ := List.mem_flatMap.mp hq
    obtain ⟨q₂, hq₂, hq⟩ := List.mem_flatMap.mp hq
    obtain ⟨_, hword, hover⟩ := exists_takes hq₁
    obtain rfl := takes_lit.mp hword
    obtain ⟨blanks, hblanks, hover'⟩ := exists_takes hq₂
    obtain ⟨source, after, hname, hsource⟩ := exists_of_mem_ends_quotedModule hq
    refine hnot (.inr ⟨⟨blanks, takes_blanks.mp hblanks⟩, source, after, hname, ?_⟩)
    rw [show rest = _ from hover.rest, hover'.rest, hsource]

namespace ListEnd

/-- What is taken of the end of a list. -/
def taken : ListEnd → List Char
  | unclosed gap => gap.text
  | semicolon gap blanks => gap.text ++ ';' :: blanks.text.takeWhile isSpace
  | origin gap gap' source ending =>
    if source.name = [] then gap.text
    else gap.text ++ ("from".toList ++ (gap'.text ++ (source.text ++ ending.taken)))

theorem taken_append_left (close : ListEnd) : close.taken ++ close.left = close.text := by
  cases close with
  | unclosed gap => exact List.append_nil _
  | semicolon gap blanks => simp [taken, left, text]
  | origin gap gap' source ending =>
    rw [taken, left, text]
    split
    · rfl
    · simp [← ending.taken_append_left]

theorem isBlank_of_mem_left {close : ListEnd} (h : close.IsRecognised) :
    ∀ c ∈ close.left, isBlank c = true := by
  cases close with
  | unclosed => exact List.forall_mem_nil _
  | semicolon _ blanks =>
    exact fun c hc => blanks.isBlank_of_mem c ((List.dropWhile_suffix isSpace).subset hc)
  | origin _ _ source ending =>
    rw [left, if_neg h]
    exact ending.isBlank_of_mem_left

/-- The end of a list is recognised, if something is written behind the names. -/
theorem leads {close : ListEnd} (hclosed : ¬close.IsUnclosed) (hrest : EndsLine rest) :
    (all closingParts).Leads before close.taken (close.left ++ rest) := by
  cases close with
  | unclosed gap => exact absurd trivial hclosed
  | semicolon gap blanks =>
    have hend := Ending.leads ⟨[], true, blanks, List.forall_mem_nil _⟩
      ((gap.text.getLast?).or before) hrest
    apply Leads.cons (leads_star_char gap.isBlank_of_mem rfl)
    apply Leads.cons_nil (leads_opt_of_head rfl _)
    · exact hend
    · intro c hc
      obtain rfl := Option.some.inj hc
      decide
  | origin gap gap' source ending =>
    rw [taken, left]
    split
    · next hname =>
      apply leads_closing_blanks gap.isBlank_of_mem rfl (by simp)
      intro before offset captures
      apply ends_eq_nil_of_not_takes
      intro u v huv hu
      have hsplit : ("from".toList ++ gap'.text) ++ (source.text ++ (ending.text ++ rest)) =
          u ++ v := by
        rw [← show _ = u ++ v from huv]
        simp only [List.append_assoc]
      exact (@takes_front_of_takes _ [lit "from", blanks] [] _ _ _ _ source (by decide)
        (List.forall_mem_append.mpr ⟨by decide, gap'.not_mem_quotes⟩) hu hsplit).2 hname
    · next hname =>
      have hquote : (source.text ++ (ending.taken ++ (ending.left ++ rest))).head?.any isBlank =
          false := source.quote_ne.2.1
      have htext : gap.text ++ ("from".toList ++ (gap'.text ++ (source.text ++ ending.taken))) =
          gap.text ++ (("from".toList ++ (gap'.text ++ source.text)) ++ ending.taken) := by
        simp only [List.append_assoc]
      rw [htext]
      apply Leads.cons (leads_star_char gap.isBlank_of_mem rfl)
      apply Leads.cons (leads_opt _) (ending.leads _ hrest)
      apply Leads.cons (leads_lit "from" _ _)
      exact Leads.cons (leads_star_char gap'.isBlank_of_mem hquote)
        (source.leads_quotedModule hname 2 _ _)

end ListEnd
/-! ## Lists -/

namespace ListExport

variable (d : ListExport)

/-- What stands before the end of a list, behind the word `export`. -/
def front : List Char :=
  d.gap.text ++ (d.typeText ++ '\x7b' :: (d.names ++ ['\x7d']))

theorem tail_eq : d.tail = d.front ++ d.close.text := by
  simp [tail, front]

theorem isPlain_left (h : IsPlain d.tail) : IsPlain d.close.left := by
  apply h.of_infix
  rw [tail_eq, ← d.close.taken_append_left]
  exact (List.suffix_append_of_suffix (List.suffix_append _ _)).isInfix

theorem leads_typeText (before : Option Char) (rest : List Char) :
    (opt (.seq (lit "type") blanks)).Leads before d.typeText ('\x7b' :: rest) := by
  rw [typeText]
  cases d.typed with
  | none =>
    apply leads_opt_of_head rfl
    intro c hc
    obtain rfl := Option.some.inj hc
    decide
  | some gap =>
    have hleads : (all [lit "type", blanks]).Leads before ("type".toList ++ gap.text)
        ('\x7b' :: rest) :=
      Leads.cons (leads_lit "type" _ _) (leads_star_char gap.isBlank_of_mem rfl)
    exact leads_opt hleads

theorem any_head?_typeText (rest : List Char) :
    (d.typeText ++ '\x7b' :: rest).head?.any isBlank = false := by
  rw [typeText]
  cases d.typed with
  | none => rfl
  | some => rfl

/-- A list is recognised if what stands behind the names is. -/
theorem leads {w : List Char} (h : (all closingParts).Leads (some '\x7d') w rest) :
    (all (lit "export" :: blanks :: listParts)).Leads before ("export".toList ++ (d.front ++ w))
      rest := by
  have htext : d.front ++ w =
      d.gap.text ++ (d.typeText ++ (['\x7b'] ++ (d.names ++ (['\x7d'] ++ w)))) := by
    simp [front]
  have hnames : ∀ c ∈ d.names, (!"\x7d".toList.contains c) = true := by
    intro c hc
    have hne : c ≠ '\x7d' := fun heq => d.not_mem (heq ▸ hc)
    simpa using hne
  have hhead : (d.typeText ++ (['\x7b'] ++ (d.names ++ (['\x7d'] ++ w))) ++
      rest).head?.any isBlank = false := by
    rw [List.append_assoc]
    exact d.any_head?_typeText _
  rw [htext]
  apply Leads.cons (leads_lit "export" _ _)
  apply Leads.cons (leads_star_char d.gap.isBlank_of_mem hhead)
  apply Leads.cons (d.leads_typeText _ (d.names ++ (['\x7d'] ++ w) ++ rest))
  apply Leads.cons (leads_lit "\x7b" _ _)
  apply Leads.cons (leads_star_char hnames rfl)
  exact Leads.cons (leads_lit "\x7d" _ _) h

/-- What is left of a list with something behind the names. -/
theorem passes_exportList (h : IsPlain d.tail) (hclosed : ¬d.close.IsUnclosed) :
    Passes (.keep exportList [1]) (Form.listExport d).text (Form.listExport d).left := by
  have htext : (Form.listExport d).text =
      ("export".toList ++ (d.front ++ d.close.taken)) ++ d.close.left := by
    show "export".toList ++ d.tail = _
    rw [tail_eq, ← d.close.taken_append_left]
    simp only [List.append_assoc]
  rw [htext]
  apply passes_of_match announces_exportList export_mem_marks (by simp) (d.isPlain_left h)
  intro before offset rest hbefore hrest
  exact @exists_match_keep _ _ (blanks :: listParts) _ rfl hbefore
    (d.leads (ListEnd.leads hclosed hrest)) offset

/-- A list with nothing behind the names is taken with all blanks behind it. -/
theorem replaceFrom_unclosed {gap : Blanks} (hclose : d.close = .unclosed gap) {run : List Char}
    (hrun : ∀ c ∈ run, isBlank c = true) (hhead : rest.head?.any isBlank = false)
    (hnot : ¬ContinuesList rest) {before : Option Char} (hbefore : StartsLine before)
    (offset : Nat) :
    ∃ before' offset', (run.getLast? = some '\n' → StartsLine before') ∧
      exportList.replaceFrom (Rule.keep exportList [1]).replacement before offset
        ((Form.listExport d).text ++ (run ++ rest)) =
      exportList.replaceFrom (Rule.keep exportList [1]).replacement before' offset' rest := by
  have hblanks : ∀ c ∈ gap.text ++ run, isBlank c = true :=
    List.forall_mem_append.mpr ⟨gap.isBlank_of_mem, hrun⟩
  have htext : (Form.listExport d).text ++ (run ++ rest) =
      ("export".toList ++ (d.front ++ (gap.text ++ run))) ++ rest := by
    show "export".toList ++ d.tail ++ (run ++ rest) = _
    rw [tail_eq, hclose, ListEnd.text]
    simp only [List.append_assoc]
  obtain ⟨m, hm, htaken, hkept⟩ := @exists_match_keep _ _ (blanks :: listParts) _ rfl hbefore
    (d.leads (leads_closing hblanks hhead hnot)) offset
  have hreplaced := @replaceFrom_append_of_match _ (Rule.keep exportList [1]).replacement _ _ _ _ _
    (by simp) hm htaken
  rw [← htext, show (Rule.keep exportList [1]).replacement m = [] from hkept,
    List.nil_append] at hreplaced
  refine ⟨_, _, fun hline => ?_, hreplaced⟩
  rw [StartsLine, ← List.append_assoc, ← List.append_assoc, List.getLast?_append, hline]
  rfl

end ListExport
end ModuleSyntax
end GuestCode
