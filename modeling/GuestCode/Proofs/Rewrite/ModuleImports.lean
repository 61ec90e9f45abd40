import GuestCode.Proofs.Rewrite.ModuleTokens

/-!
# What is made of imports

Each of the two rules for imports removes its form of declarations, if they are recognised, up to
the end of the declaration. It passes over the other form, and over all exports.

## Main statements

* `ModuleSyntax.FromImport.leads_body`: what is imported is recognised, whatever it looks like.
* `ModuleSyntax.FromImport.passes_importFrom`, `ModuleSyntax.BareImport.passes_importBare`: what is
  left of the imports that a rule is made for.
* `ModuleSyntax.FromImport.passes_importBare`, `ModuleSyntax.BareImport.passes_importFrom`: the
  other imports.
-/

namespace GuestCode

open Text Text.Pattern Grammar Rewrite

namespace ModuleSyntax

variable {before : Option Char} {rest : List Char}

/-! ## Imports -/

theorem announces_importFrom : Announces "import".toList importFrom :=
  @announces_of_lit [lineStart, spaces] _ "import" (by decide)

theorem announces_importBare : Announces "import".toList importBare :=
  @announces_of_lit [lineStart, spaces] _ "import" (by decide)

/-- What stands before the name of the module, behind the word `import`. -/
def FromImport.front (d : FromImport) : List Char :=
  d.gap.text ++ (d.body ++ ("from".toList ++ d.gap'.text))

namespace FromImport

variable (d : FromImport)

theorem tail_eq : d.tail = d.front ++ (d.source.text ++ d.ending.text) := by
  simp [tail, front]

theorem not_mem_front : ∀ c ∈ d.front, c ∉ ['\'', '"'] := by
  have hbody : ∀ c ∈ d.body, c ∉ ['\'', '"'] := by
    have hall : ∀ c ∈ ['\'', '"'], c ∈ [';', '\'', '"', '\x60'] := by decide
    exact fun c hc hmem => d.not_mem c hc (hall c hmem)
  simp only [front, List.forall_mem_append]
  exact ⟨d.gap.not_mem_quotes, hbody, by decide, d.gap'.not_mem_quotes⟩

/-- Behind the first blanks no other blank comes next. -/
theorem any_head?_body (rest : List Char) :
    (d.body ++ ("from".toList ++ rest)).head?.any isBlank = false := by
  cases hbody : d.body with
  | nil => rfl
  | cons c cs =>
    have hhead := d.head
    rw [hbody] at hhead
    exact hhead

end FromImport

/-- The parts of the pattern for imports behind what is imported. -/
def fromModule : List Pattern :=
  [blanks, wordEdge, lit "from", blanks, quotedModule 1, statementEnd]

/-- The parts of the pattern for imports up to the module. -/
def upToModule : List Pattern :=
  [someBlanks, opt (.seq (lit "type") someBlanks), lazyStar (noneOf ";'\"\x60"), blanks, wordEdge,
    lit "from", blanks]

/-- A text that is not blank at its end stands before no blanks and the word `from` alone. -/
theorem not_takes_fromModule {v gap : List Char} (gap' : Blanks) {source : Specifier}
    (hv : ∀ c ∈ v, c ∉ ['\'', '"']) (hlast : ∃ c ∈ v.getLast?, isBlank c = false)
    (hgap : ∀ c ∈ gap, isBlank c = true) : ∀ x y,
      v ++ (gap ++ ("from".toList ++ (gap'.text ++ (source.text ++ rest)))) = x ++ y →
        ¬(all fromModule).Takes x := by
  intro x y hxy hx
  have hfront : ∀ c ∈ v ++ (gap ++ ("from".toList ++ gap'.text)), c ∉ ['\'', '"'] := by
    simp only [List.forall_mem_append]
    exact ⟨hv, Blanks.not_mem_quotes ⟨gap, hgap⟩, by decide, gap'.not_mem_quotes⟩
  have hsplit : (v ++ (gap ++ ("from".toList ++ gap'.text))) ++ (source.text ++ rest) = x ++ y := by
    rw [← hxy]
    simp only [List.append_assoc]
  obtain ⟨htakes, -⟩ := @takes_front_of_takes _ [blanks, wordEdge, lit "from", blanks] _ _ _ _ _ _
    (by decide +kernel) hfront hx hsplit
  obtain ⟨b, w, heq, hb, hw⟩ := takes_all_cons.mp htakes
  obtain ⟨_, w, rfl, rfl, hfrom⟩ := takes_all_cons.mp hw
  obtain ⟨_, b', rfl, hword, hb'⟩ := takes_all_cons.mp hfrom
  obtain rfl := takes_lit.mp hword
  have hblank : ∀ {text : List Char}, (∀ c ∈ text, isBlank c = true) →
      text.filter (fun c => !isBlank c) = [] := by
    intro text htext
    apply List.filter_eq_nil_iff.mpr
    intro c hc
    simp [htext c hc]
  have hfilter := congrArg (List.filter fun c => !isBlank c) heq
  simp only [List.filter_append, hblank hgap, hblank gap'.isBlank_of_mem,
    hblank (takes_blanks.mp hb), hblank (takes_blanks.mp hb'), List.nil_append] at hfilter
  have hnone := List.filter_eq_nil_iff.mp (List.append_left_eq_self.mp hfilter)
  obtain ⟨c, hc, hcblank⟩ := hlast
  have hfalse := hnone c (List.mem_of_getLast? hc)
  rw [hcblank] at hfalse
  exact hfalse rfl

/-- What is imported is recognised up to the end of the declaration. -/
theorem leads_names {body : List Char} (gap' : Blanks) {source : Specifier} (ending : Ending)
    (hbody : ∀ c ∈ body, c ∉ [';', '\'', '"', '\x60'])
    (hlast : (body.getLast?.or before).any isWordChar = false) (hname : source.name ≠ [])
    (hrest : EndsLine rest) :
    (all (lazyStar (noneOf ";'\"\x60") :: fromModule)).Leads before
      (body ++ ("from".toList ++ (gap'.text ++ (source.text ++ ending.taken))))
        (ending.left ++ rest) := by
  obtain ⟨gap, hgap, hcore⟩ := exists_append_dropEndWhile isBlank body
  obtain ⟨core, hdrop⟩ : ∃ core, dropEndWhile isBlank body = core := ⟨_, rfl⟩
  rw [hdrop] at hcore
  subst hcore
  have hrun : ∀ c ∈ core, (!";'\"\x60".toList.contains c) = true := by
    intro c hc
    simpa using hbody c (List.mem_append_left gap hc)
  have hedge : wordEdge.Leads (gap.getLast?.or (core.getLast?.or before)) []
      (("from".toList ++ (gap'.text ++ (source.text ++ ending.taken))) ++
        (ending.left ++ rest)) := by
    apply leads_condition
    rw [← Option.or_assoc, ← List.getLast?_append, hlast]
    rfl
  have hquote : (source.text ++ ending.taken ++ (ending.left ++ rest)).head?.any isBlank = false :=
    source.quote_ne.2.1
  rw [List.append_assoc]
  apply leads_lazy hrun
  · rintro u v rfl hv x y hxy
    have hend : ∃ c ∈ v.getLast?, isBlank c = false := by
      have hcore := @of_getLast?_dropEndWhile isBlank (u ++ v ++ gap)
      rw [hdrop, List.getLast?_append_of_ne_nil u hv] at hcore
      exact ⟨_, List.getLast?_eq_some_getLast hv, hcore _ (List.getLast?_eq_some_getLast hv)⟩
    have hquotes : ∀ c ∈ v, c ∉ ['\'', '"'] := by
      have hall : ∀ c ∈ ['\'', '"'], c ∈ [';', '\'', '"', '\x60'] := by decide
      exact fun c hc hmem => hbody c (by simp [hc]) (hall c hmem)
    have hsplit : v ++ (gap ++ ("from".toList ++ (gap'.text ++ (source.text ++
        (ending.taken ++ (ending.left ++ rest)))))) = x ++ y := by
      simpa using hxy
    exact not_takes_fromModule gap' hquotes hend hgap x y hsplit
  · apply Leads.cons (leads_star_char hgap rfl)
    apply Leads.cons_nil hedge
    apply Leads.cons (leads_lit "from" _ _)
    apply Leads.cons (leads_star_char gap'.isBlank_of_mem hquote)
    exact Leads.cons (source.leads_quotedModule hname 1 _ _) (ending.leads _ hrest)

namespace FromImport

variable (d : FromImport)

/-- The word `from` starts where no other word ends. -/
theorem any_getLast? (before : Option Char) :
    (d.body.getLast?.or (d.gap.text.getLast?.or before)).any isWordChar = false := by
  have hlast := d.last
  rw [List.getLast?_append] at hlast
  rw [← Option.or_assoc]
  cases hchar : d.body.getLast?.or d.gap.text.getLast? with
  | none =>
    rw [hchar] at hlast
    cases hlast
  | some c =>
    rw [hchar] at hlast
    simpa using hlast

/-- What is imported is recognised with the word `type` before it, if it is there. -/
theorem leads_body (hname : d.source.name ≠ []) (before : Option Char)
    (hlast : (d.body.getLast?.or before).any isWordChar = false) (hrest : EndsLine rest) :
    (all (opt (.seq (lit "type") someBlanks) :: lazyStar (noneOf ";'\"\x60") :: fromModule)).Leads
      before (d.body ++ ("from".toList ++ (d.gap'.text ++ (d.source.text ++ d.ending.taken))))
        (d.ending.left ++ rest) := by
  by_cases htyped : ∃ b cs, isBlank b = true ∧ d.body = "type".toList ++ b :: cs
  · obtain ⟨b, cs, hb, hbody⟩ := htyped
    obtain ⟨gap, names, hgap, hnames, hsplit⟩ : ∃ gap names, (∀ c ∈ gap, isBlank c = true) ∧
        (∀ rest, (names ++ ("from".toList ++ rest)).head?.any isBlank = false) ∧
          b :: cs = gap ++ names := by
      refine ⟨(b :: cs).takeWhile isBlank, (b :: cs).dropWhile isBlank, ?_, ?_,
        List.takeWhile_append_dropWhile.symm⟩
      · exact fun c hc => List.all_eq_true.mp List.all_takeWhile c hc
      · intro rest
        have hhead := List.head?_dropWhile_not isBlank (b :: cs)
        cases hdrop : (b :: cs).dropWhile isBlank with
        | nil => rfl
        | cons n ns =>
          rw [hdrop] at hhead
          simpa using hhead
    have hne : gap ≠ [] := by
      rintro rfl
      have hhead := hnames []
      rw [List.nil_append] at hsplit
      rw [← hsplit] at hhead
      exact nomatch hb.symm.trans hhead
    have hnot := d.not_mem
    rw [hbody, hsplit] at hlast hnot
    have hassoc : ∀ rest : List Char, ("type".toList ++ (gap ++ names)) ++ rest =
        ("type".toList ++ gap) ++ (names ++ rest) := by
      intro rest
      simp only [List.append_assoc]
    rw [hbody, hsplit, hassoc]
    apply Leads.cons
    · apply leads_opt
      show (all [lit "type", someBlanks]).Leads _ _ _
      apply Leads.cons (leads_lit "type" _ _)
      apply leads_plus_char hne hgap
      simp only [List.append_assoc]
      exact hnames _
    · apply leads_names d.gap' d.ending _ _ hname hrest
      · exact fun c hc => hnot c (List.mem_append_right _ (List.mem_append_right gap hc))
      · rwa [← Option.or_assoc, ← List.getLast?_append, List.append_assoc]
  · apply Leads.cons_nil
    · apply leads_opt_of_not_takes
      rintro _ v huv ⟨_, gap, rfl, htype, hgap⟩
      obtain rfl := takes_lit.mp htype
      obtain ⟨hne, hgap⟩ := takes_plus_char.mp hgap
      obtain ⟨b, bs, rfl⟩ := List.exists_cons_of_ne_nil hne
      have hb : isBlank b = true := hgap b (.head bs)
      have hsplit : d.body ++ ('f' :: ("rom".toList ++ (d.gap'.text ++ (d.source.text ++
          d.ending.taken) ++ (d.ending.left ++ rest)))) = ("type".toList ++ [b]) ++ (bs ++ v) := by
        simpa using huv
      rcases List.append_eq_append_iff.mp hsplit with ⟨x, hx, hfrom⟩ | ⟨x, hx, -⟩
      · cases x with
        | nil =>
          rw [List.append_nil] at hx
          exact htyped ⟨b, [], hb, hx.symm⟩
        | cons c cs =>
          -- The word `from` would start in the word `type` or with the blank behind it.
          obtain ⟨rfl, -⟩ := List.cons.inj hfrom
          have hmem : 'f' ∈ "type".toList ++ [b] := by
            rw [hx]
            exact List.mem_append_right _ (.head _)
          rcases List.mem_append.mp hmem with hmem | hmem
          · revert hmem
            decide
          · obtain rfl := List.mem_singleton.mp hmem
            cases hb
      · exact htyped ⟨b, x, hb, by rw [hx, List.append_assoc]; rfl⟩
    · exact leads_names d.gap' d.ending d.not_mem hlast hname hrest

end FromImport

theorem FromImport.passes_importFrom (d : FromImport) (h : IsPlain d.tail) :
    Passes (.remove importFrom) (Form.fromImport d).text (Form.fromImport d).left := by
  rw [Form.left]
  split
  · next hseen =>
    obtain ⟨hgap, hname⟩ := hseen
    have htext : (Form.fromImport d).text = ("import".toList ++ (d.gap.text ++ (d.body ++
        ("from".toList ++ (d.gap'.text ++ (d.source.text ++ d.ending.taken)))))) ++
          d.ending.left := by
      show "import".toList ++ d.tail = _
      rw [FromImport.tail, ← d.ending.taken_append_left]
      simp only [List.append_assoc]
    have hleft : IsPlain d.ending.left := isPlain_of_isBlank d.ending.isBlank_of_mem_left
    rw [htext]
    apply passes_of_match announces_importFrom (by decide) (by simp) hleft
    intro before offset rest hbefore hrest
    apply exists_match_remove
    apply Leads.cons_nil (leads_lineStart hbefore _)
    apply Leads.cons_nil (leads_spaces rfl)
    apply Leads.cons (leads_lit "import" _ _)
    apply Leads.cons
    · apply leads_plus_char hgap d.gap.isBlank_of_mem
      simp only [List.append_assoc]
      exact d.any_head?_body _
    · exact d.leads_body hname _ (d.any_getLast? _) hrest
  · next hseen =>
    apply passes_of_none announces_importFrom (by decide) import_mem_marks h
    intro before offset rest _
    apply @matchAt?_eq_none_of_behind _ _ _ [lineStart, spaces] _ _ _ "import" _ rfl (by decide)
    intro y z hyz hy
    have htail : d.front ++ (d.source.text ++ (d.ending.text ++ rest)) = y ++ z := by
      rw [← hyz, d.tail_eq]
      simp only [List.append_assoc]
    obtain ⟨hfront, hname⟩ := @takes_front_of_takes _ upToModule _ _ _ _ _ _ (by decide +kernel)
      d.not_mem_front hy htail
    apply hseen
    refine ⟨?_, hname⟩
    intro hgap
    obtain ⟨blanks, w, heq, hblanks, -⟩ := takes_all_cons.mp hfront
    obtain ⟨hne, hblanks⟩ := takes_plus_char.mp hblanks
    obtain ⟨b, bs, rfl⟩ := List.exists_cons_of_ne_nil hne
    have hhead := d.any_head?_body d.gap'.text
    rw [FromImport.front, hgap, List.nil_append] at heq
    rw [heq] at hhead
    exact nomatch (hblanks b (.head bs)).symm.trans hhead

/-- A bare import ends with its module, and nothing stands before it that is not blank. -/
theorem FromImport.passes_importBare (d : FromImport) (h : IsPlain d.tail) :
    Passes (.remove importBare) (Form.fromImport d).text (Form.fromImport d).text := by
  apply passes_of_none announces_importBare (by decide) import_mem_marks h
  intro before offset rest _
  apply @matchAt?_eq_none_of_behind _ _ _ [lineStart, spaces] _ _ _ "import" _ rfl (by decide)
  intro y z hyz hy
  have htail : d.front ++ (d.source.text ++ (d.ending.text ++ rest)) = y ++ z := by
    rw [← hyz, d.tail_eq]
    simp only [List.append_assoc]
  obtain ⟨hfront, -⟩ := @takes_front_of_takes _ [blanks] _ _ _ _ _ _ (by decide +kernel)
    d.not_mem_front hy htail
  have hword := takes_blanks.mp hfront 'f' (by simp [FromImport.front])
  cases hword

theorem BareImport.passes_importFrom (d : BareImport) (h : IsPlain d.tail) :
    Passes (.remove importFrom) (Form.bareImport d).text (Form.bareImport d).text := by
  apply passes_of_none announces_importFrom (by decide) import_mem_marks h
  intro before offset rest _
  apply @matchAt?_eq_none_of_behind _ _ _ [lineStart, spaces] _ _ _ "import" _ rfl (by decide)
  intro y z hyz hy
  have htail : d.gap.text ++ (d.source.text ++ (d.ending.text ++ rest)) = y ++ z := by
    rw [← hyz]
    simp [BareImport.tail]
  obtain ⟨hfront, -⟩ := @takes_front_of_takes _ upToModule _ _ _ _ _ _ (by decide +kernel)
    d.gap.not_mem_quotes hy htail
  -- The word `from` would be among the blanks before the module.
  have hinfix : "from".toList <:+: d.gap.text :=
    @infix_of_takes (upToModule.take 5) [blanks] "from" _ hfront
  have hword := d.gap.isBlank_of_mem 'f' (List.IsInfix.subset hinfix (by decide))
  cases hword

theorem BareImport.passes_importBare (d : BareImport) (h : IsPlain d.tail) :
    Passes (.remove importBare) (Form.bareImport d).text (Form.bareImport d).left := by
  rw [Form.left]
  split
  · next hname =>
    have htext : (Form.bareImport d).text = ("import".toList ++ (d.gap.text ++
        (d.source.text ++ d.ending.taken))) ++ d.ending.left := by
      show "import".toList ++ d.tail = _
      rw [BareImport.tail, ← d.ending.taken_append_left]
      simp only [List.append_assoc]
    rw [htext]
    apply passes_of_match announces_importBare (by decide) (by simp)
      (isPlain_of_isBlank d.ending.isBlank_of_mem_left)
    intro before offset rest hbefore hrest
    have hquote : (d.source.text ++ d.ending.taken ++ (d.ending.left ++ rest)).head?.any isBlank =
        false := d.source.quote_ne.2.1
    apply exists_match_remove
    apply Leads.cons_nil (leads_lineStart hbefore _)
    apply Leads.cons_nil (leads_spaces rfl)
    apply Leads.cons (leads_lit "import" _ _)
    apply Leads.cons (leads_star_char d.gap.isBlank_of_mem hquote)
    exact Leads.cons (d.source.leads_quotedModule hname 1 _ _) (d.ending.leads _ hrest)
  · next hname =>
    apply passes_of_none announces_importBare (by decide) import_mem_marks h
    intro before offset rest _
    apply @matchAt?_eq_none_of_behind _ _ _ [lineStart, spaces] _ _ _ "import" _ rfl (by decide)
    intro y z hyz hy
    have htail : d.gap.text ++ (d.source.text ++ (d.ending.text ++ rest)) = y ++ z := by
      rw [← hyz]
      simp [BareImport.tail]
    exact hname (@takes_front_of_takes _ [blanks] _ _ _ _ _ _ (by decide +kernel)
      d.gap.not_mem_quotes hy htail).2

end ModuleSyntax

end GuestCode
