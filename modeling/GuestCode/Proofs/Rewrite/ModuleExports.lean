import GuestCode.Proofs.Rewrite.ModuleTokens

/-!
# What is made of exports

The rules for exports replace their forms of declarations by nothing, or by what is exported, and
keep nothing of what stands before. Each of them passes over the forms that the later ones are made
for, and over those that the earlier ones have left.

## Main statements

* `ModuleSyntax.exists_match_keep`, `ModuleSyntax.exists_match_keep_spaces`: matches of the rules.
* `ModuleSyntax.passes_of_head`: exports that differ from what a rule asks for in one character.
* `ModuleSyntax.StarExport.passes_exportStar`, `ModuleSyntax.DefaultExport.passes_exportDefault`,
  `ModuleSyntax.DeclaredExport.passes_exportDeclaration`: what is left of the exports that a rule is
  made for.
-/

namespace GuestCode

open Text Text.Pattern Grammar Rewrite

namespace ModuleSyntax

variable {before : Option Char} {text rest : List Char}

theorem announces_exportList : Announces "export".toList exportList :=
  @announces_of_lit [statementMark, spaces] _ "export" (by decide)

theorem announces_exportStar : Announces "export".toList exportStar :=
  @announces_of_lit [statementMark, spaces] _ "export" (by decide)

theorem announces_exportDefault : Announces "export".toList exportDefault :=
  @announces_of_lit [statementMark, .capture 2 spaces] _ "export" (by decide)

theorem announces_exportDeclaration : Announces "export".toList exportDeclaration :=
  @announces_of_lit [statementMark, .capture 2 spaces] _ "export" (by decide)

/-! ## Matches at the start of a line -/

section Matches

variable {others : List Pattern} {w : List Char}

theorem prefers_statementMark (h : StartsLine before) (offset : Nat) :
    statementMark.Prefers ⟨before, text, offset, []⟩ ⟨before, text, offset, [⟨1, offset, []⟩]⟩ := by
  have hline : lineStart.Prefers ⟨before, text, offset, []⟩ ⟨before, text, offset, []⟩ :=
    prefers_condition h
  have hmark := prefers_capture 1 (prefers_either hline (oneOf ";\x7d"))
  dsimp only at hmark
  rwa [Nat.sub_self, List.take_zero] at hmark

theorem prefers_no_spaces {captures : List Capture} (h : text.head?.any isSpace = false)
    (offset : Nat) :
    spaces.Prefers ⟨before, text, offset, captures⟩ ⟨before, text, offset, captures⟩ :=
  @prefers_star_char isSpace before offset captures [] text (List.forall_mem_nil _) h

/-- A rule that keeps what stands before the word keeps nothing at the start of a line. -/
theorem exists_match_keep (hkeeps : (all (lit "export" :: others)).keepsNone 1 = true)
    (hbefore : StartsLine before)
    (hothers : (all (lit "export" :: others)).Leads before ("export".toList ++ w) rest)
    (offset : Nat) :
    ∃ m, (all (statementMark :: spaces :: lit "export" :: others)).matchAt?
        ⟨before, ("export".toList ++ w) ++ rest, offset, []⟩ = some m ∧
      m.text = "export".toList ++ w ∧ [1].flatMap m.captured = [] := by
  apply @exists_match_of_front _ _ [statementMark, spaces] _ offset [⟨1, offset, []⟩]
  · exact prefers_all_cons (prefers_statementMark hbefore offset)
      (prefers_no_spaces rfl offset)
  · simp
  · simpa using hkeeps
  · exact hothers

/-- The same for a rule that keeps the spaces too. -/
theorem exists_match_keep_spaces (hkeeps : (all (lit "export" :: others)).keepsNone 1 = true)
    (hkeeps' : (all (lit "export" :: others)).keepsNone 2 = true) (hbefore : StartsLine before)
    (hothers : (all (lit "export" :: others)).Leads before ("export".toList ++ w) rest)
    (offset : Nat) :
    ∃ m, (all (statementMark :: .capture 2 spaces :: lit "export" :: others)).matchAt?
        ⟨before, ("export".toList ++ w) ++ rest, offset, []⟩ = some m ∧
      m.text = "export".toList ++ w ∧ [1, 2].flatMap m.captured = [] := by
  apply @exists_match_of_front _ _ [statementMark, .capture 2 spaces] _ offset
    [⟨2, offset, []⟩, ⟨1, offset, []⟩]
  · have hspaces := @prefers_capture _ _ _ 2 (@prefers_no_spaces before
      ("export".toList ++ (w ++ rest)) [⟨1, offset, []⟩] rfl offset)
    dsimp only at hspaces
    rw [Nat.sub_self, List.take_zero] at hspaces
    exact prefers_all_cons (prefers_statementMark hbefore offset) hspaces
  · simp
  · simpa using ⟨hkeeps, hkeeps'⟩
  · exact hothers

end Matches

/-! ## What stands behind the word `export` -/

/-- A pattern that takes blanks behind the word does not match where it finds nothing behind them
that it asks for. -/
theorem matchAt?_export_eq_none {patterns others : List Pattern} {first : Pattern}
    {gap t chars : List Char} {offset : Nat} (hpatterns : ∀ p ∈ patterns, p.takesNone ['e'] = true)
    (hfirst : ∀ w, first.Takes w → ∀ c ∈ w, isBlank c = true)
    (hsome : (all others).takesSome = true)
    (hstart : ∀ c, (all others).mayStart c = true → c ∈ chars)
    (hchars : ∀ c ∈ chars, isBlank c = false) (hgap : ∀ c ∈ gap, isBlank c = true)
    (hhead : t.head?.any isBlank = false)
    (h : ∀ c ∈ chars, t.head? = some c → ∀ x z, t = x ++ z → ¬(all others).Takes x) :
    (all (patterns ++ lit "export" :: first :: others)).matchAt?
      ⟨before, "export".toList ++ (gap ++ t), offset, []⟩ = none := by
  apply @matchAt?_eq_none_of_behind _ _ _ patterns _ _ _ "export" _ rfl hpatterns
  intro y z hyz hy
  obtain ⟨x, z', hx, ht, c, hc, hhead'⟩ :=
    exists_prefix_of_takes_blanks hfirst hsome hstart hchars hgap hhead hy hyz
  exact h c hc hhead' x z' ht hx

/-- What the rule for lists asks for behind the word and blanks. -/
def listParts : List Pattern :=
  [opt (.seq (lit "type") blanks), lit "\x7b", star (noneOf "\x7d"), lit "\x7d", blanks,
    opt (all [lit "from", blanks, quotedModule 2]), statementEnd]

/-- What the rule for exports of all names asks for behind the word and blanks. -/
def starParts : List Pattern :=
  [lit "*", blanks, opt (all [lit "as", someBlanks, someNameChars, someBlanks]), lit "from", blanks,
    quotedModule 2, statementEnd]

theorem mayStart_listParts (c : Char) (h : (all listParts).mayStart c = true) :
    c ∈ ['t', '\x7b'] := by
  simpa [listParts, all, mayStart, opt, lit, exactly, takesSome, Pattern.star] using h

theorem mayStart_starParts (c : Char) (h : (all starParts).mayStart c = true) : c ∈ ['*'] := by
  simpa [starParts, all, mayStart, opt, lit, exactly, takesSome, Pattern.star] using h

theorem mayStart_defaultParts (c : Char)
    (h : (all [lit "default", someBlanks]).mayStart c = true) : c ∈ ['d'] := by
  simpa [all, mayStart, lit, exactly, takesSome] using h

/-! ## How exports start -/

theorem StarExport.exists_tail (d : StarExport) : ∃ t, d.tail = d.gap.text ++ '*' :: t := ⟨_, rfl⟩

theorem DefaultExport.exists_tail (d : DefaultExport) : ∃ t, d.tail = d.gap.text ++ 'd' :: t :=
  ⟨_, rfl⟩

theorem DeclaredExport.exists_tail (d : DeclaredExport) :
    ∃ c t, d.tail = d.gap.text ++ c :: t ∧ isBlank c = false ∧ c ∉ ['d', '*', '\x7b'] ∧
      (c = 't' → d.word = "type") := by
  have hall : ∀ word ∈ Dialect.declarationWords, ∃ c cs, word.toList = c :: cs ∧
      isBlank c = false ∧ c ∉ ['d', '*', '\x7b'] ∧ (c = 't' → word = "type") := by
    simp only [Dialect.declarationWords, List.forall_mem_cons]
    exact ⟨⟨_, _, rfl, by decide⟩, ⟨_, _, rfl, by decide⟩, ⟨_, _, rfl, by decide⟩,
      ⟨_, _, rfl, by decide⟩, ⟨_, _, rfl, by decide⟩, ⟨_, _, rfl, by decide⟩,
      ⟨_, _, rfl, by decide⟩, ⟨_, _, rfl, by decide⟩, ⟨_, _, rfl, by decide⟩, by simp⟩
  obtain ⟨c, cs, hword, hc⟩ := hall d.word d.word_mem
  exact ⟨c, cs ++ d.body, by rw [tail, declaration, hword]; rfl, hc⟩

/-- A rule passes over an export if it asks for other characters behind the word and blanks. -/
theorem passes_of_head {patterns others : List Pattern} {first : Pattern} {labels : List Nat}
    {chars tail t : List Char} {gap : Blanks} {c : Char}
    (hannounces : Announces "export".toList (all (patterns ++ lit "export" :: first :: others)))
    (hpatterns : ∀ p ∈ patterns, p.takesNone ['e'] = true)
    (hfirst : ∀ w, first.Takes w → ∀ c ∈ w, isBlank c = true)
    (hsome : (all others).takesSome = true)
    (hstart : ∀ c, (all others).mayStart c = true → c ∈ chars)
    (hchars : ∀ c ∈ chars, isBlank c = false) (htail : tail = gap.text ++ c :: t)
    (hc : isBlank c = false) (hnot : c ∉ chars) (hplain : IsPlain tail) :
    Passes (.keep (all (patterns ++ lit "export" :: first :: others)) labels)
      ("export".toList ++ tail) ("export".toList ++ tail) := by
  apply passes_of_none hannounces export_mem_marks export_mem_marks hplain
  intro before offset rest _
  have hhead : (c :: (t ++ rest)).head?.any isBlank = false := hc
  rw [htail, List.append_assoc]
  apply matchAt?_export_eq_none hpatterns hfirst hsome hstart hchars gap.isBlank_of_mem hhead
  intro d hd hhead
  obtain rfl := Option.some.inj hhead
  exact absurd hd hnot

theorem isBlank_of_takes_blanks (w : List Char) (h : blanks.Takes w) : ∀ c ∈ w, isBlank c = true :=
  takes_blanks.mp h

theorem isBlank_of_takes_someBlanks (w : List Char) (h : someBlanks.Takes w) :
    ∀ c ∈ w, isBlank c = true :=
  (takes_plus_char.mp h).2

/-! ## Lists -/

theorem passes_exportList_of_head {tail t : List Char} {gap : Blanks} {c : Char}
    (htail : tail = gap.text ++ c :: t) (hc : isBlank c = false) (hnot : c ∉ ['t', '\x7b'])
    (hplain : IsPlain tail) :
    Passes (.keep exportList [1]) ("export".toList ++ tail) ("export".toList ++ tail) :=
  @passes_of_head [statementMark, spaces] listParts blanks [1] ['t', '\x7b'] tail t gap c
    announces_exportList (by decide) isBlank_of_takes_blanks rfl mayStart_listParts (by decide)
    htail hc hnot hplain

theorem StarExport.passes_exportList (d : StarExport) (h : IsPlain d.tail) :
    Passes (.keep exportList [1]) (Form.starExport d).text (Form.starExport d).text := by
  obtain ⟨t, ht⟩ := d.exists_tail
  exact passes_exportList_of_head ht (by decide) (by decide) h

theorem DefaultExport.passes_exportList (d : DefaultExport) (h : IsPlain d.tail) :
    Passes (.keep exportList [1]) (Form.defaultExport d).text (Form.defaultExport d).text := by
  obtain ⟨t, ht⟩ := d.exists_tail
  exact passes_exportList_of_head ht (by decide) (by decide) h

/-- Behind the word `type` and blanks, a declared type has a name where a list has a brace. -/
theorem DeclaredExport.not_takes_listParts (d : DeclaredExport) (hword : d.word = "type")
    {x z : List Char} (hxz : "type".toList ++ (d.body ++ rest) = x ++ z) :
    ¬(all listParts).Takes x := by
  intro hx
  obtain ⟨u, w, rfl, hu, hw⟩ := takes_all_cons.mp hx
  obtain ⟨brace, v, rfl, hbrace, -⟩ := takes_all_cons.mp hw
  obtain rfl := takes_lit.mp hbrace
  rcases takes_opt.mp hu with ⟨_, gap, rfl, htype, hgap⟩ | rfl
  · obtain rfl := takes_lit.mp htype
    obtain ⟨n, ns, hdrop⟩ : ∃ n ns, d.body.dropWhile isBlank = n :: ns := by
      have hnamed := d.named hword
      cases hdrop : d.body.dropWhile isBlank with
      | nil =>
        rw [hdrop] at hnamed
        cases hnamed
      | cons n ns => exact ⟨n, ns, rfl⟩
    have hne : n ≠ '\x7b' := by
      have hnamed := d.named hword
      rw [hdrop] at hnamed
      simpa using hnamed
    have hn : (n :: (ns ++ rest)).head?.any isBlank = false := by
      have hhead := List.head?_dropWhile_not isBlank d.body
      rw [hdrop] at hhead
      simpa using hhead
    have hblank : ∀ c ∈ d.body.takeWhile isBlank, isBlank c = true := by
      exact fun c hc => List.all_eq_true.mp List.all_takeWhile c hc
    have hsplit : d.body.takeWhile isBlank ++ (n :: (ns ++ rest)) =
        gap ++ ('\x7b' :: (v ++ z)) := by
      have hbody : d.body.takeWhile isBlank ++ (n :: ns) = d.body := by
        rw [← hdrop, List.takeWhile_append_dropWhile]
      rw [← List.cons_append, ← List.append_assoc, hbody]
      simpa using hxz
    obtain ⟨-, hnames⟩ := run_append_inj hblank (takes_blanks.mp hgap) hn rfl hsplit
    exact hne (List.cons.inj hnames).1
  · cases hxz

/-- A declared type is told from a list of types by the name behind the word `type`. -/
theorem DeclaredExport.passes_exportList (d : DeclaredExport) (h : IsPlain d.tail) :
    Passes (.keep exportList [1]) (Form.declaredExport d).text (Form.declaredExport d).text := by
  obtain ⟨c, t, ht, hc, hnot, htype⟩ := d.exists_tail
  by_cases hword : c = 't'
  · have hdeclared := htype hword
    apply passes_of_none announces_exportList export_mem_marks export_mem_marks h
    intro before offset rest _
    have htail : d.tail ++ rest = d.gap.text ++ ("type".toList ++ (d.body ++ rest)) := by
      simp [DeclaredExport.tail, DeclaredExport.declaration, hdeclared]
    rw [htail]
    apply @matchAt?_export_eq_none _ [statementMark, spaces] listParts blanks _ _ ['t', '\x7b'] _
      (by decide) isBlank_of_takes_blanks rfl mayStart_listParts (by decide) d.gap.isBlank_of_mem
      rfl
    intro c _ _ x z hxz hx
    exact d.not_takes_listParts hdeclared hxz hx
  · apply passes_exportList_of_head ht hc _ h
    simp only [List.mem_cons, List.not_mem_nil, or_false, not_or]
    refine ⟨hword, ?_⟩
    rintro rfl
    exact hnot (by decide)

/-! ## All names of a module -/

theorem passes_exportStar_of_head {tail t : List Char} {gap : Blanks} {c : Char}
    (htail : tail = gap.text ++ c :: t) (hc : isBlank c = false) (hnot : c ∉ ['*'])
    (hplain : IsPlain tail) :
    Passes (.keep exportStar [1]) ("export".toList ++ tail) ("export".toList ++ tail) :=
  @passes_of_head [statementMark, spaces] starParts blanks [1] ['*'] tail t gap c
    announces_exportStar (by decide) isBlank_of_takes_blanks rfl mayStart_starParts (by decide)
    htail hc hnot hplain

theorem DefaultExport.passes_exportStar (d : DefaultExport) (h : IsPlain d.tail) :
    Passes (.keep exportStar [1]) (Form.defaultExport d).text (Form.defaultExport d).text := by
  obtain ⟨t, ht⟩ := d.exists_tail
  exact passes_exportStar_of_head ht (by decide) (by decide) h

theorem DeclaredExport.passes_exportStar (d : DeclaredExport) (h : IsPlain d.tail) :
    Passes (.keep exportStar [1]) (Form.declaredExport d).text (Form.declaredExport d).text := by
  obtain ⟨c, t, ht, hc, hnot, -⟩ := d.exists_tail
  apply passes_exportStar_of_head ht hc _ h
  simp only [List.mem_singleton]
  rintro rfl
  exact hnot (by decide)

namespace StarExport

variable (d : StarExport)

/-- What stands before the name of the module, behind the word `export`. -/
def front : List Char :=
  d.gap.text ++ '*' :: (d.gap'.text ++ (d.renamedText ++ ("from".toList ++ d.lastGap.text)))

theorem tail_eq : d.tail = d.front ++ (d.source.text ++ d.ending.text) := by
  simp [tail, front]

theorem not_mem_renamedText : ∀ c ∈ d.renamedText, c ∉ ['\'', '"'] := by
  rw [renamedText]
  cases d.renamed with
  | none => simp
  | some r =>
    have hall : ∀ c ∈ ['\'', '"'], isNameChar c = false := by decide
    simp only [Option.elim, List.forall_mem_append]
    refine ⟨by decide, r.gap.not_mem_quotes, fun c hc hmem => ?_, r.gap'.not_mem_quotes⟩
    exact nomatch (r.isNameChar_of_mem c hc).symm.trans (hall c hmem)

theorem not_mem_front : ∀ c ∈ d.front, c ∉ ['\'', '"'] := by
  simp only [front, List.forall_mem_append, List.forall_mem_cons]
  exact ⟨d.gap.not_mem_quotes, by decide, d.gap'.not_mem_quotes, d.not_mem_renamedText, by decide,
    d.lastGap.not_mem_quotes⟩

/-- The name for all that is exported is recognised, if it is there. -/
theorem leads_renamed (before : Option Char) (hrest : rest.head? = some 'f') :
    (opt (all [lit "as", someBlanks, someNameChars, someBlanks])).Leads before d.renamedText
      rest := by
  obtain ⟨cs, rfl⟩ := List.head?_eq_some_iff.mp hrest
  rw [renamedText]
  cases d.renamed with
  | none =>
    apply leads_opt_of_head rfl
    intro c hc
    obtain rfl := Option.some.inj hc
    decide
  | some r =>
    have hname : (r.name ++ r.gap'.text ++ 'f' :: cs).head?.any isBlank = false := by
      obtain ⟨c, name, hc⟩ := List.exists_cons_of_ne_nil r.name_ne
      rw [hc]
      apply Bool.eq_false_iff.mpr
      intro hblank
      exact nomatch (r.isNameChar_of_mem c (hc ▸ .head name)).symm.trans
        (isNameChar_of_isBlank hblank)
    have hgap : (r.gap'.text ++ 'f' :: cs).head?.any isNameChar = false := by
      obtain ⟨b, bs, hb⟩ := List.exists_cons_of_ne_nil r.gap'_ne
      rw [hb]
      exact isNameChar_of_isBlank (r.gap'.isBlank_of_mem b (hb ▸ .head bs))
    apply leads_opt
    apply Leads.cons (leads_lit "as" _ _)
    apply Leads.cons (leads_plus_char r.gap_ne r.gap.isBlank_of_mem hname)
    apply Leads.cons (leads_plus_char r.name_ne r.isNameChar_of_mem hgap)
    exact leads_plus_char r.gap'_ne r.gap'.isBlank_of_mem rfl

theorem passes_exportStar (h : IsPlain d.tail) :
    Passes (.keep exportStar [1]) (Form.starExport d).text (Form.starExport d).left := by
  rw [Form.left]
  split
  · next hname =>
    have htext : (Form.starExport d).text = ("export".toList ++ (d.gap.text ++ (['*'] ++
        (d.gap'.text ++ (d.renamedText ++ ("from".toList ++ (d.lastGap.text ++
          (d.source.text ++ d.ending.taken)))))))) ++ d.ending.left := by
      show "export".toList ++ d.tail = _
      rw [StarExport.tail, ← d.ending.taken_append_left, ← List.singleton_append]
      simp only [List.append_assoc]
    rw [htext]
    apply passes_of_match announces_exportStar export_mem_marks (by simp)
      (isPlain_of_isBlank d.ending.isBlank_of_mem_left)
    intro before offset rest hbefore hrest
    have hrenamed : (d.renamedText ++ ("from".toList ++ (d.lastGap.text ++ (d.source.text ++
        d.ending.taken))) ++ (d.ending.left ++ rest)).head?.any isBlank = false := by
      rw [renamedText]
      cases d.renamed with
      | none => rfl
      | some => rfl
    have hfrom : ("from".toList ++ (d.lastGap.text ++ (d.source.text ++ d.ending.taken)) ++
        (d.ending.left ++ rest)).head? = some 'f' := rfl
    have hquote : (d.source.text ++ d.ending.taken ++ (d.ending.left ++ rest)).head?.any isBlank =
        false := d.source.quote_ne.2.1
    apply @exists_match_keep _ _ (blanks :: starParts) _ rfl hbefore
    apply Leads.cons (leads_lit "export" _ _)
    apply Leads.cons (leads_star_char d.gap.isBlank_of_mem rfl)
    apply Leads.cons (leads_lit "*" _ _)
    apply Leads.cons (leads_star_char d.gap'.isBlank_of_mem hrenamed)
    apply Leads.cons (d.leads_renamed _ hfrom)
    apply Leads.cons (leads_lit "from" _ _)
    apply Leads.cons (leads_star_char d.lastGap.isBlank_of_mem hquote)
    exact Leads.cons (d.source.leads_quotedModule hname 2 _ _) (d.ending.leads _ hrest)
  · next hname =>
    apply passes_of_none announces_exportStar export_mem_marks export_mem_marks h
    intro before offset rest _
    apply @matchAt?_eq_none_of_behind _ _ _ [statementMark, spaces] _ _ _ "export" _ rfl (by decide)
    intro y z hyz hy
    have htail : d.front ++ (d.source.text ++ (d.ending.text ++ rest)) = y ++ z := by
      rw [← hyz, d.tail_eq]
      simp only [List.append_assoc]
    exact hname (@takes_front_of_takes _ (blanks :: starParts.take 5) _ _ _ _ _ _
      (by decide +kernel) d.not_mem_front hy htail).2

end StarExport

/-! ## Default exports -/

theorem passes_exportDefault_of_head {tail t : List Char} {gap : Blanks} {c : Char}
    (htail : tail = gap.text ++ c :: t) (hc : isBlank c = false) (hnot : c ∉ ['d'])
    (hplain : IsPlain tail) :
    Passes (.keep exportDefault [1, 2]) ("export".toList ++ tail) ("export".toList ++ tail) :=
  @passes_of_head [statementMark, .capture 2 spaces] [lit "default", someBlanks] someBlanks [1, 2]
    ['d'] tail t gap c announces_exportDefault (by decide) isBlank_of_takes_someBlanks rfl
    mayStart_defaultParts (by decide) htail hc hnot hplain

theorem StarExport.passes_exportDefault (d : StarExport) (h : IsPlain d.tail) :
    Passes (.keep exportDefault [1, 2]) (Form.starExport d).text (Form.starExport d).text := by
  obtain ⟨t, ht⟩ := d.exists_tail
  exact passes_exportDefault_of_head ht (by decide) (by decide) h

theorem DeclaredExport.passes_exportDefault (d : DeclaredExport) (h : IsPlain d.tail) :
    Passes (.keep exportDefault [1, 2]) (Form.declaredExport d).text
      (Form.declaredExport d).text := by
  obtain ⟨c, t, ht, hc, hnot, -⟩ := d.exists_tail
  apply passes_exportDefault_of_head ht hc _ h
  simp only [List.mem_singleton]
  rintro rfl
  exact hnot (by decide)

theorem DefaultExport.any_head? (d : DefaultExport) (rest : List Char) :
    (d.body ++ rest).head?.any isBlank = false := by
  have hhead := d.head
  cases hbody : d.body with
  | nil =>
    rw [hbody] at hhead
    cases hhead
  | cons c cs =>
    rw [hbody] at hhead
    simpa using hhead

theorem DefaultExport.passes_exportDefault (d : DefaultExport) (h : IsPlain d.tail) :
    Passes (.keep exportDefault [1, 2]) (Form.defaultExport d).text
      (Form.defaultExport d).left := by
  rw [Form.left]
  split
  · next hgap =>
    have htext : (Form.defaultExport d).text = ("export".toList ++ (d.gap.text ++
        ("default".toList ++ d.gap'.text))) ++ d.body := by
      show "export".toList ++ d.tail = _
      simp only [DefaultExport.tail, List.append_assoc]
    have hsuffix : d.body <:+ d.tail :=
      ⟨d.gap.text ++ ("default".toList ++ d.gap'.text), by simp [DefaultExport.tail]⟩
    rw [htext]
    apply passes_of_match announces_exportDefault export_mem_marks (by simp)
      (h.of_infix hsuffix.isInfix)
    intro before offset rest hbefore hrest
    apply @exists_match_keep_spaces _ _ [someBlanks, lit "default", someBlanks] _ rfl rfl hbefore
    apply Leads.cons (leads_lit "export" _ _)
    apply Leads.cons (leads_plus_char d.gap_ne d.gap.isBlank_of_mem rfl)
    apply Leads.cons (leads_lit "default" _ _)
    exact leads_plus_char hgap d.gap'.isBlank_of_mem (d.any_head? rest)
  · next hgap =>
    have hnil : d.gap'.text = [] := by simpa [Form.IsRecognised] using hgap
    apply passes_of_none announces_exportDefault export_mem_marks export_mem_marks h
    intro before offset rest _
    have htail : d.tail ++ rest = d.gap.text ++ ("default".toList ++ (d.body ++ rest)) := by
      simp [DefaultExport.tail, hnil]
    rw [htail]
    apply @matchAt?_export_eq_none _ [statementMark, .capture 2 spaces] [lit "default", someBlanks]
      someBlanks _ _ ['d'] _ (by decide) isBlank_of_takes_someBlanks rfl mayStart_defaultParts
      (by decide) d.gap.isBlank_of_mem rfl
    intro c _ _ x z hxz hx
    obtain ⟨_, gap, rfl, hword, hgap⟩ := takes_all_cons.mp hx
    obtain rfl := takes_lit.mp hword
    obtain ⟨hne, hgap⟩ := takes_plus_char.mp hgap
    obtain ⟨b, bs, rfl⟩ := List.exists_cons_of_ne_nil hne
    have hbody : d.body ++ rest = b :: (bs ++ z) := by simpa using hxz
    have hhead := d.any_head? rest
    rw [hbody] at hhead
    exact nomatch (hgap b (.head bs)).symm.trans hhead

/-! ## Exported declarations -/

/-- The words that the rule for exported declarations asks for. -/
def exportedWords : List String := Dialect.declarationWords ++ ["declare", "abstract"]

theorem exists_toList_of_mem_exportedWords {word : String} (h : word ∈ exportedWords) :
    ∃ c c' c'' cs, word.toList = c :: c' :: c'' :: cs ∧ isBlank c = false ∧ c ≠ '*' ∧
      ¬(c = 'd' ∧ c'' = 'f') := by
  have hall : ∀ word ∈ exportedWords, ∃ c c' c'' cs, word.toList = c :: c' :: c'' :: cs ∧
      isBlank c = false ∧ c ≠ '*' ∧ ¬(c = 'd' ∧ c'' = 'f') := by
    simp only [exportedWords, Dialect.declarationWords, List.cons_append, List.nil_append,
      List.forall_mem_cons]
    exact ⟨⟨_, _, _, _, rfl, by decide⟩, ⟨_, _, _, _, rfl, by decide⟩, ⟨_, _, _, _, rfl, by decide⟩,
      ⟨_, _, _, _, rfl, by decide⟩, ⟨_, _, _, _, rfl, by decide⟩, ⟨_, _, _, _, rfl, by decide⟩,
      ⟨_, _, _, _, rfl, by decide⟩, ⟨_, _, _, _, rfl, by decide⟩, ⟨_, _, _, _, rfl, by decide⟩,
      ⟨_, _, _, _, rfl, by decide⟩, ⟨_, _, _, _, rfl, by decide⟩, by simp⟩
  exact hall word h

/-- The rule for exported declarations passes over an export without one of their words. -/
theorem passes_exportDeclaration_of_head {tail t : List Char} {gap : Blanks}
    (htail : tail = gap.text ++ t)
    (hword : ∀ word ∈ exportedWords, ∀ rest, ¬word.toList <+: t ++ rest) (ht : t ≠ [])
    (hhead : t.head?.any isBlank = false) (hplain : IsPlain tail) :
    Passes (.keep exportDeclaration [1, 2]) ("export".toList ++ tail)
      ("export".toList ++ tail) := by
  apply passes_of_none announces_exportDeclaration export_mem_marks export_mem_marks hplain
  intro before offset rest _
  apply Option.eq_none_iff_forall_ne_some.mpr
  intro m hm
  obtain ⟨r, hr, hends⟩ := @exists_of_matchAt?_followedBy
    [statementMark, .capture 2 spaces, lit "export", someBlanks] (keywords exportedWords) _ _ hm
  obtain ⟨htakes, htext, -⟩ := exists_of_matchAt? hm
  obtain ⟨y, hy, hytakes⟩ := @exists_takes_behind _ _ [statementMark, .capture 2 spaces]
    [someBlanks, followedBy (keywords exportedWords)] "export" _ _ _ rfl (by decide) htakes htext
  obtain ⟨blanks, last, rfl, hblanks, hlast⟩ := takes_all_cons.mp hytakes
  obtain rfl : last = [] := hlast
  -- What the pattern looks ahead to starts where the blanks end.
  obtain ⟨q, hq⟩ := List.exists_mem_of_ne_nil _ hends
  obtain ⟨_, ⟨w, _, rfl, hw, rfl⟩, hover⟩ := exists_takes hq
  obtain ⟨word, hmem, rfl⟩ := (takes_words (by decide)).mp hw
  obtain ⟨c, c', c'', cs, hchars, hc, -⟩ := exists_toList_of_mem_exportedWords hmem
  have hafter : m.after = word.toList ++ q.rest := by
    rw [← hr, hover.rest, List.append_nil]
  have hstop : m.after.head?.any isBlank = false := by
    rw [hafter, hchars]
    exact hc
  have hstart : (t ++ rest).head?.any isBlank = false := by
    obtain ⟨d, ds, rfl⟩ := List.exists_cons_of_ne_nil ht
    exact hhead
  rw [htail, List.append_nil, List.append_assoc] at hy
  obtain ⟨-, hnext⟩ := run_append_inj gap.isBlank_of_mem (takes_plus_char.mp hblanks).2 hstart hstop
    hy
  exact hword word hmem rest ⟨q.rest, by rw [hnext, hafter]⟩

theorem StarExport.passes_exportDeclaration (d : StarExport) (h : IsPlain d.tail) :
    Passes (.keep exportDeclaration [1, 2]) (Form.starExport d).text (Form.starExport d).text := by
  obtain ⟨t, ht⟩ := d.exists_tail
  apply passes_exportDeclaration_of_head ht _ (List.cons_ne_nil _ _) rfl h
  rintro word hword rest ⟨after, hafter⟩
  obtain ⟨c, c', c'', cs, htext, -, hne, -⟩ := exists_toList_of_mem_exportedWords hword
  rw [htext] at hafter
  exact hne (List.cons.inj hafter).1

theorem DefaultExport.passes_exportDeclaration (d : DefaultExport) (h : IsPlain d.tail) :
    Passes (.keep exportDeclaration [1, 2]) (Form.defaultExport d).text
      (Form.defaultExport d).text := by
  have htail : d.tail = d.gap.text ++ ("default".toList ++ (d.gap'.text ++ d.body)) := rfl
  apply passes_exportDeclaration_of_head htail _ (by simp) rfl h
  rintro word hword rest ⟨after, hafter⟩
  obtain ⟨c, c', c'', cs, htext, -, -, hne⟩ := exists_toList_of_mem_exportedWords hword
  rw [htext] at hafter
  obtain ⟨hc, hlater⟩ := List.cons.inj hafter
  obtain ⟨-, hlater⟩ := List.cons.inj hlater
  exact hne ⟨hc, (List.cons.inj hlater).1⟩

/-- The word of a declaration is looked ahead to. -/
theorem DeclaredExport.ends_keywords (d : DeclaredExport) (hrest : EndsLine rest) (offset : Nat)
    (captures : List Capture) :
    (keywords exportedWords).ends ⟨before, d.declaration ++ rest, offset, captures⟩ ≠ [] := by
  have hword : (words exportedWords).Takes d.word.toList :=
    (takes_words (by decide)).mpr ⟨d.word, List.mem_append_left _ d.word_mem, rfl⟩
  have htext : d.declaration ++ rest = d.word.toList ++ (d.body ++ rest) := by
    simp [declaration]
  obtain ⟨q, hq, hover⟩ := @exists_mem_ends_of_takes (words exportedWords) (by decide) _ hword
    ⟨before, d.declaration ++ rest, offset, captures⟩ _ htext
  have hafter : q.rest = d.body ++ rest := by
    have hsplit : d.word.toList ++ q.rest = d.word.toList ++ (d.body ++ rest) :=
      hover.rest.symm.trans htext
    exact List.append_cancel_left hsplit
  have hlast : (d.word.toList.getLast?.or before).any isWordChar = true := by
    have hall : ∀ word ∈ Dialect.declarationWords, ∀ before : Option Char,
        (word.toList.getLast?.or before).any isWordChar = true := by
      simp only [Dialect.declarationWords, List.forall_mem_cons]
      exact ⟨fun _ => rfl, fun _ => rfl, fun _ => rfl, fun _ => rfl, fun _ => rfl, fun _ => rfl,
        fun _ => rfl, fun _ => rfl, fun _ => rfl, by simp⟩
    exact hall d.word d.word_mem before
  have hnext : (d.body ++ rest).head?.any isWordChar = false := by
    have hfirst := d.first
    cases hbody : d.body with
    | nil => exact hrest.any_head? (by decide)
    | cons c cs =>
      rw [hbody] at hfirst
      exact (Bool.or_eq_false_iff.mp hfirst).1
  have hedge : isEdge q.before q.rest = true := by
    rw [isEdge, hover.before, hafter, hlast, hnext]
    rfl
  apply @List.ne_nil_of_mem _ q
  apply List.mem_flatMap.mpr
  refine ⟨q, hq, ?_⟩
  rw [wordEdge_eq, ends_condition, if_pos hedge]
  exact List.mem_singleton_self q

theorem DeclaredExport.passes_exportDeclaration (d : DeclaredExport) (h : IsPlain d.tail) :
    Passes (.keep exportDeclaration [1, 2]) (Form.declaredExport d).text
      (Form.declaredExport d).left := by
  obtain ⟨c, t, ht, hc, -⟩ := d.exists_tail
  have hhead : ∀ rest, (d.declaration ++ rest).head?.any isBlank = false := by
    intro rest
    have hdeclaration : d.declaration = c :: t := List.append_cancel_left ht
    rw [hdeclaration]
    exact hc
  have htext : (Form.declaredExport d).text = ("export".toList ++ d.gap.text) ++ d.declaration := by
    show "export".toList ++ d.tail = _
    simp only [DeclaredExport.tail, List.append_assoc]
  have hsuffix : d.declaration <:+ d.tail := List.suffix_append _ _
  rw [htext]
  apply passes_of_match announces_exportDeclaration export_mem_marks (by simp)
    (h.of_infix hsuffix.isInfix)
  intro before offset rest hbefore hrest
  apply @exists_match_keep_spaces _ _ [someBlanks, followedBy (keywords exportedWords)] _ rfl rfl
    hbefore
  have hnext : ([] ++ (d.declaration ++ rest)).head?.any isBlank = false := hhead rest
  have hleads : (all (lit "export" :: [someBlanks, followedBy (keywords exportedWords)])).Leads
      before ("export".toList ++ (d.gap.text ++ [])) (d.declaration ++ rest) := by
    apply Leads.cons (leads_lit "export" _ _)
    apply Leads.cons (leads_plus_char d.gap_ne d.gap.isBlank_of_mem hnext)
    exact leads_followedBy (d.ends_keywords hrest)
  rwa [List.append_nil] at hleads

end ModuleSyntax

end GuestCode
