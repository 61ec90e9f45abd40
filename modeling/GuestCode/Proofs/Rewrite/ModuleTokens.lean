import GuestCode.Proofs.Rewrite.ModuleWords
import GuestCode.Proofs.Snippet.CapabilityCalls
import GuestCode.Proofs.Text.Split

/-!
# Reading declarations

What the patterns for declarations have in common: the start of a line and a word, blanks, the name
of a module, and the end of the declaration. A pattern that does not find behind its word what it
asks for does not match.

## Main statements

* `ModuleSyntax.Specifier.leads_quotedModule`, `ModuleSyntax.Ending.leads`: modules that have a name
  and endings are recognised.
* `ModuleSyntax.matchAt?_eq_none_of_behind`: a pattern does not match where it finds nothing behind
  its word.
* `ModuleSyntax.takes_front_of_takes`: what is taken before a module.
* `ModuleSyntax.exists_match_remove`, `ModuleSyntax.exists_match_of_front`: matches at the start of
  a line, of which nothing is kept.
-/

namespace GuestCode

open Text Text.Pattern Grammar Rewrite

namespace ModuleSyntax

variable {before : Option Char} {text rest : List Char} {c : Char}

/-! ## Parts that may be left out -/

/-- A part that takes nothing that starts with the next character is left out. -/
theorem leads_opt_of_head {pattern : Pattern} (hsome : pattern.takesSome = true)
    (h : ∀ c ∈ rest.head?, pattern.mayStart c = false) :
    (opt pattern).Leads before [] rest := by
  apply leads_opt_of_not_takes
  rintro u v rfl hu
  obtain ⟨c, cs, rfl⟩ := List.exists_cons_of_ne_nil (ne_nil_of_takesSome hsome hu)
  exact nomatch (h c rfl).symm.trans (mayStart_of_takes hu)

/-! ## Blanks, modules and endings -/

theorem Blanks.any_getLast? (blanks : Blanks) (h : before.any isWordChar = false) :
    (blanks.text.getLast?.or before).any isWordChar = false := by
  cases hlast : blanks.text.getLast? with
  | none => exact h
  | some c =>
    exact Segment.isWordChar_of_isBlank (blanks.isBlank_of_mem c (List.mem_of_getLast? hlast))

theorem Blanks.not_mem_quotes (blanks : Blanks) : ∀ c ∈ blanks.text, c ∉ ['\'', '"'] := by
  have hall : ∀ c ∈ ['\'', '"'], isBlank c = false := by decide
  intro c hc hmem
  exact nomatch (blanks.isBlank_of_mem c hc).symm.trans (hall c hmem)

namespace Specifier

variable (source : Specifier)

theorem quote_ne : source.quote ≠ '\n' ∧ isBlank source.quote = false ∧
    isWordChar source.quote = false ∧ isSpace source.quote = false := by
  have hall : ∀ c ∈ ['\'', '"'], c ≠ '\n' ∧ isBlank c = false ∧ isWordChar c = false ∧
      isSpace c = false := by decide
  exact hall source.quote source.quote_mem

/-- A module that has a name is recognised, whatever follows. -/
theorem leads_quotedModule (hname : source.name ≠ []) (label : Nat) (before : Option Char)
    (rest : List Char) : (quotedModule label).Leads before source.text rest := by
  have hquote : "'\"".toList.contains source.quote = true := by
    simpa using source.quote_mem
  have hrun : ∀ c ∈ source.name, (!"'\"\n".toList.contains c) = true := by
    intro c hc
    simpa using source.not_mem c hc
  have hend : (source.quote :: rest).head?.any (fun c => !"'\"\n".toList.contains c) = false := by
    have hall : ∀ c ∈ ['\'', '"'], (!"'\"\n".toList.contains c) = false := by decide
    exact hall source.quote source.quote_mem
  intro offset captures
  rw [show source.text ++ rest = source.quote :: (source.name ++ source.quote :: rest) by
    simp [Specifier.text]]
  exact ⟨_, prefers_all_cons (prefers_capture_char label hquote)
    (prefers_all_cons (prefers_plus_char hname hrun hend) prefers_again_char), rfl⟩

end Specifier

/-- What is taken of an ending. -/
def Ending.taken (ending : Ending) : List Char :=
  ending.spaces ++ ((if ending.semicolon then [';'] else []) ++
    ending.blanks.text.takeWhile isSpace)

theorem Ending.taken_append_left (ending : Ending) : ending.taken ++ ending.left = ending.text := by
  simp [Ending.taken, Ending.left, Ending.text]

theorem Blanks.any_head?_dropWhile (blanks : Blanks) (hrest : EndsLine rest) :
    (blanks.text.dropWhile isSpace ++ rest).head?.any isSpace = false := by
  cases hdrop : blanks.text.dropWhile isSpace with
  | nil => exact hrest.any_head? (by decide)
  | cons c cs =>
    have hhead := List.head?_dropWhile_not isSpace blanks.text
    rw [hdrop] at hhead
    simpa using hhead

/-- What comes behind the last spaces and tabs of blanks that end a line is blank. -/
theorem Blanks.isBlank_of_head? (blanks : Blanks) (hrest : EndsLine rest) :
    ∀ c ∈ (blanks.text.dropWhile isSpace ++ rest).head?, isBlank c = true := by
  intro c hc
  rw [List.head?_append, Option.mem_def, Option.or_eq_some_iff] at hc
  rcases hc with hc | ⟨-, hc⟩
  · exact blanks.isBlank_of_mem c
      ((List.dropWhile_suffix isSpace).subset (List.mem_of_head? hc))
  · obtain rfl : c = '\n' := by simpa [EndsLine, hc] using hrest
    decide

theorem Ending.isBlank_of_mem_left (ending : Ending) : ∀ c ∈ ending.left, isBlank c = true :=
  fun c hc => ending.blanks.isBlank_of_mem c ((List.dropWhile_suffix isSpace).subset hc)

/-- An ending is recognised up to the blanks behind its last spaces and tabs. -/
theorem Ending.leads (ending : Ending) (before : Option Char) (hrest : EndsLine rest) :
    statementEnd.Leads before ending.taken (ending.left ++ rest) := by
  have htaken : ∀ c ∈ ending.blanks.text.takeWhile isSpace, isSpace c = true := by
    intro c hc
    exact List.all_eq_true.mp List.all_takeWhile c hc
  have hstop := ending.blanks.any_head?_dropWhile hrest
  rw [Ending.taken, Ending.left]
  cases ending.semicolon with
  | true =>
    exact Leads.cons (leads_star_char ending.isSpace_of_mem rfl)
      (Leads.cons (leads_opt (leads_lit ";" _ _)) (leads_star_char htaken hstop))
  | false =>
    have hspaces : ∀ c ∈ ending.spaces ++ ending.blanks.text.takeWhile isSpace,
        isSpace c = true :=
      List.forall_mem_append.mpr ⟨ending.isSpace_of_mem, htaken⟩
    have hsemicolon : ∀ c ∈ (ending.blanks.text.dropWhile isSpace ++ rest).head?,
        (lit ";").mayStart c = false := by
      intro c hc
      have hblank := ending.blanks.isBlank_of_head? hrest c hc
      apply beq_eq_false_iff_ne.mpr
      rintro rfl
      cases hblank
    have h : statementEnd.Leads before
        ((ending.spaces ++ ending.blanks.text.takeWhile isSpace) ++ ([] ++ []))
          (ending.blanks.text.dropWhile isSpace ++ rest) :=
      Leads.cons (leads_star_char hspaces hstop) (Leads.cons (leads_opt_of_head rfl hsemicolon)
        (leads_star_char (List.forall_mem_nil _) hstop))
    rwa [List.append_nil, List.append_nil] at h

/-! ## What stands behind a word -/

section Behind

variable {patterns others : List Pattern} {front y z : List Char} {label offset : Nat}
  {captures : List Capture}

/-- A pattern that takes a word at the start of a text takes nothing before it, if it cannot take
the first letter of the word there. -/
theorem exists_takes_behind {s : String} {cs u v : List Char} (hs : s.toList = c :: cs)
    (hnone : ∀ p ∈ patterns, p.takesNone [c] = true)
    (hu : (all (patterns ++ lit s :: others)).Takes u) (h : s.toList ++ text = u ++ v) :
    ∃ y, text = y ++ v ∧ (all others).Takes y := by
  obtain ⟨first, behind, rfl, hfirst, hbehind⟩ := takes_all_append.mp hu
  obtain ⟨word, y, rfl, hword, hy⟩ := takes_all_cons.mp hbehind
  obtain rfl := takes_lit.mp hword
  cases first with
  | nil =>
    rw [List.nil_append, List.append_assoc] at h
    exact ⟨y, List.append_cancel_left h, hy⟩
  | cons d ds =>
    rw [hs] at h
    obtain ⟨rfl, -⟩ := List.cons.inj h
    exact absurd (.head _) (not_mem_of_takes_all hnone hfirst _ (.head _))

/-- A pattern that takes a word does not match where what it takes behind it does not stand. -/
theorem matchAt?_eq_none_of_behind {s : String} {cs : List Char} (hs : s.toList = c :: cs)
    (hnone : ∀ p ∈ patterns, p.takesNone [c] = true)
    (h : ∀ y z, text = y ++ z → ¬(all others).Takes y) :
    (all (patterns ++ lit s :: others)).matchAt? ⟨before, s.toList ++ text, offset, captures⟩ =
      none := by
  apply matchAt?_eq_none_of_not_takes
  intro u v huv hu
  obtain ⟨y, hyv, hy⟩ := exists_takes_behind hs hnone hu huv
  exact h y v hyv hy

/-- A module is taken from its quote on, and it has a name. -/
theorem exists_takes_quotedModule {w : List Char} (hw : (quotedModule label).Takes w) :
    ∃ q n v, w = q :: n :: v ∧ q ∈ ['\'', '"'] ∧ n ∉ ['\'', '"'] := by
  obtain ⟨_, x, rfl, ⟨q, hq, rfl⟩, hx⟩ := takes_all_cons.mp hw
  obtain ⟨name, v, rfl, hname, -⟩ := takes_all_cons.mp hx
  obtain ⟨hne, hname⟩ := takes_plus_char.mp hname
  obtain ⟨n, ns, rfl⟩ := List.exists_cons_of_ne_nil hne
  refine ⟨q, n, ns ++ v, rfl, by simpa using hq, ?_⟩
  have hn := hname n (.head ns)
  intro hmem
  have hall : ∀ n ∈ ['\'', '"'], (!"'\"\n".toList.contains n) = false := by decide
  exact nomatch hn.symm.trans (hall n hmem)

/-- Where a module is found, one that has a name stands. -/
theorem exists_of_mem_ends_quotedModule {label : Nat} {p q : Progress}
    (h : q ∈ (quotedModule label).ends p) :
    ∃ (source : Specifier) (rest : List Char), source.name ≠ [] ∧ p.rest = source.text ++ rest := by
  obtain ⟨q₁, hq₁, hlater⟩ := List.mem_flatMap.mp h
  obtain ⟨q₂, hq₂, hagain⟩ := List.mem_flatMap.mp hlater
  obtain ⟨r, hr, rfl⟩ := List.mem_map.mp hq₁
  obtain ⟨_, ⟨c, hc, rfl⟩, hquote⟩ := exists_takes hr
  obtain ⟨name, hname, hover⟩ := exists_takes hq₂
  obtain ⟨hne, hname⟩ := takes_plus_char.mp hname
  -- What is captured at the quote is asked for once more behind the name.
  have hcaptured := @captured?_of_mem_ends label (plus (noneOf "'\"\n")) rfl _ _ hq₂
  rw [Progress.captured?, Progress.captured?, List.find?_cons_of_pos (by simp),
    hquote.take_eq] at hcaptured
  simp only [all, ends, Progress.captured?, hcaptured] at hagain
  split at hagain
  · next hprefix =>
    obtain ⟨rest, hrest⟩ := List.isPrefixOf_iff_prefix.mp hprefix
    refine ⟨⟨c, name, by simpa using hc, fun c hmem => by simpa using hname c hmem⟩, rest, hne, ?_⟩
    have hafter : r.rest = name ++ q₂.rest := hover.rest
    rw [hquote.rest, hafter, ← hrest]
    simp [Specifier.text]
  · cases hagain

/-- A pattern that takes no quotes up to a module takes all that stands before the first quote. -/
theorem takes_front_of_takes {source : Specifier}
    (hnone : ∀ p ∈ patterns, p.takesNone ['\'', '"'] = true)
    (hfront : ∀ c ∈ front, c ∉ ['\'', '"'])
    (hy : (all (patterns ++ quotedModule label :: others)).Takes y)
    (h : front ++ (source.text ++ rest) = y ++ z) :
    (all patterns).Takes front ∧ source.name ≠ [] := by
  obtain ⟨first, behind, rfl, hfirst, hbehind⟩ := takes_all_append.mp hy
  obtain ⟨w, x, rfl, hw, -⟩ := takes_all_cons.mp hbehind
  obtain ⟨q, n, v, rfl, hq, hn⟩ := exists_takes_quotedModule hw
  have hplain : ∀ {text : List Char}, (∀ c ∈ text, c ∉ ['\'', '"']) →
      ∀ c ∈ text, (!(['\'', '"'].contains c)) = true := by
    intro text htext c hc
    simpa using htext c hc
  have hquote : ∀ {q : Char} {rest : List Char}, q ∈ ['\'', '"'] →
      (q :: rest).head?.any (fun c => !(['\'', '"'].contains c)) = false := by
    intro q rest hq
    have hall : ∀ q ∈ ['\'', '"'], (!(['\'', '"'].contains q)) = false := by decide
    exact hall q hq
  have hsplit : front ++ (source.quote :: (source.name ++ source.quote :: rest)) =
      first ++ (q :: n :: (v ++ (x ++ z))) := by
    simpa [Specifier.text] using h
  obtain ⟨rfl, hmodules⟩ := run_append_inj (hplain hfront)
    (hplain (not_mem_of_takes_all hnone hfirst)) (hquote source.quote_mem) (hquote hq) hsplit
  refine ⟨hfirst, fun hname => ?_⟩
  rw [hname] at hmodules
  obtain ⟨-, hsecond⟩ := List.cons.inj hmodules
  obtain ⟨rfl, -⟩ := List.cons.inj hsecond
  exact hn source.quote_mem

/-- Where a pattern takes blanks, what it takes behind them starts behind the last one. -/
theorem exists_prefix_of_takes_blanks {first : Pattern} {gap t : List Char} {chars : List Char}
    (hfirst : ∀ w, first.Takes w → ∀ c ∈ w, isBlank c = true)
    (hsome : (all others).takesSome = true)
    (hstart : ∀ c, (all others).mayStart c = true → c ∈ chars)
    (hchars : ∀ c ∈ chars, isBlank c = false) (hgap : ∀ c ∈ gap, isBlank c = true)
    (hhead : t.head?.any isBlank = false) (hy : (all (first :: others)).Takes y)
    (h : gap ++ t = y ++ z) :
    ∃ x z, (all others).Takes x ∧ t = x ++ z ∧ ∃ c ∈ chars, t.head? = some c := by
  obtain ⟨blanks, x, rfl, hblanks, hx⟩ := takes_all_cons.mp hy
  obtain ⟨c, cs, rfl⟩ := List.exists_cons_of_ne_nil (ne_nil_of_takesSome hsome hx)
  have hc := hstart c (mayStart_of_takes hx)
  have hstop : (c :: (cs ++ z)).head?.any isBlank = false := hchars c hc
  rw [List.append_assoc] at h
  obtain ⟨-, rfl⟩ := run_append_inj hgap (hfirst blanks hblanks) hhead hstop h
  exact ⟨c :: cs, z, hx, rfl, c, hc, rfl⟩

/-- An exporting rule keeps nothing of a match at the start of a line. -/
theorem exists_match_of_front {w : List Char} {labels : List Nat} {s : String}
    (hfront : (all patterns).Prefers ⟨before, s.toList ++ (w ++ rest), offset, []⟩
      ⟨before, s.toList ++ (w ++ rest), offset, captures⟩)
    (hempty : ∀ c ∈ captures, c.text = [])
    (hkeeps : ∀ label ∈ labels, (all (lit s :: others)).keepsNone label = true)
    (hothers : (all (lit s :: others)).Leads before (s.toList ++ w) rest) :
    ∃ m, (all (patterns ++ lit s :: others)).matchAt?
        ⟨before, (s.toList ++ w) ++ rest, offset, []⟩ = some m ∧ m.text = s.toList ++ w ∧
      labels.flatMap m.captured = [] := by
  obtain ⟨q, hprefers, hq⟩ := hothers offset captures
  rw [← List.append_assoc] at hfront
  refine ⟨_, matchAt?_of_prefers (prefers_all_append hfront hprefers) hq, rfl, ?_⟩
  apply List.flatMap_eq_nil_iff.mpr
  intro label hlabel
  have hcaptured := captured?_of_mem_ends (hkeeps label hlabel) (List.mem_of_head? hprefers)
  rw [Found.captured, Found.capture?, show q.captures.find? (fun c => c.label == label) =
    captures.find? (fun c => c.label == label) from hcaptured]
  cases hfind : captures.find? (fun c => c.label == label) with
  | none => rfl
  | some c => exact hempty c (List.mem_of_find?_eq_some hfind)

end Behind

/-! ## At the start of a line -/

theorem import_mem_marks : "import".toList ∈ marks := by decide

theorem export_mem_marks : "export".toList ∈ marks := by decide

/-- A text that starts with the other word of module syntax, and holds none behind it. -/
theorem not_infix_of_ne {word mark tail : List Char} (hword : word ∈ marks) (hmark : mark ∈ marks)
    (hne : word ≠ mark) (htail : IsPlain tail) : ¬word <:+: mark ++ tail := by
  intro hinfix
  apply htail word hword
  rcases mem_marks.mp hword with rfl | rfl
  · rcases mem_marks.mp hmark with rfl | rfl
    · exact absurd rfl hne
    · exact infix_of_infix_append (show 'i' ∉ "export".toList by decide) hinfix
  · rcases mem_marks.mp hmark with rfl | rfl
    · exact infix_of_infix_append (show 'e' ∉ "import".toList by decide) hinfix
    · exact absurd rfl hne

/-- Where a removing rule matches at the start of a line. -/
theorem exists_match_remove {pattern : Pattern} {w : List Char} (h : pattern.Leads before w rest)
    (offset : Nat) : ∃ m, (Rule.remove pattern).pattern.matchAt? ⟨before, w ++ rest, offset, []⟩ =
      some m ∧ m.text = w ∧ (Rule.remove pattern).replacement m = [] := by
  obtain ⟨m, hm, htext⟩ := exists_matchAt?_of_leads h offset
  exact ⟨m, hm, htext, rfl⟩

theorem leads_lineStart (h : StartsLine before) (rest : List Char) :
    lineStart.Leads before [] rest :=
  leads_condition h

theorem leads_spaces (h : rest.head?.any isSpace = false) : spaces.Leads before [] rest :=
  leads_star_char (List.forall_mem_nil _) h

end ModuleSyntax

end GuestCode
