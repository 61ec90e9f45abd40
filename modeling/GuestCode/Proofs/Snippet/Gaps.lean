import GuestCode.Proofs.Snippet.Slashes

/-!
# Gaps between tokens

What stands between two tokens of a snippet is blanks and comments. Such a gap has a grammar that
says nothing of reading: a comment opens with a slash, and it ends at its mark or with its line. The
characters between the last one of a token and the next one of code are a gap by this grammar.

## Main statements

* `IsGap`: texts of blanks and comments that come to an end.
* `IsGap.isBlank_of_mem`: before its first slash a gap is blank.
* `IsGap.of_token`: a comment may stand before a gap, as it is read.
* `isGap_of_kinded`: what stands before a character of code, back to the last character that is
  neither a blank nor in a comment, is a gap.
-/

namespace GuestCode

open Text

/-- Blanks and comments; a line comment ends before a line end. -/
inductive IsGap : List Char → Prop where
  | nil : IsGap []
  | blank {c : Char} {rest : List Char} : isBlank c = true → IsGap rest → IsGap (c :: rest)
  | line {body rest : List Char} :
      '\n' ∉ body → IsGap ('\n' :: rest) → IsGap ('/' :: '/' :: (body ++ '\n' :: rest))
  | block {body rest : List Char} :
      Segment.BlockBody body → IsGap rest → IsGap ('/' :: '*' :: (body ++ '*' :: '/' :: rest))

namespace IsGap

variable {gap u v : List Char}

/-- Blanks may stand before a gap. -/
theorem append (h : ∀ c ∈ u, isBlank c = true) (hgap : IsGap gap) : IsGap (u ++ gap) := by
  induction u with
  | nil => exact hgap
  | cons c u ih =>
    obtain ⟨hc, hu⟩ := List.forall_mem_cons.mp h
    exact .blank hc (ih hu)

/-- Before its first slash a gap is blank. -/
theorem isBlank_of_mem (h : IsGap (u ++ v)) (hslash : '/' ∉ u) : ∀ c ∈ u, isBlank c = true := by
  generalize htext : u ++ v = text at h
  induction h generalizing u with
  | nil =>
    obtain ⟨rfl, -⟩ := List.append_eq_nil_iff.mp htext
    simp
  | blank hc _ ih =>
    cases u with
    | nil => simp
    | cons d u =>
      obtain ⟨rfl, hrest⟩ := List.cons.inj htext
      exact List.forall_mem_cons.mpr ⟨hc, ih (fun hmem => hslash (.tail _ hmem)) hrest⟩
  | line | block =>
    cases u with
    | nil => simp
    | cons d u =>
      obtain ⟨rfl, -⟩ := List.cons.inj htext
      exact absurd (.head u) hslash

end IsGap

/-! ## Comments as they are read -/

namespace Segment

variable {c : Char} {cs rest : List Char}

theorem blockBody_cons_iff :
    BlockBody (c :: cs) ↔ ¬(c = '*' ∧ cs.head? = some '/') ∧ BlockBody cs := by
  have hmark : ['*', '/'] <+: c :: cs ↔ c = '*' ∧ cs.head? = some '/' := by
    rw [List.cons_prefix_cons, List.singleton_prefix_iff_head?_eq_some, eq_comm]
  rw [BlockBody, BlockBody, List.infix_cons_iff, hmark, not_or]

/-- A text that holds no star may stand before the inside of a block comment. -/
theorem blockBody_append_iff (h : '*' ∉ cs) : BlockBody (cs ++ rest) ↔ BlockBody rest := by
  induction cs with
  | nil => exact .rfl
  | cons c cs ih =>
    rw [List.cons_append, blockBody_cons_iff, ih (List.not_mem_of_not_mem_cons h)]
    exact and_iff_right fun hmark => List.ne_of_not_mem_cons h hmark.1.symm

/-- What a block comment consists of, if something follows it. -/
theorem exists_body_of_afterBlock (text : List Char) (h : afterBlock text ≠ []) :
    ∃ body, text = body ++ '*' :: '/' :: afterBlock text ∧ BlockBody body := by
  fun_induction afterBlock text with
  | case1 => exact absurd rfl h
  | case2 ds => exact ⟨[], rfl, by simp [BlockBody]⟩
  | case3 cs c hopen ih =>
    obtain ⟨body, heq, hbody⟩ := ih h
    refine ⟨c :: body, by rw [List.cons_append, ← heq], blockBody_cons_iff.mpr ⟨?_, hbody⟩⟩
    -- The first mark ends the comment.
    rintro ⟨rfl, hhead⟩
    obtain ⟨ds, rfl⟩ := List.head?_eq_some_iff.mp hhead
    exact hopen _ rfl heq

/-- A line comment holds no line end. -/
theorem not_mem_of_afterLine (h : afterLine (cs ++ rest) = rest) : '\n' ∉ cs := by
  have hdivided := List.takeWhile_append_dropWhile (p := fun c => c != '\n') (l := cs ++ rest)
  have hrest : (cs ++ rest).dropWhile (fun c => c != '\n') = rest := h
  rw [hrest] at hdivided
  intro hmem
  rw [← List.append_cancel_right hdivided] at hmem
  exact absurd (List.all_eq_true.mp List.all_takeWhile _ hmem) (by decide)

/-- A comment that something follows is closed: by the end of its line, or by its mark. -/
theorem closed_of_token? {look : Lookback} {kind : Kind}
    (h : token? look c (cs ++ rest) = some (kind, rest)) (hkind : kind.isComment = true)
    (hrest : rest ≠ []) :
    (∃ body, c :: cs = '/' :: '/' :: body ∧ '\n' ∉ body ∧ rest.head? = some '\n') ∨
      ∃ body, c :: cs = '/' :: '*' :: (body ++ ['*', '/']) ∧ BlockBody body := by
  have hnone : ∀ {other : Kind} {left : List Char}, other.isComment = false →
      some (other, left) ≠ some (kind, rest) := by
    rintro other left hother heq
    obtain ⟨rfl, -⟩ := Prod.mk.inj (Option.some.inj heq)
    exact Bool.false_ne_true (hother.symm.trans hkind)
  obtain ⟨d, ds, rfl⟩ := List.exists_cons_of_ne_nil hrest
  unfold token? at h
  split at h
  · next hopen =>
    obtain ⟨-, hafter⟩ := Prod.mk.inj (Option.some.inj h)
    obtain ⟨hc, hhead⟩ := Bool.and_eq_true_iff.mp hopen
    obtain rfl := beq_iff_eq.mp hc
    obtain rfl : d = '\n' := eq_newline_of_mem_head?_afterLine (by rw [hafter]; rfl)
    cases cs with
    | nil => exact absurd (beq_iff_eq.mp hhead) (by simp)
    | cons e body =>
      obtain rfl : e = '/' := by simpa using hhead
      exact .inl ⟨body, rfl, List.not_mem_of_not_mem_cons (not_mem_of_afterLine hafter), rfl⟩
  split at h
  · next hopen =>
    obtain ⟨-, hafter⟩ := Prod.mk.inj (Option.some.inj h)
    obtain ⟨hc, hhead⟩ := Bool.and_eq_true_iff.mp hopen
    obtain rfl := beq_iff_eq.mp hc
    cases cs with
    | nil => exact absurd hafter (ne_cons_of_suffix (afterBlock_suffix ds) d)
    | cons e inside =>
      obtain rfl : e = '*' := by simpa using hhead
      have hafter : afterBlock (inside ++ d :: ds) = d :: ds := hafter
      obtain ⟨body, heq, hbody⟩ := exists_body_of_afterBlock (inside ++ d :: ds) (by simp [hafter])
      rw [hafter] at heq
      obtain rfl : inside = body ++ ['*', '/'] :=
        List.append_cancel_right (heq.trans (List.append_assoc body ['*', '/'] _).symm)
      exact .inr ⟨body, rfl, hbody⟩
  -- What else there is are literals.
  split at h
  · exact absurd h (hnone rfl)
  split at h
  · exact absurd h (hnone rfl)
  split at h
  · obtain ⟨left, -, heq⟩ := Option.map_eq_some_iff.mp h
    exact absurd (congrArg some heq) (hnone rfl)
  · cases h

end Segment

/-- A comment that is read before a gap belongs to the gap, if what follows is no blank. -/
theorem IsGap.of_token {look : Segment.Lookback} {c d : Char} {cs gap rest : List Char}
    {kind : Segment.Kind}
    (h : Segment.token? look c (cs ++ (gap ++ d :: rest)) = some (kind, gap ++ d :: rest))
    (hkind : kind.isComment = true) (hd : isBlank d = false) (hgap : IsGap gap) :
    IsGap (c :: (cs ++ gap)) := by
  rw [← List.cons_append]
  rcases Segment.closed_of_token? h hkind (by simp) with
    ⟨body, heq, hbody, hline⟩ | ⟨body, heq, hbody⟩
  · rw [heq]
    cases gap with
    | nil =>
      -- What follows would be the end of the line.
      obtain rfl : d = '\n' := by simpa using hline
      cases hd
    | cons e gap =>
      obtain rfl : e = '\n' := by simpa using hline
      exact .line hbody hgap
  · rw [heq]
    simpa using IsGap.block hbody hgap

/-! ## What stands before code -/

/-- Whether a character is a blank or in a comment. -/
def Kinded.isFiller (k : Kinded) : Bool := isBlank k.char || k.kind.isComment

section Reading

variable {look : Segment.Lookback} {text : List Char} {front gap rest : List Kinded} {k : Kinded}
  {c : Char}

/-- A token that starts before a character of code ends before it. -/
theorem exists_of_token_append {token later : List Kinded} (htoken : ∀ k ∈ token, k.kind ≠ .code)
    (h : token ++ later = gap ++ ⟨c, .code⟩ :: rest) :
    ∃ others, gap = token ++ others ∧ later = others ++ ⟨c, .code⟩ :: rest := by
  rcases List.append_eq_append_iff.mp h with ⟨z, hgap, hlater⟩ | ⟨z, hz, hrest⟩
  · exact ⟨z, hgap, hlater⟩
  · cases z with
    | nil => exact ⟨[], by simpa using hz.symm, by simpa using hrest.symm⟩
    | cons k z =>
      obtain ⟨rfl, -⟩ := List.cons.inj hrest
      exact absurd rfl (htoken ⟨c, .code⟩ (by rw [hz]; simp))

/-- Fillers up to a character of code are a gap. -/
theorem isGap_of_kindedAfter (h : kindedAfter look text = gap ++ ⟨c, .code⟩ :: rest)
    (hgap : ∀ k ∈ gap, k.isFiller = true) (hc : isBlank c = false) :
    IsGap (gap.map Kinded.char) := by
  fun_induction Segment.splitAfter look text generalizing gap with
  | case1 look =>
    rw [kindedAfter, Segment.splitAfter, List.flatMap_nil] at h
    simp at h
  | case2 look d cs kind left htoken _ ih =>
    obtain ⟨body, rfl⟩ := Segment.token?_suffix htoken
    rw [kindedAfter_of_token htoken] at h
    have hkind := Segment.kind_ne_code_of_token? htoken
    obtain ⟨others, rfl, hothers⟩ := exists_of_token_append
      (fun k hk => (kind_of_mem_kindedText hk).symm ▸ hkind) h
    obtain ⟨htokenGap, hothersGap⟩ := List.forall_mem_append.mp hgap
    -- The token opens with a character that is no blank, so it is a comment.
    have hcomment : kind.isComment = true := by
      have hfirst := htokenGap ⟨d, kind⟩ (.head _)
      have hd : isBlank d = false := Bool.eq_false_iff.mpr fun hd =>
        Segment.not_mem_openers_of_isBlank hd (Segment.opener_of_token? htoken)
      rwa [Kinded.isFiller, hd, Bool.false_or] at hfirst
    have hleft : left = others.map Kinded.char ++ c :: rest.map Kinded.char := by
      rw [← map_char_kindedAfter (look.afterToken kind) left, hothers]
      simp
    have hown := ih hothers hothersGap
    rw [hleft] at htoken
    simpa using hown.of_token htoken hcomment hc
  | case3 look d cs htoken ih =>
    rw [kindedAfter_of_none htoken] at h
    cases gap with
    | nil => exact .nil
    | cons k gap =>
      obtain ⟨rfl, hrest⟩ := List.cons.inj h
      obtain ⟨hk, hgap⟩ := List.forall_mem_cons.mp hgap
      exact .blank ((Bool.or_eq_true_iff.mp hk).resolve_right Bool.false_ne_true) (ih hrest hgap)

/-- Fillers between the end of a token, or a character of code, and the next one are a gap. -/
theorem isGap_behind (h : kindedAfter look text = front ++ k :: (gap ++ ⟨c, .code⟩ :: rest))
    (hk : k.isFiller = false) (hgap : ∀ k ∈ gap, k.isFiller = true) (hc : isBlank c = false) :
    IsGap (gap.map Kinded.char) := by
  fun_induction Segment.splitAfter look text generalizing front with
  | case1 look =>
    rw [kindedAfter, Segment.splitAfter, List.flatMap_nil] at h
    simp at h
  | case2 look d cs kind left htoken _ ih =>
    obtain ⟨body, rfl⟩ := Segment.token?_suffix htoken
    rw [kindedAfter_of_token htoken] at h
    have hkind := Segment.kind_ne_code_of_token? htoken
    rcases List.append_eq_append_iff.mp h with ⟨z, rfl, hlater⟩ | ⟨z, hz, hlater⟩
    · exact ih hlater
    · cases z with
      | nil => exact @ih [] hlater.symm
      | cons e z =>
        -- The character is in the token, and the rest of the token is blank.
        obtain ⟨rfl, hrest⟩ := List.cons.inj hlater
        have hmem : ∀ e ∈ k :: z, e.kind = kind := fun e he =>
          kind_of_mem_kindedText (hz ▸ List.mem_append_right front he)
        obtain ⟨others, rfl, hothers⟩ := exists_of_token_append
          (fun e he => (hmem e (.tail _ he)).symm ▸ hkind) hrest.symm
        obtain ⟨hzGap, hothersGap⟩ := List.forall_mem_append.mp hgap
        rw [List.map_append]
        refine .append (fun b hb => ?_) (isGap_of_kindedAfter hothers hothersGap hc)
        obtain ⟨e, he, rfl⟩ := List.mem_map.mp hb
        have hcomment : k.kind.isComment = false := (Bool.or_eq_false_iff.mp hk).2
        have hfiller := hzGap e he
        rwa [Kinded.isFiller, hmem e (.tail _ he), ← hmem k (.head _), hcomment,
          Bool.or_false] at hfiller
  | case3 look d cs htoken ih =>
    rw [kindedAfter_of_none htoken] at h
    cases front with
    | nil => exact isGap_of_kindedAfter (List.cons.inj h).2 hgap hc
    | cons _ front => exact ih (List.cons.inj h).2

end Reading

/-- What stands before a character of code, back to the last character that is neither a blank nor
in a comment, is a gap. -/
theorem isGap_of_kinded {source : List Char} {place : Nat} {c : Char} {front gap : List Kinded}
    {k : Kinded} (hbefore : (kinded source).take place = front ++ k :: gap)
    (hk : k.isFiller = false) (hgap : ∀ k ∈ gap, k.isFiller = true)
    (hcode : isCodeAt (Region.ofSource source) place = true) (hplace : source[place]? = some c)
    (hc : isBlank c = false) : IsGap (gap.map Kinded.char) := by
  obtain ⟨hlt, heq⟩ := List.getElem?_eq_some_iff.mp
    (getElem?_kinded_code_iff.mpr ⟨hplace, hcode⟩)
  refine @isGap_behind .start source front gap ((kinded source).drop (place + 1)) k c ?_ hk hgap hc
  rw [← kinded_eq_kindedAfter, ← heq, ← List.cons_append, ← List.append_assoc, ← hbefore,
    List.getElem_cons_drop, List.take_append_drop]

end GuestCode
