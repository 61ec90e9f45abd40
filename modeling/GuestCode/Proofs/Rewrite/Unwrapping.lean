import GuestCode.Execution.Message
import GuestCode.Proofs.Rewrite.Passes
import GuestCode.Proofs.Snippet.Front
import GuestCode.Proofs.Text.Language
import GuestCode.Proofs.Text.Split
import Mathlib.Data.List.Forall2

/-!
# The body of a function that is called at once

A snippet is reduced to the body of its function if it is nothing else than a function without
parameters that is called at once. Its end is found by counting brackets from the brace of the body
on, in code only.

This module says which snippets these are and what their body is. So the body of the function that
is put around a snippet is that snippet again; and the name that a function may have is lost with
it, be it used in the body or not.

## Main statements

* `Rewrite.unwrapOnce?_eq_some_iff`: which snippets are reduced to a body, and to which.
* `Rewrite.unwrap_entryPoint`: the function around a snippet is taken away again.
* `Rewrite.losesName_iff`: when a name is lost that the body uses.
-/

namespace GuestCode.Rewrite

open Text Text.Pattern Grammar

/-! ## Closing a bracket -/

/-- Balanced code inside brackets is passed over. -/
theorem closingIn?_of_nestingAfter? {code : List Placed} {depth depth' : Nat}
    (h : nestingAfter? depth (code.map Placed.char) = some depth') (more : List Placed) :
    closingIn? ((depth : Int) + 1) (code ++ more) = closingIn? ((depth' : Int) + 1) more := by
  induction code generalizing depth with
  | nil =>
    obtain rfl := Option.some.inj h
    rfl
  | cons p rest ih =>
    rw [List.map_cons, nestingAfter?] at h
    rw [List.cons_append, closingIn?]
    split at h
    · next hopening =>
      rw [if_pos hopening, ← ih h]
      congr 1
    next hopening =>
    rw [if_neg hopening]
    split at h
    · next hclosing =>
      rw [if_pos hclosing]
      split at h
      · cases h
      · next hpositive =>
        rw [if_neg (by omega), ← ih h]
        congr 1
        omega
    · next hclosing => rw [if_neg hclosing, ih h]

/-- The bracket that closes an open one stands after balanced code. -/
theorem exists_of_closingIn? {code : List Placed} {close : Nat} (depth : Nat)
    (h : closingIn? ((depth : Int) + 1) code = some close) :
    ∃ front mark back, code = front ++ mark :: back ∧
      nestingAfter? depth (front.map Placed.char) = some 0 ∧ isClosing mark.char = true ∧
      mark.place = close := by
  induction code generalizing depth with
  | nil => cases h
  | cons p rest ih =>
    have hlater : ∀ depth' : Nat, closingIn? ((depth' : Int) + 1) rest = some close →
        (∀ cs, nestingAfter? depth (p.char :: cs) = nestingAfter? depth' cs) →
        ∃ front mark back, p :: rest = front ++ mark :: back ∧
          nestingAfter? depth (front.map Placed.char) = some 0 ∧ isClosing mark.char = true ∧
          mark.place = close := by
      intro depth' hrest hnesting
      obtain ⟨front, mark, back, rfl, hdepth, hmark⟩ := ih depth' hrest
      exact ⟨p :: front, mark, back, rfl, by rw [List.map_cons, hnesting, hdepth], hmark⟩
    rw [closingIn?] at h
    split at h
    · next hopening =>
      refine hlater (depth + 1) (by rw [← h]; congr 1) fun cs => ?_
      rw [nestingAfter?, if_pos hopening]
    next hopening =>
    split at h
    · next hclosing =>
      split at h
      · next hzero =>
        obtain rfl : depth = 0 := by omega
        exact ⟨[], p, rest, rfl, rfl, hclosing, Option.some.inj h⟩
      · next hpositive =>
        have hdepth : depth ≠ 0 := by omega
        refine hlater (depth - 1) (by rw [← h]; congr 1; omega) fun cs => ?_
        rw [nestingAfter?, if_neg hopening, if_pos hclosing, if_neg hdepth]
    · next hclosing =>
      refine hlater depth h fun cs => ?_
      rw [nestingAfter?, if_neg hopening, if_neg hclosing]

theorem closingIn?_map_shift (depth : Int) (code : List Placed) (n : Nat) :
    closingIn? depth (code.map (Placed.shift n)) = (closingIn? depth code).map (n + ·) := by
  fun_induction closingIn? depth code with
  | case1 => rfl
  | case2 depth p rest hopening ih =>
    rw [List.map_cons, closingIn?, Placed.shift_char, if_pos hopening, ih]
  | case3 depth p rest hopening hclosing hzero =>
    rw [List.map_cons, closingIn?, Placed.shift_char, if_neg hopening, if_pos hclosing,
      if_pos hzero]
    rfl
  | case4 depth p rest hopening hclosing hzero ih =>
    rw [List.map_cons, closingIn?, Placed.shift_char, if_neg hopening, if_pos hclosing, if_neg hzero,
      ih]
  | case5 depth p rest hopening hclosing ih =>
    rw [List.map_cons, closingIn?, Placed.shift_char, if_neg hopening, if_neg hclosing, ih]

/-! ## The start of the function -/

/-- What stands before the brace of the body. -/
def beforeBrace : List Pattern :=
  [opt (.seq (words ["await", "return"]) someBlanks), lit "(", blanks,
    opt (.seq (lit "async") blanks),
    .either (all [lit "(", blanks, lit ")", blanks, lit "=>"])
      (all [lit "function", blanks, nameChars, blanks, lit "(", blanks, lit ")"]),
    blanks]

theorem wrapperHead_eq : wrapperHead = all (beforeBrace ++ [lit "\x7b"]) := rfl

/-- The start ends with its only brace, and there are no quotes and no slashes in it. -/
theorem exists_of_takes_brace {patterns : List Pattern} {w : List Char}
    (hnone : ∀ p ∈ patterns, p.takesNone ('\x7b' :: Segment.openers) = true)
    (h : (all (patterns ++ [lit "\x7b"])).Takes w) :
    ∃ front, w = front ++ ['\x7b'] ∧ ∀ c ∈ front, c ∉ '\x7b' :: Segment.openers := by
  obtain ⟨front, brace, rfl, hfront, hbrace⟩ := takes_all_append.mp h
  exact ⟨front, congrArg (front ++ ·) (takes_lit.mp hbrace), not_mem_of_takes_all hnone hfront⟩

theorem exists_of_takes_wrapperHead {w : List Char} (h : wrapperHead.Takes w) :
    ∃ front, w = front ++ ['\x7b'] ∧ ∀ c ∈ front, c ∉ '\x7b' :: Segment.openers :=
  exists_of_takes_brace (by decide) (wrapperHead_eq ▸ h)

/-! ## The body -/

/-- What follows the brace of a function that is called at once: the body, the bracket that closes
it and the call. -/
inductive Calls : List Char → List Char → Prop
  | mk {body ending : List Char} {closer : Char} (closes : isClosing closer = true)
    (inCode : isCodeAt (Region.ofSource (body ++ [closer])) body.length = true)
    (balanced : Balanced (codeText body)) (called : wrapperTail.Takes ending) :
    Calls (body ++ closer :: ending) body

/-- After its brace a function is read anew, and the brace is the first one that is open. -/
theorem closing?_brace {front : List Char} (h : ∀ c ∈ front, c ∉ Segment.openers)
    (after : List Char) :
    closing? (codeChars (front ++ '\x7b' :: after)) (front.length : Nat) =
      (closingIn? 1 (codeChars after)).map (front.length + 1 + ·) := by
  have hmark : isMark '\x7b' = true := by decide +kernel
  have hfresh : (Segment.Lookback.mark '\x7b').isFresh = true := by decide +kernel
  have hstart : Segment.Lookback.isFresh .start = true := rfl
  have hread := Reads.of_plain h .start ('\x7b' :: after) fun _ _ => rfl
  rw [codeAfter_of_isMark hmark, codeAfter_congr hfresh hstart, List.map_cons,
    map_shift_map_shift] at hread
  have hbefore : ∀ p ∈ placedFrom 0 front,
      decide ((p.place : Int) < (front.length : Nat)) = true := by
    intro p hp
    obtain ⟨k, hk, hplace⟩ := exists_of_mem_placedFrom hp
    have hlt := (List.getElem?_eq_some_iff.mp hk).1
    simp only [decide_eq_true_eq]
    omega
  rw [closing?, codeChars_eq_codeAfter, hread, List.dropWhile_append_of_pos hbefore,
    List.dropWhile_cons_of_neg (by simp), closingIn?, if_pos (by rfl), closingIn?_map_shift]
  rfl

theorem Calls.closingIn? {after body : List Char} (h : Calls after body) :
    GuestCode.closingIn? 1 (codeChars after) = some body.length ∧
      wrapperTail.Takes (after.drop (body.length + 1)) ∧ after.take body.length = body := by
  obtain @⟨body, ending, closer, closes, inCode, balanced, called⟩ := h
  have hcloser := not_mem_openers_of_isMark (isMark_of_isClosing closes)
  have hslash : '/' ∉ ending := fun hmem =>
    not_mem_of_takesNone wrapperTail (by decide : wrapperTail.takesNone ['/'] = true) called _ hmem
      (.head _)
  obtain ⟨back, hcode⟩ := exists_codeChars_front hcloser inCode (.inr hslash)
  have hclosing := closingIn?_of_nestingAfter? balanced (⟨body.length, closer⟩ :: back)
  have hopening := Bool.eq_false_iff.mp (isOpening_of_isClosing closes)
  rw [← hcode, GuestCode.closingIn?, if_neg hopening, if_pos closes,
    if_pos (by decide)] at hclosing
  refine ⟨hclosing, ?_, List.take_left⟩
  rwa [List.drop_length_add_append]

theorem calls_of_closingIn? {after : List Char} {close : Nat}
    (h : closingIn? 1 (codeChars after) = some close)
    (htail : wrapperTail.Takes (after.drop (close + 1))) : Calls after (after.take close) := by
  obtain ⟨front, mark, back, hcode, hbalanced, hcloses, rfl⟩ := exists_of_closingIn? 0 h
  have hmem : mark ∈ codeChars after := hcode ▸ List.mem_append_right front (.head back)
  have hlength : (after.take mark.place).length = mark.place :=
    List.length_take_of_le (Nat.le_of_lt (place_lt_of_mem_codeChars hmem))
  have hafter : after = after.take mark.place ++ mark.char :: after.drop (mark.place + 1) := by
    rw [← drop_of_mem_codeChars hmem, List.take_append_drop]
  have hmark := not_mem_openers_of_isMark (isMark_of_isClosing hcloses)
  generalize after.take mark.place = body at hlength hafter ⊢
  generalize after.drop (mark.place + 1) = ending at htail hafter
  subst hafter
  have hin : isCodeAt (Region.ofSource (body ++ mark.char :: ending)) body.length = true :=
    isCodeAt_append_iff.mpr (hlength ▸ hmem)
  refine .mk hcloses (isCodeAt_front hmark hin List.not_mem_nil) ?_ htail
  -- The code before the bracket is the code of the body, as there is one bracket at its place.
  obtain ⟨back', hcode'⟩ := exists_codeChars_front hmark hin (.inl rfl)
  have hfront : mark ∉ front := by
    have hordered := pairwise_codeChars (body ++ mark.char :: ending)
    rw [hcode] at hordered
    exact fun hp => Nat.lt_irrefl _ ((List.pairwise_append.mp hordered).2.2 _ hp _ (.head _))
  have hbody : mark ∉ codeChars body := fun hp =>
    Nat.lt_irrefl _ (hlength ▸ place_lt_of_mem_codeChars hp)
  rw [hcode, hlength] at hcode'
  rw [Balanced, codeText, ← (append_cons_inj hfront hbody hcode').1]
  exact hbalanced

/-- The brace that a start ends with is found, as it is the only one. -/
theorem exists_matchAt?_wrapperHead {opening : List Char} (h : wrapperHead.Takes opening)
    (after : List Char) :
    ∃ m, wrapperHead.matchAt? (.ofText (opening ++ after)) = some m ∧ m.stop = opening.length := by
  obtain ⟨q, hq, -⟩ := exists_mem_ends_of_takes (by decide : wrapperHead.isPlain = true) h
    (p := .ofText (opening ++ after)) rfl
  obtain ⟨m, hm⟩ := Option.ne_none_iff_exists'.mp (matchAt?_ne_none hq)
  refine ⟨m, hm, ?_⟩
  obtain ⟨htakes, htext, hstart⟩ := exists_of_matchAt? hm
  obtain ⟨front, rfl, hfront⟩ := exists_of_takes_wrapperHead h
  obtain ⟨front', htext', hfront'⟩ := exists_of_takes_wrapperHead htakes
  have hbrace : ∀ {front : List Char}, (∀ c ∈ front, c ∉ '\x7b' :: Segment.openers) →
      '\x7b' ∉ front := fun hfront hmem => hfront _ hmem (.head _)
  rw [Progress.ofText, htext', List.append_assoc, List.append_assoc] at htext
  rw [Found.stop, hstart, htext', (append_cons_inj (hbrace hfront) (hbrace hfront') htext).1]
  exact Nat.zero_add _

/-- What reducing a snippet to a body comes to behind the brace of the body. -/
theorem unwrapOnce?_of_matchAt? {source front after : List Char} {m : Found}
    (htext : trim source = front ++ '\x7b' :: after) (hfront : ∀ c ∈ front, c ∉ Segment.openers)
    (hm : wrapperHead.matchAt? (.ofText (trim source)) = some m)
    (hstop : m.stop = front.length + 1) (body : List Char) :
    unwrapOnce? source = some body ↔ ∃ close, closingIn? 1 (codeChars after) = some close ∧
      wrapperTail.Takes (after.drop (close + 1)) ∧ after.take close = body := by
  have hslice : ∀ k, Region.slice (trim source) m.stop (front.length + 1 + k) = after.take k := by
    intro k
    rw [htext, hstop, Region.slice, List.drop_length_add_append, Nat.add_sub_cancel_left]
    rfl
  have hdrop : ∀ k, (trim source).drop (front.length + 1 + k + 1) = after.drop (k + 1) := by
    intro k
    rw [htext, Nat.add_assoc, Nat.add_assoc, List.drop_length_add_append, Nat.add_comm 1,
      List.drop_succ_cons]
  have htail : ∀ {p : Progress}, (∃ tail, wrapperTail.matchAll? p = some tail) ↔
      wrapperTail.Takes p.rest := exists_matchAll?_iff (by decide)
  have hclosing : closing? (codeChars (trim source)) (m.stop - 1 : Nat) =
      (closingIn? 1 (codeChars after)).map (front.length + 1 + ·) := by
    rw [hstop, Nat.add_sub_cancel, htext, closing?_brace hfront]
  rw [unwrapOnce?, hm]
  dsimp only
  rw [hclosing]
  cases closingIn? 1 (codeChars after) with
  | none => simp
  | some close =>
    rw [Option.map_some]
    dsimp only
    rw [hslice]
    constructor
    · intro h
      split at h
      · cases h
      · next tail hmatch =>
        refine ⟨close, rfl, ?_, Option.some.inj h⟩
        rw [← hdrop]
        exact htail.mp ⟨tail, hmatch⟩
    · rintro ⟨_, heq, htakes, rfl⟩
      obtain rfl := Option.some.inj heq
      rw [← hdrop] at htakes
      obtain ⟨tail, hmatch⟩ :=
        (@htail ⟨(trim source)[front.length + 1 + close]?, _, front.length + 1 + close + 1, []⟩).mpr
          htakes
      rw [hmatch]

/-- Which snippets are reduced to a body. -/
theorem unwrapOnce?_eq_some_iff {source body : List Char} :
    unwrapOnce? source = some body ↔
      ∃ opening after, trim source = opening ++ after ∧ wrapperHead.Takes opening ∧
        Calls after body := by
  have hplain : ∀ {front : List Char}, (∀ c ∈ front, c ∉ '\x7b' :: Segment.openers) →
      ∀ c ∈ front, c ∉ Segment.openers := fun h c hc hmem => h c hc (.tail _ hmem)
  constructor
  · intro h
    obtain ⟨m, hm⟩ : ∃ m, wrapperHead.matchAt? (.ofText (trim source)) = some m := by
      rw [← Option.ne_none_iff_exists']
      intro hnone
      rw [unwrapOnce?, hnone] at h
      cases h
    obtain ⟨hopening, htext, hstart⟩ := exists_of_matchAt? hm
    obtain ⟨front, hbrace, hfront⟩ := exists_of_takes_wrapperHead hopening
    have htext' : trim source = front ++ '\x7b' :: m.after := by
      rw [List.append_cons, ← hbrace]
      exact htext
    have hstop : m.stop = front.length + 1 := by
      rw [Found.stop, hstart, hbrace, List.length_append]
      exact Nat.zero_add _
    obtain ⟨close, hclose, htail, rfl⟩ :=
      (unwrapOnce?_of_matchAt? htext' (hplain hfront) hm hstop body).mp h
    exact ⟨m.text, m.after, htext, hopening, calls_of_closingIn? hclose htail⟩
  · rintro ⟨opening, after, htext, hopening, hcalls⟩
    obtain ⟨m, hm, hstop⟩ := exists_matchAt?_wrapperHead hopening after
    obtain ⟨front, rfl, hfront⟩ := exists_of_takes_wrapperHead hopening
    rw [← htext] at hm
    rw [List.length_append, List.length_singleton] at hstop
    rw [List.append_assoc, List.singleton_append] at htext
    exact (unwrapOnce?_of_matchAt? htext (hplain hfront) hm hstop body).mpr
      ⟨_, hcalls.closingIn?⟩

/-! ## The function around a snippet -/

/-- The code of a text between two line ends, the second of which is code, and of some more. -/
theorem codeChars_lines {text more : List Char}
    (hend : isCodeAt (Region.ofSource (text ++ ['\n'])) text.length = true)
    (hmore : ∀ c ∈ more, c ∉ Segment.openers) :
    codeChars ('\n' :: (text ++ '\n' :: more)) = ⟨0, '\n'⟩ ::
      (codeChars text ++ placedFrom text.length ('\n' :: more)).map (Placed.shift 1) := by
  have hline : ∀ c ∈ ['\n'], isBlank c = true := by decide
  have hfirst := Reads.of_blank hline (rfl : Segment.Lookback.isFresh .start = true)
    (text ++ '\n' :: more) fun _ _ => rfl
  obtain ⟨last, hread⟩ := exists_codeAfter_front (isCodeAt_append_iff.mp hend)
  have hslash : '/' ∉ '\n' :: more := by
    intro hmem
    rcases List.mem_cons.mp hmem with heq | hmem
    · exact absurd heq (by decide)
    · exact hmore _ hmem (by decide)
  have hall : ∀ c ∈ '\n' :: more, c ∉ Segment.openers :=
    List.forall_mem_cons.mpr ⟨by decide, hmore⟩
  have hplain := Reads.of_plain hall last [] fun _ hc => nomatch hc
  rw [List.append_nil, codeAfter_nil, List.map_nil, List.append_nil] at hplain
  rw [hread more (.inr hslash), hplain, ← placedFrom_add, Nat.add_zero] at hfirst
  exact hfirst

theorem takes_wrapperTail : wrapperTail.Takes ")()".toList := by
  have htail : ∃ m, wrapperTail.matchAll? (.ofText ")()".toList) = some m := ⟨_, rfl⟩
  exact (exists_matchAll?_iff (by decide)).mp htail

/-- The body that is put around a snippet is called at once. -/
theorem calls_lines {text : List Char}
    (hend : isCodeAt (Region.ofSource (text ++ ['\n'])) text.length = true)
    (hbalanced : Balanced (codeText text)) :
    Calls ('\n' :: (text ++ ['\n']) ++ '\x7d' :: ")()".toList) ('\n' :: (text ++ ['\n'])) := by
  refine .mk (by decide) ?_ ?_ takes_wrapperTail
  · have hcode := codeChars_lines hend (by decide : ∀ c ∈ ['\x7d'], c ∉ Segment.openers)
    have hsource : '\n' :: (text ++ ['\n']) ++ ['\x7d'] = '\n' :: (text ++ '\n' :: ['\x7d']) := by
      simp
    rw [isCodeAt_append_iff, hsource, hcode]
    simp [placedFrom, Placed.shift]
    omega
  · have hcode := codeChars_lines hend (by decide : ∀ c ∈ [], c ∉ Segment.openers)
    rw [codeText, hcode, List.map_cons, map_char_shift, List.map_append, map_char_placedFrom]
    have hline : Balanced ['\n'] := by decide
    exact hline.append (hbalanced.append hline)

theorem unwrapOnce?_congr {source other : List Char} (h : trim source = trim other) :
    unwrapOnce? source = unwrapOnce? other := by
  rw [unwrapOnce?, unwrapOnce?, h]

/-- The function around a snippet is taken away again, if the snippet is closed at its end, its
brackets are balanced, and it is no function that is called at once itself. -/
theorem unwrap_entryPoint {code : String}
    (hend : isCodeAt (Region.ofSource (code.toList ++ ['\n'])) code.toList.length = true)
    (hbalanced : Balanced (codeText code.toList)) (honce : unwrapOnce? code.toList = none) :
    unwrap (entryPoint code).toList = '\n' :: (code.toList ++ ['\n']) := by
  have hsource : (entryPoint code).toList = "(async () => \x7b".toList ++
      ('\n' :: (code.toList ++ ['\n']) ++ '\x7d' :: ")()".toList) := by
    simp [entryPoint]
  have hhead : wrapperHead.Takes "(async () => \x7b".toList := by
    have hmatch : wrapperHead.matchAt? (.ofText "(async () => \x7b".toList) =
        some ⟨0, "(async () => \x7b".toList, [], []⟩ := by decide +kernel
    exact (exists_of_matchAt? hmatch).1
  have htrim : trim (entryPoint code).toList = (entryPoint code).toList := by
    have hends : (entryPoint code).toList = '(' :: ("async () => \x7b".toList ++
        ('\n' :: (code.toList ++ ['\n']) ++ '\x7d' :: ")(".toList) ++ [')']) := by
      simp [entryPoint]
    rw [hends, trim_between (by decide) (by decide)]
  have hfirst : unwrapOnce? (entryPoint code).toList = some ('\n' :: (code.toList ++ ['\n'])) :=
    unwrapOnce?_eq_some_iff.mpr
      ⟨_, _, htrim.trans hsource, hhead, calls_lines hend hbalanced⟩
  have hsecond : unwrapOnce? ('\n' :: (code.toList ++ ['\n'])) = none := by
    have hline : ∀ c ∈ ['\n'], isBlank c = true := by decide
    rw [← honce]
    exact unwrapOnce?_congr (trim_blank hline hline _)
  have hstart : ¬wrapperStart.toList.isPrefixOf (entryPoint code).toList = true := by
    have hlead : wrapperStart.toList = 'c' :: ("onst filesystem = ".toList ++ wrapperMark.toList) :=
      String.toList_append
    have hparenthesis : "(async () => \x7b".toList = '(' :: "async () => \x7b".toList := by
      decide +kernel
    rw [hsource, hlead, hparenthesis, List.cons_append, List.isPrefixOf]
    exact Bool.false_ne_true
  obtain ⟨n, hlength⟩ : ∃ n, (entryPoint code).toList.length = n + 2 := by
    rw [hsource]
    simp
  rw [unwrap, if_neg hstart, hlength, unwrapUpTo, hfirst]
  dsimp only
  rw [unwrapUpTo, hsecond]

theorem unwrap_entryPoint_quoted :
    unwrap (entryPoint "return \"\x7d\";").toList =
      '\n' :: ("return \"\x7d\";".toList ++ ['\n']) := by
  have hread : codeOfKnown 11 .start 0 "return \"\x7d\";".toList =
      some (placedFrom 0 "return ".toList ++ [⟨10, ';'⟩], .mark ';') := by
    decide +kernel
  have hend : isCodeAt (Region.ofSource ("return \"\x7d\";".toList ++ ['\n']))
      "return \"\x7d\";".toList.length = true := by
    rw [isCodeAt_append_iff, codeChars_eq_codeAfter, Reads.of_known hread _ fun _ _ => rfl,
      codeAfter_of_none (Segment.token?_eq_none (by decide) _ _)]
    decide +kernel
  have hbalanced : Balanced (codeText "return \"\x7d\";".toList) := by
    rw [codeText, codeChars_eq_codeAfter, ← (Reads.of_known hread).eq_codeAfter]
    decide +kernel
  exact unwrap_entryPoint hend hbalanced (by decide +kernel)

/-! ## The name of the function -/

/-- A function with a name, up to its body. -/
def namedFunction (name : List Char) : Pattern :=
  all [lit "function", someBlanks, all (name.map exactly), blanks, lit "(", blanks, lit ")"]

/-- The start of a function with a name that is called at once, up to the brace of its body. -/
def namedHead (name : List Char) : Pattern :=
  all [opt (.seq (words ["await", "return"]) someBlanks), lit "(", blanks,
    opt (.seq (lit "async") blanks), namedFunction name, blanks, lit "\x7b"]

/-- Whether a text may be the name of a function. -/
def IsName (name : List Char) : Prop := name ≠ [] ∧ ∀ c ∈ name, isNameChar c = true

/-- Whether a name stands in a text as a word of its own that starts in code. -/
def Mentions (text name : List Char) : Prop :=
  ∃ before after, text = before ++ (name ++ after) ∧
    isCodeAt (Region.ofSource text) before.length = true ∧
    before.getLast?.any isNameChar = false ∧ after.head?.any isNameChar = false

/-- Whether reducing a snippet to its body takes away a name that the body uses. -/
def LosesName (source : List Char) : Prop :=
  ∃ body opening after name, unwrapOnce? source = some body ∧ trim source = opening ++ after ∧
    IsName name ∧ (namedHead name).Takes opening ∧ Mentions body name

/-- Patterns one after the other take more if each of them does. -/
theorem takes_all_mono {patterns others : List Pattern}
    (h : List.Forall₂ (fun p q => ∀ w, p.Takes w → q.Takes w) patterns others) {w : List Char}
    (hw : (all patterns).Takes w) : (all others).Takes w := by
  induction h generalizing w with
  | nil => exact hw
  | cons hfirst _ ih =>
    obtain ⟨u, v, rfl, hu, hv⟩ := takes_all_cons.mp hw
    exact takes_all_cons.mpr ⟨u, v, rfl, hfirst u hu, ih hv⟩

/-- A start with a name is a start of a function that is called at once. -/
theorem takes_wrapperHead_of_namedHead {name opening : List Char} (hname : IsName name)
    (h : (namedHead name).Takes opening) : wrapperHead.Takes opening := by
  have hblanks : ∀ w, someBlanks.Takes w → blanks.Takes w := fun w hw =>
    takes_many_char.mpr (takes_plus_char.mp hw).2
  have hchars : ∀ w, (all (name.map exactly)).Takes w → nameChars.Takes w := fun w hw =>
    takes_many_char.mpr (takes_all_exactly.mp hw ▸ hname.2)
  have hsame : ∀ p : Pattern, ∀ w, p.Takes w → p.Takes w := fun _ _ => id
  have hfunction : ∀ w, (namedFunction name).Takes w →
      (Pattern.either (all [lit "(", blanks, lit ")", blanks, lit "=>"])
        (all [lit "function", blanks, nameChars, blanks, lit "(", blanks, lit ")"])).Takes w :=
    fun w hw => Or.inr (takes_all_mono (.cons (hsame _) (.cons hblanks (.cons hchars
      (.cons (hsame _) (.cons (hsame _) (.cons (hsame _) (.cons (hsame _) .nil))))))) hw)
  exact takes_all_mono (.cons (hsame _) (.cons (hsame _) (.cons (hsame _) (.cons (hsame _)
    (.cons hfunction (.cons (hsame _) (.cons (hsame _) .nil))))))) h

/-- A start with a name ends with its only brace. -/
theorem exists_of_takes_namedHead {name opening : List Char} (hname : IsName name)
    (h : (namedHead name).Takes opening) :
    ∃ front, opening = front ++ ['\x7b'] ∧ '\x7b' ∉ front := by
  obtain ⟨front, hopening, hfront⟩ :=
    exists_of_takes_wrapperHead (takes_wrapperHead_of_namedHead hname h)
  exact ⟨front, hopening, fun hmem => hfront _ hmem (.head _)⟩

/-- A name that the body uses is lost whenever there is one: nothing keeps the function then. -/
theorem losesName_iff {source : List Char} :
    LosesName source ↔ ∃ opening after body name, trim source = opening ++ after ∧ IsName name ∧
      (namedHead name).Takes opening ∧ Calls after body ∧ Mentions body name := by
  constructor
  · rintro ⟨body, opening, after, name, hbody, htext, hname, hhead, hmentions⟩
    refine ⟨opening, after, body, name, htext, hname, hhead, ?_, hmentions⟩
    -- The function that is taken away starts with the same brace.
    obtain ⟨opening', after', htext', hhead', hcalls⟩ := unwrapOnce?_eq_some_iff.mp hbody
    obtain ⟨front, rfl, hfront⟩ := exists_of_takes_namedHead hname hhead
    obtain ⟨front', rfl, hfront'⟩ := exists_of_takes_wrapperHead hhead'
    have hbrace : '\x7b' ∉ front' := fun hmem => hfront' _ hmem (.head _)
    rw [htext, List.append_assoc, List.append_assoc] at htext'
    have hafter : after = after' := (append_cons_inj hfront hbrace htext').2
    exact hafter ▸ hcalls
  · rintro ⟨opening, after, body, name, htext, hname, hhead, hcalls, hmentions⟩
    have hopening := takes_wrapperHead_of_namedHead hname hhead
    exact ⟨body, opening, after, name,
      unwrapOnce?_eq_some_iff.mpr ⟨opening, after, htext, hopening, hcalls⟩, htext, hname, hhead,
      hmentions⟩

/-- A text without quotes and slashes is all code. -/
theorem codeChars_of_plain {text : List Char} (h : ∀ c ∈ text, c ∉ Segment.openers) :
    codeChars text = placedFrom 0 text :=
  (Reads.of_plain h .start).eq_codeAfter.symm

/-- A function that returns itself loses the name that it returns. -/
theorem losesName_returned : LosesName "(function f() \x7b return f; \x7d)()".toList := by
  have htext : trim "(function f() \x7b return f; \x7d)()".toList =
      "(function f() \x7b".toList ++ (" return f; ".toList ++ '\x7d' :: ")()".toList) := by
    decide +kernel
  have hname : IsName ['f'] := ⟨by decide, by decide +kernel⟩
  have hhead : (namedHead ['f']).Takes "(function f() \x7b".toList := by
    have hmatch : (namedHead ['f']).matchAt? (.ofText "(function f() \x7b".toList) =
        some ⟨0, "(function f() \x7b".toList, [], []⟩ := by decide +kernel
    exact (exists_of_matchAt? hmatch).1
  have hcalls : Calls (" return f; ".toList ++ '\x7d' :: ")()".toList) " return f; ".toList := by
    refine .mk (by decide) ?_ ?_ takes_wrapperTail
    · rw [isCodeAt_append_iff, codeChars_of_plain (by decide)]
      decide
    · rw [codeText, codeChars_of_plain (by decide)]
      decide
  have hmentions : Mentions " return f; ".toList ['f'] := by
    refine ⟨" return ".toList, "; ".toList, by decide, ?_, by decide +kernel, by decide +kernel⟩
    have hbody : " return f; ".toList = " return ".toList ++ 'f' :: "; ".toList := by decide
    rw [hbody, isCodeAt_append_iff, codeChars_of_plain (by decide)]
    decide
  exact ⟨_, _, _, _, unwrapOnce?_eq_some_iff.mpr
      ⟨_, _, htext, takes_wrapperHead_of_namedHead hname hhead, hcalls⟩,
    htext, hname, hhead, hmentions⟩

end GuestCode.Rewrite
