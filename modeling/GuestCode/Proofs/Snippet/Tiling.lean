import GuestCode.Proofs.Snippet.Tokens

/-!
# Regions tile a snippet

Whatever a snippet looks like, and be it broken off in the middle of a token, its regions lie side
by side from its start to its end, and none of them is empty. Code that is not divided by a comment
or a literal is one region. In the redacted view every region keeps its line ends, so code stays on
the line that it has in the snippet.

## Main statements

* `Region.tiles_ofSource`: the regions of a snippet tile it.
* `Region.flatMap_text_of_tiles`: regions that tile a range hold its text.
* `Region.ofSource_tiling`: all of this together, with the lines of the redacted view.
-/

namespace GuestCode

/-! ## Segments -/

namespace Segment

/-- A comment or a literal is no code. -/
theorem kind_ne_code_of_token? {look : Lookback} {c : Char} {cs rest : List Char} {kind : Kind}
    (h : token? look c cs = some (kind, rest)) : kind ≠ .code := by
  rintro rfl
  -- Every token that is found has one of the other kinds.
  unfold token? at h
  split_ifs at h
  all_goals simp at h

theorem text_ne_nil_of_mem_consCode {c : Char} {segments : List Segment}
    (h : ∀ s ∈ segments, s.text ≠ []) : ∀ s ∈ consCode c segments, s.text ≠ [] := by
  unfold consCode
  split
  · exact List.forall_mem_cons.mpr ⟨by simp, (List.forall_mem_cons.mp h).2⟩
  · exact List.forall_mem_cons.mpr ⟨by simp, h⟩

/-- No segment is empty, not even one that is broken off by the end of the snippet. -/
theorem text_ne_nil_of_mem_splitAfter (look : Lookback) (text : List Char) :
    ∀ s ∈ splitAfter look text, s.text ≠ [] := by
  fun_induction splitAfter look text with
  | case1 => simp
  | case2 look c cs kind rest h _ ih => exact List.forall_mem_cons.mpr ⟨by simp, ih⟩
  | case3 look c cs h ih => exact text_ne_nil_of_mem_consCode ih

/-- Two segments of which one at least is no code. -/
def Divided (s next : Segment) : Prop := ¬ (s.kind = .code ∧ next.kind = .code)

/-- A character of code joins the code that it stands before. -/
theorem isChain_consCode {c : Char} {segments : List Segment} (h : segments.IsChain Divided) :
    (consCode c segments).IsChain Divided := by
  unfold consCode
  split
  · next text rest =>
    -- Only the text of the first segment has changed, and what is divided depends on kinds.
    cases rest with
    | nil => exact List.isChain_singleton _
    | cons next others =>
      obtain ⟨hfirst, hothers⟩ := List.isChain_cons_cons.mp h
      exact List.isChain_cons_cons.mpr ⟨hfirst, hothers⟩
  · next hother =>
    refine List.isChain_cons.mpr ⟨?_, h⟩
    -- Had the next segment been code, the character would have joined it.
    rintro ⟨kind, text⟩ hnext ⟨-, hkind⟩
    cases segments with
    | nil => cases hnext
    | cons s rest =>
      cases hnext
      obtain rfl : kind = .code := hkind
      exact hother text rest rfl

/-- Code that nothing divides is one segment. -/
theorem isChain_splitAfter (look : Lookback) (text : List Char) :
    (splitAfter look text).IsChain Divided := by
  fun_induction splitAfter look text with
  | case1 => exact List.isChain_nil
  | case2 look c cs kind rest h _ ih =>
    refine List.isChain_cons.mpr ⟨?_, ih⟩
    rintro next - ⟨hkind, -⟩
    exact kind_ne_code_of_token? h hkind
  | case3 look c cs h ih => exact isChain_consCode ih

/-- A segment keeps its line ends when it is redacted. -/
theorem count_redacted (s : Segment) : s.redacted.count '\n' = s.text.count '\n' := by
  unfold redacted
  split
  · rfl
  · -- The mark that stands for a comment or a literal has no line end of its own.
    have hmark : (if s.kind.isComment then [' '] else ['"', '"']).count '\n' = 0 := by
      split <;> decide
    rw [List.count_append, hmark, List.count_replicate_self, Nat.zero_add]

end Segment

namespace Region

/-! ## Tilings -/

/-- Regions that lie side by side between two places, and of which none is empty. -/
inductive Tiles : Nat → List Region → Nat → Prop where
  | done (place : Nat) : Tiles place [] place
  | region {r : Region} {rest : List Region} {stop : Nat} (nonempty : r.start < r.stop)
      (others : Tiles r.stop rest stop) : Tiles r.start (r :: rest) stop

namespace Tiles

variable {start stop : Nat}

theorem le {regions : List Region} (h : Tiles start regions stop) : start ≤ stop := by
  induction h with
  | done => exact Nat.le_refl _
  | region nonempty _ ih => omega

theorem eq_nil_iff {regions : List Region} (h : Tiles start regions stop) :
    regions = [] ↔ start = stop := by
  cases h with
  | done => simp
  | region nonempty others =>
    have hle := others.le
    simp only [reduceCtorEq, false_iff]
    omega

/-- A tiling can be divided between any two of its regions. -/
theorem exists_of_append {before after : List Region} (h : Tiles start (before ++ after) stop) :
    ∃ middle, Tiles start before middle ∧ Tiles middle after stop := by
  induction before generalizing start with
  | nil => exact ⟨start, .done start, h⟩
  | cons r rest ih =>
    cases h with
    | region nonempty others =>
      obtain ⟨middle, hrest, hafter⟩ := ih others
      exact ⟨middle, .region nonempty hrest, hafter⟩

end Tiles

@[simp] theorem slice_self (source : List Char) (place : Nat) : slice source place place = [] := by
  rw [slice, Nat.sub_self, List.take_zero]

theorem slice_append_slice {source : List Char} {start middle stop : Nat} (hstart : start ≤ middle)
    (hstop : middle ≤ stop) :
    slice source start middle ++ slice source middle stop = slice source start stop := by
  have hmiddle : source.drop middle = (source.drop start).drop (middle - start) := by
    rw [List.drop_drop, Nat.add_sub_cancel' hstart]
  have hlength : stop - start = (middle - start) + (stop - middle) := by omega
  unfold slice
  rw [hmiddle, hlength, List.take_add]

/-- Regions that tile a range hold the text of it. -/
theorem flatMap_text_of_tiles (source : List Char) {start stop : Nat} {regions : List Region}
    (h : Tiles start regions stop) : regions.flatMap (text source) = slice source start stop := by
  induction h with
  | done place => simp [slice]
  | region nonempty others ih =>
    rw [List.flatMap_cons, ih, text]
    exact slice_append_slice (Nat.le_of_lt nonempty) others.le

/-- The regions of segments that are not empty lie side by side. -/
theorem tiles_ofSegments {segments : List Segment} (h : ∀ s ∈ segments, s.text ≠ [])
    (start : Nat) :
    Tiles start (ofSegments start segments)
      (start + (segments.flatMap Segment.text).length) := by
  induction segments generalizing start with
  | nil => exact .done start
  | cons s rest ih =>
    obtain ⟨hs, hrest⟩ := List.forall_mem_cons.mp h
    have hlength : 0 < s.text.length := List.length_pos_of_ne_nil hs
    have hothers := ih hrest (start + s.text.length)
    rw [Nat.add_assoc, ← List.length_append, ← List.flatMap_cons] at hothers
    exact .region (r := ⟨s.kind, start, start + s.text.length⟩) (by simpa using hlength) hothers

/-- The regions of a snippet lie side by side from its start to its end. -/
theorem tiles_ofSource (source : List Char) : Tiles 0 (ofSource source) source.length := by
  have htiles := tiles_ofSegments (Segment.text_ne_nil_of_mem_splitAfter .start source) 0
  rwa [Segment.flatMap_text_splitAfter, Nat.zero_add] at htiles

theorem map_kind_ofSegments (start : Nat) (segments : List Segment) :
    (ofSegments start segments).map Region.kind = segments.map Segment.kind := by
  induction segments generalizing start with
  | nil => rfl
  | cons s rest ih => rw [ofSegments, List.map_cons, List.map_cons, ih]

/-- Of two neighbouring regions at most one is code. -/
theorem isChain_ofSource (source : List Char) :
    (ofSource source).IsChain fun r next => ¬ (r.kind = .code ∧ next.kind = .code) := by
  have hdivided : ((Segment.split source).map Segment.kind).IsChain
      fun kind next => ¬ (kind = .code ∧ next = .code) :=
    (List.isChain_map _).mpr (Segment.isChain_splitAfter .start source)
  rw [← map_kind_ofSegments 0] at hdivided
  exact (List.isChain_map _).mp hdivided

/-! ## The redacted view, region by region -/

/-- What a region leaves in the redacted view. -/
def redacted (source : List Char) (r : Region) : List Char :=
  Segment.redacted ⟨r.kind, r.text source⟩

theorem redacted_eq_text (source : List Char) {r : Region} (h : r.kind = .code) :
    r.redacted source = r.text source := by
  simp [redacted, Segment.redacted, h]

theorem redact_eq_flatMap (source : List Char) :
    redact source = (ofSource source).flatMap (redacted source) := by
  have hsegments := map_ofSegments (Segment.split source) []
  rw [List.nil_append, Segment.flatMap_split] at hsegments
  -- Redaction goes segment by segment, and the segments are the regions with their texts.
  conv_lhs => rw [redact, ← hsegments]
  rw [List.flatMap_map]
  rfl

theorem countLineEnds_flatMap_redacted (source : List Char) (regions : List Region) :
    countLineEnds (regions.flatMap (redacted source)) =
      countLineEnds (regions.flatMap (text source)) := by
  induction regions with
  | nil => rfl
  | cons r rest ih =>
    simp only [countLineEnds, List.flatMap_cons, List.count_append] at ih ⊢
    rw [ih, redacted, Segment.count_redacted]

/-- The regions of any snippet are not empty and lie side by side from its start to its end; there
is none only if the snippet is empty, and no two neighbours are both code. The redacted view is
made of what each region leaves: code is copied, and has as many line ends before it as in the
snippet. -/
theorem ofSource_tiling (source : List Char) :
    Tiles 0 (ofSource source) source.length ∧
      (ofSource source = [] ↔ source = []) ∧
      ((ofSource source).IsChain fun r next => ¬ (r.kind = .code ∧ next.kind = .code)) ∧
      ∀ before region after, ofSource source = before ++ region :: after → region.kind = .code →
        redact source =
          before.flatMap (redacted source) ++ region.text source ++
            after.flatMap (redacted source) ∧
        countLineEnds (before.flatMap (redacted source)) =
          countLineEnds (source.take region.start) := by
  have htiles := tiles_ofSource source
  refine ⟨htiles, ?_, isChain_ofSource source, fun before region after h hcode => ⟨?_, ?_⟩⟩
  · rw [htiles.eq_nil_iff, eq_comm, List.length_eq_zero_iff]
  · rw [redact_eq_flatMap, h, List.flatMap_append, List.flatMap_cons,
      redacted_eq_text source hcode, List.append_assoc]
  · -- The regions before it hold all of the text that stands before it.
    rw [h] at htiles
    obtain ⟨middle, hbefore, hfrom⟩ := htiles.exists_of_append
    cases hfrom with
    | region =>
      have htext := flatMap_text_of_tiles source hbefore
      rw [countLineEnds_flatMap_redacted, htext]
      simp [slice]

/-- A string that its line breaks off, a division, and a template that the snippet breaks off. -/
example : ofSource "'a\n/b\x60$\x7b".toList =
    [⟨.string, 0, 2⟩, ⟨.code, 2, 5⟩, ⟨.template, 5, 8⟩] := by decide +kernel

end Region

end GuestCode
