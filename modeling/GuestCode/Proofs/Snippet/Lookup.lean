import GuestCode.Proofs.Snippet.CodeRuns

/-!
# Looking up places

The regions of a snippet lie side by side, so a place in the snippet is in exactly one of them, and
bisection finds it. Each character has the kind of the region that it is in.

## Main statements

* `Region.regionBetween?_of_tiles`: bisection finds the region that holds an index.
* `Region.regionAt?_eq_some_iff`: the region at an index is the one that holds it.
* `inCode_iff_isCodeAt`: what counts as code by place is what is in code.
* `exists_edge`: a text in which nothing opens is code from an edge on, if it ends in code.
* `kinded`: the characters of a snippet with their kinds.
-/

namespace GuestCode

namespace Region

/-! ## Places in a tiling -/

namespace Tiles

variable {start stop : Nat} {regions : List Region} {r next : Region}

/-- Every region of a tiling is inside it, and none is empty. -/
theorem bounds_of_mem (h : Tiles start regions stop) (hr : r ∈ regions) :
    start ≤ r.start ∧ r.start < r.stop ∧ r.stop ≤ stop := by
  induction h with
  | done => cases hr
  | region nonempty others ih =>
    rcases List.mem_cons.mp hr with rfl | hr
    · exact ⟨Nat.le_refl _, nonempty, others.le⟩
    · obtain ⟨hstart, hlt, hstop⟩ := ih hr
      exact ⟨Nat.le_of_lt (Nat.lt_of_lt_of_le nonempty hstart), hlt, hstop⟩

/-- The regions of a tiling come from left to right. -/
theorem pairwise (h : Tiles start regions stop) :
    regions.Pairwise fun r next => r.stop ≤ next.start := by
  induction h with
  | done => exact .nil
  | region _ others ih =>
    exact List.pairwise_cons.mpr ⟨fun next hnext => (others.bounds_of_mem hnext).1, ih⟩

/-- Every place of a tiled range is in a region. -/
theorem exists_mem (h : Tiles start regions stop) {place : Nat} (hlow : start ≤ place)
    (hhigh : place < stop) : ∃ r ∈ regions, r.start ≤ place ∧ place < r.stop := by
  induction h with
  | done => omega
  | @region r rest stop nonempty others ih =>
    by_cases hplace : place < r.stop
    · exact ⟨r, .head _, hlow, hplace⟩
    · obtain ⟨next, hnext, hin⟩ := ih (Nat.le_of_not_lt hplace) hhigh
      exact ⟨next, .tail _ hnext, hin⟩

end Tiles

/-! ## Bisection -/

/-- Bisection finds the region that holds an index, if its number is in the range that is looked
through. -/
theorem regionBetween?_of_tiles {regions : Array Region} {start stop low high k : Nat}
    {index : Int} {r : Region} (h : Tiles start regions.toList stop) (hk : regions[k]? = some r)
    (hlow : low ≤ k) (hhigh : k < high) (hsize : high ≤ regions.size) (hstart : r.start ≤ index)
    (hstop : index < r.stop) : regionBetween? regions index low high = some r := by
  have hordered : ∀ {i j : Nat} {s t : Region}, regions[i]? = some s → regions[j]? = some t →
      i < j → s.start < s.stop ∧ s.stop ≤ t.start ∧ t.start < t.stop := by
    intro i j s t hi hj hlt
    obtain ⟨hi', rfl⟩ := Array.getElem?_eq_some_iff.mp hi
    obtain ⟨hj', rfl⟩ := Array.getElem?_eq_some_iff.mp hj
    exact ⟨(h.bounds_of_mem (Array.getElem_mem_toList hi')).2.1,
      List.pairwise_iff_getElem.mp h.pairwise i j hi' hj' hlt,
      (h.bounds_of_mem (Array.getElem_mem_toList hj')).2.1⟩
  fun_induction regionBetween? regions index low high with
  | case1 low high hlt middle hnone =>
    have hmiddle := Array.getElem?_eq_none_iff.mp hnone
    omega
  | case2 low high hlt middle region hmiddle hbefore ih =>
    -- The index is before the region in the middle, so its own region is.
    refine ih hlow ?_ (by omega)
    refine Nat.lt_of_not_le fun hle => ?_
    rcases Nat.eq_or_lt_of_le hle with heq | hlt
    · rw [← heq, hmiddle] at hk
      obtain rfl := Option.some.inj hk
      omega
    · have hbounds := hordered hmiddle hk hlt
      omega
  | case3 low high hlt middle region hmiddle hbefore hafter ih =>
    -- The index is behind the region in the middle.
    refine ih ?_ hhigh hsize
    refine Nat.lt_of_not_le fun hle => ?_
    rcases Nat.eq_or_lt_of_le hle with heq | hlt
    · rw [heq, hmiddle] at hk
      obtain rfl := Option.some.inj hk
      omega
    · have hbounds := hordered hk hmiddle hlt
      omega
  | case4 low high hlt middle region hmiddle hbefore hafter =>
    -- The region in the middle holds the index, and no other one does.
    rcases Nat.lt_trichotomy middle k with hlt | heq | hlt
    · have hbounds := hordered hmiddle hk hlt
      omega
    · rw [heq] at hmiddle
      exact hmiddle.symm.trans hk
    · have hbounds := hordered hk hmiddle hlt
      omega
  | case5 low high hlt => omega

/-- The region at an index is the one that holds it. -/
theorem regionAt?_eq_some_iff {source : List Char} {index : Int} {r : Region} :
    regionAt? (ofSource source) index = some r ↔
      r ∈ ofSource source ∧ r.start ≤ index ∧ index < r.stop := by
  constructor
  · intro h
    obtain ⟨hmem, hin⟩ := regionBetween?_spec h
    exact ⟨List.mem_toArray.mp hmem, hin⟩
  · rintro ⟨hmem, hstart, hstop⟩
    obtain ⟨k, hk, hget⟩ := List.mem_iff_getElem.mp hmem
    have hk' : (ofSource source).toArray[k]? = some r := by
      rw [List.getElem?_toArray, List.getElem?_eq_getElem hk, hget]
    exact regionBetween?_of_tiles (tiles_ofSource source) hk' (Nat.zero_le k) hk
      (Nat.le_refl _) hstart hstop

/-- A place counts as code if it is in a region of code. -/
theorem isCodeAt_iff {source : List Char} {index : Int} :
    isCodeAt (ofSource source) index = true ↔
      ∃ r ∈ ofSource source, r.kind = .code ∧ r.start ≤ index ∧ index < r.stop := by
  rw [isCodeAt]
  constructor
  · intro h
    split at h
    · next r hr =>
      obtain ⟨hmem, hin⟩ := regionAt?_eq_some_iff.mp hr
      exact ⟨r, hmem, beq_iff_eq.mp h, hin⟩
    · cases h
  · rintro ⟨r, hmem, hkind, hin⟩
    rw [regionAt?_eq_some_iff.mpr ⟨hmem, hin⟩]
    exact beq_iff_eq.mpr hkind

theorem isCodeAt_natCast_iff {source : List Char} {place : Nat} :
    isCodeAt (ofSource source) place = true ↔
      ∃ r ∈ ofSource source, r.kind = .code ∧ r.start ≤ place ∧ place < r.stop := by
  rw [isCodeAt_iff]
  simp only [Int.ofNat_le, Int.ofNat_lt]

theorem ofSegments_append (start : Nat) (front back : List Segment) :
    ofSegments start (front ++ back) = ofSegments start front ++
      ofSegments (start + (front.flatMap Segment.text).length) back := by
  induction front generalizing start with
  | nil => rfl
  | cons s front ih =>
    rw [List.cons_append, ofSegments, ofSegments, ih, List.flatMap_cons, List.length_append,
      Nat.add_assoc, List.cons_append]

end Region

open Region

/-- A place is in code if it counts as code. -/
theorem inCode_iff_isCodeAt {source : List Char} {place : Nat} :
    InCode source place ↔ isCodeAt (ofSource source) place = true := by
  refine ⟨?_, inCode_of_isCodeAt⟩
  rintro ⟨front, s, back, hsplit, hcode, hlow, hhigh⟩
  refine isCodeAt_natCast_iff.mpr ⟨⟨s.kind, (front.flatMap Segment.text).length,
    (front.flatMap Segment.text).length + s.text.length⟩, ?_, hcode, hlow, hhigh⟩
  rw [ofSource, hsplit, ofSegments_append, Nat.zero_add]
  exact List.mem_append_right _ (.head _)

/-! ## Runs of places -/

/-- No place is in two regions. -/
theorem Region.eq_of_holds {source : List Char} {place : Nat} {r next : Region}
    (hr : r ∈ ofSource source) (hnext : next ∈ ofSource source)
    (hin : r.start ≤ place ∧ place < r.stop) (hin' : next.start ≤ place ∧ place < next.stop) :
    r = next := by
  have hfirst := @regionAt?_eq_some_iff source place r
  have hsecond := @regionAt?_eq_some_iff source place next
  simp only [Int.ofNat_le, Int.ofNat_lt] at hfirst hsecond
  exact Option.some.inj ((hfirst.mpr ⟨hr, hin⟩).symm.trans (hsecond.mpr ⟨hnext, hin'⟩))

/-- A region that is no code starts with a quote or a slash. -/
theorem Region.exists_opener {source : List Char} {r : Region} (hr : r ∈ ofSource source)
    (hkind : r.kind ≠ .code) : ∃ c ∈ Segment.openers, source[r.start]? = some c := by
  obtain ⟨front, s, back, hsplit, hs, hstart, -⟩ := exists_segment_of_mem_ofSegments hr
  have hmem : s ∈ Segment.splitAfter .start source := by
    rw [← Segment.split, hsplit]
    simp
  obtain ⟨c, cs, htext, hc⟩ := Segment.exists_opener hmem (hs ▸ hkind)
  refine ⟨c, hc, ?_⟩
  rw [hstart, Nat.zero_add, ← Segment.flatMap_split source, hsplit, List.flatMap_append,
    List.getElem?_append_right (Nat.le_refl _), Nat.sub_self, List.flatMap_cons, htext]
  rfl

/-- All places of a range are in code. -/
def AllCode (source : List Char) (start stop : Nat) : Prop :=
  ∀ place, start ≤ place → place < stop → isCodeAt (ofSource source) place = true

/-- A text without quotes and slashes from a place in code on is all code. -/
theorem InCode.allCode {source w rest : List Char} {start : Nat} (h : InCode source start)
    (hw : source.drop start = w ++ rest) (hopen : ∀ c ∈ w, c ∉ Segment.openers) :
    AllCode source start (start + w.length) := by
  obtain ⟨front, s, back, hs⟩ := h
  obtain ⟨u, v, htext, hstart⟩ := hs.exists_text_eq hw hopen
  have hlength : s.text.length = u.length + w.length + v.length := by
    rw [htext, List.length_append, List.length_append]
  intro place hlow hhigh
  exact inCode_iff_isCodeAt.mp ⟨front, s, back, hs.split, hs.code, by omega, by omega⟩

/-- A text without quotes and slashes that ends in code is code from an edge on: from its start, or
from the end of a region that started before it. -/
theorem exists_edge {source w rest : List Char} {start last : Nat}
    (hw : source.drop start = w ++ rest) (hopen : ∀ c ∈ w, c ∉ Segment.openers)
    (hlast : start + w.length = last + 1) (hle : start ≤ last)
    (hcode : isCodeAt (ofSource source) last = true) :
    ∃ edge, start ≤ edge ∧ edge ≤ last ∧ AllCode source edge (last + 1) ∧
      (start < edge → ∃ r ∈ ofSource source, r.kind ≠ .code ∧ r.start < start ∧ r.stop = edge) := by
  have hplain : ∀ {place : Nat} {c : Char}, start ≤ place → place ≤ last →
      source[place]? = some c → c ∉ Segment.openers := by
    intro place c hlow hhigh hc
    rw [← Nat.add_sub_cancel' hlow, ← List.getElem?_drop, hw,
      List.getElem?_append_left (by omega)] at hc
    exact hopen c (List.mem_of_getElem? hc)
  have hfrom : ∀ {edge : Nat}, start ≤ edge → edge ≤ last →
      isCodeAt (ofSource source) edge = true → AllCode source edge (last + 1) := by
    intro edge hlow hhigh hedge
    have hdrop : source.drop edge = w.drop (edge - start) ++ rest := by
      rw [← List.drop_append_of_le_length (by omega), ← hw, List.drop_drop,
        Nat.add_sub_cancel' hlow]
    have hall := (inCode_iff_isCodeAt.mpr hedge).allCode hdrop
      fun c hc => hopen c (List.mem_of_mem_drop hc)
    rwa [List.length_drop, show edge + (w.length - (edge - start)) = last + 1 by omega] at hall
  obtain ⟨code, hmem, hkind, hin⟩ := isCodeAt_natCast_iff.mp hcode
  have htiles := tiles_ofSource source
  have hlength := (htiles.bounds_of_mem hmem).2.2
  obtain ⟨r, hr, hlow, hhigh⟩ := htiles.exists_mem (Nat.zero_le start) (by omega)
  by_cases hrcode : r.kind = .code
  · exact ⟨start, Nat.le_refl _, hle, hfrom (Nat.le_refl _) hle
      (isCodeAt_natCast_iff.mpr ⟨r, hr, hrcode, hlow, hhigh⟩),
      fun h => absurd h (Nat.lt_irrefl _)⟩
  -- The region that the text starts in starts before the text, and ends before its last place.
  have hbefore : r.start < start := by
    refine Nat.lt_of_le_of_ne hlow fun heq => ?_
    obtain ⟨c, hc, hget⟩ := exists_opener hr hrcode
    exact hplain (Nat.le_of_eq heq.symm) (heq ▸ hle) hget hc
  have hends : r.stop ≤ last := by
    refine Nat.le_of_not_lt fun hlt => hrcode ?_
    rw [eq_of_holds hr hmem ⟨Nat.le_trans hlow hle, hlt⟩ hin, hkind]
  -- The region after it is code, since no comment or literal opens within the text.
  obtain ⟨next, hnext, hnextLow, hnextHigh⟩ := htiles.exists_mem (Nat.zero_le r.stop)
    (Nat.lt_of_le_of_lt hends (by omega))
  have hadjacent : next.start = r.stop := by
    refine Nat.le_antisymm hnextLow (Nat.le_of_not_lt fun hlt => ?_)
    obtain rfl := @eq_of_holds source (r.stop - 1) r next hr hnext (by omega) (by omega)
    exact Nat.lt_irrefl _ hnextHigh
  have hnextCode : next.kind = .code := by
    by_contra hne
    obtain ⟨c, hc, hget⟩ := exists_opener hnext hne
    rw [hadjacent] at hget
    exact hplain (Nat.le_of_lt hhigh) hends hget hc
  exact ⟨r.stop, Nat.le_of_lt hhigh, hends, hfrom (Nat.le_of_lt hhigh) hends
    (isCodeAt_natCast_iff.mpr ⟨next, hnext, hnextCode, hnextLow, hnextHigh⟩),
    fun _ => ⟨r, hr, hrcode, hbefore, rfl⟩⟩

/-! ## Characters with their kinds -/

/-- A character and the kind of the region that it is in. -/
structure Kinded where
  char : Char
  kind : Segment.Kind
deriving Repr, DecidableEq, Inhabited

/-- The characters of a text that is of one kind. -/
def kindedText (kind : Segment.Kind) (text : List Char) : List Kinded :=
  text.map fun c => ⟨c, kind⟩

@[simp] theorem map_char_kindedText (kind : Segment.Kind) (text : List Char) :
    (kindedText kind text).map Kinded.char = text := by
  rw [kindedText, List.map_map]
  exact List.map_id _

theorem kind_of_mem_kindedText {kind : Segment.Kind} {text : List Char} {k : Kinded}
    (h : k ∈ kindedText kind text) : k.kind = kind := by
  obtain ⟨d, -, rfl⟩ := List.mem_map.mp h
  rfl

/-- The characters of a snippet with their kinds. -/
def kinded (source : List Char) : List Kinded :=
  (ofSource source).flatMap fun r => kindedText r.kind (r.text source)

theorem getElem?_flatMap_of_tiles {source : List Char} {start stop place : Nat}
    {regions : List Region} (h : Tiles start regions stop) (hsource : stop ≤ source.length)
    {r : Region} (hr : r ∈ regions) (hlow : r.start ≤ place) (hhigh : place < r.stop) :
    (regions.flatMap fun r => kindedText r.kind (r.text source))[place - start]? =
      source[place]?.map fun c => ⟨c, r.kind⟩ := by
  induction h with
  | done => cases hr
  | @region first rest stop nonempty others ih =>
    have hle := others.le
    have hlength : (kindedText first.kind (first.text source)).length =
        first.stop - first.start := by
      rw [kindedText, List.length_map, Region.text, slice, List.length_take, List.length_drop]
      omega
    rw [List.flatMap_cons]
    rcases List.mem_cons.mp hr with rfl | hr
    · rw [List.getElem?_append_left (by omega), kindedText, List.getElem?_map, Region.text, slice,
        List.getElem?_take_of_lt (by omega), List.getElem?_drop, Nat.add_sub_cancel' hlow]
    · have hstart := (others.bounds_of_mem hr).1
      rw [List.getElem?_append_right (by omega), hlength, ← ih hsource hr]
      congr 1
      omega

/-- A character has the kind of the region that it is in. -/
theorem getElem?_kinded {source : List Char} {place : Nat} {r : Region} (hr : r ∈ ofSource source)
    (hlow : r.start ≤ place) (hhigh : place < r.stop) :
    (kinded source)[place]? = source[place]?.map fun c => ⟨c, r.kind⟩ :=
  getElem?_flatMap_of_tiles (tiles_ofSource source) (Nat.le_refl _) hr hlow hhigh

theorem map_char_kinded (source : List Char) : (kinded source).map Kinded.char = source := by
  have htext := flatMap_text_of_tiles source (tiles_ofSource source)
  rw [slice, List.drop_zero, Nat.sub_zero, List.take_length] at htext
  rw [kinded, List.map_flatMap]
  conv_rhs => rw [← htext]
  exact List.flatMap_congr fun r _ => map_char_kindedText r.kind (r.text source)

/-- A character of a snippet is of a kind if its place is in a region of this kind. -/
theorem getElem?_kinded_eq_some_iff {source : List Char} {place : Nat} {c : Char}
    {kind : Segment.Kind} :
    (kinded source)[place]? = some ⟨c, kind⟩ ↔ source[place]? = some c ∧
      ∃ r ∈ ofSource source, r.kind = kind ∧ r.start ≤ place ∧ place < r.stop := by
  constructor
  · intro h
    have hc : source[place]? = some c := by
      conv_lhs => rw [← map_char_kinded source]
      rw [List.getElem?_map, h]
      rfl
    obtain ⟨r, hr, hlow, hhigh⟩ := (tiles_ofSource source).exists_mem (Nat.zero_le place)
      (List.getElem?_eq_some_iff.mp hc).1
    rw [getElem?_kinded hr hlow hhigh, hc] at h
    exact ⟨hc, r, hr, (Kinded.mk.inj (Option.some.inj h)).2, hlow, hhigh⟩
  · rintro ⟨hc, r, hr, rfl, hlow, hhigh⟩
    rw [getElem?_kinded hr hlow hhigh, hc]
    rfl

/-- The characters of code are those that count as code by place. -/
theorem getElem?_kinded_code_iff {source : List Char} {place : Nat} {c : Char} :
    (kinded source)[place]? = some ⟨c, .code⟩ ↔
      source[place]? = some c ∧ isCodeAt (ofSource source) place = true := by
  rw [getElem?_kinded_eq_some_iff, isCodeAt_natCast_iff]

end GuestCode
