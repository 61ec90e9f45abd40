import GuestCode.Proofs.Snippet.Arguments
import GuestCode.Proofs.Snippet.Lookup

/-!
# Places from left to right

The regions of a snippet can be looked through one by one, and the places of code can be listed
region by region. Bisection gives the answer of the first at every index, those before the snippet
and behind its end included, and the second is what brackets and commas are looked for in.

## Main statements

* `Region.filter_holds`: the one region that holds an index is the one that bisection finds.
* `Region.codePlaces_ofSource`: the places of code are those of the characters of code.
* `Region.regionAt?_linear`: bisection agrees with going through the regions.
-/

namespace GuestCode

/-! ## Places of characters -/

theorem map_place_placedFrom (start : Nat) (text : List Char) :
    (placedFrom start text).map Placed.place = List.range' start text.length := by
  induction text generalizing start with
  | nil => rfl
  | cons c cs ih => rw [placedFrom, List.map_cons, ih, List.length_cons, List.range'_succ]

/-- The places of a range that are not before a place. -/
theorem filter_range'_le (start : Int) (low count : Nat) :
    (List.range' low count).filter (fun place : Nat => decide (start ≤ (place : Int))) =
      List.range' (max low start.toNat) (low + count - max low start.toNat) := by
  induction count generalizing low with
  | zero =>
    rw [show low + 0 - max low start.toNat = 0 by omega]
    rfl
  | succ count ih =>
    rw [List.range'_succ]
    -- Either all of the range is kept, or its first place is dropped.
    by_cases hstart : start ≤ (low : Int)
    · rw [List.filter_cons_of_pos (by simpa using hstart), ih,
        show max (low + 1) start.toNat = low + 1 by omega, show max low start.toNat = low by omega,
        show low + (count + 1) - low = count + 1 by omega,
        show low + 1 + count - (low + 1) = count by omega, List.range'_succ]
    · rw [List.filter_cons_of_neg (by simpa using hstart), ih,
        show max (low + 1) start.toNat = max low start.toNat by omega,
        show low + 1 + count = low + (count + 1) by omega]

/-- From a place on, characters in order are those that are not before it. -/
theorem dropWhile_place_eq_filter {code : List Placed}
    (h : code.Pairwise fun p q => p.place < q.place) (start : Int) :
    code.dropWhile (fun p => decide ((p.place : Int) < start)) =
      code.filter fun p => decide (start ≤ (p.place : Int)) := by
  induction code with
  | nil => rfl
  | cons p rest ih =>
    obtain ⟨hlater, hrest⟩ := List.pairwise_cons.mp h
    by_cases hplace : (p.place : Int) < start
    · rw [List.dropWhile_cons_of_pos (by simpa using hplace),
        List.filter_cons_of_neg (by simpa using hplace), ih hrest]
    · rw [List.dropWhile_cons_of_neg (by simpa using hplace), eq_comm, List.filter_eq_self]
      intro q hq
      rcases List.mem_cons.mp hq with rfl | hq
      · simpa using hplace
      · have hlt := hlater q hq
        simp only [decide_eq_true_eq]
        omega

namespace Region

/-! ## Places of code -/

/-- The places in regions of code, at or behind a place. -/
def codePlaces (start : Int) (regions : List Region) : List Nat :=
  regions.flatMap fun r =>
    if (r.stop : Int) ≤ start ∨ r.kind ≠ .code then []
    else List.range' (max r.start start.toNat) (r.stop - max r.start start.toNat)

theorem mem_codePlaces {start : Int} {regions : List Region} {place : Nat} :
    place ∈ codePlaces start regions ↔
      start ≤ place ∧ ∃ r ∈ regions, r.kind = .code ∧ r.start ≤ place ∧ place < r.stop := by
  rw [codePlaces, List.mem_flatMap]
  constructor
  · rintro ⟨r, hr, hplace⟩
    split at hplace
    · cases hplace
    · next hcode =>
      rw [List.mem_range'_1] at hplace
      rw [not_or, not_not] at hcode
      exact ⟨by omega, r, hr, hcode.2, by omega, by omega⟩
  · rintro ⟨hstart, r, hr, hkind, hlow, hhigh⟩
    refine ⟨r, hr, ?_⟩
    rw [if_neg fun hno => hno.elim (by omega) fun hkind' => hkind' hkind, List.mem_range'_1]
    omega

/-- The places of one segment of code. -/
theorem codePlaces_segment (start : Int) (place : Nat) (s : Segment) :
    codePlaces start [⟨s.kind, place, place + s.text.length⟩] =
      ((if s.kind == .code then placedFrom place s.text else []).filter
        fun p => decide (start ≤ (p.place : Int))).map Placed.place := by
  rw [codePlaces, List.flatMap_singleton]
  by_cases hkind : s.kind = .code
  · have hfilter := filter_range'_le start place s.text.length
    rw [← map_place_placedFrom, List.filter_map] at hfilter
    rw [if_pos (beq_iff_eq.mpr hkind)]
    refine Eq.trans ?_ hfilter.symm
    dsimp only
    split
    · next hno =>
      have hbefore : ((place + s.text.length : Nat) : Int) ≤ start :=
        hno.resolve_right fun hkind' => hkind' hkind
      rw [show place + s.text.length - max place start.toNat = 0 by omega]
      rfl
    · rfl
  · rw [if_pos (.inr hkind), if_neg (by simpa using hkind)]
    rfl

theorem codePlaces_ofSegments (start : Int) (place : Nat) (segments : List Segment) :
    codePlaces start (ofSegments place segments) =
      ((codeOfSegments place segments).filter fun p => decide (start ≤ (p.place : Int))).map
        Placed.place := by
  induction segments generalizing place with
  | nil => rfl
  | cons s rest ih =>
    rw [ofSegments, codeOfSegments, List.filter_append, List.map_append, ← codePlaces_segment, ← ih,
      codePlaces, codePlaces, codePlaces, ← List.flatMap_append, List.singleton_append]

/-- The places of code, region by region, are those of the characters that brackets and commas are
looked for in. -/
theorem codePlaces_ofSource (source : List Char) (start : Int) :
    codePlaces start (ofSource source) =
      ((codeChars source).dropWhile fun p => decide ((p.place : Int) < start)).map
        Placed.place := by
  rw [dropWhile_place_eq_filter (pairwise_codeChars source)]
  exact codePlaces_ofSegments start 0 _

/-! ## Regions one by one -/

/-- Whether a region holds an index. -/
def holds (index : Int) (r : Region) : Bool :=
  decide ((r.start : Int) ≤ index) && decide (index < r.stop)

theorem holds_iff {index : Int} {r : Region} :
    r.holds index = true ↔ r.start ≤ index ∧ index < r.stop := by
  rw [holds, Bool.and_eq_true, decide_eq_true_iff, decide_eq_true_iff]

/-- No other region holds an index that one holds. -/
theorem Tiles.filter_holds {start stop : Nat} {regions : List Region} {index : Int} {r : Region}
    (h : Tiles start regions stop) (hr : r ∈ regions) (hholds : r.holds index = true) :
    regions.filter (holds index) = [r] := by
  obtain ⟨before, after, rfl⟩ := List.append_of_mem hr
  obtain ⟨-, hfrom, hbefore⟩ := List.pairwise_append.mp h.pairwise
  have hafter := (List.pairwise_cons.mp hfrom).1
  obtain ⟨hstart, hstop⟩ := holds_iff.mp hholds
  -- The regions beside it end before the index or start behind it.
  have hnone : ∀ next : Region, next.stop ≤ r.start ∨ r.stop ≤ next.start →
      ¬next.holds index = true := by
    intro next hnext hin
    obtain ⟨hlow, hhigh⟩ := holds_iff.mp hin
    omega
  rw [List.filter_append, List.filter_cons_of_pos hholds,
    List.filter_eq_nil_iff.mpr fun next hnext => hnone next (.inl (hbefore next hnext r (.head _))),
    List.filter_eq_nil_iff.mpr fun next hnext => hnone next (.inr (hafter next hnext)),
    List.nil_append]

/-- The one region that holds an index is the one that bisection finds. -/
theorem filter_holds (source : List Char) (index : Int) :
    (ofSource source).filter (holds index) = (regionAt? (ofSource source) index).toList := by
  cases hfound : regionAt? (ofSource source) index with
  | none =>
    refine List.filter_eq_nil_iff.mpr fun r hr hholds => ?_
    rw [regionAt?_eq_some_iff.mpr ⟨hr, holds_iff.mp hholds⟩] at hfound
    cases hfound
  | some r =>
    obtain ⟨hr, hin⟩ := regionAt?_eq_some_iff.mp hfound
    exact (tiles_ofSource source).filter_holds hr (holds_iff.mpr hin)

/-- A region is found at the places of the snippet and nowhere else. -/
theorem isSome_regionAt?_iff {source : List Char} {index : Int} :
    (regionAt? (ofSource source) index).isSome = true ↔ 0 ≤ index ∧ index < source.length := by
  have htiles := tiles_ofSource source
  rw [Option.isSome_iff_exists]
  constructor
  · rintro ⟨r, hr⟩
    obtain ⟨hmem, hlow, hhigh⟩ := regionAt?_eq_some_iff.mp hr
    have hbounds := htiles.bounds_of_mem hmem
    omega
  · rintro ⟨hlow, hhigh⟩
    obtain ⟨place, rfl⟩ := Int.eq_ofNat_of_zero_le hlow
    obtain ⟨r, hr, hin⟩ := htiles.exists_mem (Nat.zero_le place) (by omega)
    exact ⟨r, regionAt?_eq_some_iff.mpr ⟨hr, by omega⟩⟩

/-- Bisection agrees with going through the regions, at every index: all regions that hold it are
the one that is found, and one is found at the places of the snippet and nowhere else. An index
counts as code if it is listed among the places of code; from any place on, this list is what
brackets and commas are looked for in. -/
theorem regionAt?_linear (source : List Char) (index : Int) :
    (ofSource source).filter (holds index) = (regionAt? (ofSource source) index).toList ∧
      ((regionAt? (ofSource source) index).isSome = true ↔ 0 ≤ index ∧ index < source.length) ∧
      (isCodeAt (ofSource source) index = true ↔
        ∃ place ∈ codePlaces 0 (ofSource source), (place : Int) = index) ∧
      ∀ start : Int, codePlaces start (ofSource source) =
        ((codeChars source).dropWhile fun p => decide ((p.place : Int) < start)).map
          Placed.place := by
  refine ⟨filter_holds source index, isSome_regionAt?_iff, ?_, codePlaces_ofSource source⟩
  constructor
  · intro h
    obtain ⟨r, hr, hkind, hlow, hhigh⟩ := isCodeAt_iff.mp h
    -- Regions start in the snippet, so the index is a place.
    obtain ⟨place, rfl⟩ := Int.eq_ofNat_of_zero_le (Int.le_trans (Int.natCast_nonneg _) hlow)
    exact ⟨place, mem_codePlaces.mpr ⟨by omega, r, hr, hkind, by omega, by omega⟩, rfl⟩
  · rintro ⟨place, hplace, rfl⟩
    exact isCodeAt_natCast_iff.mpr (mem_codePlaces.mp hplace).2

/-- The character before the snippet, a comment, and the end of the snippet are no code. -/
example : [-1, 0, 1, 4, 5, 6].map (isCodeAt (ofSource "a//b\nc".toList)) =
    [false, true, false, true, true, false] := by decide +kernel

end Region

end GuestCode
