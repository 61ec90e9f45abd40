import GuestCode.Data.Calendar
import Mathlib.Data.Int.Init
import Mathlib.Data.String.Basic

/-!
# Moments and their texts

A later moment has a greater text. The days of an era are divided into years that start in March,
so later days have later dates; the numbers of a date and a time are padded to one width each; and
where one of two moments has microseconds and the other has none, the sign of the offset stands
before the point.

## Main statements

* `Date.ofDays?_lt`: later days have later dates.
* `padded_append_lt`: padded numbers are ordered as texts.
* `Moment.iso_lt_iff`: texts of moments are ordered as the moments are.
-/

namespace GuestCode

/-! ## Dates -/

namespace Date

/-- The year of an era that a day of the era is in; it starts in March. -/
def yearOfEra (dayOfEra : Int) : Int :=
  (dayOfEra - dayOfEra / 1460 + dayOfEra / 36524 - dayOfEra / 146096) / 365

/-- The days of an era before one of its years. -/
def daysBefore (year : Int) : Int := 365 * year + year / 4 - year / 100

theorem daysBefore_yearOfEra {day : Int} (hlow : 0 ≤ day) (hhigh : day < 146097) :
    0 ≤ yearOfEra day ∧ yearOfEra day < 400 ∧ daysBefore (yearOfEra day) ≤ day ∧
      day ≤ daysBefore (yearOfEra day) + 365 := by
  obtain ⟨year, hyear⟩ : ∃ year, year = yearOfEra day := ⟨_, rfl⟩
  rw [← hyear, daysBefore]
  unfold yearOfEra at hyear
  by_cases hlast : day = 146096
  · subst hlast hyear
    decide
  · -- Within a century only every fourth year is longer.
    obtain ⟨century, hcentury⟩ : ∃ century, century = day / 36524 := ⟨_, rfl⟩
    have hera : day / 146096 = 0 := by omega
    rw [hera, ← hcentury] at hyear
    have hdays : 36524 * century ≤ day ∧ day < 36524 * century + 36524 := by omega
    have hcenturies : 0 ≤ century ∧ century < 4 := by omega
    have hyears : 100 * century ≤ year ∧ year < 100 * century + 100 := by omega
    have hdivided : year / 100 = century := by omega
    rw [hdivided]
    omega

theorem yearOfEra_mono {day day' : Int} (hlow : 0 ≤ day) (h : day < day')
    (hhigh : day' < 146097) : yearOfEra day ≤ yearOfEra day' := by
  unfold yearOfEra
  omega

/-- The year, starting in March, of a number of days after 1970-01-01. -/
def marchYear (days : Int) : Int :=
  yearOfEra ((days + 719468) % 146097) + (days + 719468) / 146097 * 400

/-- The day of this year. -/
def marchDay (days : Int) : Int :=
  (days + 719468) % 146097 - daysBefore (yearOfEra ((days + 719468) % 146097))

theorem marchDay_bounds (days : Int) : 0 ≤ marchDay days ∧ marchDay days ≤ 365 := by
  have h := @daysBefore_yearOfEra ((days + 719468) % 146097) (by omega) (by omega)
  unfold marchDay
  omega

theorem march_lt {days days' : Int} (h : days < days') :
    marchYear days < marchYear days' ∨
      marchYear days = marchYear days' ∧ marchDay days < marchDay days' := by
  have hyears := fun days : Int =>
    @daysBefore_yearOfEra ((days + 719468) % 146097) (by omega) (by omega)
  obtain ⟨hfirst, hlast, -, -⟩ := hyears days
  obtain ⟨hfirst', hlast', -, -⟩ := hyears days'
  unfold marchYear
  by_cases hera : (days + 719468) / 146097 = (days' + 719468) / 146097
  · have hday : (days + 719468) % 146097 < (days' + 719468) % 146097 := by omega
    have hmono := yearOfEra_mono (by omega) hday (by omega)
    rcases Int.lt_or_eq_of_le hmono with hlt | heq
    · left
      omega
    · refine .inr ⟨by omega, ?_⟩
      rw [marchDay, marchDay, heq]
      omega
  · left
    omega

/-- The months of such a year have 31 and 30 days by turns, and are numbered from March on. -/
def marchMonth (days : Int) : Int := (5 * marchDay days + 2) / 153

theorem ofDays?_eq (days : Int) :
    ofDays? days =
      let month := if marchMonth days < 10 then marchMonth days + 3 else marchMonth days - 9
      let year := marchYear days + if month ≤ 2 then 1 else 0
      if 1 ≤ year ∧ year ≤ 9999 then
        some ⟨year.toNat, month.toNat,
          (marchDay days - (153 * marchMonth days + 2) / 5 + 1).toNat⟩
      else none := by
  have hdiv : (days + 719468).fdiv 146097 = (days + 719468) / 146097 :=
    Int.fdiv_eq_ediv_of_nonneg _ (by decide)
  have hmod : (days + 719468).fmod 146097 = (days + 719468) % 146097 :=
    Int.fmod_eq_emod_of_nonneg _ (by decide)
  unfold ofDays?
  dsimp only
  rw [hdiv, hmod]
  rfl

/-- A date by its year and its day in it, counted from March on. -/
theorem ofDays?_spec {days : Int} {d : Date} (h : ofDays? days = some d) :
    d.year ≤ 9999 ∧ 1 ≤ d.month ∧ d.month ≤ 12 ∧ d.day ≤ 31 ∧
      (12 * d.year + d.month : Int) = 12 * marchYear days + marchMonth days + 3 ∧
      (d.day : Int) = marchDay days - (153 * marchMonth days + 2) / 5 + 1 := by
  obtain ⟨hfirst, hlast⟩ := marchDay_bounds days
  have hmonth : 153 * marchMonth days ≤ 5 * marchDay days + 2 ∧
      5 * marchDay days + 2 < 153 * marchMonth days + 153 := by
    unfold marchMonth
    omega
  rw [ofDays?_eq] at h
  dsimp only at h
  generalize marchYear days = year at h ⊢
  generalize marchDay days = day at h hmonth hfirst hlast ⊢
  generalize marchMonth days = month at h hmonth ⊢
  -- The months from January on are of the next year.
  generalize hnumber : (if month < 10 then month + 3 else month - 9) = number at h
  generalize hmore : (if number ≤ 2 then (1 : Int) else 0) = more at h
  have hnumbers : 1 ≤ number ∧ number ≤ 12 ∧ 12 * more + number = month + 3 := by
    split at hnumber <;> split at hmore <;> omega
  split at h
  · obtain rfl := Option.some.inj h
    dsimp only
    omega
  · cases h

/-- Later days have later dates. -/
theorem ofDays?_lt {days days' : Int} {d d' : Date} (h : ofDays? days = some d)
    (h' : ofDays? days' = some d') (hlt : days < days') :
    d.year < d'.year ∨ d.year = d'.year ∧
      (d.month < d'.month ∨ d.month = d'.month ∧ d.day < d'.day) := by
  obtain ⟨-, hlow, hhigh, -, hyear, hday⟩ := ofDays?_spec h
  obtain ⟨-, hlow', hhigh', -, hyear', hday'⟩ := ofDays?_spec h'
  obtain ⟨hfirst, hlast⟩ := marchDay_bounds days
  obtain ⟨hfirst', hlast'⟩ := marchDay_bounds days'
  have hmarch := march_lt hlt
  unfold marchMonth at hyear hday hyear' hday'
  omega

end Date

/-! ## Digits -/

theorem digitChar_lt {m n : Nat} (h : m < n) (hn : n < 10) : m.digitChar < n.digitChar := by
  have hall : ∀ n < 10, ∀ m < n, m.digitChar < n.digitChar := by decide
  exact hall n hn m h

theorem toList_padded (width n : Nat) : (padded width n).toList =
    List.replicate (width - (Nat.toDigits 10 n).length) '0' ++ Nat.toDigits 10 n := by
  have hdigits : (toString n).toList = Nat.toDigits 10 n := Nat.toList_repr
  rw [padded, String.toList_append, String.toList_ofList, ← String.length_toList, hdigits]

/-- The last digit of a padded number is behind the others, which may be padding. -/
theorem toList_padded_succ {width : Nat} (h : 0 < width) (n : Nat) :
    (padded (width + 1) n).toList = (padded width (n / 10)).toList ++ [(n % 10).digitChar] := by
  rw [toList_padded, toList_padded]
  rcases Nat.lt_or_ge n 10 with hlt | hge
  · have hzeros : List.replicate width '0' = List.replicate (width - 1) '0' ++ ['0'] := by
      rw [← List.replicate_succ', Nat.sub_add_cancel h]
    rw [Nat.div_eq_of_lt hlt, Nat.mod_eq_of_lt hlt, Nat.toDigits_of_lt_base hlt,
      Nat.toDigits_of_lt_base (by decide), List.length_singleton, List.length_singleton,
      Nat.add_sub_cancel, hzeros]
    rfl
  · rw [Nat.toDigits_of_base_le (by decide) hge, List.length_append, List.length_singleton,
      Nat.add_sub_add_right, List.append_assoc]

/-- Padded numbers are ordered as texts as they are as numbers, whatever stands behind them. -/
theorem padded_append_lt {width m n : Nat} (hwidth : 0 < width) (h : m < n) (hn : n < 10 ^ width)
    (rest rest' : List Char) :
    (padded width m).toList ++ rest < (padded width n).toList ++ rest' := by
  induction width, hwidth using Nat.le_induction generalizing m n rest rest' with
  | base =>
    have hn : n < 10 := hn
    rw [toList_padded, toList_padded, Nat.toDigits_of_lt_base (h.trans hn),
      Nat.toDigits_of_lt_base hn]
    exact .rel (digitChar_lt h hn)
  | succ width hwidth ih =>
    rw [toList_padded_succ hwidth, toList_padded_succ hwidth, List.append_assoc, List.append_assoc]
    rcases Nat.lt_or_eq_of_le (Nat.div_le_div_right h.le : m / 10 ≤ n / 10) with hlt | heq
    · exact ih hlt (by omega) _ _
    · rw [heq]
      exact List.append_left_lt (.rel (digitChar_lt (by omega) (Nat.mod_lt _ (by decide))))

/-- Two texts that start with padded numbers, and go on alike. -/
theorem padded_cons_lt {width m n : Nat} {c : Char} {rest rest' : List Char} (hwidth : 0 < width)
    (hn : n < 10 ^ width) (h : m < n ∨ m = n ∧ rest < rest') :
    (padded width m).toList ++ c :: rest < (padded width n).toList ++ c :: rest' := by
  rcases h with hlt | ⟨rfl, hrest⟩
  · exact padded_append_lt hwidth hlt hn _ _
  · exact List.append_left_lt (.cons hrest)

namespace Moment

/-- What stands behind the seconds of a moment of universal time. -/
def endOf (microsecond : Nat) : List Char :=
  (if microsecond = 0 then [] else '.' :: (padded 6 microsecond).toList) ++ "+00:00".toList

theorem endOf_lt {m n : Nat} (h : m < n) (hn : n < 1000000) : endOf m < endOf n := by
  have hpos : n ≠ 0 := by omega
  unfold endOf
  rw [if_neg hpos]
  split
  · exact .rel (by decide)
  · exact .cons (padded_append_lt (by decide) h hn _ _)

/-- The time of a day in the text of a moment of universal time. -/
def timeOf (millis : Nat) : List Char :=
  (padded 2 (millis / 3600000)).toList ++ ':' :: ((padded 2 (millis / 60000 % 60)).toList ++
    ':' :: ((padded 2 (millis / 1000 % 60)).toList ++ endOf (millis % 1000 * 1000)))

theorem timeOf_lt {millis millis' : Nat} (h : millis < millis') (hday : millis' < 86400000) :
    timeOf millis < timeOf millis' := by
  have hhour : millis / 3600000 ≤ millis' / 3600000 := Nat.div_le_div_right h.le
  refine padded_cons_lt (by decide) (by omega) (hhour.lt_or_eq.imp_right fun heq => ⟨heq, ?_⟩)
  have hminute : millis / 60000 % 60 ≤ millis' / 60000 % 60 := by omega
  refine padded_cons_lt (by decide) (by omega) (hminute.lt_or_eq.imp_right fun heq => ⟨heq, ?_⟩)
  have hsecond : millis / 1000 % 60 ≤ millis' / 1000 % 60 := by omega
  rcases hsecond.lt_or_eq with hlt | heq
  · exact padded_append_lt (by decide) hlt (by omega) _ _
  · rw [heq]
    exact List.append_left_lt (endOf_lt (by omega) (by omega))

/-- The text of a date and what stands behind it. -/
def dateOf (date : Date) (rest : List Char) : List Char :=
  (padded 4 date.year).toList ++ '-' :: ((padded 2 date.month).toList ++
    '-' :: ((padded 2 date.day).toList ++ 'T' :: rest))

theorem toList_iso {clock : Int} {m : Moment} (h : ofMillis? clock = some m) :
    ∃ date, Date.ofDays? (clock / 86400000) = some date ∧
      m.iso.toList = dateOf date (timeOf (clock % 86400000).toNat) := by
  have hoffset : offsetText 0 = "+00:00" := rfl
  unfold ofMillis? at h
  rw [Int.fdiv_eq_ediv_of_nonneg _ (by decide), Int.fmod_eq_emod_of_nonneg _ (by decide)] at h
  obtain ⟨date, hdate, rfl⟩ := Option.map_eq_some_iff.mp h
  refine ⟨date, hdate, ?_⟩
  unfold iso timeText Date.iso dateOf timeOf endOf
  split <;> simp [hoffset]

/-- Later moments have greater texts, with microseconds or without. -/
theorem iso_lt {clock clock' : Int} {m m' : Moment} (h : ofMillis? clock = some m)
    (h' : ofMillis? clock' = some m') (hlt : clock < clock') : m.iso < m'.iso := by
  obtain ⟨date, hdate, hiso⟩ := toList_iso h
  obtain ⟨date', hdate', hiso'⟩ := toList_iso h'
  rw [String.lt_iff_toList_lt, hiso, hiso']
  have hdays : clock / 86400000 ≤ clock' / 86400000 := Int.ediv_le_ediv (by decide) hlt.le
  rcases hdays.lt_or_eq with hday | hday
  · -- An earlier day has an earlier date.
    obtain ⟨hyear, -, hmonth, hday', -⟩ := Date.ofDays?_spec hdate'
    have hdates := Date.ofDays?_lt hdate hdate' hday
    refine padded_cons_lt (by decide) (by omega) (hdates.imp_right fun ⟨heq, hdates⟩ => ⟨heq, ?_⟩)
    refine padded_cons_lt (by decide) (by omega) (hdates.imp_right fun ⟨heq, hdates⟩ => ⟨heq, ?_⟩)
    exact padded_cons_lt (by decide) (by omega) (.inl hdates)
  · obtain rfl : date = date' := Option.some.inj (hdate.symm.trans (hday ▸ hdate'))
    have htime : timeOf (clock % 86400000).toNat < timeOf (clock' % 86400000).toNat :=
      timeOf_lt (by omega) (by omega)
    have hday : (padded 2 date.day).toList ++ 'T' :: timeOf (clock % 86400000).toNat <
        (padded 2 date.day).toList ++ 'T' :: timeOf (clock' % 86400000).toNat :=
      List.append_left_lt (.cons htime)
    exact List.append_left_lt (.cons (List.append_left_lt (.cons hday)))

/-- Texts of moments are ordered as the moments are. -/
theorem iso_lt_iff {clock clock' : Int} {m m' : Moment} (h : ofMillis? clock = some m)
    (h' : ofMillis? clock' = some m') : m.iso < m'.iso ↔ clock < clock' := by
  refine ⟨fun hiso => ?_, iso_lt h h'⟩
  rcases Int.lt_trichotomy clock clock' with hlt | rfl | hgt
  · exact hlt
  · obtain rfl := Option.some.inj (h.symm.trans h')
    exact absurd hiso (lt_irrefl _)
  · exact absurd (hiso.trans (iso_lt h' h hgt)) (lt_irrefl _)

end Moment

end GuestCode
