import GuestCode.Proofs.Data.Sorting
import GuestCode.Proofs.Number.Rounding
import Mathlib.Algebra.Order.Field.Rat
import Mathlib.Data.Prod.Lex
import Mathlib.Data.String.Basic
import Mathlib.Data.Sum.Order
import Mathlib.Order.Compare
import Mathlib.Order.WithBot

/-!
# Where scalars stand

Numbers are compared exactly, integers with binary fractions and with infinities: each stands at its
place in one line, NaN apart, which stands nowhere. Texts and dates stand in lines of their own. So
a scalar comes before those that stand behind it in its line, and equals those that stand where it
stands.

## Main statements

* `Value.compareNumbers?_eq_iff`: numbers are compared by where they stand.
* `Value.less_scalar_iff`, `Value.same_scalar_iff`: order and equality of scalars.
* `Value.standing_total`: scalars of one kind stand in a line.
-/

namespace GuestCode

namespace Value

/-! ## Numbers -/

/-- Where a number stands among all numbers; what is no number stands nowhere. -/
def rankOf? : Int ⊕ Binary64 → Option (WithBot (WithTop ℚ))
  | .inl n => some ((n : ℚ) : WithTop ℚ)
  | .inr (.finite negative mantissa exponent) =>
    let (n, d) := Binary64.toRatio negative mantissa exponent
    some ((n / d : ℚ) : WithTop ℚ)
  | .inr (.infinite negative) => some (if negative then ⊥ else ⊤)
  | .inr .nan => none

/-- Ratios are compared by their products across. -/
theorem compares_ratio (n n' : Int) {d d' : Nat} (hd : 0 < d) (hd' : 0 < d') :
    (compare (n * d') (n' * d)).Compares (((n / d : ℚ) : WithTop ℚ) : WithBot (WithTop ℚ))
      ((n' / d' : ℚ) : WithTop ℚ) := by
  have hpos : (0 : ℚ) < d := Nat.cast_pos.mpr hd
  have hpos' : (0 : ℚ) < d' := Nat.cast_pos.mpr hd'
  cases h : compare (n * d') (n' * d) with
  | lt =>
    have hlt : (n * d' : ℚ) < n' * d := by exact_mod_cast Int.compare_eq_lt.mp h
    exact WithBot.coe_lt_coe.mpr (WithTop.coe_lt_coe.mpr ((div_lt_div_iff₀ hpos hpos').mpr hlt))
  | eq =>
    have heq : (n * d' : ℚ) = n' * d := by exact_mod_cast Int.compare_eq_eq.mp h
    exact congrArg (fun q : ℚ => ((q : WithTop ℚ) : WithBot (WithTop ℚ)))
      ((div_eq_div_iff hpos.ne' hpos'.ne').mpr heq)
  | gt =>
    have hgt : (n' * d : ℚ) < n * d' := by exact_mod_cast Int.compare_eq_gt.mp h
    exact WithBot.coe_lt_coe.mpr (WithTop.coe_lt_coe.mpr ((div_lt_div_iff₀ hpos' hpos).mpr hgt))

theorem compares_int (n n' : Int) :
    (compare n n').Compares (((n : ℚ) : WithTop ℚ) : WithBot (WithTop ℚ))
      ((n' : ℚ) : WithTop ℚ) := by
  simpa using compares_ratio n n' Nat.one_pos Nat.one_pos

theorem compares_compareInt? {x : Binary64} {k : Int} {o : Ordering}
    (h : x.compareInt? k = some o) :
    ∃ r, rankOf? (.inr x) = some r ∧ o.Compares r ((k : ℚ) : WithTop ℚ) := by
  cases x with
  | finite negative mantissa exponent =>
    have hpos : 0 < (Binary64.toRatio negative mantissa exponent).2 :=
      Binary64.scaleRatio_snd_pos Nat.one_pos _
    obtain rfl := Option.some.inj h
    have hratio :=
      compares_ratio (Binary64.toRatio negative mantissa exponent).1 k hpos Nat.one_pos
    simp only [Nat.cast_one, mul_one, div_one] at hratio
    exact ⟨_, rfl, hratio⟩
  | infinite negative =>
    obtain rfl := Option.some.inj h
    refine ⟨_, rfl, ?_⟩
    cases negative with
    | true => exact WithBot.bot_lt_coe _
    | false => exact WithBot.coe_lt_coe.mpr (WithTop.coe_lt_top _)
  | nan => cases h

theorem compares_compare? {x y : Binary64} {o : Ordering} (h : x.compare? y = some o) :
    ∃ r s, rankOf? (.inr x) = some r ∧ rankOf? (.inr y) = some s ∧ o.Compares r s := by
  cases x with
  | finite negative mantissa exponent =>
    cases y with
    | finite negative' mantissa' exponent' =>
      have hpos : 0 < (Binary64.toRatio negative mantissa exponent).2 :=
        Binary64.scaleRatio_snd_pos Nat.one_pos _
      have hpos' : 0 < (Binary64.toRatio negative' mantissa' exponent').2 :=
        Binary64.scaleRatio_snd_pos Nat.one_pos _
      obtain rfl := Option.some.inj h
      exact ⟨_, _, rfl, rfl, compares_ratio _ _ hpos hpos'⟩
    | infinite negative' =>
      obtain rfl := Option.some.inj h
      refine ⟨_, _, rfl, rfl, ?_⟩
      cases negative' with
      | true => exact WithBot.bot_lt_coe _
      | false => exact WithBot.coe_lt_coe.mpr (WithTop.coe_lt_top _)
    | nan => cases h
  | infinite negative =>
    cases y with
    | finite negative' mantissa' exponent' =>
      obtain rfl := Option.some.inj h
      refine ⟨_, _, rfl, rfl, ?_⟩
      cases negative with
      | true => exact WithBot.bot_lt_coe _
      | false => exact WithBot.coe_lt_coe.mpr (WithTop.coe_lt_top _)
    | infinite negative' =>
      obtain rfl := Option.some.inj h
      refine ⟨_, _, rfl, rfl, ?_⟩
      cases negative <;> cases negative' <;> simp [Ordering.Compares]
    | nan => cases h
  | nan => cases h

/-- Numbers are compared by where they stand. -/
theorem compares_compareNumbers? {a b : Int ⊕ Binary64} {o : Ordering}
    (h : compareNumbers? a b = some o) :
    ∃ r s, rankOf? a = some r ∧ rankOf? b = some s ∧ o.Compares r s := by
  match a, b with
  | .inl m, .inl n =>
    obtain rfl := Option.some.inj h
    exact ⟨_, _, rfl, rfl, compares_int m n⟩
  | .inr x, .inl n =>
    obtain ⟨r, hr, hcompares⟩ := compares_compareInt? h
    exact ⟨r, _, hr, rfl, hcompares⟩
  | .inl m, .inr y =>
    obtain ⟨o', ho', rfl⟩ := Option.map_eq_some_iff.mp h
    obtain ⟨s, hs, hcompares⟩ := compares_compareInt? ho'
    exact ⟨_, s, rfl, hs, Ordering.compares_swap.mpr hcompares⟩
  | .inr x, .inr y => exact compares_compare? h

theorem exists_compareNumbers? {a b : Int ⊕ Binary64} (ha : rankOf? a ≠ none)
    (hb : rankOf? b ≠ none) : ∃ o, compareNumbers? a b = some o := by
  match a, b with
  | .inl m, .inl n => exact ⟨_, rfl⟩
  | .inr (.finite ..), .inl n => exact ⟨_, rfl⟩
  | .inr (.infinite _), .inl n => exact ⟨_, rfl⟩
  | .inl m, .inr (.finite ..) => exact ⟨_, rfl⟩
  | .inl m, .inr (.infinite _) => exact ⟨_, rfl⟩
  | .inr (.finite ..), .inr (.finite ..) => exact ⟨_, rfl⟩
  | .inr (.finite ..), .inr (.infinite _) => exact ⟨_, rfl⟩
  | .inr (.infinite _), .inr (.finite ..) => exact ⟨_, rfl⟩
  | .inr (.infinite _), .inr (.infinite _) => exact ⟨_, rfl⟩
  | .inr .nan, _ => exact absurd rfl ha
  | _, .inr .nan => exact absurd rfl hb

theorem compareNumbers?_eq_iff {a b : Int ⊕ Binary64} {o : Ordering} :
    compareNumbers? a b = some o ↔
      ∃ r s, rankOf? a = some r ∧ rankOf? b = some s ∧ o.Compares r s := by
  constructor
  · exact compares_compareNumbers?
  · rintro ⟨r, s, hr, hs, hcompares⟩
    obtain ⟨o', ho'⟩ := exists_compareNumbers? (by rw [hr]; nofun) (by rw [hs]; nofun)
    obtain ⟨r', s', hr', hs', hcompares'⟩ := compares_compareNumbers? ho'
    obtain rfl := Option.some.inj (hr.symm.trans hr')
    obtain rfl := Option.some.inj (hs.symm.trans hs')
    rw [ho', hcompares'.inj hcompares]

/-! ## Scalars -/

/-- Where a number, a text or a date stands among its like. -/
abbrev Standing := WithBot (WithTop ℚ) ⊕ String ⊕ (ℕ ×ₗ ℕ ×ₗ ℕ)

/-- Where a value stands, if it is a scalar that has an order. -/
def standing? : Value → Option Standing
  | text s => some (.inr (.inl s))
  | date d => some (.inr (.inr (toLex (d.year, toLex (d.month, d.day)))))
  | v => (v.number?.bind rankOf?).map .inl

theorem standing?_of_number {v : Value} {a : Int ⊕ Binary64} (h : v.number? = some a) :
    v.standing? = (rankOf? a).map .inl := by
  cases v <;> cases h <;> rfl

theorem dateBefore_iff {d e : Date} : dateBefore d e = true ↔
    toLex (d.year, toLex (d.month, d.day)) < toLex (e.year, toLex (e.month, e.day)) := by
  simp [dateBefore, Prod.Lex.toLex_lt_toLex]

theorem date_eq_iff {d e : Date} :
    d = e ↔ d.year = e.year ∧ d.month = e.month ∧ d.day = e.day := by
  cases d
  cases e
  simp

theorem less_number {u v : Value} {a b : Int ⊕ Binary64} (hu : u.number? = some a)
    (hv : v.number? = some b) : less u v = .ok (compareNumbers? a b == some .lt) := by
  unfold less
  split
  case h_5 => rw [hu, hv]
  all_goals cases hu

theorem less_int (m n : Int) : less (int m) (int n) = .ok (m < n) := by
  have hcompare : compareNumbers? (.inl m) (.inl n) = some (compare m n) := rfl
  rw [@less_number (int m) (int n) _ _ rfl rfl, hcompare]
  by_cases hlt : m < n
  · simp [hlt, Int.compare_eq_lt.mpr hlt]
  · simp [hlt, mt Int.compare_eq_lt.mp hlt]

theorem same_number {u : Value} {a : Int ⊕ Binary64} (hu : u.number? = some a) (v : Value) :
    same u v = match v.number? with
      | some b => compareNumbers? a b == some .eq
      | none => false := by
  unfold same
  split
  case h_12 => rw [hu]; cases v.number? <;> rfl
  all_goals cases hu

theorem standing?_eq_inl_iff {v : Value} {r : WithBot (WithTop ℚ)} :
    v.standing? = some (.inl r) ↔ ∃ a, v.number? = some a ∧ rankOf? a = some r := by
  cases v <;> simp [standing?, number?]

/-- Numbers are compared by where they stand, and with nothing else. -/
theorem number_standing_iff {u v : Value} {a : Int ⊕ Binary64} (hu : u.number? = some a)
    {o : Ordering} (ho : o ≠ .gt) :
    (∃ b, v.number? = some b ∧ compareNumbers? a b = some o) ↔
      ∃ r s, u.standing? = some r ∧ v.standing? = some s ∧ o.Compares r s := by
  simp only [compareNumbers?_eq_iff]
  constructor
  · rintro ⟨b, hv, r, s, hr, hs, hcompares⟩
    refine ⟨.inl r, .inl s, standing?_eq_inl_iff.mpr ⟨a, hu, hr⟩,
      standing?_eq_inl_iff.mpr ⟨b, hv, hs⟩, ?_⟩
    cases o with
    | lt => exact Sum.inl_lt_inl_iff.mpr hcompares
    | eq => exact congrArg Sum.inl hcompares
    | gt => exact absurd rfl ho
  · rintro ⟨r, s, hr, hs, hcompares⟩
    rw [standing?_of_number hu] at hr
    obtain ⟨q, hq, rfl⟩ := Option.map_eq_some_iff.mp hr
    obtain ⟨t, rfl, hnumbers⟩ : ∃ t, s = .inl t ∧ o.Compares q t := by
      cases o with
      | lt =>
        cases s with
        | inl t => exact ⟨t, rfl, Sum.inl_lt_inl_iff.mp hcompares⟩
        | inr t => exact absurd hcompares Sum.not_inl_lt_inr
      | eq => exact ⟨q, hcompares.symm, rfl⟩
      | gt => exact absurd rfl ho
    obtain ⟨b, hb, ht⟩ := standing?_eq_inl_iff.mp hs
    exact ⟨b, hb, q, t, hq, ht, hnumbers⟩

/-- A scalar comes before those of its kind that stand behind it. -/
theorem less_scalar_iff {u v : Value} {kind : OrderKind} (hu : u.orderKind = some kind)
    (hkind : kind ∉ [.list, .tuple]) : less u v = .ok true ↔
      ∃ r s, u.standing? = some r ∧ v.standing? = some s ∧ r < s := by
  cases kind with
  | number =>
    obtain ⟨a, ha⟩ := orderKind_eq_number_iff.mp hu
    refine Iff.trans ?_ (number_standing_iff ha (o := .lt) (by decide))
    constructor
    · intro h
      obtain ⟨kind, hukind, hvkind⟩ := exists_orderKind_of_less h
      obtain rfl := Option.some.inj (hu.symm.trans hukind)
      obtain ⟨b, hb⟩ := orderKind_eq_number_iff.mp hvkind
      rw [less_number ha hb] at h
      exact ⟨b, hb, eq_of_beq (Except.ok.inj h)⟩
    · rintro ⟨b, hb, hcompare⟩
      rw [less_number ha hb, hcompare]
      rfl
  | text =>
    cases u <;> cases hu
    cases v <;> simp [less, number?, standing?]
  | date =>
    cases u <;> cases hu
    cases v <;> simp [less, number?, standing?, dateBefore_iff]
  | list | tuple => simp at hkind

/-- A scalar equals those that stand where it stands. -/
theorem same_scalar_iff {u v : Value} {kind : OrderKind} (hu : u.orderKind = some kind)
    (hkind : kind ∉ [.list, .tuple]) : same u v = true ↔
      ∃ r, u.standing? = some r ∧ v.standing? = some r := by
  cases kind with
  | number =>
    obtain ⟨a, ha⟩ := orderKind_eq_number_iff.mp hu
    have hstands := number_standing_iff (v := v) ha (o := .eq) (by decide)
    rw [same_number ha]
    refine Iff.trans ?_ (hstands.trans ?_)
    · cases v.number? <;> simp
    · simp [Ordering.Compares]
  | text =>
    cases u <;> cases hu
    cases v <;> simp [same, number?, standing?, @eq_comm String]
  | date =>
    cases u <;> cases hu
    cases v <;> simp [same, number?, standing?, date_eq_iff, @eq_comm Nat]
  | list | tuple => simp at hkind

/-- Scalars of one kind stand in a line. -/
theorem standing_total {u v : Value} {kind : OrderKind} (hu : u.orderKind = some kind)
    (hv : v.orderKind = some kind) {r s : Standing} (hr : u.standing? = some r)
    (hs : v.standing? = some s) : r < s ∨ r = s ∨ s < r := by
  cases kind with
  | number =>
    obtain ⟨a, ha⟩ := orderKind_eq_number_iff.mp hu
    obtain ⟨b, hb⟩ := orderKind_eq_number_iff.mp hv
    rw [standing?_of_number ha] at hr
    rw [standing?_of_number hb] at hs
    obtain ⟨x, -, rfl⟩ := Option.map_eq_some_iff.mp hr
    obtain ⟨y, -, rfl⟩ := Option.map_eq_some_iff.mp hs
    simpa using lt_trichotomy x y
  | text =>
    cases u <;> cases hu
    cases v <;> cases hv
    cases hr
    cases hs
    simp only [Sum.inr_lt_inr_iff, Sum.inl_lt_inl_iff, Sum.inr.injEq, Sum.inl.injEq]
    exact lt_trichotomy _ _
  | date =>
    cases u <;> cases hu
    cases v <;> cases hv
    cases hr
    cases hs
    simp only [Sum.inr_lt_inr_iff, Sum.inr.injEq]
    exact lt_trichotomy _ _
  | list => cases u <;> cases hu; cases hr
  | tuple => cases u <;> cases hu; cases hr

end Value

end GuestCode
