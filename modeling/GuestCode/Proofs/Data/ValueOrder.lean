import GuestCode.Proofs.Data.Scalars
import GuestCode.Proofs.Data.Stability
import GuestCode.Proofs.Json.Plain
import Mathlib.Data.List.Nodup
import Mathlib.Data.List.Perm.Subperm

/-!
# The order of values

Lists are compared at the first place where they differ, so what holds of their order rests on
equality: coming before and being equal are transitive whatever the values are. What is read from a
text has a weak order if no NaN is in it, and can be sorted by it.

## Main statements

* `Value.same_trans`, `Value.Relates.trans`: equality and order are transitive.
* `Value.isPassedOn_isSound`: what the reader puts together has no two entries of one name.
* `Value.isWeakOrder_less`: the order of what is read is a weak order, NaN apart.
-/

namespace GuestCode

namespace Value

/-! ## Parts of values -/

/-- The values that a value is put together from. -/
def parts : Value → List Value
  | list items | tuple items | set items => items
  | mapping entries => entries.flatMap fun e => [e.1, e.2]
  | knot _ body => [body]
  | _ => []

theorem sizeOf_lt_of_mem_parts {u v : Value} (h : u ∈ v.parts) : sizeOf u < sizeOf v := by
  cases v with
  | list items | tuple items | set items =>
    have hlt : sizeOf u < sizeOf items := List.sizeOf_lt_of_mem h
    exact hlt.trans (by simp)
  | mapping entries =>
    obtain ⟨⟨key, value⟩, he, hu⟩ := List.mem_flatMap.mp h
    have hlt := List.sizeOf_lt_of_mem he
    rcases List.mem_pair.mp hu with rfl | rfl <;> simp at hlt ⊢ <;> omega
  | knot label body =>
    obtain rfl := List.mem_singleton.mp h
    simp
  | _ => cases h

/-- What is handed on from the parts of values to the values holds of all values. -/
theorem induction_parts {motive : Value → Prop}
    (whole : ∀ v, (∀ part ∈ v.parts, motive part) → motive v) (v : Value) : motive v :=
  whole v fun part hpart =>
    have := sizeOf_lt_of_mem_parts hpart
    induction_parts whole part
termination_by sizeOf v

/-! ## Lists and tuples -/

/-- A list or a tuple of some members. -/
def group (isTuple : Bool) (items : List Value) : Value :=
  if isTuple then tuple items else list items

theorem less_group (isTuple : Bool) (xs ys : List Value) :
    less (group isTuple xs) (group isTuple ys) = lessList xs ys := by
  cases isTuple <;> simp [group, less]

theorem same_group (isTuple : Bool) (xs ys : List Value) :
    same (group isTuple xs) (group isTuple ys) = sameList xs ys := by
  cases isTuple <;> simp [group, same]

theorem orderKind_group (isTuple : Bool) (xs : List Value) :
    (group isTuple xs).orderKind = some (if isTuple then .tuple else .list) := by
  cases isTuple <;> rfl

/-- Only groups of one kind are compared. -/
theorem exists_group_of_orderKind {isTuple : Bool} {v : Value}
    (h : v.orderKind = some (if isTuple then .tuple else .list)) : ∃ ys, v = group isTuple ys := by
  cases isTuple <;> cases v <;> cases h <;> exact ⟨_, rfl⟩

theorem exists_group_of_less {isTuple : Bool} {xs : List Value} {v : Value} {before : Bool}
    (h : less (group isTuple xs) v = .ok before) :
    ∃ ys, v = group isTuple ys ∧ lessList xs ys = .ok before := by
  obtain ⟨kind, hgroup, hv⟩ := exists_orderKind_of_less h
  rw [orderKind_group] at hgroup
  cases hgroup
  obtain ⟨ys, rfl⟩ := exists_group_of_orderKind hv
  exact ⟨ys, rfl, less_group isTuple xs ys ▸ h⟩

theorem exists_group_of_same {isTuple : Bool} {xs : List Value} {v : Value}
    (h : same (group isTuple xs) v = true) :
    ∃ ys, v = group isTuple ys ∧ sameList xs ys = true := by
  cases isTuple <;> cases v <;> simp [same, group, number?] at h ⊢ <;> exact h

/-! ## What holds of all values -/

theorem orderKind_of_same {u v : Value} (h : same u v = true) : u.orderKind = v.orderKind := by
  unfold same at h
  split at h
  case h_12 =>
    split at h
    · next hu hv =>
      rw [orderKind_eq_number_iff.mpr ⟨_, hu⟩, orderKind_eq_number_iff.mpr ⟨_, hv⟩]
    · cases h
  all_goals rfl

theorem sameList_cons {x y : Value} {xs ys : List Value} :
    sameList (x :: xs) (y :: ys) = true ↔ same x y = true ∧ sameList xs ys = true := by
  rw [sameList, Bool.and_eq_true]

theorem sameMembers_iff {xs ys : List Value} :
    sameMembers xs ys = true ↔ ∀ x ∈ xs, ∃ y ∈ ys, same x y = true := by
  induction xs with
  | nil => simp [sameMembers]
  | cons x xs ih => rw [sameMembers, Bool.and_eq_true, List.any_eq_true, ih, List.forall_mem_cons]

theorem sameEntries_iff {es fs : List (Value × Value)} : sameEntries es fs = true ↔
    ∀ e ∈ es, ∃ f ∈ fs, same e.1 f.1 = true ∧ same e.2 f.2 = true := by
  induction es with
  | nil => simp [sameEntries]
  | cons e es ih =>
    rw [sameEntries, Bool.and_eq_true, List.any_eq_true, ih, List.forall_mem_cons]
    simp only [Bool.and_eq_true]

theorem sameList_trans {xs ys zs : List Value}
    (hmembers : ∀ x ∈ xs, ∀ y z, same x y = true → same y z = true → same x z = true)
    (hxy : sameList xs ys = true) (hyz : sameList ys zs = true) : sameList xs zs = true := by
  induction xs generalizing ys zs with
  | nil =>
    cases ys with
    | nil => exact hyz
    | cons y ys => simp [sameList] at hxy
  | cons x xs ih =>
    obtain ⟨hx, hxs⟩ := List.forall_mem_cons.mp hmembers
    cases ys with
    | nil => simp [sameList] at hxy
    | cons y ys =>
      cases zs with
      | nil => simp [sameList] at hyz
      | cons z zs =>
        obtain ⟨hsame, hsames⟩ := sameList_cons.mp hxy
        obtain ⟨hsame', hsames'⟩ := sameList_cons.mp hyz
        exact sameList_cons.mpr ⟨hx y z hsame hsame', ih hxs hsames hsames'⟩

theorem same_set_iff {xs : List Value} {v : Value} : same (set xs) v = true ↔
    ∃ ys, v = set ys ∧ xs.length = ys.length ∧ sameMembers xs ys = true := by
  cases v <;> simp [same, number?]

theorem same_mapping_iff {es : List (Value × Value)} {v : Value} : same (mapping es) v = true ↔
    ∃ fs, v = mapping fs ∧ es.length = fs.length ∧ sameEntries es fs = true := by
  cases v <;> simp [same, number?]

theorem same_knot_iff {label : Nat} {u v : Value} : same (knot label u) v = true ↔
    ∃ w, v = knot label w ∧ same u w = true := by
  cases v <;> simp [same, number?, @eq_comm Nat, and_comm]

theorem same_trans_scalar {u v w : Value} {kind : OrderKind} (hu : u.orderKind = some kind)
    (hkind : kind ∉ [.list, .tuple]) (huv : same u v = true) (hvw : same v w = true) :
    same u w = true := by
  obtain ⟨r, hr, hr'⟩ := (same_scalar_iff hu hkind).mp huv
  obtain ⟨s, hs, hs'⟩ := (same_scalar_iff ((orderKind_of_same huv).symm.trans hu) hkind).mp hvw
  obtain rfl := Option.some.inj (hr'.symm.trans hs)
  exact (same_scalar_iff hu hkind).mpr ⟨r, hr, hs'⟩

/-- Equality is transitive. -/
theorem same_trans {u v w : Value} (huv : same u v = true) (hvw : same v w = true) :
    same u w = true := by
  induction u using induction_parts generalizing v w with
  | whole u ih =>
    cases u with
    | null | moment _ | bytes _ => cases v <;> simp_all [same, number?]
    | again label isMapping =>
      cases v <;> simp [same, number?] at huv
      cases w <;> simp [same, number?] at hvw ⊢
      exact huv.trans hvw
    | bool _ | int _ | float _ => exact @same_trans_scalar _ v w .number rfl (by decide) huv hvw
    | text _ => exact @same_trans_scalar _ v w .text rfl (by decide) huv hvw
    | date _ => exact @same_trans_scalar _ v w .date rfl (by decide) huv hvw
    | list xs =>
      obtain ⟨ys, rfl, hxy⟩ := @exists_group_of_same false xs v huv
      obtain ⟨zs, rfl, hyz⟩ := exists_group_of_same hvw
      exact (same_group false xs zs).trans (sameList_trans (fun x hx y z => ih x hx) hxy hyz)
    | tuple xs =>
      obtain ⟨ys, rfl, hxy⟩ := @exists_group_of_same true xs v huv
      obtain ⟨zs, rfl, hyz⟩ := exists_group_of_same hvw
      exact (same_group true xs zs).trans (sameList_trans (fun x hx y z => ih x hx) hxy hyz)
    | set xs =>
      obtain ⟨ys, rfl, hlength, hxy⟩ := same_set_iff.mp huv
      obtain ⟨zs, rfl, hlength', hyz⟩ := same_set_iff.mp hvw
      refine same_set_iff.mpr ⟨zs, rfl, hlength.trans hlength', sameMembers_iff.mpr fun x hx => ?_⟩
      obtain ⟨y, hy, hsame⟩ := sameMembers_iff.mp hxy x hx
      obtain ⟨z, hz, hsame'⟩ := sameMembers_iff.mp hyz y hy
      exact ⟨z, hz, ih x hx hsame hsame'⟩
    | mapping es =>
      obtain ⟨fs, rfl, hlength, hef⟩ := same_mapping_iff.mp huv
      obtain ⟨gs, rfl, hlength', hfg⟩ := same_mapping_iff.mp hvw
      refine same_mapping_iff.mpr
        ⟨gs, rfl, hlength.trans hlength', sameEntries_iff.mpr fun e he => ?_⟩
      obtain ⟨f, hf, hkey, hvalue⟩ := sameEntries_iff.mp hef e he
      obtain ⟨g, hg, hkey', hvalue'⟩ := sameEntries_iff.mp hfg f hf
      have hparts : ∀ part ∈ [e.1, e.2], part ∈ (mapping es).parts :=
        fun part hpart => List.mem_flatMap.mpr ⟨e, he, hpart⟩
      exact ⟨g, hg, ih e.1 (hparts _ (by simp)) hkey hkey',
        ih e.2 (hparts _ (by simp)) hvalue hvalue'⟩
    | knot label body =>
      obtain ⟨body', rfl, hbody⟩ := same_knot_iff.mp huv
      obtain ⟨body'', rfl, hbody'⟩ := same_knot_iff.mp hvw
      exact same_knot_iff.mpr ⟨body'', rfl, ih body (List.mem_singleton_self body) hbody hbody'⟩

/-! ## Coming before -/

/-- Whatever holds of scalars and of values without an order, and is handed on from members to
their list or tuple, holds of all values. -/
theorem induction_members {motive : Value → Prop}
    (group : ∀ isTuple xs, (∀ x ∈ xs, motive x) → motive (group isTuple xs))
    (other : ∀ v : Value, (∀ kind, v.orderKind = some kind → kind ∉ [.list, .tuple]) → motive v)
    (v : Value) : motive v := by
  induction v using induction_parts with
  | whole v ih =>
    cases v with
    | list xs => exact group false xs ih
    | tuple xs => exact group true xs ih
    | _ => exact other _ (by simp [orderKind])

theorem not_sameList_of_lessList {xs ys : List Value}
    (hmembers : ∀ x ∈ xs, ∀ y, less x y = .ok true → same x y = false)
    (h : lessList xs ys = .ok true) : sameList xs ys = false := by
  induction xs generalizing ys with
  | nil =>
    cases ys with
    | nil => cases h
    | cons y ys => simp [sameList]
  | cons x xs ih =>
    obtain ⟨hx, hxs⟩ := List.forall_mem_cons.mp hmembers
    cases ys with
    | nil => cases h
    | cons y ys =>
      rw [lessList] at h
      rw [sameList]
      split at h
      · next heq => rw [heq, ih hxs h, Bool.and_false]
      · next hne => rw [Bool.eq_false_iff.mpr hne, Bool.false_and]

/-- What comes before a value does not equal it. -/
theorem not_same_of_less {u v : Value} (h : less u v = .ok true) : same u v = false := by
  induction u using induction_members generalizing v with
  | group isTuple xs ih =>
    obtain ⟨ys, rfl, hless⟩ := exists_group_of_less h
    rw [same_group]
    exact not_sameList_of_lessList (fun x hx y => ih x hx) hless
  | other u hother =>
    obtain ⟨kind, hu, -⟩ := exists_orderKind_of_less h
    obtain ⟨r, s, hr, hs, hlt⟩ := (less_scalar_iff hu (hother kind hu)).mp h
    refine Bool.eq_false_iff.mpr fun hsame => ?_
    obtain ⟨t, ht, ht'⟩ := (same_scalar_iff hu (hother kind hu)).mp hsame
    rw [hr] at ht
    rw [hs, ← ht] at ht'
    exact hlt.ne (Option.some.inj ht').symm

/-- One value comes before another one, or if this is not asked for equals it. -/
def Relates (strict : Bool) (u v : Value) : Prop :=
  if strict then less u v = .ok true else same u v = true

/-- One list comes before another one, or equals it. -/
def RelatesList (strict : Bool) (xs ys : List Value) : Prop :=
  if strict then lessList xs ys = .ok true else sameList xs ys = true

theorem relatesList_nil_iff {strict : Bool} {ys : List Value} :
    RelatesList strict [] ys ↔ strict = !ys.isEmpty := by
  cases strict <;> cases ys <;> simp [RelatesList, lessList, sameList]

theorem not_relatesList_nil {strict : Bool} {x : Value} {xs : List Value} :
    ¬RelatesList strict (x :: xs) [] := by
  cases strict <;> simp [RelatesList, lessList, sameList]

/-- The first difference tells which of two lists comes first. -/
theorem relatesList_cons_iff {strict : Bool} {x y : Value} {xs ys : List Value} :
    RelatesList strict (x :: xs) (y :: ys) ↔
      same x y = true ∧ RelatesList strict xs ys ∨ strict = true ∧ less x y = .ok true := by
  cases strict with
  | false => simp [RelatesList, sameList]
  | true =>
    simp only [RelatesList, lessList, if_true, true_and]
    split
    · next heq =>
      have hnot : less x y ≠ .ok true := fun h => by simp [not_same_of_less h] at heq
      simp [heq, hnot]
    · next hne => simp [hne]

theorem RelatesList.trans {strict strict' : Bool} {xs ys zs : List Value}
    (hmembers : ∀ x ∈ xs, ∀ y z strict strict', Relates strict x y → Relates strict' y z →
      Relates (strict || strict') x z)
    (hxy : RelatesList strict xs ys) (hyz : RelatesList strict' ys zs) :
    RelatesList (strict || strict') xs zs := by
  induction xs generalizing ys zs with
  | nil =>
    rw [relatesList_nil_iff] at hxy ⊢
    cases ys with
    | nil => rw [hxy, relatesList_nil_iff.mp hyz, List.isEmpty_nil, Bool.not_true, Bool.false_or]
    | cons y ys =>
      cases zs with
      | nil => exact absurd hyz not_relatesList_nil
      | cons z zs => rw [hxy, List.isEmpty_cons, List.isEmpty_cons, Bool.not_false, Bool.true_or]
  | cons x xs ih =>
    obtain ⟨hx, hxs⟩ := List.forall_mem_cons.mp hmembers
    cases ys with
    | nil => exact absurd hxy not_relatesList_nil
    | cons y ys =>
      cases zs with
      | nil => exact absurd hyz not_relatesList_nil
      | cons z zs =>
        rw [relatesList_cons_iff] at hxy hyz ⊢
        rcases hxy with ⟨hsame, hxy⟩ | ⟨rfl, hless⟩
        · rcases hyz with ⟨hsame', hyz⟩ | ⟨rfl, hless'⟩
          · exact .inl ⟨same_trans hsame hsame', ih hxs hxy hyz⟩
          · exact .inr ⟨Bool.or_true _, hx y z false true hsame hless'⟩
        · refine .inr ⟨Bool.true_or _, ?_⟩
          rcases hyz with ⟨hsame', -⟩ | ⟨-, hless'⟩
          · exact hx y z true false hless hsame'
          · exact hx y z true true hless hless'

theorem relates_group_iff {strict isTuple : Bool} {xs : List Value} {v : Value} :
    Relates strict (group isTuple xs) v ↔
      ∃ ys, v = group isTuple ys ∧ RelatesList strict xs ys := by
  constructor
  · intro h
    cases strict with
    | true => exact exists_group_of_less h
    | false => exact exists_group_of_same h
  · rintro ⟨ys, rfl, h⟩
    cases strict with
    | true => exact (less_group isTuple xs ys).trans h
    | false => exact (same_group isTuple xs ys).trans h

theorem Relates.orderKind_eq {strict : Bool} {u v : Value} (h : Relates strict u v) :
    u.orderKind = v.orderKind := by
  cases strict with
  | true =>
    obtain ⟨kind, hu, hv⟩ := exists_orderKind_of_less h
    rw [hu, hv]
  | false => exact orderKind_of_same h

theorem relates_scalar_iff {strict : Bool} {u v : Value} {kind : OrderKind}
    (hu : u.orderKind = some kind) (hkind : kind ∉ [.list, .tuple]) : Relates strict u v ↔
      ∃ r s, u.standing? = some r ∧ v.standing? = some s ∧ if strict then r < s else r = s := by
  cases strict with
  | true => exact less_scalar_iff hu hkind
  | false =>
    refine (same_scalar_iff hu hkind).trans ?_
    simp

/-- Coming before and being equal are transitive, together and each of them. -/
theorem Relates.trans {strict strict' : Bool} {u v w : Value} (huv : Relates strict u v)
    (hvw : Relates strict' v w) : Relates (strict || strict') u w := by
  induction u using induction_members generalizing v w strict strict' with
  | group isTuple xs ih =>
    obtain ⟨ys, rfl, hxy⟩ := relates_group_iff.mp huv
    obtain ⟨zs, rfl, hyz⟩ := relates_group_iff.mp hvw
    have hxz := RelatesList.trans (fun x hx y z s s' => ih x hx) hxy hyz
    exact relates_group_iff.mpr ⟨zs, rfl, hxz⟩
  | other u hother =>
    cases hu : u.orderKind with
    | none =>
      -- What has no order is only equal to something.
      cases strict with
      | true =>
        obtain ⟨kind, hkind, -⟩ := exists_orderKind_of_less huv
        cases hu.symm.trans hkind
      | false =>
        cases strict' with
        | true =>
          obtain ⟨kind, hkind, -⟩ := exists_orderKind_of_less hvw
          cases hu.symm.trans (huv.orderKind_eq.trans hkind)
        | false => exact same_trans huv hvw
    | some kind =>
      have hkind := hother kind hu
      obtain ⟨r, s, hr, hs, hrs⟩ := (relates_scalar_iff hu hkind).mp huv
      obtain ⟨s', t, hs', ht, hst⟩ :=
        (relates_scalar_iff (huv.orderKind_eq.symm.trans hu) hkind).mp hvw
      obtain rfl := Option.some.inj (hs.symm.trans hs')
      refine (relates_scalar_iff hu hkind).mpr ⟨r, t, hr, ht, ?_⟩
      cases strict <;> cases strict'
      · exact hrs.trans hst
      · exact hrs.trans_lt hst
      · exact hrs.trans_eq hst
      · exact lt_trans hrs hst

/-- Coming before is transitive. -/
theorem less_trans {u v w : Value} (huv : less u v = .ok true) (hvw : less v w = .ok true) :
    less u w = .ok true :=
  @Relates.trans true true u v w huv hvw

/-! ## Values that are read -/

/-- Values of the kinds that are read from texts, whose mappings have no two entries of one name. -/
inductive IsSound : Value → Prop where
  | null : IsSound .null
  | bool (b : Bool) : IsSound (.bool b)
  | int (n : Int) : IsSound (.int n)
  | float (x : Binary64) : IsSound (.float x)
  | text (s : String) : IsSound (.text s)
  | list {items : List Value} (members : ∀ v ∈ items, IsSound v) : IsSound (.list items)
  | mapping {entries : List (Value × Value)} (keys : ∀ e ∈ entries, ∃ s, e.1 = .text s)
      (distinct : (entries.map Prod.fst).Nodup) (values : ∀ e ∈ entries, IsSound e.2) :
      IsSound (.mapping entries)

theorem IsSound.of_mem {items : List Value} (h : IsSound (.list items)) {v : Value}
    (hv : v ∈ items) : v.IsSound := by
  cases h with
  | list members => exact members v hv

theorem same_text_iff {s : String} {v : Value} : same (text s) v = true ↔ v = text s := by
  cases v <;> simp [same, number?, @eq_comm String]

theorem mem_insert {key value : Value} {entries : List (Value × Value)} {e : Value × Value}
    (h : e ∈ Value.insert key value entries) : e ∈ entries ∨ e.2 = value ∧
      (e.1 = key ∨ e.1 ∈ entries.map Prod.fst) := by
  induction entries with
  | nil =>
    obtain rfl := List.mem_singleton.mp h
    exact .inr ⟨rfl, .inl rfl⟩
  | cons first rest ih =>
    rw [Value.insert] at h
    split at h
    · rcases List.mem_cons.mp h with rfl | h
      · exact .inr ⟨rfl, .inr (by simp)⟩
      · exact .inl (List.mem_cons_of_mem _ h)
    · rcases List.mem_cons.mp h with rfl | h
      · exact .inl List.mem_cons_self
      · rcases ih h with hmem | ⟨hvalue, hkey⟩
        · exact .inl (List.mem_cons_of_mem _ hmem)
        · exact .inr ⟨hvalue, hkey.imp_right fun hmem => List.mem_cons_of_mem _ hmem⟩

theorem nodup_insert {name : String} {value : Value} {entries : List (Value × Value)}
    (hkeys : ∀ e ∈ entries, ∃ s, e.1 = .text s) (h : (entries.map Prod.fst).Nodup) :
    ((Value.insert (.text name) value entries).map Prod.fst).Nodup := by
  induction entries with
  | nil => exact List.nodup_singleton _
  | cons first rest ih =>
    obtain ⟨⟨s, hs⟩, hrest⟩ := List.forall_mem_cons.mp hkeys
    obtain ⟨hfirst, hnodup⟩ := List.nodup_cons.mp h
    rw [Value.insert]
    split
    · exact h
    · next hne =>
      refine List.nodup_cons.mpr ⟨fun hmem => ?_, ih hrest hnodup⟩
      obtain ⟨e, he, heq⟩ := List.mem_map.mp hmem
      dsimp only at heq
      rcases mem_insert he with hold | ⟨-, hkey | hold⟩
      · exact hfirst (heq ▸ List.mem_map_of_mem hold)
      · rw [hs] at hne
        exact hne (same_text_iff.mpr (hkey.symm.trans (heq.trans hs)))
      · exact hfirst (heq ▸ hold)

theorem isPassedOn_isSound : Json.IsPassedOn IsSound where
  null := .null
  bool b := .bool b
  int _ := .int _
  float x := .float x
  text s := .text s
  list members := .list members
  empty := .mapping (by simp) (by simp) (by simp)
  insert := by
    rintro entries v (- | - | - | - | - | - | ⟨hkeys, hdistinct, hvalues⟩) hv key
    refine .mapping (fun e he => ?_) (nodup_insert hkeys hdistinct) fun e he => ?_
    · rcases mem_insert he with hold | ⟨-, hkey | hold⟩
      · exact hkeys e hold
      · exact ⟨key, hkey⟩
      · obtain ⟨e', he', heq⟩ := List.mem_map.mp hold
        exact heq ▸ hkeys e' he'
    · rcases mem_insert he with hold | ⟨hvalue, -⟩
      · exact hvalues e hold
      · exact hvalue ▸ hv

/-- Whether a value holds what is no number, as a member or deeper inside. -/
inductive HoldsNaN : Value → Prop where
  | nan : HoldsNaN (.float .nan)
  | part {u v : Value} (mem : u ∈ v.parts) (holds : HoldsNaN u) : HoldsNaN v

theorem sameList_symm {xs ys : List Value}
    (hmembers : ∀ x ∈ xs, ∀ y ∈ ys, same x y = true → same y x = true)
    (h : sameList xs ys = true) : sameList ys xs = true := by
  induction xs generalizing ys with
  | nil =>
    cases ys with
    | nil => exact h
    | cons y ys => simp [sameList] at h
  | cons x xs ih =>
    cases ys with
    | nil => simp [sameList] at h
    | cons y ys =>
      obtain ⟨hsame, hsames⟩ := sameList_cons.mp h
      refine sameList_cons.mpr ⟨hmembers x (by simp) y (by simp) hsame, ih ?_ hsames⟩
      exact fun z hz w hw => hmembers z (List.mem_cons_of_mem _ hz) w (List.mem_cons_of_mem _ hw)

/-- Without two entries of one name, entries that equal others are all of them. -/
theorem sameEntries_symm {es fs : List (Value × Value)} (hkeys : ∀ e ∈ es, ∃ s, e.1 = .text s)
    (hdistinct : (es.map Prod.fst).Nodup) (hdistinct' : (fs.map Prod.fst).Nodup)
    (hlength : es.length = fs.length)
    (hvalues : ∀ e ∈ es, ∀ f ∈ fs, same e.2 f.2 = true → same f.2 e.2 = true)
    (h : sameEntries es fs = true) : sameEntries fs es = true := by
  have hmatch : ∀ e ∈ es, ∃ f ∈ fs, e.1 = f.1 ∧ same e.2 f.2 = true := by
    intro e he
    obtain ⟨f, hf, hkey, hvalue⟩ := sameEntries_iff.mp h e he
    obtain ⟨s, hs⟩ := hkeys e he
    rw [hs, same_text_iff] at hkey
    exact ⟨f, hf, hs.trans hkey.symm, hvalue⟩
  have hsubset : es.map Prod.fst ⊆ fs.map Prod.fst := by
    intro key hkey
    obtain ⟨e, he, rfl⟩ := List.mem_map.mp hkey
    obtain ⟨f, hf, heq, -⟩ := hmatch e he
    exact heq ▸ List.mem_map_of_mem hf
  have hperm : (es.map Prod.fst).Perm (fs.map Prod.fst) :=
    (hdistinct.subperm hsubset).perm_of_length_le (by simp [hlength])
  refine sameEntries_iff.mpr fun f hf => ?_
  obtain ⟨e, he, heq⟩ := List.mem_map.mp (hperm.mem_iff.mpr (List.mem_map_of_mem hf))
  obtain ⟨f', hf', hkey, hvalue⟩ := hmatch e he
  -- Only one of the entries has this name.
  obtain rfl : f' = f := List.inj_on_of_nodup_map hdistinct' hf' hf (hkey.symm.trans heq)
  obtain ⟨s, hs⟩ := hkeys e he
  exact ⟨e, he, by rw [← hkey, hs]; exact same_text_iff.mpr rfl, hvalues e he f' hf' hvalue⟩

theorem same_symm_scalar {u v : Value} {kind : OrderKind} (hu : u.orderKind = some kind)
    (hkind : kind ∉ [.list, .tuple]) (h : same u v = true) : same v u = true := by
  obtain ⟨r, hr, hr'⟩ := (same_scalar_iff hu hkind).mp h
  exact (same_scalar_iff ((orderKind_of_same h).symm.trans hu) hkind).mpr ⟨r, hr', hr⟩

theorem same_symm {u v : Value} (hu : u.IsSound) (hv : v.IsSound) (h : same u v = true) :
    same v u = true := by
  induction hu generalizing v with
  | null => cases hv <;> simp_all [same, number?]
  | bool _ | int _ | float _ => exact @same_symm_scalar _ v .number rfl (by decide) h
  | text _ => exact @same_symm_scalar _ v .text rfl (by decide) h
  | @list xs members ih =>
    obtain ⟨ys, rfl, hsame⟩ := @exists_group_of_same false xs v h
    cases hv with
    | list members' =>
      exact (same_group false ys xs).trans
        (sameList_symm (fun x hx y hy hxy => ih x hx (members' y hy) hxy) hsame)
  | mapping keys distinct values ih =>
    obtain ⟨fs, rfl, hlength, hsame⟩ := same_mapping_iff.mp h
    cases hv with
    | mapping keys' distinct' values' =>
      exact same_mapping_iff.mpr ⟨_, rfl, hlength.symm, sameEntries_symm keys distinct distinct'
        hlength (fun e he f hf hef => ih e he (values' f hf) hef) hsame⟩

/-! ## A weak order -/

/-- What is no NaN stands somewhere, if it is a scalar that has an order. -/
theorem exists_standing {v : Value} {kind : OrderKind} (hv : v.orderKind = some kind)
    (hkind : kind ∉ [.list, .tuple]) (hnan : ¬v.HoldsNaN) : ∃ r, v.standing? = some r := by
  cases v with
  | list | tuple => cases hv; simp at hkind
  | float x =>
    cases x with
    | finite | infinite => exact ⟨_, rfl⟩
    | nan => exact absurd .nan hnan
  | bool | int | text | date => exact ⟨_, rfl⟩
  | _ => cases hv

/-- Values that are compared one way can be compared the other way: they do not come before each
other, and if neither does they are equal. -/
def Opposes (u v : Value) (before : Bool) : Prop :=
  ∃ behind, less v u = .ok behind ∧ (before && behind) = false ∧
    (before = false → behind = false → same u v = true)

theorem exists_lessList_flip {xs ys : List Value} {before : Bool}
    (hmembers : ∀ x ∈ xs, ∀ y ∈ ys, ∀ before, less x y = .ok before → Opposes x y before)
    (hsymm : ∀ x ∈ xs, ∀ y ∈ ys, (same x y = true ↔ same y x = true))
    (h : lessList xs ys = .ok before) :
    ∃ behind, lessList ys xs = .ok behind ∧ (before && behind) = false ∧
      (before = false → behind = false → sameList xs ys = true) := by
  induction xs generalizing ys with
  | nil =>
    cases ys with
    | nil => exact ⟨false, rfl, by simp, by simp [sameList]⟩
    | cons y ys =>
      cases h
      exact ⟨false, rfl, by simp, by simp⟩
  | cons x xs ih =>
    cases ys with
    | nil =>
      cases h
      exact ⟨true, rfl, by simp, by simp⟩
    | cons y ys =>
      rw [lessList] at h ⊢
      by_cases heq : same x y = true
      · rw [if_pos heq] at h
        rw [if_pos ((hsymm x (by simp) y (by simp)).mp heq)]
        obtain ⟨behind, hbehind, hboth, hneither⟩ := ih
          (fun z hz w hw => hmembers z (List.mem_cons_of_mem _ hz) w (List.mem_cons_of_mem _ hw))
          (fun z hz w hw => hsymm z (List.mem_cons_of_mem _ hz) w (List.mem_cons_of_mem _ hw)) h
        exact ⟨behind, hbehind, hboth, fun hb hb' => sameList_cons.mpr ⟨heq, hneither hb hb'⟩⟩
      · rw [if_neg heq] at h
        rw [if_neg (mt (hsymm x (by simp) y (by simp)).mpr heq)]
        obtain ⟨behind, hbehind, hboth, hneither⟩ := hmembers x (by simp) y (by simp) before h
        exact ⟨behind, hbehind, hboth, fun hb hb' => absurd (hneither hb hb') heq⟩

theorem opposes_of_less {u v : Value} (hu : u.IsSound) (hv : v.IsSound) (hunan : ¬u.HoldsNaN)
    (hvnan : ¬v.HoldsNaN) {before : Bool} (h : less u v = .ok before) : Opposes u v before := by
  induction u using induction_members generalizing v before with
  | group isTuple xs ih =>
    obtain ⟨ys, rfl, hless⟩ := exists_group_of_less h
    cases isTuple with
    | true => cases hu
    | false =>
      have hsound : ∀ x ∈ xs, x.IsSound := fun x hx => hu.of_mem hx
      have hsound' : ∀ y ∈ ys, y.IsSound := fun y hy => hv.of_mem hy
      obtain ⟨behind, hbehind, hboth, hneither⟩ := exists_lessList_flip
        (fun x hx y hy before => ih x hx (hsound x hx) (hsound' y hy)
          (fun hnan => hunan (.part hx hnan)) fun hnan => hvnan (.part hy hnan))
        (fun x hx y hy => ⟨same_symm (hsound x hx) (hsound' y hy),
          same_symm (hsound' y hy) (hsound x hx)⟩) hless
      exact ⟨behind, (less_group false ys xs).trans hbehind, hboth,
        fun hb hb' => (same_group false xs ys).trans (hneither hb hb')⟩
  | other u hother =>
    obtain ⟨kind, hukind, hvkind⟩ := exists_orderKind_of_less h
    have hkind := hother kind hukind
    obtain ⟨r, hr⟩ := exists_standing hukind hkind hunan
    obtain ⟨s, hs⟩ := exists_standing hvkind hkind hvnan
    obtain ⟨behind, hbehind⟩ := exists_less_of_orderKind hvkind hukind hkind
    have hbefore : before = true ↔ r < s := by
      have hless := less_scalar_iff (v := v) hukind hkind
      rw [h, hr, hs] at hless
      simpa using hless
    have hbehind' : behind = true ↔ s < r := by
      have hless := less_scalar_iff (v := u) hvkind hkind
      rw [hbehind, hr, hs] at hless
      simpa using hless
    refine ⟨behind, hbehind, ?_, fun hb hb' => ?_⟩
    · rw [Bool.and_eq_false_iff, Bool.eq_false_iff, Bool.eq_false_iff, Ne, Ne, hbefore, hbehind']
      exact (em (r < s)).symm.imp_right fun hlt => hlt.asymm
    · refine (same_scalar_iff hukind hkind).mpr ⟨r, hr, ?_⟩
      rcases standing_total hukind hvkind hr hs with hlt | rfl | hlt
      · cases hb.symm.trans (hbefore.mpr hlt)
      · exact hs
      · cases hb'.symm.trans (hbehind'.mpr hlt)

theorem lessList_of_same {xs ys : List Value} (h : sameList xs ys = true) :
    lessList xs ys = .ok false := by
  induction xs generalizing ys with
  | nil =>
    cases ys with
    | nil => rfl
    | cons y ys => simp [sameList] at h
  | cons x xs ih =>
    cases ys with
    | nil => simp [sameList] at h
    | cons y ys =>
      obtain ⟨hsame, hsames⟩ := sameList_cons.mp h
      rw [lessList, if_pos hsame, ih hsames]

/-- Equal values that have an order do not come before each other. -/
theorem less_of_same {u v : Value} {kind : OrderKind} (hu : u.orderKind = some kind)
    (h : same u v = true) : less u v = .ok false := by
  have hgroup : ∀ isTuple xs, u = group isTuple xs → less u v = .ok false := by
    rintro isTuple xs rfl
    obtain ⟨ys, rfl, hsame⟩ := exists_group_of_same h
    rw [less_group, lessList_of_same hsame]
  by_cases hkind : kind ∈ [.list, .tuple]
  · cases u with
    | list xs => exact hgroup false xs rfl
    | tuple xs => exact hgroup true xs rfl
    | _ => cases hu <;> simp at hkind
  · obtain ⟨before, hbefore⟩ :=
      exists_less_of_orderKind hu ((orderKind_of_same h).symm.trans hu) hkind
    cases before with
    | false => exact hbefore
    | true => cases h.symm.trans (not_same_of_less hbefore)

/-- The order of what is read from texts is a weak order, NaN apart. -/
theorem isWeakOrder_less : IsWeakOrder less fun v => v.IsSound ∧ ¬v.HoldsNaN where
  flip ha hb _ h := by
    obtain ⟨behind, hbehind, hboth, -⟩ := opposes_of_less ha.1 hb.1 ha.2 hb.2 h
    exact ⟨behind, hbehind, hboth⟩
  trans {a b c} ha hb hc before hab hbc := by
    cases before with
    | true => exact less_trans hab hbc
    | false =>
      -- What does not come before a value comes behind it or equals it.
      have hbehind : ∀ {u v : Value}, u.IsSound ∧ ¬u.HoldsNaN → v.IsSound ∧ ¬v.HoldsNaN →
          less u v = .ok false → ∃ strict, Relates strict v u := by
        intro u v hu hv h
        obtain ⟨behind, hbehind, -, hneither⟩ := opposes_of_less hu.1 hv.1 hu.2 hv.2 h
        cases behind with
        | true => exact ⟨true, hbehind⟩
        | false => exact ⟨false, same_symm hu.1 hv.1 (hneither rfl rfl)⟩
      obtain ⟨strict, hba⟩ := hbehind ha hb hab
      obtain ⟨strict', hcb⟩ := hbehind hb hc hbc
      have hca : Relates (strict' || strict) c a := hcb.trans hba
      cases hstrict : strict' || strict with
      | true =>
        rw [hstrict] at hca
        obtain ⟨before, hac, hboth, -⟩ := opposes_of_less hc.1 ha.1 hc.2 ha.2 hca
        rw [hac]
        exact congrArg Except.ok hboth
      | false =>
        rw [hstrict] at hca
        obtain ⟨kind, hkind, -⟩ := exists_orderKind_of_less hab
        exact less_of_same hkind (same_symm hc.1 ha.1 hca)

end Value

end GuestCode
