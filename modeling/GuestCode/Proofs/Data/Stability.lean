import GuestCode.Proofs.Data.Sorting
import Mathlib.Data.List.Induction

/-!
# Stable sorting

Sorting takes a run at the start as it is, or turned round, and looks for the places of the other
elements by halving. If the order is a weak order, as far as it has an answer, all this comes to the
same as putting each element behind those that it does not come before, one after the other. So
elements that the order does not tell apart keep the order that they had, and what is left out
before sorting does not change the order of the others.

## Main statements

* `IsWeakOrder.sortBy_eq`: what has been sorted by a weak order.
* `Value.pairwise_sortDescending`: elements that are not told apart keep their order.
* `Value.sublist_sortDescending`: sorting fewer elements.
-/

namespace GuestCode

/-- Members that do not have a property, before members that do: nothing has moved if the property
is handed on from each member to those behind it. -/
theorem filter_not_append_filter {α : Type} {p : α → Bool} {xs : List α}
    (h : xs.Pairwise fun a b => p a = true → p b = true) :
    xs.filter (fun a => !p a) ++ xs.filter p = xs := by
  induction xs with
  | nil => rfl
  | cons x rest ih =>
    obtain ⟨hx, hrest⟩ := List.pairwise_cons.mp h
    cases hp : p x with
    | false =>
      rw [List.filter_cons_of_pos (by simp [hp]), List.filter_cons_of_neg (by simp [hp]),
        List.cons_append, ih hrest]
    | true =>
      have hall : ∀ y ∈ rest, p y = true := fun y hy => hx y hy hp
      have hnone : rest.filter (fun a => !p a) = [] :=
        List.filter_eq_nil_iff.mpr fun y hy => by simp [hall y hy]
      rw [List.filter_cons_of_neg (by simp [hp]), hnone, List.nil_append,
        List.filter_cons_of_pos hp, List.filter_eq_self.mpr hall]

section Stability

variable {α : Type} {less : α → α → Except Failure Bool} {P : α → Prop}

/-! ## Weak orders -/

/-- Among elements with a property, the order is a weak order as far as it has an answer. -/
structure IsWeakOrder (less : α → α → Except Failure Bool) (P : α → Prop) : Prop where
  /-- What can be compared can be compared the other way round, and does not come before on both
  sides. -/
  flip {a b : α} (ha : P a) (hb : P b) {before : Bool} (h : less a b = .ok before) :
    ∃ behind, less b a = .ok behind ∧ (before && behind) = false
  /-- Coming before is transitive, and so is not coming before. -/
  trans {a b c : α} (ha : P a) (hb : P b) (hc : P c) {before : Bool} (hab : less a b = .ok before)
    (hbc : less b c = .ok before) : less a c = .ok before

namespace IsWeakOrder

variable {a b c : α} (hless : IsWeakOrder less P)
include hless

theorem asymm (ha : P a) (hb : P b) (h : less a b = .ok true) : less b a = .ok false := by
  obtain ⟨behind, hbehind, hboth⟩ := hless.flip ha hb h
  rw [hbehind]
  exact congrArg Except.ok hboth

/-- What comes before an element comes before those that are not before this element. -/
theorem trans_not (ha : P a) (hb : P b) (hc : P c) (hab : less a b = .ok true)
    (hcb : less c b = .ok false) : less a c = .ok true := by
  have hca : less c a = .ok false := hless.trans hc hb ha hcb (hless.asymm ha hb hab)
  obtain ⟨before, hac, -⟩ := hless.flip hc ha hca
  cases before with
  | true => exact hac
  | false => cases hab.symm.trans (hless.trans ha hc hb hac hcb)

end IsWeakOrder

/-! ## Putting elements in one after the other -/

/-- Whether an element is known to come before another one. -/
def comesBefore (less : α → α → Except Failure Bool) (a b : α) : Bool :=
  (less a b).toOption.getD false

theorem comesBefore_eq {a b : α} {before : Bool} (h : less a b = .ok before) :
    comesBefore less a b = before := by
  rw [comesBefore, h]
  rfl

/-- An element put into a list before those that it comes before, and behind the others. -/
def insertBehind (less : α → α → Except Failure Bool) (sorted : List α) (x : α) : List α :=
  sorted.filter (fun y => !comesBefore less x y) ++ x :: sorted.filter (comesBefore less x)

/-- The elements of a list put in one after the other. -/
def stableSort (less : α → α → Except Failure Bool) (xs : List α) : List α :=
  xs.foldl (insertBehind less) []

theorem stableSort_concat (xs : List α) (x : α) :
    stableSort less (xs ++ [x]) = insertBehind less (stableSort less xs) x := by
  rw [stableSort, List.foldl_append]
  rfl

theorem perm_insertBehind (sorted : List α) (x : α) :
    (insertBehind less sorted x).Perm (x :: sorted) := by
  have hparts := List.filter_append_perm (fun y => !comesBefore less x y) sorted
  simp only [Bool.not_not] at hparts
  exact List.perm_middle.trans (.cons x hparts)

theorem perm_foldl_insertBehind (sorted xs : List α) :
    (xs.foldl (insertBehind less) sorted).Perm (sorted ++ xs) := by
  induction xs generalizing sorted with
  | nil => rw [List.append_nil]; exact .refl _
  | cons x rest ih =>
    exact (ih _).trans (((perm_insertBehind sorted x).append_right rest).trans
      List.perm_middle.symm)

theorem perm_stableSort (xs : List α) : (stableSort less xs).Perm xs :=
  perm_foldl_insertBehind [] xs

theorem pairwise_insertBehind {S : α → α → Prop} {sorted : List α} {x : α}
    (hdivided : sorted.filter (fun y => !comesBefore less x y) ++
      sorted.filter (comesBefore less x) = sorted)
    (hcompared : ∀ y ∈ sorted, ∃ before, less x y = .ok before) (hsorted : sorted.Pairwise S)
    (hbehind : ∀ y ∈ sorted, less x y = .ok false → S y x)
    (hbefore : ∀ y ∈ sorted, less x y = .ok true → S x y) :
    (insertBehind less sorted x).Pairwise S := by
  have htells : ∀ y ∈ sorted, less x y = .ok (comesBefore less x y) := by
    intro y hy
    obtain ⟨before, hxy⟩ := hcompared y hy
    rw [comesBefore_eq hxy, hxy]
  rw [← hdivided] at hsorted
  obtain ⟨hfront, hback, hacross⟩ := List.pairwise_append.mp hsorted
  refine List.pairwise_append.mpr ⟨hfront, List.pairwise_cons.mpr ⟨fun z hz => ?_, hback⟩, ?_⟩
  · obtain ⟨hmem, hz⟩ := List.mem_filter.mp hz
    exact hbefore z hmem (by rw [htells z hmem, hz])
  · intro y hy z hz
    rcases List.mem_cons.mp hz with rfl | hz
    · obtain ⟨hmem, hy⟩ := List.mem_filter.mp hy
      have hnot : comesBefore less z y = false := by simpa using hy
      exact hbehind y hmem (by rw [htells y hmem, hnot])
    · exact hacross y hy z hz

theorem insertBehind_of_divided {front back : List α} {x : α}
    (hfront : ∀ y ∈ front, less x y = .ok false) (hback : ∀ y ∈ back, less x y = .ok true) :
    insertBehind less (front ++ back) x = front ++ x :: back := by
  have hnot : ∀ y ∈ front, comesBefore less x y = false := fun y hy => comesBefore_eq (hfront y hy)
  have hdoes : ∀ y ∈ back, comesBefore less x y = true := fun y hy => comesBefore_eq (hback y hy)
  have hbehind : (front ++ back).filter (fun y => !comesBefore less x y) = front := by
    rw [List.filter_append, List.filter_eq_self.mpr fun y hy => by simp [hnot y hy],
      List.filter_eq_nil_iff.mpr fun y hy => by simp [hdoes y hy], List.append_nil]
  have hbefore : (front ++ back).filter (comesBefore less x) = back := by
    rw [List.filter_append, List.filter_eq_nil_iff.mpr fun y hy => by simp [hnot y hy],
      List.filter_eq_self.mpr hdoes, List.nil_append]
  rw [insertBehind, hbehind, hbefore]

/-- No element of the list comes before one that stands in front of it. -/
def Ascends (less : α → α → Except Failure Bool) (xs : List α) : Prop :=
  xs.Pairwise fun a b => less b a = .ok false

/-- Of two elements of the list the order tells whether the one comes before the other. -/
def Compared (less : α → α → Except Failure Bool) (xs : List α) : Prop :=
  xs.Pairwise fun a b => ∃ before, less b a = .ok before

namespace IsWeakOrder

variable (hless : IsWeakOrder less P)
include hless

/-- What an element is put into is divided by it. -/
theorem divided {sorted : List α} {x : α} (hsorted : Ascends less sorted)
    (hP : ∀ y ∈ sorted, P y) (hx : P x) :
    sorted.filter (fun y => !comesBefore less x y) ++ sorted.filter (comesBefore less x) =
      sorted := by
  refine filter_not_append_filter ?_
  refine hsorted.imp_of_mem fun {y z} hy hz hyz hbefore => ?_
  have hxy : less x y = .ok true := by
    cases h : less x y with
    | error failure => simp [comesBefore, h, Except.toOption] at hbefore
    | ok before => rw [← hbefore, comesBefore_eq h]
  exact comesBefore_eq (hless.trans_not hx (hP y hy) (hP z hz) hxy hyz)

theorem ascends_insertBehind {sorted : List α} {x : α} (hsorted : Ascends less sorted)
    (hP : ∀ y ∈ sorted, P y) (hx : P x)
    (hcompared : ∀ y ∈ sorted, ∃ before, less x y = .ok before) :
    Ascends less (insertBehind less sorted x) :=
  pairwise_insertBehind (hless.divided hsorted hP hx) hcompared hsorted (fun _ _ hxy => hxy)
    fun y hy hxy => hless.asymm hx (hP y hy) hxy

/-- Of two elements the one stands before the other because it comes before it, or because it stood
before it and the order does not tell them apart. -/
theorem pairwise_stableSort {R : α → α → Prop} {xs : List α} (hP : ∀ x ∈ xs, P x)
    (hcompared : Compared less xs) (hR : xs.Pairwise R) :
    (stableSort less xs).Pairwise fun a b =>
      less b a = .ok false ∧ (less a b = .ok true ∨ R a b) := by
  induction xs using List.reverseRecOn with
  | nil => exact .nil
  | append_singleton xs x ih =>
    obtain ⟨hxs, -, hlast⟩ := List.pairwise_append.mp hcompared
    obtain ⟨hRxs, -, hRlast⟩ := List.pairwise_append.mp hR
    obtain ⟨hPxs, hPx⟩ := List.forall_mem_append.mp hP
    have hx : x ∈ [x] := List.mem_singleton_self x
    have hmem : ∀ {y}, y ∈ stableSort less xs → y ∈ xs := (perm_stableSort xs).mem_iff.mp
    have hsorted := ih hPxs hxs hRxs
    have hPsorted : ∀ y ∈ stableSort less xs, P y := fun y hy => hPxs y (hmem hy)
    have hdivided := hless.divided (hsorted.imp And.left) hPsorted (hPx x hx)
    rw [stableSort_concat]
    refine pairwise_insertBehind hdivided (fun y hy => hlast y (hmem hy) x hx) hsorted
      (fun y hy hxy => ⟨hxy, .inr (hRlast y (hmem hy) x hx)⟩) fun y hy hxy => ?_
    exact ⟨hless.asymm (hPx x hx) (hPsorted y hy) hxy, .inl hxy⟩

theorem ascends_stableSort {xs : List α} (hP : ∀ x ∈ xs, P x) (hcompared : Compared less xs) :
    Ascends less (stableSort less xs) :=
  (hless.pairwise_stableSort (R := fun _ _ => True) hP hcompared
    (List.pairwise_of_forall fun _ _ => trivial)).imp And.left

/-- Fewer elements are sorted to fewer elements in the same order. -/
theorem sublist_stableSort {xs ys : List α} (hP : ∀ x ∈ xs, P x) (hcompared : Compared less xs)
    (h : ys.Sublist xs) : (stableSort less ys).Sublist (stableSort less xs) := by
  induction xs using List.reverseRecOn generalizing ys with
  | nil =>
    cases h
    exact .refl _
  | append_singleton xs x ih =>
    obtain ⟨hxs, -, -⟩ := List.pairwise_append.mp hcompared
    obtain ⟨hPxs, hPx⟩ := List.forall_mem_append.mp hP
    obtain ⟨front, last, rfl, hfront, hlast⟩ := List.sublist_append_iff.mp h
    have hsub := ih hPxs hxs hfront
    rw [stableSort_concat]
    rcases List.sublist_singleton.mp hlast with rfl | rfl
    · have hmem : ∀ y ∈ stableSort less xs, P y :=
        fun y hy => hPxs y ((perm_stableSort xs).mem_iff.mp hy)
      have hdivided := hless.divided (hless.ascends_stableSort hPxs hxs) hmem
        (hPx x (List.mem_singleton_self x))
      rw [List.append_nil]
      refine hsub.trans ?_
      calc stableSort less xs = _ := hdivided.symm
        List.Sublist _ _ := (List.Sublist.refl _).append (List.sublist_cons_self x _)
    · rw [stableSort_concat]
      exact (hsub.filter _).append ((hsub.filter _).cons_cons x)

end IsWeakOrder

/-! ## What sorting comes to -/

namespace IsWeakOrder

variable (hless : IsWeakOrder less P)
include hless

/-- The place of an element is behind those that it does not come before. -/
theorem insertionPlace_spec {sorted : Array α} {x : α} (hsorted : Ascends less sorted.toList)
    (hP : ∀ y ∈ sorted.toList, P y) (hx : P x) {low high place : Nat} (hlow : low ≤ high)
    (hhigh : high ≤ sorted.size) (hbehind : ∀ y ∈ sorted.toList.take low, less x y = .ok false)
    (hbefore : ∀ y ∈ sorted.toList.drop high, less x y = .ok true)
    (h : insertionPlace less sorted x low high = .ok place) :
    (∀ y ∈ sorted.toList.take place, less x y = .ok false) ∧
      ∀ y ∈ sorted.toList.drop place, less x y = .ok true := by
  fun_induction insertionPlace less sorted x low high with
  | case1 low high hlt middle hnone =>
    have hmiddle : middle < sorted.size := by omega
    simp [hmiddle] at hnone
  | case2 low high hlt middle m hm ihBefore ihBehind =>
    have hmiddle : low ≤ middle ∧ middle < high := by omega
    -- The element in the middle divides the others, which are in order with it.
    have hm : sorted.toList[middle]? = some m := by simpa using hm
    obtain ⟨hlength, hget⟩ := List.getElem?_eq_some_iff.mp hm
    have hdrop : sorted.toList.drop middle = m :: sorted.toList.drop (middle + 1) := by
      rw [List.drop_eq_getElem_cons hlength, hget]
    have htake : sorted.toList.take (middle + 1) = sorted.toList.take middle ++ [m] := by
      rw [List.take_add_one, hm]
      rfl
    have hPm : P m := hP m (List.mem_of_getElem? hm)
    have hparts := hsorted
    rw [← List.take_append_drop middle sorted.toList, hdrop, Ascends, List.pairwise_append,
      List.pairwise_cons] at hparts
    obtain ⟨-, ⟨hback, -⟩, hfront⟩ := hparts
    obtain ⟨before, hxm, h⟩ := Outcome.exists_of_bind_eq_ok h
    cases before with
    | true =>
      refine ihBefore hmiddle.1 (by omega) hbehind (fun y hy => ?_) h
      rw [hdrop] at hy
      rcases List.mem_cons.mp hy with rfl | hy
      · exact hxm
      · exact hless.trans_not hx hPm (hP y (List.mem_of_mem_drop hy)) hxm (hback y hy)
    | false =>
      refine ihBehind (by omega) hhigh (fun y hy => ?_) hbefore h
      rw [htake] at hy
      rcases List.mem_append.mp hy with hy | hy
      · exact hless.trans hx hPm (hP y (List.mem_of_mem_take hy)) hxm
          (hfront y hy m List.mem_cons_self)
      · rwa [List.mem_singleton.mp hy]
  | case3 low high hdone =>
    obtain rfl : low = place := Except.ok.inj h
    obtain rfl : low = high := by omega
    exact ⟨hbehind, hbefore⟩

/-- Elements that are inserted are put in one after the other. -/
theorem insertAll_eq {sorted : Array α} {others : List α} (hsorted : Ascends less sorted.toList)
    (hP : ∀ y ∈ sorted.toList ++ others, P y) {result : Array α}
    (h : insertAll less sorted others = .ok result) :
    result.toList = others.foldl (insertBehind less) sorted.toList ∧
      Ascends less result.toList := by
  induction others generalizing sorted with
  | nil =>
    cases h
    exact ⟨rfl, hsorted⟩
  | cons x rest ih =>
    obtain ⟨hPsorted, hPothers⟩ := List.forall_mem_append.mp hP
    obtain ⟨hPx, hPrest⟩ := List.forall_mem_cons.mp hPothers
    rw [insertAll] at h
    obtain ⟨place, hplace, h⟩ := Outcome.exists_of_bind_eq_ok h
    obtain ⟨hbehind, hbefore⟩ := hless.insertionPlace_spec hsorted hPsorted hPx (Nat.zero_le _)
      (Nat.le_refl _) (by simp) (by simp [← Array.length_toList]) hplace
    rw [← insertBehind_of_divided hbehind hbefore, List.take_append_drop] at h
    have hcompared : ∀ y ∈ sorted.toList, ∃ before, less x y = .ok before := by
      intro y hy
      rw [← List.take_append_drop place sorted.toList] at hy
      rcases List.mem_append.mp hy with hy | hy
      · exact ⟨_, hbehind y hy⟩
      · exact ⟨_, hbefore y hy⟩
    have hperm : (insertBehind less sorted.toList x).Perm (x :: sorted.toList) :=
      perm_insertBehind sorted.toList x
    refine @ih (insertBehind less sorted.toList x).toArray ?_ ?_ h
    · exact hless.ascends_insertBehind hsorted hPsorted hPx hcompared
    · refine List.forall_mem_append.mpr ⟨fun y hy => ?_, hPrest⟩
      exact List.forall_mem_cons.mpr ⟨hPx, hPsorted⟩ y (hperm.mem_iff.mp hy)

/-- The elements of a run come before all that were there, or before none of them, as each does
with the one before it. -/
theorem runAfter_spec {descending : Bool} {sorted rest run others : List α} {last : α}
    (hsorted : Ascends less sorted) (hP : ∀ y ∈ sorted ++ rest, P y) (hPlast : P last)
    (hlast : ∀ x, P x → less x last = .ok descending → ∀ y ∈ sorted, less x y = .ok descending)
    (h : runAfter less descending last rest = .ok (run, others)) :
    run ++ others = rest ∧ Ascends less (run.foldl (insertBehind less) sorted) ∧
      run.foldl (insertBehind less) sorted =
        if descending then run.reverse ++ sorted else sorted ++ run := by
  induction rest generalizing sorted run last with
  | nil =>
    cases h
    exact ⟨rfl, hsorted, by simp⟩
  | cons x rest ih =>
    obtain ⟨hPsorted, hPothers⟩ := List.forall_mem_append.mp hP
    obtain ⟨hPx, hPrest⟩ := List.forall_mem_cons.mp hPothers
    rw [runAfter] at h
    obtain ⟨before, hbefore, h⟩ := Outcome.exists_of_bind_eq_ok h
    split at h
    · next hgoes =>
      obtain ⟨⟨later, others'⟩, hlater, h⟩ := Outcome.exists_of_bind_eq_ok h
      obtain ⟨rfl, rfl⟩ := Prod.mk.inj (Except.ok.inj h)
      obtain rfl : before = descending := eq_of_beq hgoes
      have hall := hlast x hPx hbefore
      have hput : insertBehind less sorted x = if before then x :: sorted else sorted ++ [x] := by
        cases before with
        | true => exact @insertBehind_of_divided _ less [] sorted x (by simp) hall
        | false =>
          have hdivided := @insertBehind_of_divided _ less sorted [] x hall (by simp)
          rwa [List.append_nil] at hdivided
      have hmem : ∀ y ∈ insertBehind less sorted x, y = x ∨ y ∈ sorted := fun y hy =>
        List.mem_cons.mp ((perm_insertBehind sorted x).mem_iff.mp hy)
      obtain ⟨hrest, hascends, hfold⟩ := @ih (insertBehind less sorted x) later x
        (hless.ascends_insertBehind hsorted hPsorted hPx fun y hy => ⟨before, hall y hy⟩)
        (List.forall_mem_append.mpr
          ⟨fun y hy => (hmem y hy).elim (fun heq => heq ▸ hPx) (hPsorted y), hPrest⟩) hPx
        (fun z hPz hzx y hy => (hmem y hy).elim (fun heq => heq ▸ hzx) fun hy =>
          hless.trans hPz hPx (hPsorted y hy) hzx (hall y hy)) hlater
      refine ⟨congrArg (x :: ·) hrest, hascends, ?_⟩
      rw [List.foldl_cons, hfold, hput]
      cases before <;> simp
    · cases h
      exact ⟨rfl, hsorted, by simp⟩

/-- What has been sorted is what comes of putting one element in after the other. -/
theorem sortBy_eq {xs sorted : List α} (hP : ∀ x ∈ xs, P x) (h : sortBy less xs = .ok sorted) :
    sorted = stableSort less xs ∧ Ascends less sorted := by
  match xs with
  | [] =>
    cases h
    exact ⟨rfl, .nil⟩
  | [x] =>
    cases h
    exact ⟨rfl, List.pairwise_singleton _ x⟩
  | x :: y :: rest =>
    obtain ⟨hPx, hPothers⟩ := List.forall_mem_cons.mp hP
    obtain ⟨hPy, hPrest⟩ := List.forall_mem_cons.mp hPothers
    rw [sortBy] at h
    obtain ⟨descending, hfirst, h⟩ := Outcome.exists_of_bind_eq_ok h
    obtain ⟨⟨run, others⟩, hrun, h⟩ := Outcome.exists_of_bind_eq_ok h
    obtain ⟨result, hresult, h⟩ := Outcome.exists_of_bind_eq_ok h
    obtain rfl : result.toList = sorted := Except.ok.inj h
    -- The first two elements are a run already.
    have htwo : runAfter less descending x (y :: rest) = .ok (y :: run, others) := by
      rw [runAfter, hfirst]
      dsimp only [bind, Except.bind]
      rw [if_pos (beq_self_eq_true _), hrun]
      rfl
    obtain ⟨hrest, hascends, hfold⟩ :=
      hless.runAfter_spec (List.pairwise_singleton _ x)
        (List.forall_mem_append.mpr ⟨List.forall_mem_singleton.mpr hPx, hPothers⟩) hPx
        (fun z _ hz w hw => List.mem_singleton.mp hw ▸ hz) htwo
    have hstart : (if descending then (x :: y :: run).reverse else x :: y :: run) =
        (y :: run).foldl (insertBehind less) [x] := by
      rw [hfold]
      cases descending <;> simp
    have hperm : ((y :: run).foldl (insertBehind less) [x] ++ others).Perm (x :: y :: rest) := by
      rw [← hrest]
      exact (perm_foldl_insertBehind [x] (y :: run)).append_right others
    rw [hstart] at hresult
    obtain ⟨hsorted, hall⟩ :=
      hless.insertAll_eq hascends (fun z hz => hP z (hperm.mem_iff.mp hz)) hresult
    refine ⟨?_, hall⟩
    calc result.toList = (y :: run ++ others).foldl (insertBehind less) [x] :=
          hsorted.trans List.foldl_append.symm
      _ = stableSort less (x :: y :: rest) := by rw [hrest]; rfl

/-- Where sorting has come to an end the order tells elements apart, be it through others. -/
theorem compared_of_sortBy {xs sorted : List α} (hP : ∀ x ∈ xs, P x)
    (h : sortBy less xs = .ok sorted) : Compared less xs := by
  obtain ⟨rfl, hascends⟩ := hless.sortBy_eq hP h
  have hperm : (stableSort less xs).Perm xs := perm_stableSort xs
  have hmem : ∀ {a}, a ∈ stableSort less xs → P a := fun ha => hP _ (hperm.mem_iff.mp ha)
  have hboth : (stableSort less xs).Pairwise fun a b =>
      (∃ before, less b a = .ok before) ∧ ∃ before, less a b = .ok before := by
    refine hascends.imp_of_mem fun {a b} ha hb hba => ⟨⟨_, hba⟩, ?_⟩
    obtain ⟨before, hab, -⟩ := hless.flip (hmem hb) (hmem ha) hba
    exact ⟨before, hab⟩
  exact (hperm.pairwise hboth fun ⟨hba, hab⟩ => ⟨hab, hba⟩).imp And.left

/-- The order of keys is an order of what has the keys. -/
theorem comap {β : Type} (key : β → α) :
    IsWeakOrder (fun a b => less (key a) (key b)) fun a => P (key a) where
  flip ha hb _ h := hless.flip ha hb h
  trans ha hb hc _ hab hbc := hless.trans ha hb hc hab hbc

end IsWeakOrder

end Stability

/-! ## Sorting by a key, the greatest first -/

namespace Value

variable {α : Type} {P : Value → Prop} {key : α → Value} {xs sorted : List α}

theorem sortDescending_eq_ok_iff :
    sortDescending key xs = .ok sorted ↔
      sortBy (fun a b => less (key a) (key b)) xs.reverse = .ok sorted.reverse := by
  rw [sortDescending]
  cases sortBy (fun a b => less (key a) (key b)) xs.reverse with
  | error failure => simp [bind, Except.bind]
  | ok result =>
    simp only [bind, Except.bind, pure, Except.pure, Except.ok.injEq]
    exact List.reverse_eq_iff

/-- Fewer elements are sorted to fewer elements in the same order. -/
theorem sublist_sortDescending (hless : IsWeakOrder less P) (hP : ∀ x ∈ xs, P (key x))
    (h : sortDescending key xs = .ok sorted) {ys sorted' : List α} (hys : ys.Sublist xs)
    (h' : sortDescending key ys = .ok sorted') : sorted'.Sublist sorted := by
  have hkeys := hless.comap key
  have hback : ∀ x ∈ xs.reverse, P (key x) := fun x hx => hP x (List.mem_reverse.mp hx)
  have hback' : ∀ y ∈ ys.reverse, P (key y) :=
    fun y hy => hP y (hys.subset (List.mem_reverse.mp hy))
  have hsort := sortDescending_eq_ok_iff.mp h
  have hfewer := hkeys.sublist_stableSort hback (hkeys.compared_of_sortBy hback hsort) hys.reverse
  rw [← (hkeys.sortBy_eq hback hsort).1,
    ← (hkeys.sortBy_eq hback' (sortDescending_eq_ok_iff.mp h')).1] at hfewer
  exact List.reverse_sublist.mp hfewer

end Value

end GuestCode
