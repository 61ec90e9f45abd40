import GuestCode.Data.Order
import GuestCode.Proofs.Data.Outcome
import Mathlib.Data.List.Perm.Basic

/-!
# Sorting by an order that may fail

Sorting fails only where the order fails. What has been sorted has kept its elements, and of two or
more elements each has been compared with another one; so if the order compares only elements of one
kind, all elements are of one kind.

## Main statements

* `Value.exists_orderKind_of_less`: values that have been compared are of one kind.
* `sorts_sortBy`, `Value.sorts_sortDescending`: what sorting comes to.
-/

namespace GuestCode

/-! ## Kinds of values -/

namespace Value

/-- The kinds of values that have an order. -/
inductive OrderKind where
  | number
  | text
  | date
  | list
  | tuple
deriving Repr, DecidableEq

/-- The kind of a value, if values of this kind have an order. -/
def orderKind : Value → Option OrderKind
  | bool _ | int _ | float _ => some .number
  | text _ => some .text
  | date _ => some .date
  | list _ => some .list
  | tuple _ => some .tuple
  | _ => none

theorem orderKind_eq_number_iff {v : Value} :
    v.orderKind = some .number ↔ ∃ x, v.number? = some x := by
  cases v <;> simp [orderKind, number?]

/-- Values that have been compared are of one kind. -/
theorem exists_orderKind_of_less {v w : Value} {b : Bool} (h : less v w = .ok b) :
    ∃ kind, v.orderKind = some kind ∧ w.orderKind = some kind := by
  unfold less at h
  split at h
  · exact ⟨.text, rfl, rfl⟩
  · exact ⟨.date, rfl, rfl⟩
  · exact ⟨.list, rfl, rfl⟩
  · exact ⟨.tuple, rfl, rfl⟩
  · split at h
    · next hv hw =>
      exact ⟨.number, orderKind_eq_number_iff.mpr ⟨_, hv⟩, orderKind_eq_number_iff.mpr ⟨_, hw⟩⟩
    · cases h

/-- Numbers can be compared with numbers, texts with texts and dates with dates. -/
theorem exists_less_of_orderKind {v w : Value} {kind : OrderKind} (hv : v.orderKind = some kind)
    (hw : w.orderKind = some kind) (hkind : kind ∉ [.list, .tuple]) : ∃ b, less v w = .ok b := by
  cases kind with
  | number =>
    obtain ⟨x, hx⟩ := orderKind_eq_number_iff.mp hv
    obtain ⟨y, hy⟩ := orderKind_eq_number_iff.mp hw
    unfold less
    split
    · exact ⟨_, rfl⟩
    · exact ⟨_, rfl⟩
    · cases hx
    · cases hx
    · rw [hx, hy]
      exact ⟨_, rfl⟩
  | text | date =>
    cases v <;> cases hv
    cases w <;> cases hw
    exact ⟨_, by rw [less]⟩
  | list | tuple => simp at hkind

theorem less_text (s t : String) : less (.text s) (.text t) = .ok (s < t) := by
  rw [less]

end Value

/-! ## Steps of sorting -/

section Steps

variable {α β γ κ : Type} {less : α → α → Except Failure Bool} {xs : List α}

/-- What a step of sorting some elements comes to: a result, or the failure of comparing two of
these elements. -/
def Sorts (less : α → α → Except Failure Bool) (xs : List α) (outcome : Except Failure β)
    (result : β → Prop) : Prop :=
  match outcome with
  | .ok b => result b
  | .error failure => ∃ a ∈ xs, ∃ b ∈ xs, less a b = .error failure

namespace Sorts

variable {outcome : Except Failure β} {result result' : β → Prop}

theorem pure {b : β} (h : result b) : Sorts less xs (.ok b) result := h

theorem compared {a b : α} (ha : a ∈ xs) (hb : b ∈ xs) :
    Sorts less xs (less a b) fun before => less a b = .ok before := by
  unfold Sorts
  split
  · next before hbefore => exact hbefore
  · next failure hfailure => exact ⟨a, ha, b, hb, hfailure⟩

theorem bind {f : β → Except Failure γ} {final : γ → Prop} (h : Sorts less xs outcome result)
    (hf : ∀ b, result b → Sorts less xs (f b) final) : Sorts less xs (outcome >>= f) final := by
  cases outcome with
  | error failure => exact h
  | ok b => exact hf b h

theorem mono (h : Sorts less xs outcome result) (himp : ∀ b, result b → result' b) :
    Sorts less xs outcome result' := by
  cases outcome with
  | error failure => exact h
  | ok b => exact himp b h

/-- The elements may be in another order. -/
theorem perm {ys : List α} (h : Sorts less xs outcome result) (hperm : xs.Perm ys) :
    Sorts less ys outcome result := by
  cases outcome with
  | ok b => exact h
  | error failure =>
    obtain ⟨a, ha, b, hb, hfailure⟩ := h
    exact ⟨a, hperm.mem_iff.mp ha, b, hperm.mem_iff.mp hb, hfailure⟩

/-- Where all elements can be compared there is a result. -/
theorem exists_ok (h : Sorts less xs outcome result)
    (hcompared : ∀ a ∈ xs, ∀ b ∈ xs, ∃ before, less a b = .ok before) :
    ∃ b, outcome = .ok b ∧ result b := by
  cases outcome with
  | ok b => exact ⟨b, rfl, h⟩
  | error failure =>
    obtain ⟨a, ha, b, hb, hfailure⟩ := h
    obtain ⟨before, hbefore⟩ := hcompared a ha b hb
    cases hfailure.symm.trans hbefore

end Sorts

/-- An element is compared with one of those that it is inserted between. -/
theorem sorts_insertionPlace {sorted : Array α} {pivot : α} (hpivot : pivot ∈ xs)
    (hsorted : ∀ y ∈ sorted, y ∈ xs) (low high : Nat) :
    Sorts less xs (insertionPlace less sorted pivot low high) fun _ =>
      low < high → high ≤ sorted.size → ∃ y ∈ sorted, ∃ before, less pivot y = .ok before := by
  -- The first comparison is with the element in the middle; the others may fail as well.
  fun_induction insertionPlace less sorted pivot low high with
  | case1 low high hlow middle hnone =>
    refine .pure fun _ hhigh => ?_
    have hmiddle : middle < sorted.size := by omega
    simp [hmiddle] at hnone
  | case2 low high hlow middle x hx ihBefore ihBehind =>
    have hmem : x ∈ sorted := Array.mem_of_getElem? hx
    refine (Sorts.compared hpivot (hsorted x hmem)).bind fun before hbefore => ?_
    have hfound : ∃ y ∈ sorted, ∃ before, less pivot y = .ok before :=
      ⟨x, hmem, before, hbefore⟩
    cases before with
    | true => exact ihBefore.mono fun _ _ _ _ => hfound
    | false => exact ihBehind.mono fun _ _ _ _ => hfound
  | case3 low high hlow => exact .pure fun hlt => absurd hlt hlow

/-- The order compares only elements of one kind. -/
def ComparesKinds (less : α → α → Except Failure Bool) (kind : α → Option κ) : Prop :=
  ∀ a b before, less a b = .ok before → ∃ k, kind a = some k ∧ kind b = some k

variable {kind : α → Option κ}

theorem ComparesKinds.left (h : ComparesKinds less kind) {a b : α} {before : Bool} {k : κ}
    (hless : less a b = .ok before) (hb : kind b = some k) : kind a = some k := by
  obtain ⟨k', ha, hb'⟩ := h a b before hless
  rw [ha, ← hb', hb]

/-- Elements that are inserted are of the kind of those that were there. -/
theorem sorts_insertAll (hkind : ComparesKinds less kind) {sorted : Array α} {others : List α}
    (hsorted : ∀ y ∈ sorted, y ∈ xs) (hothers : ∀ x ∈ others, x ∈ xs) (hsome : 0 < sorted.size)
    {k : κ} (hk : ∀ y ∈ sorted, kind y = some k) :
    Sorts less xs (insertAll less sorted others) fun result =>
      result.toList.Perm (sorted.toList ++ others) ∧ ∀ y ∈ result, kind y = some k := by
  induction others generalizing sorted with
  | nil =>
    rw [List.append_nil]
    exact .pure ⟨.refl _, hk⟩
  | cons x rest ih =>
    obtain ⟨hx, hrest⟩ := List.forall_mem_cons.mp hothers
    rw [insertAll]
    refine (sorts_insertionPlace hx hsorted 0 sorted.size).bind fun place hplace => ?_
    -- What it has been compared with makes it of the kind of the others.
    obtain ⟨y, hy, before, hbefore⟩ := hplace hsome (Nat.le_refl _)
    have hxk : kind x = some k := hkind.left hbefore (hk y hy)
    have hperm : (sorted.toList.take place ++ x :: sorted.toList.drop place).Perm
        (x :: sorted.toList) := by
      refine List.perm_middle.trans (.cons x ?_)
      rw [List.take_append_drop]
    have hmem : ∀ z ∈ (sorted.toList.take place ++ x :: sorted.toList.drop place).toArray,
        z = x ∨ z ∈ sorted := by
      intro z hz
      simpa using hperm.mem_iff.mp (List.mem_toArray.mp hz)
    have hmore : ∀ z ∈ (sorted.toList.take place ++ x :: sorted.toList.drop place).toArray,
        z ∈ xs := fun z hz => (hmem z hz).elim (fun heq => heq ▸ hx) (hsorted z)
    have hsome' : 0 < (sorted.toList.take place ++ x :: sorted.toList.drop place).length := by
      rw [hperm.length_eq]
      exact Nat.succ_pos _
    have hstep := ih hmore hrest hsome'
      (fun z hz => (hmem z hz).elim (fun heq => heq ▸ hxk) (hk z))
    refine hstep.mono fun result ⟨hresult, hkinds⟩ => ⟨hresult.trans ?_, hkinds⟩
    exact (hperm.append_right rest).trans List.perm_middle.symm

/-- The elements of a run are of the kind of the one before it. -/
theorem sorts_runAfter (hkind : ComparesKinds less kind) (descending : Bool) {last : α}
    {rest : List α} (hlast : last ∈ xs) (hrest : ∀ x ∈ rest, x ∈ xs) {k : κ}
    (hk : kind last = some k) :
    Sorts less xs (runAfter less descending last rest) fun divided =>
      divided.1 ++ divided.2 = rest ∧ ∀ x ∈ divided.1, kind x = some k := by
  induction rest generalizing last with
  | nil => exact .pure ⟨rfl, by simp⟩
  | cons x rest ih =>
    obtain ⟨hx, hrest⟩ := List.forall_mem_cons.mp hrest
    rw [runAfter]
    refine (Sorts.compared hx hlast).bind fun before hbefore => ?_
    have hxk : kind x = some k := hkind.left hbefore hk
    by_cases hgoes : (before == descending) = true
    · rw [if_pos hgoes]
      refine (ih hx hrest hxk).bind fun divided ⟨hdivided, hkinds⟩ => ?_
      exact .pure ⟨congrArg (x :: ·) hdivided, List.forall_mem_cons.mpr ⟨hxk, hkinds⟩⟩
    · rw [if_neg hgoes]
      exact .pure ⟨rfl, by simp⟩

/-- What has been sorted has kept its elements, and if there are two or more of them they are of
one kind. -/
theorem sorts_sortBy (hkind : ComparesKinds less kind) (xs : List α) :
    Sorts less xs (sortBy less xs) fun sorted =>
      sorted.Perm xs ∧ (2 ≤ xs.length → ∃ k, ∀ x ∈ xs, kind x = some k) := by
  match xs with
  | [] => exact .pure ⟨.refl _, by simp⟩
  | [x] => exact .pure ⟨.refl _, by simp⟩
  | x :: y :: rest =>
    rw [sortBy]
    refine (Sorts.compared (by simp) (by simp)).bind fun descending hfirst => ?_
    -- The first comparison tells the kind, which all later ones hand on.
    obtain ⟨k, hy, hx⟩ := hkind _ _ _ hfirst
    refine (sorts_runAfter hkind descending (by simp) (by simp +contextual) hy).bind
      fun ⟨run, others⟩ ⟨hdivided, hrun⟩ => ?_
    dsimp only at hdivided hrun ⊢
    have hmem : ∀ z ∈ x :: y :: run, kind z = some k :=
      List.forall_mem_cons.mpr ⟨hx, List.forall_mem_cons.mpr ⟨hy, hrun⟩⟩
    -- The run is taken as it is, or turned round.
    have hperm : (if descending then (x :: y :: run).reverse else x :: y :: run).Perm
        (x :: y :: run) := by
      cases descending with
      | true => exact List.reverse_perm _
      | false => exact .refl _
    generalize (if descending then (x :: y :: run).reverse else x :: y :: run) = start at hperm ⊢
    subst hdivided
    have hstart : ∀ z ∈ start.toArray, z ∈ x :: y :: run :=
      fun z hz => hperm.mem_iff.mp (List.mem_toArray.mp hz)
    have hsome : 0 < start.toArray.size := by
      rw [List.size_toArray, hperm.length_eq]
      exact Nat.succ_pos _
    refine (sorts_insertAll hkind (fun z hz => List.mem_append_left others (hstart z hz))
      (fun z hz => List.mem_append_right (x :: y :: run) hz) hsome
      fun z hz => hmem z (hstart z hz)).bind fun sorted ⟨hsorted, hkinds⟩ => ?_
    have hall : sorted.toList.Perm (x :: y :: (run ++ others)) :=
      hsorted.trans (hperm.append_right others)
    refine .pure ⟨hall, fun _ => ⟨k, fun z hz => hkinds z ?_⟩⟩
    exact Array.mem_toList_iff.mp (hall.mem_iff.mpr hz)

end Steps

/-- What sorting by a key comes to, the greatest first. -/
theorem Value.sorts_sortDescending {α : Type} (key : α → Value) (xs : List α) :
    Sorts (fun a b => Value.less (key a) (key b)) xs (Value.sortDescending key xs) fun sorted =>
      sorted.Perm xs ∧ (2 ≤ xs.length → ∃ k, ∀ x ∈ xs, (key x).orderKind = some k) := by
  have hkind : ComparesKinds (fun a b => Value.less (key a) (key b)) fun a => (key a).orderKind :=
    fun a b before h => Value.exists_orderKind_of_less h
  have hsorts := (sorts_sortBy hkind xs.reverse).perm (List.reverse_perm xs)
  rw [Value.sortDescending]
  refine hsorts.bind fun sorted ⟨hperm, hkinds⟩ => .pure ⟨?_, fun hlong => ?_⟩
  · exact (List.reverse_perm sorted).trans (hperm.trans (List.reverse_perm xs))
  · obtain ⟨k, hk⟩ := hkinds (by simpa using hlong)
    exact ⟨k, fun x hx => hk x (List.mem_reverse.mpr hx)⟩

/-- Less than two elements are sorted without a comparison. -/
theorem Value.sortDescending_of_short {α : Type} (key : α → Value) {xs : List α}
    (h : xs.length < 2) : Value.sortDescending key xs = .ok xs := by
  match xs with
  | [] => rfl
  | [x] => rfl
  | x :: y :: rest =>
    rw [List.length_cons, List.length_cons] at h
    omega

end GuestCode
