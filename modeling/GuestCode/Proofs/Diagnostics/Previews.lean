import GuestCode.Proofs.Diagnostics.Remnants

/-!
# Previews of passwords

A preview is the start of a text, and it is masked after it is cut. So a preview shows no password
unless the cut leaves between one and sixteen characters of it: three dots of the mark behind the
text count to the value, and twenty characters are masked. Of a shorter start its remnant is shown,
which for most texts is the start itself.

## Main statements

* `Masking.mask_cut_of_long`: a password of which seventeen characters are kept is masked.
* `Masking.mask_cut_iff`: when passwords are told apart behind a cut.
* `Masking.preview_withPassword_iff`: when the previews of two texts tell their passwords apart.
-/

namespace GuestCode.Masking

open Text Text.Pattern

section Preview

variable {before value value' after : List Char}

/-! ## Where a text is cut -/

theorem shorten_ofNat (limit : Nat) (text : List Char) :
    shorten limit text = if limit < text.length then text.take limit ++ cutMark else text := by
  rw [shorten, firstChars, if_pos (Int.natCast_nonneg limit), Int.toNat_natCast]
  simp only [Int.ofNat_lt]
  rfl

theorem length_withPassword (before value after : List Char) :
    (withPassword before value after).length =
      before.length + 9 + (value.length + after.length) := by
  rw [withPassword, List.length_append, List.length_append, List.length_append,
    length_passwordName, Nat.add_assoc]

theorem withPassword_append (before value after rest : List Char) :
    withPassword before value after ++ rest = withPassword before value (after ++ rest) := by
  rw [withPassword, withPassword, List.append_assoc, List.append_assoc, List.append_assoc]

theorem take_withPassword (n : Nat) :
    (withPassword before value after).take (before.length + 9 + n) =
      withPassword before (value.take n) (after.take (n - value.length)) := by
  have hfront : before.length + 9 = (before ++ "password=".toList).length := by
    rw [List.length_append, length_passwordName]
  rw [withPassword, withPassword, ← List.append_assoc, hfront, List.take_length_add_append,
    List.take_append, List.append_assoc]

/-- A preview that ends before a password does not depend on it. -/
theorem take_withPassword_of_le {n : Nat} (h : n ≤ before.length + 9) :
    (withPassword before value after).take n = (before ++ "password=".toList).take n := by
  have hfront : n ≤ (before ++ "password=".toList).length := by
    rw [List.length_append, length_passwordName]
    exact h
  rw [withPassword, ← List.append_assoc, List.take_append_of_le_length hfront]

/-- A password that is not cut off too early is masked in a preview. -/
theorem mask_cut_of_long (hbefore : ∀ c ∈ before.getLast?, isBlank c = true)
    (hafter : ∀ c ∈ after.head?, endsValue c = true)
    (hvalue : ∀ c ∈ value, c ∈ valueChars) (hvalue' : ∀ c ∈ value', c ∈ valueChars)
    (hlength : value.length = value'.length) (hlong : 20 ≤ value.length) {n : Nat} (hn : 17 ≤ n) :
    mask (withPassword before (value.take n) (after.take (n - value.length) ++ cutMark)) =
      mask (withPassword before (value'.take n) (after.take (n - value'.length) ++ cutMark)) := by
  have htake : ∀ {value : List Char}, (∀ c ∈ value, c ∈ valueChars) →
      ∀ c ∈ value.take n, c ∈ valueChars := fun hvalue c hc => hvalue c (List.mem_of_mem_take hc)
  rw [← hlength]
  cases hrest : after.take (n - value.length) with
  | nil =>
    -- The three dots of the mark make up for what seventeen characters lack.
    rw [List.nil_append, withPassword_cutMark, withPassword_cutMark]
    exact mask_withPassword hbefore endsValue_of_mem_mark (by simp [hlength]) (by simp; omega)
      (mem_secretChars_cut (htake hvalue)) (mem_secretChars_cut (htake hvalue'))
  | cons c cs =>
    have hbehind : 0 < n - value.length := by
      refine Nat.pos_of_ne_zero fun hzero => ?_
      rw [hzero] at hrest
      cases hrest
    have hhead : after.head? = some c := by
      have htaken := @List.head?_take _ after (n - value.length)
      rw [hrest, if_neg (Nat.ne_of_gt hbehind)] at htaken
      exact htaken.symm
    rw [List.take_of_length_le (by omega), List.take_of_length_le (by omega)]
    exact mask_withPassword hbefore (fun d hd => hafter d (hhead.trans hd)) hlength hlong
      (fun c hc => mem_secretChars (hvalue c hc)) fun c hc => mem_secretChars (hvalue' c hc)

/-- Two passwords are told apart behind a cut if and only if at most sixteen characters of them are
kept, and of these the remnants differ. -/
theorem mask_cut_iff (hbefore : ∀ c ∈ before.getLast?, isBlank c = true)
    (hafter : ∀ c ∈ after.head?, endsValue c = true)
    (hvalue : ∀ c ∈ value, c ∈ valueChars) (hvalue' : ∀ c ∈ value', c ∈ valueChars)
    (hlength : value.length = value'.length) (hlong : 20 ≤ value.length) (n : Nat) :
    mask (withPassword before (value.take n) (after.take (n - value.length) ++ cutMark)) =
        mask (withPassword before (value'.take n) (after.take (n - value'.length) ++ cutMark)) ↔
      (n ≤ 16 → remnant (value.take n) = remnant (value'.take n)) := by
  by_cases hshort : n ≤ 16
  · -- The cut falls into the password, of which too little is left to be masked.
    have hnone : n - value.length = 0 := by omega
    have hnone' : n - value'.length = 0 := by omega
    have hkept : (value.take n).length = (value'.take n).length := by
      rw [List.length_take, List.length_take, hlength]
    obtain ⟨front, hfront, hfront'⟩ := @exists_mask_cut before (value.take n) (value'.take n)
      hbefore (fun c hc => hvalue c (List.mem_of_mem_take hc))
      (fun c hc => hvalue' c (List.mem_of_mem_take hc)) hkept
      (Nat.le_trans (List.length_take_le n value) hshort)
    rw [hnone, hnone', List.take_zero, List.nil_append, hfront, hfront', List.append_right_inj]
    exact ⟨fun h _ => h, fun h => h hshort⟩
  · have hmask := mask_cut_of_long hbefore hafter hvalue hvalue' hlength hlong
      (Nat.lt_of_not_le hshort)
    exact iff_of_true hmask fun hle => absurd hle hshort

/-! ## When a preview shows a password -/

/-- How many characters of a password a preview takes. -/
def shownLength (limit : Int) (before : List Char) : Nat := (limit - (before.length + 9)).toNat

/-- Two passwords are told apart by a preview if and only if at most sixteen of their characters are
taken, and of these the remnants differ. -/
theorem preview_withPassword_iff {limit : Int}
    (hbefore : ∀ c ∈ before.getLast?, isBlank c = true)
    (hafter : ∀ c ∈ after.head?, isBlank c = true ∨ c ∈ "'\"`".toList)
    (hlimit : 0 ≤ limit) (hlength : value.length = value'.length) (hlong : 20 ≤ value.length)
    (hvalue : ∀ c ∈ value, c.isAlphanum = true) (hvalue' : ∀ c ∈ value', c.isAlphanum = true) :
    preview limit true (withPassword before value after) =
        preview limit true (withPassword before value' after) ↔
      (shownLength limit before ≤ 16 →
        remnant (value.take (shownLength limit before)) =
          remnant (value'.take (shownLength limit before))) := by
  obtain ⟨k, rfl⟩ := Int.eq_ofNat_of_zero_le hlimit
  have hafter : ∀ c ∈ after.head?, endsValue c = true := by
    intro c hc
    rcases hafter c hc with hblank | hquote
    · exact endsValue_of_isBlank hblank
    · have hall : ∀ c ∈ "'\"`".toList, endsValue c = true := by decide
      exact hall c hquote
  have hvalue : ∀ c ∈ value, c ∈ valueChars := fun c hc => mem_valueChars (hvalue c hc)
  have hvalue' : ∀ c ∈ value', c ∈ valueChars := fun c hc => mem_valueChars (hvalue' c hc)
  have hsame := length_withPassword before value after
  have hsame' := length_withPassword before value' after
  rw [← hlength] at hsame'
  rw [preview, preview, if_pos rfl, if_pos rfl, shorten_ofNat, shorten_ofNat, hsame, hsame']
  by_cases hcut : k < before.length + 9 + (value.length + after.length)
  · rw [if_pos hcut, if_pos hcut]
    by_cases hearly : k ≤ before.length + 9
    · have hnone : shownLength k before = 0 := by
        rw [shownLength]
        omega
      rw [take_withPassword_of_le hearly, take_withPassword_of_le hearly, hnone]
      exact iff_of_true rfl fun _ => rfl
    · obtain ⟨n, rfl⟩ := Nat.exists_eq_add_of_le (Nat.le_of_not_le hearly)
      have hshown : shownLength ((before.length + 9 + n : Nat) : Int) before = n := by
        rw [shownLength]
        omega
      rw [hshown, take_withPassword, take_withPassword, withPassword_append, withPassword_append]
      exact mask_cut_iff hbefore hafter hvalue hvalue' hlength hlong n
  · have hshown : 16 < shownLength k before := by
      rw [shownLength]
      omega
    have hmask := mask_withPassword hbefore hafter hlength hlong
      (fun c hc => mem_secretChars (hvalue c hc)) fun c hc => mem_secretChars (hvalue' c hc)
    rw [if_neg hcut, if_neg hcut]
    exact iff_of_true hmask fun hle => absurd hle (Nat.not_le_of_gt hshown)

/-- A preview with room for seventeen characters of a password masks it; one with room for ten shows
them. -/
theorem preview_withPassword_iff_room :
    preview 30 true (withPassword "log ".toList "abcdefghijklmnopqrst".toList " on".toList) =
        preview 30 true (withPassword "log ".toList "zyxwvutsrqponmlkjihg".toList " on".toList) ∧
      preview 23 true (withPassword "log ".toList "abcdefghijklmnopqrst".toList " on".toList) ≠
        preview 23 true (withPassword "log ".toList "zyxwvutsrqponmlkjihg".toList " on".toList) := by
  have hbefore : ∀ c ∈ "log ".toList.getLast?, isBlank c = true := by
    intro c hc
    obtain rfl : ' ' = c := Option.some.inj hc
    rfl
  have hafter : ∀ c ∈ " on".toList.head?, isBlank c = true ∨ c ∈ "'\"`".toList := by
    intro c hc
    obtain rfl : ' ' = c := Option.some.inj hc
    exact .inl rfl
  have hiff (limit : Int) (hlimit : 0 ≤ limit) :=
    @preview_withPassword_iff "log ".toList "abcdefghijklmnopqrst".toList
      "zyxwvutsrqponmlkjihg".toList " on".toList limit hbefore hafter hlimit (by decide)
      (by decide) (by decide) (by decide)
  refine ⟨(hiff 30 (by decide)).mpr (by decide), fun h => ?_⟩
  exact absurd ((hiff 23 (by decide)).mp h) (by decide)

/-- The start of a password is shown. -/
theorem preview_shows_password :
    preview 19 true (withPassword [] "abcdefghijklmnopqrst".toList []) =
        "password=abcdefghij...[truncated]".toList ∧
      preview 19 true (withPassword [] "zyxwvutsrqponmlkjihg".toList []) =
        "password=zyxwvutsrq...[truncated]".toList := by
  decide +kernel

end Preview

end GuestCode.Masking
