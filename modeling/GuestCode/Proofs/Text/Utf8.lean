import GuestCode.Text.Utf8

/-!
# Texts as octets and back

A text that has been encoded is decoded to what it was: the octets of a character are read as that
character, whatever follows them.

## Main statements

* `Utf8.exists_step_encodeChar`: the octets of a character are read as that character.
* `Utf8.decode_encode`: decoding undoes encoding.
* `Utf8.universalLineEnds_eq_self`: a text without carriage returns keeps its line ends.
-/

namespace GuestCode.Utf8

/-! ## Octets -/

theorem toNat_ofNat_of_lt {n : Nat} (h : n < 256) : (UInt8.ofNat n).toNat = n := by
  simp [UInt8.toNat_ofNat', Nat.mod_eq_of_lt h]

theorem ofNat_lt_iff {n : Nat} (h : n < 256) {b : UInt8} : UInt8.ofNat n < b ↔ n < b.toNat := by
  rw [UInt8.lt_iff_toNat_lt, toNat_ofNat_of_lt h]

theorem ofNat_beq {n : Nat} (h : n < 256) (b : UInt8) :
    (UInt8.ofNat n == b) = decide (n = b.toNat) := by
  rw [Bool.eq_iff_iff, beq_iff_eq, decide_eq_true_eq, ← UInt8.toNat_inj, toNat_ofNat_of_lt h]

/-! ## Characters -/

/-- The codes of characters leave out those of surrogates. -/
theorem toNat_valid (c : Char) : c.toNat < 0xD800 ∨ 0xDFFF < c.toNat ∧ c.toNat < 0x110000 :=
  c.valid

/-- An octet after the first one is read as the six bits that it stands for. -/
theorem stepFrom_cons {code seen more k : Nat} {low high : UInt8} (hk : k < 0x40)
    (hlow : low.toNat ≤ 0x80 + k) (hhigh : 0x80 + k ≤ high.toNat) (rest : List UInt8) :
    stepFrom code seen low high (more + 1) (UInt8.ofNat (0x80 + k) :: rest) =
      stepFrom (code * 0x40 + k) (seen + 1) 0x80 0xBF more rest := by
  have hnat : (UInt8.ofNat (0x80 + k)).toNat = 0x80 + k := toNat_ofNat_of_lt (by omega)
  rw [stepFrom, hnat, Nat.add_sub_cancel_left, if_pos]
  rw [Bool.and_eq_true, decide_eq_true_eq, decide_eq_true_eq, UInt8.le_iff_toNat_le,
    UInt8.le_iff_toNat_le, hnat]
  exact ⟨hlow, hhigh⟩

section Step

variable {n : Nat} (rest : List UInt8)

theorem step_one (h : n < 0x80) :
    step false (UInt8.ofNat n) rest = .char (Char.ofNat n) 0 := by
  have hn : n < 256 := by omega
  rw [step, if_pos ((ofNat_lt_iff hn).mpr (by simpa using h)), toNat_ofNat_of_lt hn]

theorem step_two (hlow : 0x80 ≤ n) (hhigh : n < 0x800) :
    step false (UInt8.ofNat (0xC0 + n / 0x40)) (UInt8.ofNat (0x80 + n % 0x40) :: rest) =
      .char (Char.ofNat n) 1 := by
  have hn : 0xC0 + n / 0x40 < 256 := by omega
  have hcode : n / 0x40 * 0x40 + n % 0x40 = n := by omega
  rw [step, if_neg, if_neg, if_pos, toNat_ofNat_of_lt hn, Nat.add_sub_cancel_left,
    stepFrom_cons (by omega) (by simp) (by simp; omega), stepFrom, hcode]
  all_goals simp only [ofNat_lt_iff hn, UInt8.toNat_ofNat]
  all_goals omega

theorem step_three (hlow : 0x800 ≤ n) (hhigh : n < 0x10000) (hvalid : n < 0xD800 ∨ 0xDFFF < n) :
    step false (UInt8.ofNat (0xE0 + n / 0x1000))
      (UInt8.ofNat (0x80 + n / 0x40 % 0x40) :: UInt8.ofNat (0x80 + n % 0x40) :: rest) =
      .char (Char.ofNat n) 2 := by
  have hn : 0xE0 + n / 0x1000 < 256 := by omega
  have hcode : (n / 0x1000 * 0x40 + n / 0x40 % 0x40) * 0x40 + n % 0x40 = n := by omega
  have hnonzero : ((Char.ofNat n).toNat == 0) = false := by
    have hisValid : n.isValidChar := by
      unfold Nat.isValidChar
      omega
    have hnat : (Char.ofNat n).toNat = n := by
      rw [Char.ofNat, dif_pos hisValid]
      rfl
    rw [hnat, beq_eq_false_iff_ne]
    omega
  -- An overlong code is excluded by the second octet, and so is that of a surrogate.
  rw [step, if_neg, if_neg, if_neg, if_pos, toNat_ofNat_of_lt hn, Nat.add_sub_cancel_left,
    ofNat_beq hn, ofNat_beq hn]
  · dsimp only
    rw [stepFrom_cons (by omega), stepFrom_cons (by omega) (by simp) (by simp; omega), stepFrom,
      hcode]
    · dsimp only
      rw [hnonzero, if_neg Bool.false_ne_true]
    · split
      · next h =>
        simp at h
        simp
        omega
      · simp
    · split
      · next h =>
        simp at h
        simp
        omega
      · simp
        omega
  all_goals simp only [ofNat_lt_iff hn, UInt8.toNat_ofNat]
  all_goals omega

theorem step_four (hlow : 0x10000 ≤ n) (hhigh : n < 0x110000) :
    step false (UInt8.ofNat (0xF0 + n / 0x40000))
      (UInt8.ofNat (0x80 + n / 0x1000 % 0x40) :: UInt8.ofNat (0x80 + n / 0x40 % 0x40) ::
        UInt8.ofNat (0x80 + n % 0x40) :: rest) =
      .char (Char.ofNat n) 3 := by
  have hn : 0xF0 + n / 0x40000 < 256 := by omega
  have hcode : ((n / 0x40000 * 0x40 + n / 0x1000 % 0x40) * 0x40 + n / 0x40 % 0x40) * 0x40 +
      n % 0x40 = n := by omega
  rw [step, if_neg, if_neg, if_neg, if_neg, if_pos, toNat_ofNat_of_lt hn, Nat.add_sub_cancel_left,
    ofNat_beq hn, ofNat_beq hn]
  · dsimp only
    rw [stepFrom_cons (by omega), stepFrom_cons (by omega) (by simp) (by simp; omega),
      stepFrom_cons (by omega) (by simp) (by simp; omega), stepFrom, hcode]
    · split
      · next h =>
        simp at h
        simp
        omega
      · simp
    · split
      · next h =>
        simp at h
        simp
        omega
      · simp
        omega
  all_goals simp only [ofNat_lt_iff hn, UInt8.toNat_ofNat]
  all_goals omega

end Step

/-- The octets of a character are read as that character, whatever follows them. -/
theorem exists_step_encodeChar (c : Char) :
    ∃ b more, encodeChar c = b :: more ∧
      ∀ rest, step false b (more ++ rest) = .char c more.length := by
  have hvalid := toNat_valid c
  have hback : Char.ofNat c.toNat = c := Char.ofNat_toNat c
  unfold encodeChar
  dsimp only
  split
  · next h =>
    refine ⟨_, [], rfl, fun rest => ?_⟩
    rw [List.nil_append, step_one rest h, hback]
    rfl
  · split
    · next h =>
      refine ⟨_, _, rfl, fun rest => ?_⟩
      rw [List.cons_append, List.nil_append, step_two rest (by omega) h, hback]
      rfl
    · split
      · next h =>
        refine ⟨_, _, rfl, fun rest => ?_⟩
        rw [List.cons_append, List.cons_append, List.nil_append,
          step_three rest (by omega) h (by omega), hback]
        rfl
      · refine ⟨_, _, rfl, fun rest => ?_⟩
        rw [List.cons_append, List.cons_append, List.cons_append, List.nil_append,
          step_four rest (by omega) (by omega), hback]
        rfl

/-! ## Texts -/

theorem decodeFrom_append (surrogates : Bool) (start : Nat) (skipped rest : List UInt8) :
    decodeFrom surrogates start skipped.length (skipped ++ rest) =
      decodeFrom surrogates (start + skipped.length) 0 rest := by
  induction skipped generalizing start with
  | nil => rfl
  | cons b skipped ih =>
    rw [List.length_cons, List.cons_append, decodeFrom, ih]
    congr 1
    omega

/-- Decoding undoes encoding. -/
theorem decode_encode (text : List Char) : decode (encode text) = .ok text := by
  have hfrom : ∀ start, decodeFrom false start 0 (encode text) = .ok text := by
    induction text with
    | nil => exact fun _ => rfl
    | cons c rest ih =>
      intro start
      obtain ⟨b, more, hencode, hstep⟩ := exists_step_encodeChar c
      have hcons : encode (c :: rest) = b :: (more ++ encode rest) := by
        rw [encode, List.flatMap_cons, hencode, List.cons_append]
        rfl
      rw [hcons, decodeFrom, hstep]
      dsimp only
      rw [decodeFrom_append, ih]
      rfl
  exact hfrom 0

theorem decodeLossyFrom_append (skipped rest : List UInt8) :
    decodeLossyFrom skipped.length (skipped ++ rest) = decodeLossyFrom 0 rest := by
  induction skipped with
  | nil => rfl
  | cons b skipped ih => rw [List.length_cons, List.cons_append, decodeLossyFrom, ih]

/-- In the octets of a text nothing is replaced. -/
theorem decodeLossy_encode (text : List Char) : decodeLossy (encode text) = text := by
  unfold decodeLossy
  induction text with
  | nil => rfl
  | cons c rest ih =>
    obtain ⟨b, more, hencode, hstep⟩ := exists_step_encodeChar c
    have hcons : encode (c :: rest) = b :: (more ++ encode rest) := by
      rw [encode, List.flatMap_cons, hencode, List.cons_append]
      rfl
    rw [hcons, decodeLossyFrom, hstep]
    dsimp only
    rw [decodeLossyFrom_append, ih]

/-! ## Line ends -/

/-- A text without carriage returns keeps its line ends. -/
theorem universalLineEnds_eq_self {text : List Char} (h : '\r' ∉ text) :
    universalLineEnds text = text := by
  induction text with
  | nil => rfl
  | cons c rest ih =>
    obtain ⟨hc, hrest⟩ := not_or.mp (mt List.mem_cons.mpr h)
    rw [universalLineEnds, ih hrest]
    · rintro _ rfl
      exact absurd rfl hc
    · rintro rfl
      exact absurd rfl hc

theorem not_mem_universalLineEnds (text : List Char) : '\r' ∉ universalLineEnds text := by
  fun_induction universalLineEnds text with
  | case1 => exact List.not_mem_nil
  | case2 rest ih | case3 rest _ ih => exact not_or.mpr ⟨by decide, ih⟩ ∘ List.mem_cons.mp
  | case4 c rest _ hc ih =>
    exact not_or.mpr ⟨fun h => hc h.symm, ih⟩ ∘ List.mem_cons.mp

/-- Only texts without carriage returns keep their line ends. -/
theorem universalLineEnds_eq_self_iff {text : List Char} :
    universalLineEnds text = text ↔ '\r' ∉ text :=
  ⟨fun h => h ▸ not_mem_universalLineEnds text, universalLineEnds_eq_self⟩

end GuestCode.Utf8
