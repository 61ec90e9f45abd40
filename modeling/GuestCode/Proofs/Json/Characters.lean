import GuestCode.Json.Writer
import GuestCode.Proofs.Data.Outcome

/-!
# Characters of JSON texts

JSON texts are made of printable ASCII characters. Line ends are written where a text is indented,
and other characters where they are not escaped; control characters never are.

## Main statements

* `Json.allows_of_write`: the characters of what is written in a layout.
-/

namespace GuestCode.Json

/-! ## Printable texts -/

/-- Printable ASCII characters. -/
def IsPrintable (c : Char) : Prop := 0x20 ≤ c.toNat ∧ c.toNat ≤ 0x7E

instance : DecidablePred IsPrintable := fun c =>
  inferInstanceAs (Decidable (0x20 ≤ c.toNat ∧ c.toNat ≤ 0x7E))

/-- A text of printable ASCII characters. -/
def Printable (s : String) : Prop := ∀ c ∈ s.toList, IsPrintable c

instance : DecidablePred Printable := fun s =>
  decidable_of_iff ((s.toList.all fun c => decide (IsPrintable c)) = true) <| by
    rw [List.all_eq_true, Printable]
    simp only [decide_eq_true_eq]

namespace Printable

theorem append {s t : String} (hs : Printable s) (ht : Printable t) : Printable (s ++ t) := by
  intro c hc
  rw [String.toList_append, List.mem_append] at hc
  exact hc.elim (hs c) (ht c)

theorem ofList {text : List Char} (h : ∀ c ∈ text, IsPrintable c) :
    Printable (String.ofList text) := by
  rwa [Printable, String.toList_ofList]

theorem ofList_take {s : String} (hs : Printable s) (n : Nat) :
    Printable (String.ofList (s.toList.take n)) :=
  .ofList fun c hc => hs c (List.mem_of_mem_take hc)

theorem ofList_drop {s : String} (hs : Printable s) (n : Nat) :
    Printable (String.ofList (s.toList.drop n)) :=
  .ofList fun c hc => hs c (List.mem_of_mem_drop hc)

end Printable

theorem isPrintable_of_isDigit {c : Char} (h : c.isDigit = true) : IsPrintable c := by
  rw [Char.isDigit, Bool.and_eq_true, decide_eq_true_eq, decide_eq_true_eq, ge_iff_le,
    UInt32.le_iff_toNat_le, UInt32.le_iff_toNat_le] at h
  have hlow : 0x30 ≤ c.toNat := h.1
  have hhigh : c.toNat ≤ 0x39 := h.2
  exact ⟨by omega, by omega⟩

theorem printable_nat (n : Nat) : Printable (toString n) := by
  intro c hc
  rw [Nat.toString_eq_repr, Nat.toList_repr] at hc
  exact isPrintable_of_isDigit (Nat.isDigit_of_mem_toDigits (by decide) (by decide) hc)

theorem printable_int (n : Int) : Printable (toString n) := by
  cases n with
  | ofNat n => exact printable_nat n
  | negSucc n => exact .append (s := "-") (by decide) (printable_nat (n + 1))

theorem printable_zeros (n : Int) : Printable (Binary64.zeros n) := by
  refine .ofList fun c hc => ?_
  rw [List.eq_of_mem_replicate hc]
  decide

theorem printable_digitsText (style : Binary64.Style) {digits : String} (h : Printable digits)
    (point : Int) : Printable (Binary64.digitsText style digits point) := by
  have hexponent : ∀ e : Int,
      Printable (if (toString e.natAbs).length < 2 then "0" ++ toString e.natAbs
        else toString e.natAbs) := by
    intro e
    split
    · exact .append (s := "0") (by decide) (printable_nat _)
    · exact printable_nat _
  have hpoint : ∀ n m, Printable
      (String.ofList (digits.toList.take n) ++ "." ++ String.ofList (digits.toList.drop m)) :=
    fun n m => ((h.ofList_take n).append (by decide)).append (h.ofList_drop m)
  unfold Binary64.digitsText
  dsimp only
  split
  · refine .append (.append ?_ ?_) (hexponent _)
    · split
      · exact h
      · exact hpoint 1 1
    · split <;> decide
  · split
    · exact .append (.append (by decide) (printable_zeros _)) h
    · split
      · exact (h.append (printable_zeros _)).append (by decide)
      · exact hpoint _ _

theorem printable_float (x : Binary64) : Printable (x.text Binary64.jsonStyle) := by
  have hsign : ∀ negative : Bool, Printable (if negative then "-" else "") := by
    intro negative
    cases negative <;> decide
  unfold Binary64.text
  cases x with
  | nan => exact (by decide : Printable "NaN")
  | infinite negative => exact (hsign negative).append (by decide : Printable "Infinity")
  | finite negative mantissa exponent =>
    refine (hsign negative).append ?_
    split
    · decide
    · exact printable_digitsText _ (printable_nat _) _

/-! ## Escapes -/

/-- The digits that escapes are written with. -/
def hexDigits : List Char := "0123456789abcdef".toList

theorem mem_hexDigits_of_mem_toDigits (n : Nat) : ∀ c ∈ Nat.toDigits 16 n, c ∈ hexDigits := by
  have hdigit : ∀ d : Fin 16, Nat.digitChar d ∈ hexDigits := by decide
  induction n using Nat.strongRecOn with
  | ind n ih =>
    intro c hc
    rw [Nat.toDigits_eq_if (by decide)] at hc
    split at hc
    · next hlt =>
      rw [List.mem_singleton] at hc
      rw [hc]
      exact hdigit ⟨n, hlt⟩
    · rcases List.mem_append.mp hc with hc | hc
      · exact ih (n / 16) (by omega) c hc
      · rw [List.mem_singleton] at hc
        rw [hc]
        exact hdigit ⟨n % 16, Nat.mod_lt n (by decide)⟩

theorem mem_hexDigits_of_mem_hexPadded {width n : Nat} {c : Char}
    (h : c ∈ Text.hexPadded width n) : c ∈ hexDigits := by
  rcases List.mem_append.mp h with h | h
  · rw [List.eq_of_mem_replicate h]
    decide
  · exact mem_hexDigits_of_mem_toDigits n c h

theorem isPrintable_of_mem_unitEscape {unit : Nat} {c : Char} (h : c ∈ unitEscape unit) :
    IsPrintable c := by
  have hall : ∀ c ∈ '\\' :: 'u' :: hexDigits, IsPrintable c := by decide
  rcases List.mem_cons.mp h with rfl | h
  · exact hall _ (.head _)
  · rcases List.mem_cons.mp h with rfl | h
    · exact hall _ (.tail _ (.head _))
    · exact hall _ (.tail _ (.tail _ (mem_hexDigits_of_mem_hexPadded h)))

/-! ## Layouts -/

/-- The characters that a layout has use for. -/
def Layout.Admits (layout : Layout) (c : Char) : Prop :=
  IsPrintable c ∨ (c = '\n' ∧ layout.indent.isSome = true) ∨
    (0x7F ≤ c.toNat ∧ layout.asciiOnly = false)

/-- A text of characters that a layout has use for. -/
def Layout.Allows (layout : Layout) (s : String) : Prop := ∀ c ∈ s.toList, layout.Admits c

variable {layout : Layout}

theorem Printable.allows {s : String} (h : Printable s) : layout.Allows s :=
  fun c hc => .inl (h c hc)

theorem Layout.Allows.append {s t : String} (hs : layout.Allows s) (ht : layout.Allows t) :
    layout.Allows (s ++ t) := by
  intro c hc
  rw [String.toList_append, List.mem_append] at hc
  exact hc.elim (hs c) (ht c)

theorem admits_of_mem_escapedChar {c d : Char} (h : d ∈ escapedChar layout.asciiOnly c) :
    layout.Admits d := by
  have hpair : ∀ e : Char, IsPrintable e → d ∈ ['\\', e] → layout.Admits d := by
    intro e he hd
    rcases List.mem_cons.mp hd with rfl | hd
    · exact .inl (by decide)
    · rw [List.mem_singleton.mp hd]
      exact .inl he
  unfold escapedChar at h
  split at h
  · exact hpair _ (by decide) h
  split at h
  · exact hpair _ (by decide) h
  split at h
  · exact hpair _ (by decide) h
  split at h
  · exact hpair _ (by decide) h
  split at h
  · exact hpair _ (by decide) h
  split at h
  · exact hpair _ (by decide) h
  split at h
  · exact hpair _ (by decide) h
  split at h
  · exact .inl (isPrintable_of_mem_unitEscape h)
  split at h
  · next hlow hplain =>
    rw [List.mem_singleton.mp h]
    rcases Bool.or_eq_true_iff.mp hplain with hascii | hwide
    · have hhigh : c.toNat < 0x7F := by simpa using hascii
      exact .inl ⟨by omega, by omega⟩
    · by_cases hhigh : c.toNat < 0x7F
      · exact .inl ⟨by omega, by omega⟩
      · exact .inr (.inr ⟨by omega, by simpa using hwide⟩)
  split at h
  · exact .inl (isPrintable_of_mem_unitEscape h)
  · rcases List.mem_append.mp h with h | h
    · exact .inl (isPrintable_of_mem_unitEscape h)
    · exact .inl (isPrintable_of_mem_unitEscape h)

theorem allows_quote (s : String) : layout.Allows (quote layout.asciiOnly s) := by
  intro c hc
  rw [quote, String.toList_ofList, quotedChars, List.cons_append] at hc
  rcases List.mem_cons.mp hc with rfl | hc
  · exact .inl (by decide)
  · rcases List.mem_append.mp hc with hc | hc
    · obtain ⟨d, -, hd⟩ := List.mem_flatMap.mp hc
      exact admits_of_mem_escapedChar hd
    · rw [List.mem_singleton.mp hc]
      exact .inl (by decide)

/-! ## Values -/

theorem Layout.Allows.intercalate {separator : String} (hseparator : layout.Allows separator)
    {parts : List String} (h : ∀ s ∈ parts, layout.Allows s) :
    layout.Allows (separator.intercalate parts) := by
  induction parts with
  | nil => exact Printable.allows (s := "") (by decide)
  | cons s rest ih =>
    obtain ⟨hs, hrest⟩ := List.forall_mem_cons.mp h
    cases rest with
    | nil => simpa using hs
    | cons t rest =>
      rw [String.intercalate_cons_cons]
      exact (hs.append hseparator).append (ih hrest)

theorem allows_bracketed {level : Nat} {opening closing : String} (hopening : Printable opening)
    (hclosing : Printable closing) {parts : List String} (h : ∀ s ∈ parts, layout.Allows s) :
    layout.Allows (bracketed layout level opening closing parts) := by
  unfold bracketed
  split
  · exact (hopening.append hclosing).allows
  · split
    · refine (hopening.allows.append (.intercalate ?_ h)).append hclosing.allows
      exact Printable.allows (by decide)
    · next width hindent =>
      have hline : ∀ n, layout.Allows ("\n" ++ String.ofList (List.replicate (width * n) ' ')) := by
        intro n c hc
        rw [String.toList_append, List.mem_append] at hc
        rcases hc with hc | hc
        · obtain rfl : c = '\n' := by simpa using hc
          exact .inr (.inl ⟨rfl, by rw [hindent]; rfl⟩)
        · rw [String.toList_ofList] at hc
          rw [List.eq_of_mem_replicate hc]
          exact .inl (by decide)
      have hcomma : layout.Allows "," := Printable.allows (by decide)
      exact (((hopening.allows.append (hline _)).append
        (.intercalate (hcomma.append (hline _)) h)).append (hline _)).append hclosing.allows

/-- A way of writing what JSON cannot hold that keeps to a layout. -/
def Layout.AllowsAll (layout : Layout) (fallback : Value → Except WriteError String) : Prop :=
  ∀ v s, fallback v = .ok s → layout.Allows s

section Writing

variable {fallback : Value → Except WriteError String}

mutual

theorem allows_of_writeAt (hfallback : layout.AllowsAll fallback) {level : Nat} {v : Value}
    {text : String} (h : writeAt layout fallback level v = .ok text) : layout.Allows text := by
  match v with
  | .null =>
    cases h
    exact Printable.allows (by decide)
  | .bool b =>
    cases h
    cases b <;> exact Printable.allows (by decide)
  | .int n =>
    cases h
    exact (printable_int n).allows
  | .float x =>
    cases h
    exact (printable_float x).allows
  | .text s =>
    cases h
    exact allows_quote s
  | .list items =>
    rw [writeAt] at h
    obtain ⟨parts, hparts, h⟩ := Outcome.exists_of_bind_eq_ok h
    cases h
    exact allows_bracketed (by decide) (by decide) (allows_of_writeItems hfallback hparts)
  | .tuple items =>
    rw [writeAt] at h
    obtain ⟨parts, hparts, h⟩ := Outcome.exists_of_bind_eq_ok h
    cases h
    exact allows_bracketed (by decide) (by decide) (allows_of_writeItems hfallback hparts)
  | .mapping entries =>
    rw [writeAt] at h
    obtain ⟨parts, hparts, h⟩ := Outcome.exists_of_bind_eq_ok h
    cases h
    exact allows_bracketed (by decide) (by decide) (allows_of_writeEntries hfallback hparts)
  | .date _ | .moment _ | .bytes _ | .set _ | .knot .. | .again .. =>
    rw [writeAt] at h
    · exact hfallback _ _ h
    all_goals simp

theorem allows_of_writeItems (hfallback : layout.AllowsAll fallback) {level : Nat}
    {items : List Value} {parts : List String}
    (h : writeItems layout fallback level items = .ok parts) : ∀ s ∈ parts, layout.Allows s := by
  match items with
  | [] =>
    cases h
    simp
  | v :: rest =>
    rw [writeItems] at h
    obtain ⟨first, hfirst, h⟩ := Outcome.exists_of_bind_eq_ok h
    obtain ⟨others, hothers, h⟩ := Outcome.exists_of_bind_eq_ok h
    cases h
    exact List.forall_mem_cons.mpr
      ⟨allows_of_writeAt hfallback hfirst, allows_of_writeItems hfallback hothers⟩

theorem allows_of_writeEntries (hfallback : layout.AllowsAll fallback) {level : Nat}
    {entries : List (Value × Value)} {parts : List String}
    (h : writeEntries layout fallback level entries = .ok parts) :
    ∀ s ∈ parts, layout.Allows s := by
  match entries with
  | [] =>
    cases h
    simp
  | (k, v) :: rest =>
    rw [writeEntries] at h
    split at h
    · cases h
    · obtain ⟨first, hfirst, h⟩ := Outcome.exists_of_bind_eq_ok h
      obtain ⟨others, hothers, h⟩ := Outcome.exists_of_bind_eq_ok h
      cases h
      refine List.forall_mem_cons.mpr ⟨?_, allows_of_writeEntries hfallback hothers⟩
      exact ((allows_quote _).append (Printable.allows (by decide))).append
        (allows_of_writeAt hfallback hfirst)

end

/-- What is written in a layout is made of the characters that the layout has use for. -/
theorem allows_of_write {v : Value} {text : String} (h : write layout v = .ok text) :
    layout.Allows text := by
  refine allows_of_writeAt ?_ h
  rintro _ _ ⟨⟩

end Writing

/-- A carriage return is always escaped. -/
theorem not_mem_of_write {v : Value} {text : String} (h : write layout v = .ok text) :
    '\r' ∉ text.toList := by
  intro hmem
  rcases allows_of_write h _ hmem with hprintable | ⟨heq, -⟩ | ⟨hwide, -⟩
  · exact absurd hprintable (by decide)
  · exact absurd heq (by decide)
  · exact absurd hwide (by decide)

end GuestCode.Json
