import GuestCode.Diagnostics.Masking
import GuestCode.Proofs.Snippet.CodeRuns
import GuestCode.Proofs.Text.Replacing

/-!
# Passwords in diagnostics

A password of letters and digits is masked where its name and an equals sign stand before it. What
stands before the name ends with a blank, and what stands behind the value starts with a character
that ends it. So the rules for addresses and for named secrets work on the three parts apart, and of
the value they need no more than its length.

## Main statements

* `Masking.email_withPassword`: addresses are masked around a password.
* `Masking.ends_namedSecret_alike`: no named secret before a password goes into it.
* `Masking.matchAt?_namedSecret`: the match at a password takes all of its value.
* `Masking.mask_withPassword`: a masked text does not depend on the password in it.
-/

namespace GuestCode.Masking

open Text Text.Pattern

/-! ## Characters of values -/

/-- The characters of a value. -/
def valueChars : List Char := ((List.range 123).map Char.ofNat).filter Char.isAlphanum

theorem mem_valueChars {c : Char} (h : c.isAlphanum = true) : c ∈ valueChars := by
  have hmem : c ∈ (List.range 123).map Char.ofNat :=
    List.mem_map.mpr ⟨c.toNat, List.mem_range.mpr (toNat_lt_of_isAlphanum h), Char.ofNat_toNat c⟩
  exact List.mem_filter.mpr ⟨hmem, h⟩

theorem isWordChar_of_mem {c : Char} (h : c ∈ valueChars) : isWordChar c = true := by
  have halphanum : c.isAlphanum = true := (List.mem_filter.mp h).2
  have hlt := toNat_lt_of_isAlphanum halphanum
  rw [isWordChar, isLetterOrNumeral, if_pos (by omega), halphanum, Bool.or_true]

/-- The characters of a secret that is cut off. -/
def secretChars : List Char := '.' :: valueChars

theorem mem_secretChars {c : Char} (h : c ∈ valueChars) : c ∈ secretChars := .tail _ h

/-- Whether a character is one of a secret. -/
def isSecretChar (c : Char) : Bool :=
  isAnyCaseLetter c || c.isDigit || "_-.".toList.contains c

/-- Whether a character is a quote that belongs to the value in it. -/
def isQuote (c : Char) : Bool := "'\"".toList.contains c

/-- The rule for secrets takes a character for one of a secret, and for nothing before it. -/
theorem classes_of_mem_secretChars {c : Char} (h : c ∈ secretChars) :
    isSecretChar c = true ∧ isBlank c = false ∧ isQuote c = false := by
  have hall : ∀ c ∈ secretChars,
      isSecretChar c = true ∧ isBlank c = false ∧ isQuote c = false := by
    decide
  exact hall c h

/-! ## What may stand behind a value -/

/-- Whether a value ends before a character: a blank, a quote, or the bracket of a mark. -/
def endsValue (c : Char) : Bool := isBlank c || "'\"`[".toList.contains c

/-- The codes of the characters before which a value ends. -/
def endCodes : List Nat := Segment.blankCodes ++ [0x22, 0x27, 0x5B, 0x60]

/-- A class that holds none of the codes holds no character that ends a value. -/
theorem eq_false_of_endsValue {p : Char → Bool}
    (h : ∀ n ∈ endCodes, p (Char.ofNat n) = false) {c : Char} (hc : endsValue c = true) :
    p c = false := by
  have hmem : c.toNat ∈ endCodes := by
    rcases Bool.or_eq_true_iff.mp hc with hc | hc
    · exact List.mem_append_left _ (Segment.mem_blankCodes hc)
    · have hall : ∀ c ∈ "'\"`[".toList, c.toNat ∈ endCodes := by decide
      exact hall c (List.contains_iff_mem.mp hc)
  rw [← Char.ofNat_toNat c]
  exact h c.toNat hmem

/-- No rule for addresses or secrets starts with a character that ends a value, or goes over it in
search of an address or of a value. -/
theorem classes_of_endsValue {c : Char} (h : endsValue c = true) :
    email.takesNone [c] = true ∧ email.mayCross secretChars c = false ∧ isSecretChar c = false ∧
      namedSecret.leaves [c] = some [] := by
  have hnone : (!(email.takesNone [c] && !email.mayCross secretChars c && !isSecretChar c &&
      namedSecret.leaves [c] == some [])) = false :=
    eq_false_of_endsValue (p := fun c => !(email.takesNone [c] && !email.mayCross secretChars c &&
      !isSecretChar c && namedSecret.leaves [c] == some [])) (by decide) h
  simpa [and_assoc] using hnone

/-! ## Passwords in a text -/

/-- A text in which a password is set. -/
def withPassword (before value after : List Char) : List Char :=
  before ++ ("password=".toList ++ (value ++ after))

theorem length_passwordName : "password=".toList.length = 9 := rfl

/-! ## Addresses -/

section Email

variable {before value after : List Char} {mask : Found → List Char}

theorem looksNear_email : email.LooksNear :=
  ⟨looksNear_wordEdge, ⟨trivial, trivial⟩, trivial, ⟨trivial, trivial⟩, trivial,
    ⟨looksNear_times_char 2 Char.isAlpha, trivial⟩, looksNear_wordEdge⟩

theorem matchAt?_email_eq_none {c : Char} (h : endsValue c = true) (before : Option Char)
    (cs : List Char) (offset : Nat) : email.matchAt? ⟨before, c :: cs, offset, []⟩ = none :=
  matchAt?_eq_none_of_takesNone (by decide) (classes_of_endsValue h).1 before cs offset

/-- An address has to take an at sign, which is no character of a value. -/
theorem email_leaves_secretChars : email.avoids secretChars = true ∧
    email.mayTake secretChars = false ∧ email.mayCross secretChars '=' = false := by
  decide

/-- The name of a password belongs to no address. -/
theorem replaceFrom_email_name (before : Option Char) (offset : Nat) (rest : List Char) :
    email.replaceFrom mask before offset ("password=".toList ++ rest) =
      "password=".toList ++ email.replaceFrom mask (some '=') (offset + 9) rest := by
  obtain ⟨-, htake, hcross⟩ := email_leaves_secretChars
  have hname : ∀ c ∈ "password".toList, c.isAlphanum = true := by decide
  exact @replaceFrom_of_mayCross email mask before offset "password".toList rest secretChars '='
    htake hcross fun c hc => mem_secretChars (mem_valueChars (hname c hc))

/-- A value belongs to no address. -/
theorem replaceFrom_email_value (hvalue : ∀ c ∈ value, c ∈ secretChars)
    (hafter : ∀ c ∈ after.head?, endsValue c = true) (before : Option Char) (offset : Nat) :
    email.replaceFrom mask before offset (value ++ after) =
      value ++ email.replaceFrom mask none (offset + value.length) after := by
  obtain ⟨havoids, htake, -⟩ := email_leaves_secretChars
  cases after with
  | nil => rw [replaceFrom_nil, List.append_nil, replaceFrom_of_avoids havoids hvalue]
  | cons c cs =>
    have hc : endsValue c = true := hafter c rfl
    obtain ⟨-, hcross, -⟩ := classes_of_endsValue hc
    rw [replaceFrom_of_mayCross htake hcross hvalue,
      replaceFrom_cons_of_none (matchAt?_email_eq_none hc _ _ _)]

/-- Addresses are masked before a password and behind it. -/
theorem email_withPassword (hmask : ∀ m after, mask { m with after := after } = mask m)
    (hbefore : ∀ c ∈ before.getLast?, endsValue c = true)
    (hvalue : ∀ c ∈ value, c ∈ secretChars) (hafter : ∀ c ∈ after.head?, endsValue c = true) :
    email.replace mask (withPassword before value after) =
      withPassword (email.replace mask before) value
        (email.replaceFrom mask none (before.length + 9 + value.length) after) := by
  have hfront := replaceFrom_append looksNear_email (by decide) hmask
    (fun c hc => (classes_of_endsValue (hbefore c hc)).1) none 0
    ("password=".toList ++ (value ++ after))
  rw [Nat.zero_add, replaceFrom_email_name, replaceFrom_email_value hvalue hafter] at hfront
  exact hfront

end Email

/-! ## A named secret -/

/-- The names of secrets. -/
def secretName : Pattern :=
  anyOf [all [anyCase "api", opt (oneOf "_-"), anyCase "key"], anyCase "apikey", anyCase "token",
    anyCase "secret", anyCase "password", anyCase "auth"]

/-- The name of a secret. -/
def secretLead : List Pattern := [wordEdge, .capture 1 secretName]

/-- Whether a character may stand between the name of a secret and its sign. -/
def mayPrecedeSign (c : Char) : Bool := c == '\'' || c == '"' || c == ':' || isBlank c

/-- What stands between the name of a secret and the secret. -/
def secretSign : List Pattern :=
  [Pattern.star (.char mayPrecedeSign), oneOf "=:", blanks, opt (.char isQuote)]

/-- A secret. -/
def secretValue : List Pattern := [atLeast 20 (.char isSecretChar), opt (.char isQuote)]

theorem namedSecret_eq : namedSecret = all (secretLead ++ (secretSign ++ secretValue)) := rfl

section NamedSecret

variable {before : Option Char} {offset : Nat} {captures : List Capture} {edge : Nat}
  {text value value' after rest rest' : List Char}

theorem looksNear_anyCase (w : String) : (anyCase w).LooksNear :=
  looksNear_all fun p hp => by
    obtain ⟨c, -, rfl⟩ := List.mem_map.mp hp
    trivial

theorem looksNear_secretLead : (all secretLead).LooksNear :=
  ⟨looksNear_wordEdge, ⟨looksNear_anyCase _, ⟨trivial, trivial⟩, looksNear_anyCase _⟩,
    looksNear_anyCase _, looksNear_anyCase _, looksNear_anyCase _, looksNear_anyCase _,
    looksNear_anyCase _⟩

theorem looksNear_secretSign : (all secretSign).LooksNear :=
  ⟨trivial, trivial, trivial, trivial, trivial⟩

theorem looksNear_secretValue : (all secretValue).LooksNear :=
  ⟨⟨looksNear_times_char 20 isSecretChar, trivial⟩, trivial, trivial⟩

/-- Of a named secret, only what is between the name and the value takes blanks. -/
theorem takesNone_of_isBlank {c : Char} (h : isBlank c = true) :
    (all secretLead).takesNone [c] = true ∧ (all secretValue).takesNone [c] = true := by
  have hnone : (!((all secretLead).takesNone [c] && (all secretValue).takesNone [c])) = false :=
    Segment.eq_false_of_isBlank
      (p := fun c => !((all secretLead).takesNone [c] && (all secretValue).takesNone [c]))
      (by decide) h
  simpa using hnone

/-- A secret is not shorter than twenty characters. -/
theorem ends_secretValue_eq_nil (hshort : value.length < 20)
    (hend : rest.head?.any isSecretChar = false) (before : Option Char) (offset : Nat)
    (captures : List Capture) :
    (all secretValue).ends ⟨before, value ++ rest, offset, captures⟩ = [] := by
  rw [secretValue, ends_all_cons, ends_atLeast_eq_nil hshort hend]
  rfl

/-- No named secret that starts before a password goes into it. -/
theorem ends_namedSecret_alike (hne : text ≠ [])
    (hlast : ∀ c ∈ text.getLast?, isBlank c = true) (before : Option Char) (offset : Nat) :
    List.Forall₂
      (Alike (offset + text.length) text ("password=".toList ++ rest) ("password=".toList ++ rest'))
      (namedSecret.ends ⟨before, text ++ ("password=".toList ++ rest), offset, []⟩)
      (namedSecret.ends ⟨before, text ++ ("password=".toList ++ rest'), offset, []⟩) := by
  obtain ⟨t, b, rfl⟩ := List.eq_nil_or_concat' text |>.resolve_left hne
  have hb : isBlank b = true := hlast b (by simp)
  -- A name cannot take the blank at the end of the text. The sign can, but not the letter after it.
  have hlead := ends_alike looksNear_secretLead (takesNone_of_isBlank hb).1
    (Alike.start before offset t (b :: ("password=".toList ++ rest))
      (b :: ("password=".toList ++ rest')))
  have hlength : offset + (t ++ [b]).length = offset + t.length + 1 := by
    rw [List.length_append]
    rfl
  rw [namedSecret_eq, ends_all_append, ends_all_append, List.append_assoc, List.append_assoc,
    hlength]
  refine List.rel_flatMap hlead fun q q' hq => ?_
  rw [ends_all_append, ends_all_append]
  have hsign := ends_alike looksNear_secretSign (c := 'p') (by decide) hq.concat
  refine List.rel_flatMap hsign fun q q' hq => ?_
  -- So a value starts with the name of the password, or before the blank, which it cannot take.
  rcases hq.of_concat with ⟨hend, hend'⟩ | hq
  · have hpassword : ∀ {rest} {q : Progress}, q.rest = "password=".toList ++ rest →
        (all secretValue).ends q = [] := by
      rintro rest ⟨before, _, offset, captures⟩ rfl
      exact @ends_secretValue_eq_nil "password".toList ('=' :: rest) (by decide) rfl _ _ _
    rw [hpassword hend, hpassword hend']
    exact .nil
  · exact (ends_alike looksNear_secretValue (takesNone_of_isBlank hb).2 hq).imp
      fun _ _ => Alike.concat

/-- A password is found by its name. -/
theorem ends_secretLead_password (hbefore : before.any isWordChar = false) :
    (all secretLead).ends ⟨before, "password=".toList ++ rest, offset, []⟩ =
      [⟨some 'd', '=' :: rest, offset + 8, [⟨1, offset, "password".toList⟩]⟩] := by
  have hedge : wordEdge.ends ⟨before, "password=".toList ++ rest, offset, []⟩ =
      [⟨before, "password=".toList ++ rest, offset, []⟩] := by
    rw [wordEdge, ends_condition, hbefore]
    rfl
  have hname : secretName.ends ⟨before, "password=".toList ++ rest, offset, []⟩ =
      [⟨some 'd', '=' :: rest, offset + 8, []⟩] := rfl
  rw [secretLead, ends_all_cons, hedge, List.flatMap_singleton, all, ends, hname,
    List.map_singleton, Nat.add_sub_cancel_left]
  rfl

/-- Between the name and the value stands the equals sign alone. -/
theorem ends_secretSign_equals {c : Char} {cs : List Char} (hc : c ∈ secretChars) :
    (all secretSign).ends ⟨before, '=' :: c :: cs, offset, captures⟩ =
      [⟨some '=', c :: cs, offset + 1, captures⟩] := by
  obtain ⟨-, hblank, hquote⟩ := classes_of_mem_secretChars hc
  have hgap : (Pattern.star (.char mayPrecedeSign)).ends
      ⟨before, '=' :: c :: cs, offset, captures⟩ =
      [⟨before, '=' :: c :: cs, offset, captures⟩] := by
    rw [Pattern.star, ends_many_char_cons]
    rfl
  have hequals : (oneOf "=:").ends ⟨before, '=' :: c :: cs, offset, captures⟩ =
      [⟨some '=', c :: cs, offset + 1, captures⟩] := rfl
  have hblanks : blanks.ends ⟨some '=', c :: cs, offset + 1, captures⟩ =
      [⟨some '=', c :: cs, offset + 1, captures⟩] := by
    rw [blanks, Pattern.star, blank, ends_many_char_cons, hblank]
    rfl
  have hopening : (opt (.char isQuote)).ends ⟨some '=', c :: cs, offset + 1, captures⟩ =
      [⟨some '=', c :: cs, offset + 1, captures⟩] := by
    rw [opt, ends_either, ends_char_cons, hquote]
    rfl
  rw [secretSign, ends_all_cons, hgap, List.flatMap_singleton, ends_all_cons, hequals,
    List.flatMap_singleton, ends_all_cons, hblanks, List.flatMap_singleton, all, hopening]

/-- What follows the name of a password is its value. -/
theorem ends_namedSecret_password (hbefore : before.any isWordChar = false) {c : Char}
    {cs : List Char} (hc : c ∈ secretChars) :
    namedSecret.ends ⟨before, "password=".toList ++ c :: cs, offset, []⟩ =
      (all secretValue).ends
        ⟨some '=', c :: cs, offset + 9, [⟨1, offset, "password".toList⟩]⟩ := by
  rw [namedSecret_eq, ends_all_append, ends_secretLead_password hbefore, List.flatMap_singleton,
    ends_all_append, ends_secretSign_equals hc, List.flatMap_singleton]

/-- The quote behind a value. -/
def closing : List Char → List Char
  | [] => []
  | c :: _ => if isQuote c then [c] else []

theorem head?_ends_closing (before : Option Char) (rest : List Char) (offset : Nat)
    (captures : List Capture) :
    ((opt (.char isQuote)).ends ⟨before, rest, offset, captures⟩).head? =
      some ⟨(closing rest).getLast?.or before, rest.drop (closing rest).length,
        offset + (closing rest).length, captures⟩ := by
  cases rest with
  | nil => rfl
  | cons c cs =>
    rw [opt, ends_either, ends_char_cons, closing]
    split <;> rfl

theorem closing_append_drop (rest : List Char) :
    closing rest ++ rest.drop (closing rest).length = rest := by
  cases rest with
  | nil => rfl
  | cons c cs =>
    rw [closing]
    split <;> rfl

/-- What a named secret becomes. -/
def secretMask (m : Found) : List Char := m.captured 1 ++ "=[MASKED]".toList

/-- A secret is taken as a whole, with the quote behind it. -/
theorem head?_ends_secretValue (hlong : 20 ≤ value.length) (hvalue : ∀ c ∈ value, c ∈ secretChars)
    (hend : rest.head?.any isSecretChar = false) :
    ((all secretValue).ends ⟨before, value ++ rest, offset, captures⟩).head? =
      some ⟨(closing rest).getLast?.or (value.getLast?.or before), rest.drop (closing rest).length,
        offset + value.length + (closing rest).length, captures⟩ := by
  have hrun := @head?_ends_atLeast_char isSecretChar before offset 20 captures value rest hlong
    (fun c hc => (classes_of_mem_secretChars (hvalue c hc)).1) hend
  obtain ⟨others, hothers⟩ := List.head?_eq_some_iff.mp hrun
  rw [secretValue, ends_all_cons, List.head?_flatMap, hothers, List.findSome?_cons, all,
    head?_ends_closing]

/-- The preferred match at a password takes all of its value. -/
theorem matchAt?_namedSecret (hbefore : before.any isWordChar = false)
    (hlong : 20 ≤ value.length) (hvalue : ∀ c ∈ value, c ∈ secretChars)
    (hend : rest.head?.any isSecretChar = false) :
    namedSecret.matchAt? ⟨before, "password=".toList ++ (value ++ closing rest) ++
        rest.drop (closing rest).length, offset, []⟩ =
      some ⟨offset, "password=".toList ++ (value ++ closing rest),
        rest.drop (closing rest).length, [⟨1, offset, "password".toList⟩]⟩ := by
  have hlength : offset + ("password=".toList ++ (value ++ closing rest)).length =
      offset + 9 + value.length + (closing rest).length := by
    rw [List.length_append, List.length_append, length_passwordName]
    omega
  have hends : (namedSecret.ends ⟨before, "password=".toList ++ (value ++ closing rest) ++
      rest.drop (closing rest).length, offset, []⟩).head? =
        some ⟨(closing rest).getLast?.or (value.getLast?.or (some '=')),
          rest.drop (closing rest).length,
          offset + ("password=".toList ++ (value ++ closing rest)).length,
          [⟨1, offset, "password".toList⟩]⟩ := by
    rw [hlength, List.append_assoc, List.append_assoc, closing_append_drop]
    cases value with
    | nil => cases hlong
    | cons c cs =>
      rw [List.cons_append, ends_namedSecret_password hbefore (hvalue c (.head cs)),
        ← List.cons_append]
      exact head?_ends_secretValue hlong hvalue hend
  exact matchAt?_of_head?_ends hends

/-- No named secret starts where a value ends. -/
theorem matchAt?_namedSecret_eq_none {c : Char} {cs : List Char} (h : endsValue c = true) :
    namedSecret.matchAt? ⟨before, c :: cs, offset, []⟩ = none := by
  obtain ⟨-, -, -, hleaves⟩ := classes_of_endsValue h
  exact matchAt?_eq_none_of_leaves hleaves before offset []

/-- A password is masked, whatever it is. -/
theorem replaceFrom_namedSecret (hbefore : before.any isWordChar = false)
    (hlong : 20 ≤ value.length) (hvalue : ∀ c ∈ value, c ∈ secretChars)
    (hrest : ∀ c ∈ rest.head?, endsValue c = true) :
    namedSecret.replaceFrom secretMask before offset ("password=".toList ++ (value ++ rest)) =
      "password=[MASKED]".toList ++ namedSecret.replaceFrom secretMask (closing rest).getLast?
        (offset + 9 + value.length + (closing rest).length) (rest.drop (closing rest).length) := by
  have hend : rest.head?.any isSecretChar = false := by
    cases rest with
    | nil => rfl
    | cons c cs =>
      obtain ⟨-, -, hsecret, -⟩ := classes_of_endsValue (hrest c rfl)
      exact hsecret
  have hsplit : "password=".toList ++ (value ++ rest) =
      ("password=".toList ++ (value ++ closing rest)) ++ rest.drop (closing rest).length := by
    rw [List.append_assoc, List.append_assoc, closing_append_drop]
  have hlength : offset + ("password=".toList ++ (value ++ closing rest)).length =
      offset + 9 + value.length + (closing rest).length := by
    rw [List.length_append, List.length_append, length_passwordName]
    omega
  have hmask : secretMask ⟨offset, "password=".toList ++ (value ++ closing rest),
      rest.drop (closing rest).length, [⟨1, offset, "password".toList⟩]⟩ =
        "password=[MASKED]".toList := rfl
  rw [hsplit, replaceFrom_append_of_match (by simp) (matchAt?_namedSecret hbefore hlong hvalue hend)
    rfl, hmask, hlength]
  congr 1
  -- Behind a quote it is known what stands before; else no match starts there.
  cases rest with
  | nil => rfl
  | cons c cs =>
    rw [closing]
    split
    · rw [← List.append_assoc, List.getLast?_concat]
      rfl
    · exact replaceFrom_congr_before (fun d ds before hd => by
        obtain ⟨rfl, rfl⟩ := List.cons.inj hd
        exact matchAt?_namedSecret_eq_none (hrest c rfl)) _ _

/-- A password that is cut off too early is not masked. -/
theorem replaceFrom_namedSecret_short (hbefore : before.any isWordChar = false)
    (hshort : value.length < 20) (hne : value ≠ []) (hvalue : ∀ c ∈ value, c ∈ secretChars) :
    namedSecret.replaceFrom secretMask before offset
        ("password=".toList ++ (value ++ "[truncated]".toList)) =
      "password=".toList ++ (value ++ "[truncated]".toList) := by
  have hstart : namedSecret.matchAt?
      ⟨before, 'p' :: ("assword".toList ++ '=' :: (value ++ "[truncated]".toList)), offset, []⟩ =
        none := by
    obtain ⟨c, cs, rfl⟩ := List.exists_cons_of_ne_nil hne
    have hends := @ends_namedSecret_password before offset hbefore c
      (cs ++ "[truncated]".toList) (hvalue c (.head cs))
    rw [← List.cons_append, ends_secretValue_eq_nil hshort (by decide)] at hends
    rw [matchAt?]
    exact congrArg (fun ways : List Progress => ways.head?.map _) hends
  obtain ⟨hleaves, havoids⟩ : namedSecret.leaves ['='] = some [] ∧
      namedSecret.avoids (secretChars ++ "[truncated]".toList) = true := by
    decide
  have hsign : ∀ before offset, namedSecret.matchAt?
      ⟨before, '=' :: (value ++ "[truncated]".toList), offset, []⟩ = none :=
    fun before offset => matchAt?_eq_none_of_leaves hleaves before offset []
  have hvalue : ∀ c ∈ value ++ "[truncated]".toList, c ∈ secretChars ++ "[truncated]".toList :=
    List.forall_mem_append.mpr ⟨fun c hc => List.mem_append_left _ (hvalue c hc),
      fun c hc => List.mem_append_right _ hc⟩
  have hword : ∀ offset rest, namedSecret.replaceFrom secretMask (some 'p') offset
      ("assword".toList ++ rest) = "assword".toList ++
        namedSecret.replaceFrom secretMask (some 'd') (offset + 7) rest :=
    fun offset rest => replaceFrom_of_word rfl (by decide)
  have hname : "password=".toList ++ (value ++ "[truncated]".toList) =
      'p' :: ("assword".toList ++ '=' :: (value ++ "[truncated]".toList)) := rfl
  rw [hname, replaceFrom_cons_of_none hstart, hword, replaceFrom_cons_of_none (hsign _ _),
    replaceFrom_of_avoids havoids hvalue]

/-- What stands before a password is masked in the same way whatever the password is. -/
theorem exists_namedSecret_front {before : List Char}
    (hbefore : ∀ c ∈ before.getLast?, isBlank c = true) (rest rest' : List Char) :
    ∃ front,
      namedSecret.replace secretMask (before ++ ("password=".toList ++ rest)) = front ++
        namedSecret.replaceFrom secretMask before.getLast? before.length
          ("password=".toList ++ rest) ∧
      namedSecret.replace secretMask (before ++ ("password=".toList ++ rest')) = front ++
        namedSecret.replaceFrom secretMask before.getLast? before.length
          ("password=".toList ++ rest') := by
  have hends : ∀ u v, before = u ++ v → v ≠ [] →
      List.Forall₂ (Alike (0 + u.length + v.length) v ("password=".toList ++ rest)
          ("password=".toList ++ rest'))
        (namedSecret.ends ⟨u.getLast?.or none, v ++ ("password=".toList ++ rest), 0 + u.length, []⟩)
        (namedSecret.ends
          ⟨u.getLast?.or none, v ++ ("password=".toList ++ rest'), 0 + u.length, []⟩) := by
    rintro u v rfl hv
    refine ends_namedSecret_alike hv (fun c hc => hbefore c ?_) _ _
    rw [List.getLast?_append, Option.mem_def.mp hc]
    rfl
  obtain ⟨front, hfront, hfront'⟩ := @exists_replaceFrom_append namedSecret secretMask none 0 before
    _ _ (by decide) (fun _ _ => rfl) hends
  rw [Option.or_none, Nat.zero_add] at hfront hfront'
  exact ⟨front, hfront, hfront'⟩

end NamedSecret

/-! ## Passwords that are masked -/

section Masked

variable {before value value' after : List Char}

/-- What an address becomes. -/
def emailMask : Found → List Char := fun _ => "[EMAIL_MASKED]".toList

/-- The rules for what looks like a token or a number. -/
def laterRules : List MaskRule := rules.drop 2

theorem rules_eq : rules = ⟨email, emailMask⟩ :: ⟨namedSecret, secretMask⟩ :: laterRules := rfl

theorem mask_eq (text : List Char) :
    mask text = laterRules.foldl (fun text rule => rule.pattern.replace rule.mask text)
      (namedSecret.replace secretMask (email.replace emailMask text)) := by
  rw [mask, rules_eq, List.foldl_cons, List.foldl_cons]

theorem any_isWordChar_of_blank {c : Option Char} (h : ∀ d ∈ c, isBlank d = true) :
    c.any isWordChar = false := by
  cases c with
  | none => rfl
  | some c => exact Segment.isWordChar_of_isBlank (h c rfl)

/-- A value ends before the mark of a text that is cut. -/
theorem endsValue_of_mem_mark : ∀ c ∈ "[truncated]".toList.head?, endsValue c = true := by
  intro c hc
  obtain rfl : '[' = c := Option.some.inj hc
  rfl

theorem endsValue_of_isBlank {c : Char} (h : isBlank c = true) : endsValue c = true := by
  rw [endsValue, h, Bool.true_or]

theorem getLast?_replace_email (hbefore : ∀ c ∈ before.getLast?, isBlank c = true) :
    (email.replace emailMask before).getLast? = before.getLast? :=
  getLast?_replaceFrom looksNear_email (by decide) (fun _ _ => rfl)
    (fun c hc => (classes_of_endsValue (endsValue_of_isBlank (hbefore c hc))).1) none 0

theorem head?_replaceFrom_email (hafter : ∀ c ∈ after.head?, endsValue c = true)
    (offset : Nat) : (email.replaceFrom emailMask none offset after).head? = after.head? := by
  cases after with
  | nil => rfl
  | cons c cs =>
    rw [replaceFrom_cons_of_none (matchAt?_email_eq_none (hafter c rfl) none cs offset)]
    rfl

/-- Of a password of twenty characters and more nothing is left in a masked text. -/
theorem mask_withPassword (hbefore : ∀ c ∈ before.getLast?, isBlank c = true)
    (hafter : ∀ c ∈ after.head?, endsValue c = true) (hlength : value.length = value'.length)
    (hlong : 20 ≤ value.length) (hvalue : ∀ c ∈ value, c ∈ secretChars)
    (hvalue' : ∀ c ∈ value', c ∈ secretChars) :
    mask (withPassword before value after) = mask (withPassword before value' after) := by
  have hclosed : ∀ c ∈ before.getLast?, endsValue c = true :=
    fun c hc => endsValue_of_isBlank (hbefore c hc)
  have hmail := @email_withPassword before value after emailMask (fun _ _ => rfl) hclosed hvalue
    hafter
  have hmail' := @email_withPassword before value' after emailMask (fun _ _ => rfl) hclosed hvalue'
    hafter
  rw [← hlength] at hmail'
  have hlast := getLast?_replace_email hbefore
  have hhead := head?_replaceFrom_email hafter (before.length + 9 + value.length)
  rw [mask_eq, mask_eq, hmail, hmail']
  -- The rule for addresses leaves what the rule for secrets needs to know of the three parts.
  generalize email.replace emailMask before = front at hlast ⊢
  generalize email.replaceFrom emailMask none _ after = rest at hhead ⊢
  rw [← hlast] at hbefore
  rw [← hhead] at hafter
  obtain ⟨start, hstart, hstart'⟩ :=
    exists_namedSecret_front hbefore (value ++ rest) (value' ++ rest)
  have hword := any_isWordChar_of_blank hbefore
  have hlong' : 20 ≤ value'.length := hlength ▸ hlong
  rw [withPassword, withPassword, hstart, hstart',
    replaceFrom_namedSecret hword hlong hvalue hafter,
    replaceFrom_namedSecret hword hlong' hvalue' hafter, hlength]

end Masked

end GuestCode.Masking
