import GuestCode.Proofs.Execution.Run
import GuestCode.Proofs.Text.Split
import GuestCode.Proofs.Text.Utf8

/-!
# What is reported of an error output

The error output of a runner comes in chunks of any size, and the last characters of it are reported
if the runner ends without a result. While it is read, only the last chunks are kept: old ones are
dropped while there are more characters than are reported, and always as a whole. So what is kept
can be less than what was to be reported.

## Main statements

* `Host.Retained`: what is kept is the longest run of last chunks that is short enough, or the last
  chunk.
* `Host.Retained.min_errorTail_le_iff`: when what is kept is as much as was to be reported.
* `Host.run_silent`: what is reported of the error output of a runner that ends without a result.
-/

namespace GuestCode

namespace Host

/-! ## Kept chunks -/

/-- The texts of the chunks of an error output, which ends with a chunk that is empty. -/
def errorTexts (chunks : List (List UInt8)) : List (List Char) :=
  (chunks.takeWhile (!·.isEmpty)).map Utf8.decodeLossy

/-- What is kept of some texts, with its size: the longest run of last texts that has no more
characters than are reported; the last text is kept in any case. -/
structure Retained (texts : List (List Char)) (state : Nat × List (List Char)) : Prop where
  size : state.1 = state.2.flatten.length
  suffix : state.2 <:+ texts
  last : texts ≠ [] → state.2 ≠ []
  fits : state.1 ≤ errorTail ∨ state.2.length ≤ 1
  longest : ∀ run, run <:+ texts → state.2.length < run.length → errorTail < run.flatten.length

theorem retained_nil : Retained [] (0, []) where
  size := rfl
  suffix := List.suffix_rfl
  last := fun h => absurd rfl h
  fits := .inr (Nat.zero_le 1)
  longest := by
    intro run hrun hlength
    rw [List.suffix_nil.mp hrun] at hlength
    exact absurd hlength (Nat.lt_irrefl 0)

/-- Dropping old texts keeps as many last ones as are short enough. -/
theorem retained_dropOld {size : Nat} {texts : List (List Char)}
    (h : size = texts.flatten.length) : Retained texts (dropOld size texts) := by
  fun_induction dropOld size texts with
  | case1 size text next rest hlong ih =>
    have hrest : size - text.length = (next :: rest).flatten.length := by
      rw [h, List.flatten_cons, List.length_append, Nat.add_sub_cancel_left]
    obtain ⟨hsize, hsuffix, hlast, hfits, hlongest⟩ := ih hrest
    refine ⟨hsize, hsuffix.trans (List.suffix_cons _ _), fun _ => hlast (by simp), hfits,
      fun run hrun hlength => ?_⟩
    -- A longer run is all of the texts, or one without the text that has been dropped.
    rcases List.suffix_cons_iff.mp hrun with rfl | hrun
    · exact h ▸ hlong
    · exact hlongest run hrun hlength
  | case2 size text next rest hshort =>
    refine ⟨h, List.suffix_rfl, fun _ => by simp, .inl (Nat.le_of_not_lt hshort), ?_⟩
    intro run hrun hlength
    exact absurd hrun.length_le (Nat.not_le_of_lt hlength)
  | case3 size texts hshort =>
    have hone : texts.length ≤ 1 := by
      match texts, hshort with
      | [], _ => exact Nat.zero_le 1
      | [_], _ => exact Nat.le_refl 1
      | text :: next :: rest, hshort => exact absurd rfl (hshort text next rest)
    refine ⟨h, List.suffix_rfl, id, .inr hone, ?_⟩
    intro run hrun hlength
    exact absurd hrun.length_le (Nat.not_le_of_lt hlength)

/-- One more text: what was dropped before would be dropped now. -/
theorem Retained.push {texts kept : List (List Char)} {size : Nat}
    (h : Retained texts (size, kept)) (text : List Char) :
    Retained (texts ++ [text]) (dropOld (size + text.length) (kept ++ [text])) := by
  have hold : size = kept.flatten.length := h.size
  have hsize : size + text.length = (kept ++ [text]).flatten.length := by
    rw [hold, List.flatten_append, List.length_append, List.flatten_singleton]
  obtain ⟨hsize, hsuffix, hlast, hfits, hlongest⟩ := retained_dropOld hsize
  have hkept : kept ++ [text] <:+ texts ++ [text] := by
    obtain ⟨dropped, hdropped⟩ := h.suffix
    exact ⟨dropped, by rw [← List.append_assoc, hdropped]⟩
  refine ⟨hsize, hsuffix.trans hkept, fun _ => hlast (by simp), hfits, fun run hrun hlength => ?_⟩
  rcases Nat.lt_or_ge (kept ++ [text]).length run.length with hlt | hle
  rotate_left
  · exact hlongest run (List.suffix_of_suffix_length_le hrun hkept hle) hlength
  · -- Without the new text the run is one of the old texts, longer than what was kept of these.
    obtain ⟨before, rfl⟩ : ∃ before, run = before ++ [text] := by
      have hnew : [text] <:+ run :=
        List.suffix_of_suffix_length_le (List.suffix_append texts [text]) hrun (by
          rw [List.length_append] at hlt
          simp only [List.length_singleton] at hlt ⊢
          omega)
      obtain ⟨before, hbefore⟩ := hnew
      exact ⟨before, hbefore.symm⟩
    obtain ⟨dropped, hdropped⟩ := hrun
    rw [← List.append_assoc] at hdropped
    have hlonger : kept.length < before.length := by
      simp only [List.length_append, List.length_singleton] at hlt
      omega
    have hlong := h.longest before ⟨dropped, List.append_cancel_right hdropped⟩ hlonger
    rw [List.flatten_append, List.length_append]
    exact Nat.lt_add_right _ hlong

/-- What is kept of an error output. -/
theorem exists_retained (chunks : List (List UInt8)) :
    ∃ size, Retained (errorTexts chunks) (size, keepErrors chunks) := by
  have hfold : ∀ (chunks : List (List UInt8)) (texts : List (List Char))
      (state : Nat × List (List Char)), Retained texts state →
      Retained (texts ++ chunks.map Utf8.decodeLossy)
        (chunks.foldl (fun kept chunk =>
          let text := Utf8.decodeLossy chunk
          dropOld (kept.1 + text.length) (kept.2 ++ [text])) state) := by
    intro chunks
    induction chunks with
    | nil => intro texts state h; simpa using h
    | cons chunk rest ih =>
      intro texts state h
      have hrest := ih _ _ (h.push (Utf8.decodeLossy chunk))
      rw [List.append_assoc] at hrest
      exact hrest
  exact ⟨_, hfold (chunks.takeWhile (!·.isEmpty)) [] (0, []) retained_nil⟩

/-! ## As much as was to be reported -/

/-- Whether dropping whole texts leaves as much as is to be reported: there is no more than that, or
some last texts have exactly that many characters, or the last text has them alone. -/
def KeepsEnough (texts : List (List Char)) : Prop :=
  texts.flatten.length ≤ errorTail ∨
    ∃ run, run <:+ texts ∧
      (run.flatten.length = errorTail ∨ run.length = 1 ∧ errorTail ≤ run.flatten.length)

theorem length_flatten_le_of_suffix {run texts : List (List Char)} (h : run <:+ texts) :
    run.flatten.length ≤ texts.flatten.length := by
  obtain ⟨dropped, rfl⟩ := h
  rw [List.flatten_append, List.length_append]
  exact Nat.le_add_left _ _

theorem Retained.flatten_suffix {texts kept : List (List Char)} {size : Nat}
    (h : Retained texts (size, kept)) : kept.flatten <:+ texts.flatten := by
  obtain ⟨dropped, hdropped⟩ := h.suffix
  exact ⟨dropped.flatten, by rw [← List.flatten_append, hdropped]⟩

/-- When what is kept is as much as was to be reported. -/
theorem Retained.min_errorTail_le_iff {texts kept : List (List Char)} {size : Nat}
    (h : Retained texts (size, kept)) :
    min errorTail texts.flatten.length ≤ kept.flatten.length ↔ KeepsEnough texts := by
  have hsize := h.size
  have hlongest : ∀ run, run <:+ texts → run.flatten.length ≤ errorTail →
      run.flatten.length ≤ kept.flatten.length := by
    intro run hrun hshort
    have hlength := Nat.le_of_not_lt fun hlt =>
      Nat.not_lt_of_le hshort (h.longest run hrun hlt)
    exact length_flatten_le_of_suffix (List.suffix_of_suffix_length_le hrun h.suffix hlength)
  constructor
  · intro henough
    rcases Nat.lt_or_ge errorTail texts.flatten.length with hlong | hshort
    rotate_left
    · exact .inl hshort
    rw [Nat.min_eq_left (Nat.le_of_lt hlong)] at henough
    refine .inr ⟨kept, h.suffix, ?_⟩
    rcases h.fits with hfits | hone
    · exact .inl (Nat.le_antisymm (hsize ▸ hfits) henough)
    · have hne : kept ≠ [] := h.last (by rintro rfl; simp at hlong)
      exact .inr ⟨Nat.le_antisymm hone (List.length_pos_iff.mpr hne), henough⟩
  · rintro (hshort | ⟨run, hrun, hexact | ⟨hone, hlong⟩⟩)
    · exact (Nat.min_le_right _ _).trans (hlongest texts List.suffix_rfl hshort)
    · exact (Nat.min_le_left _ _).trans (hexact ▸ hlongest run hrun (Nat.le_of_eq hexact))
    · -- The last text is kept in any case.
      have hne : texts ≠ [] := by
        rintro rfl
        rw [List.suffix_nil.mp hrun] at hone
        cases hone
      have hkept := List.length_pos_iff.mpr (h.last hne)
      have hsuffix := List.suffix_of_suffix_length_le hrun h.suffix (hone ▸ hkept)
      exact (Nat.min_le_left _ _).trans (hlong.trans (length_flatten_le_of_suffix hsuffix))

/-! ## What is reported -/

/-- The last characters of a text. -/
def lastChars (count : Nat) (text : List Char) : List Char := text.drop (text.length - count)

theorem length_lastChars (count : Nat) (text : List Char) :
    (lastChars count text).length = min count text.length := by
  rw [lastChars, List.length_drop]
  omega

/-- The last characters of an end of a text are the last ones of the text. -/
theorem lastChars_of_suffix {kept text : List Char} (h : kept <:+ text) (count : Nat) :
    lastChars count kept = lastChars (min count kept.length) text := by
  obtain ⟨dropped, rfl⟩ := h
  have hplace : (dropped ++ kept).length - min count kept.length =
      dropped.length + (kept.length - count) := by
    rw [List.length_append]
    omega
  rw [lastChars, lastChars, hplace, List.drop_length_add_append]

/-- Of an error output without blanks the last characters that have been kept are reported. These
are the last ones that were to be reported if as many have been kept. -/
theorem errorReport_of_not_blank {chunks : List (List UInt8)}
    (h : ∀ c ∈ (errorTexts chunks).flatten, Text.isBlank c = false) :
    errorReport chunks = String.ofList (lastChars
        (min errorTail (keepErrors chunks).flatten.length) (errorTexts chunks).flatten) ∧
      (errorReport chunks =
          String.ofList (lastChars (min errorTail (errorTexts chunks).flatten.length)
            (errorTexts chunks).flatten) ↔
        KeepsEnough (errorTexts chunks)) := by
  obtain ⟨size, hretained⟩ := exists_retained chunks
  have hsuffix := hretained.flatten_suffix
  have htrim := Text.trim_of_not_blank fun c hc => h c (hsuffix.subset hc)
  have hreport : errorReport chunks = String.ofList (lastChars
      (min errorTail (keepErrors chunks).flatten.length) (errorTexts chunks).flatten) := by
    rw [← lastChars_of_suffix hsuffix, errorReport, htrim]
    rfl
  refine ⟨hreport, ?_⟩
  have hle := hsuffix.length_le
  rw [hreport, String.ofList_inj, ← hretained.min_errorTail_le_iff]
  constructor
  · intro heq
    have hlength := congrArg List.length heq
    rw [length_lastChars, length_lastChars] at hlength
    omega
  · intro henough
    rw [show min errorTail (keepErrors chunks).flatten.length =
      min errorTail (errorTexts chunks).flatten.length by omega]

/-! ## A run without a result -/

variable (host : Host)

/-- A run whose program is found and started, and whose output ends in time without a result. -/
structure EndsSilently (m : Machine) (limit : Int) : Prop where
  found : ∃ path, host.lookedUp m = .ok (some path)
  passed : ∀ v ∈ host.passedVariables, ∃ s, v = .text s
  started : m.nextScript.refusal = none
  inTime : ∃ seconds, (Value.int limit).thousandth = .ok seconds ∧ isOver seconds = false
  ended : decisionOf m.nextScript.events = .ended

/-- The message about a program that has ended without a result. -/
def exitMessage (exitCode : Int) (report : String) : String :=
  let message := "Guest runtime exited without a result (exit code " ++ toString exitCode ++ ")"
  if report.isEmpty then message else message ++ ": " ++ report

theorem EndsSilently.exists_run {host : Host} {m : Machine} {limit : Int}
    (h : host.EndsSilently m limit) (code : String) (table : BindingTable) {globals : Value}
    (hglobals : Json.IsPlain globals) :
    ∃ n, (host.run code (.int limit) table globals).run m =
      (.ok (.failed .host
        (exitMessage m.nextScript.exitCode (errorReport m.nextScript.errorChunks))
        (keptLines host.maxLogLines.toNat (loggedBefore m.nextScript.events))), n) := by
  obtain ⟨⟨path, hfound⟩, hpassed, hstarted, ⟨seconds, hseconds, hover⟩, hended⟩ := h
  obtain ⟨environment, henvironment⟩ := host.exists_childVariables hpassed m.environment
  rw [host.run_run_of_found code _ table globals hfound henvironment, hstarted]
  have hglobals : Json.IsPlain (if globals.isTruthy then globals else Value.record []) := by
    split
    · exact hglobals
    · simp
  dsimp only
  generalize ({ m with scripts := _, launches := _ } : Machine) = m'
  obtain ⟨m₁, hsend⟩ := exists_run_send m.nextScript.input
    (isPlain_start code table.manifest hglobals limit) m'
  obtain ⟨m₂, hserve⟩ := run_serve table m.nextScript.input (.ofLimit host.maxLogLines)
    m.nextScript.events m₁
  rw [hended] at hserve
  unfold converse
  rw [Action.run_bind_ok hsend, hseconds, Action.run_bind_ok (Action.run_ofExcept _ _)]
  dsimp only
  rw [hover, if_neg (by simp), Action.run_bind_ok hserve, ← LogBuffer.lines_foldl_push]
  exact ⟨m₂, rfl⟩

/-- What is kept of an error output, and what a run without a result reports of it: as much as
promised if, and only if, dropping whole texts leaves as much. -/
theorem run_silent (host : Host) (chunks : List (List UInt8)) :
    let texts := errorTexts chunks
    let kept := (keepErrors chunks).flatten
    (kept <:+ texts.flatten ∧
      (min errorTail texts.flatten.length ≤ kept.length ↔ KeepsEnough texts)) ∧
    ∀ (m : Machine) (limit : Int) (code : String) (table : BindingTable) (globals : Value),
      Json.IsPlain globals → host.EndsSilently m limit → m.nextScript.errorChunks = chunks →
      ∃ report n, (host.run code (.int limit) table globals).run m =
          (.ok (.failed .host (exitMessage m.nextScript.exitCode report)
            (keptLines host.maxLogLines.toNat (loggedBefore m.nextScript.events))), n) ∧
        ((∀ c ∈ texts.flatten, Text.isBlank c = false) →
          report = String.ofList (lastChars (min errorTail kept.length) texts.flatten) ∧
          (report = String.ofList (lastChars (min errorTail texts.flatten.length) texts.flatten) ↔
            KeepsEnough texts)) := by
  intro texts kept
  obtain ⟨size, hretained⟩ := exists_retained chunks
  refine ⟨⟨hretained.flatten_suffix, hretained.min_errorTail_le_iff⟩, ?_⟩
  rintro m limit code table globals hglobals hsilent rfl
  obtain ⟨n, hrun⟩ := hsilent.exists_run code table hglobals
  exact ⟨_, n, hrun, errorReport_of_not_blank⟩

/-- A runner that writes some texts as its error output and ends. -/
def complaining (texts : List (List Char)) : ChildScript :=
  { ChildScript.success with
    events := []
    errorChunks := texts.map Utf8.encode
    exitCode := 1 }

/-- A machine on which a runner is started that writes some texts as its error output. -/
def complainingMachine (texts : List (List Char)) : Machine :=
  { Machine.bare [] [] with
    programs := [("node", "/usr/bin/node")]
    scripts := [complaining texts] }

theorem endsSilently_complaining (texts : List (List Char)) :
    briefHost.EndsSilently (complainingMachine texts) 1000 where
  found := ⟨"/usr/bin/node", rfl⟩
  passed := by simp [briefHost]
  started := rfl
  inTime := exists_thousandth (by omega)
  ended := rfl

/-- The texts of chunks that are the octets of texts. -/
theorem errorTexts_map_encode {texts : List (List Char)} (h : ∀ text ∈ texts, text ≠ []) :
    errorTexts (texts.map Utf8.encode) = texts := by
  have hall : ∀ chunk ∈ texts.map Utf8.encode, (!chunk.isEmpty) = true := by
    intro chunk hchunk
    obtain ⟨text, htext, rfl⟩ := List.mem_map.mp hchunk
    rw [Bool.not_eq_true', List.isEmpty_eq_false_iff]
    intro hempty
    have hback := Utf8.decodeLossy_encode text
    rw [hempty] at hback
    exact h text htext hback.symm
  rw [errorTexts, List.takeWhile_eq_self_iff.mpr hall, List.map_map,
    show Utf8.decodeLossy ∘ Utf8.encode = id from funext Utf8.decodeLossy_encode, List.map_id]

theorem run_silent_complaining :
    ∃ n, (briefHost.run "return 1;" (.int 1000) ⟨[]⟩ (.mapping [])).run
        (complainingMachine ["oh".toList, "no".toList]) =
      (.ok (.failed .host "Guest runtime exited without a result (exit code 1): ohno" []), n) := by
  have hglobals : Json.IsPlain (.mapping []) := .mapping (by simp) (by simp)
  obtain ⟨-, hruns⟩ := run_silent briefHost (["oh".toList, "no".toList].map Utf8.encode)
  obtain ⟨report, n, hrun, hreport⟩ :=
    hruns _ _ "return 1;" ⟨[]⟩ _ hglobals
      (endsSilently_complaining ["oh".toList, "no".toList]) rfl
  have htexts : errorTexts (["oh".toList, "no".toList].map Utf8.encode) =
      ["oh".toList, "no".toList] := errorTexts_map_encode (by decide)
  rw [htexts] at hreport
  obtain ⟨-, hfull⟩ := hreport (by decide)
  have hshort : KeepsEnough ["oh".toList, "no".toList] := .inl (by decide)
  rw [hfull.mpr hshort] at hrun
  exact ⟨n, hrun.trans rfl⟩

/-- Of two chunks the first one is dropped as a whole if there are more characters than are
reported. -/
theorem keepErrors_pair {first last : List Char} (hfirst : first ≠ []) (hlast : last ≠ [])
    (hlong : errorTail < first.length + last.length) :
    keepErrors [Utf8.encode first, Utf8.encode last] = [last] := by
  have hkept : keepErrors [Utf8.encode first, Utf8.encode last] =
      ((errorTexts ([first, last].map Utf8.encode)).foldl (fun kept text =>
        dropOld (kept.1 + text.length) (kept.2 ++ [text])) (0, [])).2 := by
    rw [errorTexts, List.foldl_map]
    rfl
  rw [hkept, errorTexts_map_encode (by simp [hfirst, hlast])]
  simp [dropOld, hlong]

/-- A long first chunk is lost for a short last one: of the last two thousand characters no more
than twenty are reported. -/
theorem run_complaining_twice :
    let texts := [List.replicate 1990 'a', List.replicate 20 'b']
    min errorTail texts.flatten.length = 2000 ∧
      (keepErrors (texts.map Utf8.encode)).flatten.length = 20 ∧
      ∃ n, (briefHost.run "return 1;" (.int 1000) ⟨[]⟩ (.mapping [])).run
          (complainingMachine texts) =
        (.ok (.failed .host (exitMessage 1 (String.ofList (List.replicate 20 'b'))) []), n) := by
  intro texts
  have hfirst : (List.replicate 1990 'a').length = 1990 := List.length_replicate
  have hlast : (List.replicate 20 'b').length = 20 := List.length_replicate
  have hkept : keepErrors (texts.map Utf8.encode) = [List.replicate 20 'b'] :=
    keepErrors_pair (List.ne_nil_of_length_pos (by rw [hfirst]; decide))
      (List.ne_nil_of_length_pos (by rw [hlast]; decide)) (by rw [hfirst, hlast]; decide)
  have hreport : errorReport (texts.map Utf8.encode) = String.ofList (List.replicate 20 'b') := by
    rw [errorReport, hkept]
    decide
  obtain ⟨n, hrun⟩ := (endsSilently_complaining texts).exists_run "return 1;" ⟨[]⟩
    (.mapping (by simp) (by simp) : Json.IsPlain (.mapping []))
  have hchunks : (complainingMachine texts).nextScript.errorChunks = texts.map Utf8.encode := rfl
  rw [hchunks, hreport] at hrun
  refine ⟨?_, ?_, n, hrun.trans rfl⟩
  · rw [List.flatten_cons, List.flatten_singleton, List.length_append, hfirst, hlast]
    decide
  · rw [hkept, List.flatten_singleton, hlast]

end Host

end GuestCode
