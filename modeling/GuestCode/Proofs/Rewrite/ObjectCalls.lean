import GuestCode.Proofs.Json.Characters
import GuestCode.Proofs.Rewrite.MarkedFirst
import GuestCode.Proofs.Snippet.Nesting
import GuestCode.Proofs.Snippet.Reading

/-!
# Calls with one object

A positional call that is rewritten is left with one argument, an object in braces, if the texts it is
put together from are self-contained: then no argument can swallow the brace and the parenthesis that
are put after it.
-/

namespace GuestCode.Rewrite

open Text Text.Pattern Grammar

variable {source : List Char}

/-! ## The object -/

/-- The field of an object is an argument as well. -/
theorem enclosed_field {key value : List Char} (hplain : ∀ c ∈ key, c ∉ Segment.openers)
    (hkey : Balanced key) (h : Enclosed value) : Enclosed (key ++ ": ".toList ++ value) := by
  have hname := (Reads.of_plain hplain .start).append
    (Reads.of_opening (c := ':') (by decide +kernel) (by decide) _) fun _ _ _ _ => rfl
  obtain ⟨known, last, hvalue, hbalanced⟩ := h.exists_reads (.mark ':') (by decide)
  refine enclosed_of_reads (hname.append hvalue fun _ _ _ _ => rfl) ?_
  rw [List.map_append, List.map_append, map_char_shift, map_char_shift, map_char_placedFrom]
  exact (hkey.append (by decide)).append hbalanced

/-- Arguments with a comma between them are one text that can be an argument. -/
theorem enclosed_append {left right : List Char} (hleft : Enclosed left) (hright : Enclosed right) :
    Enclosed (left ++ (", ".toList ++ right)) := by
  obtain ⟨known, last, hread, hbalanced⟩ := hleft.exists_reads .start rfl
  obtain ⟨known', last', hread', hbalanced'⟩ := hright.exists_reads (.mark ',') (by decide)
  have hmore := (Reads.of_opening (c := ',') (by decide +kernel) (by decide) last).append hread'
    fun _ _ _ _ => rfl
  refine enclosed_of_reads (hread.append hmore fun after _ c hc => ?_) ?_
  · obtain rfl : ',' = c := Option.some.inj hc
    rfl
  · rw [List.map_append, map_char_shift, List.map_append, map_char_shift]
    exact hbalanced.append (Balanced.append (by decide) hbalanced')

theorem enclosed_joinWith {fields : List (List Char)} (h : ∀ field ∈ fields, Enclosed field) :
    Enclosed (joinWith ", ".toList fields) := by
  induction fields with
  | nil => exact enclosed_nil
  | cons field fields ih =>
    obtain ⟨hfield, hfields⟩ := List.forall_mem_cons.mp h
    cases fields with
    | nil => simpa [joinWith] using hfield
    | cons next others =>
      have hjoined : joinWith ", ".toList (field :: next :: others) =
          field ++ (", ".toList ++ joinWith ", ".toList (next :: others)) := by
        simp [joinWith]
      rw [hjoined]
      exact enclosed_append hfield (ih hfields)

/-- The keys of positional arguments are plain names. -/
theorem plain_of_mem_positionalKeys {method : List Char} {key : String}
    (h : key ∈ positionalKeys method) :
    (∀ c ∈ key.toList, c ∉ Segment.openers) ∧ Balanced key.toList := by
  have hall : ∀ key ∈ ["path", "content", "pattern", "recursive"],
      (∀ c ∈ key.toList, c ∉ Segment.openers) ∧ Balanced key.toList := by decide
  exact hall key (mem_of_mem_positionalKeys h)

/-- A text that is an object with the parenthesis after it. It is read in one way, and what is between
its braces is balanced. -/
structure ReadsAsObject (text inner : List Char) (known : List Placed) : Prop where
  text_eq : text = '\x7b' :: ' ' :: (inner ++ [' ', '\x7d', ')'])
  balanced : Balanced (known.map Placed.char)
  reads : Reads anything (.mark '(') text (⟨0, '\x7b'⟩ :: ⟨1, ' '⟩ :: (known ++
    [⟨inner.length + 2, ' '⟩, ⟨inner.length + 3, '\x7d'⟩, ⟨inner.length + 4, ')'⟩])) (.mark ')')

theorem exists_readsAsObject {inner : List Char} (h : Enclosed inner) :
    ∃ known, ReadsAsObject ('\x7b' :: ' ' :: (inner ++ [' ', '\x7d', ')'])) inner known := by
  obtain ⟨known, last, hread, hbalanced⟩ := h.exists_reads (.mark '\x7b') (by decide)
  have hopening := Reads.of_opening (c := '\x7b') (by decide +kernel) (by decide) (.mark '(')
  have hclosing := (Reads.of_plain (show ∀ c ∈ [' ', '\x7d'], c ∉ Segment.openers by decide)
    last).append (Reads.of_isMark (c := ')') (by decide +kernel) _) fun _ _ _ _ => rfl
  have hall := hopening.append (hread.append hclosing fun after _ c hc => by
    obtain rfl : ' ' = c := Option.some.inj hc
    rfl) fun _ _ _ _ => rfl
  refine ⟨known.map (Placed.shift 2), rfl, ?_, ?_⟩
  · rw [map_char_shift]
    exact hbalanced
  · refine Eq.mp (congrArg (fun known => Reads _ _ _ known _) ?_) hall
    rw [List.map_append, map_shift_map_shift]
    simp [placedFrom, Placed.shift]
    omega

/-- The object that is made of arguments. -/
theorem exists_readsAsObject_objectArgument {method : List Char} {arguments : List (List Char)}
    (h : ∀ pair ∈ (positionalKeys method).zip arguments, Enclosed pair.2) :
    ∃ inner known, ReadsAsObject (objectArgument (positionalKeys method) arguments) inner known := by
  obtain ⟨fields, htext, hfields⟩ := exists_fields_objectArgument (positionalKeys method) arguments
  have henclosed : ∀ field ∈ fields, Enclosed field := by
    intro field hfield
    obtain ⟨pair, hpair, rfl⟩ := hfields field hfield
    obtain ⟨hplain, hbalanced⟩ := plain_of_mem_positionalKeys (List.of_mem_zip hpair).1
    exact enclosed_field hplain hbalanced (h _ hpair)
  rw [htext]
  exact ⟨_, exists_readsAsObject (enclosed_joinWith henclosed)⟩

/-- The object is the only argument of its call, which is closed by the parenthesis after it. -/
theorem commasIn?_object {known more : List Placed} (h : Balanced (known.map Placed.char))
    (place opening gap gap' closing close : Nat) :
    commasIn? 0 (⟨place, '('⟩ :: ⟨opening, '\x7b'⟩ :: ⟨gap, ' '⟩ ::
      (known ++ ⟨gap', ' '⟩ :: ⟨closing, '\x7d'⟩ :: ⟨close, ')'⟩ :: more)) = some ([], close) := by
  have hinside := commasIn?_of_nestingAfter? h
    (⟨gap', ' '⟩ :: ⟨closing, '\x7d'⟩ :: ⟨close, ')'⟩ :: more)
  calc commasIn? 0 (⟨place, '('⟩ :: ⟨opening, '\x7b'⟩ :: ⟨gap, ' '⟩ ::
        (known ++ ⟨gap', ' '⟩ :: ⟨closing, '\x7d'⟩ :: ⟨close, ')'⟩ :: more))
      = commasIn? 2 (known ++ ⟨gap', ' '⟩ :: ⟨closing, '\x7d'⟩ :: ⟨close, ')'⟩ :: more) := rfl
    _ = commasIn? 2 (⟨gap', ' '⟩ :: ⟨closing, '\x7d'⟩ :: ⟨close, ')'⟩ :: more) := hinside
    _ = some ([], close) := rfl

/-! ## The arguments in the snippet -/

/-- An argument that is self-contained is balanced, since what stands between the marks is. -/
theorem enclosed_of_stands {left right : Placed} {start stop : Nat}
    (h : Stands source left right start stop) (hleft : left.char ∈ ['(', ','])
    (hright : right.char = ',' ∨ isClosing right.char = true)
    (hself : SelfContained separates (Region.slice source start stop)) :
    Enclosed (Region.slice source start stop) := by
  obtain ⟨known, last, hread⟩ := hself
  obtain ⟨hstart, hbefore⟩ := h.blank_before
  obtain ⟨hstop, hafter⟩ := h.blank_after
  obtain ⟨hmark, hfresh⟩ := isMark_of_separator hleft
  obtain ⟨hmark', hseparates⟩ := separates_of_mark hright
  -- Between the marks there is the argument with blanks around it.
  have hblank := Reads.of_blank hbefore hfresh
  obtain ⟨last', hblank'⟩ : ∃ last', Reads (· == right.char) last
      (Region.slice source stop right.place) (placedFrom 0 (Region.slice source stop right.place))
      last' :=
    ⟨_, (Reads.of_plain (fun c hc => Segment.not_mem_openers_of_isBlank (hafter c hc)) last).mono
      fun _ _ => rfl⟩
  have hinside := (hread.congr rfl hfresh).append hblank' fun after hnext c hc => by
    cases hgap : Region.slice source stop right.place with
    | nil =>
      rw [hgap, List.nil_append] at hc
      rw [beq_iff_eq.mp (hnext c hc)]
      exact hseparates
    | cons d ds =>
      rw [hgap] at hc
      obtain rfl := Option.some.inj hc
      rw [separates, hafter d (hgap ▸ .head _)]
      rfl
  have hbetween := (hblank.append hinside fun _ _ _ _ => rfl) (source.drop right.place) (by
    rw [drop_of_mem_codeChars h.right_mem]
    simp)
  rw [Region.slice_append_slice h.le hstop, Region.slice_append_slice hstart (h.le.trans hstop),
    Region.slice_append_drop (hstart.trans (h.le.trans hstop))] at hbetween
  obtain ⟨middle, hmiddle, hcode⟩ := (resumes_behind h.left_mem hmark).exists_upTo h.right_mem
    hmark' (hstart.trans (h.le.trans hstop)) last'
  have hchars := congrArg (List.map Placed.char) (hcode.symm.trans hbetween)
  simp only [List.map_append, map_char_shift, map_char_placedFrom] at hchars
  have hbalanced := h.balanced_between
  rw [← hmiddle, List.append_cancel_right hchars] at hbalanced
  exact enclosed_of_reads hread
    (hbalanced.of_append (balanced_of_blank hbefore) (balanced_of_blank hafter))

/-! ## What stands before a call -/

/-- An edit after the parenthesis of a call, up to the parenthesis that closes it. The snippet before
it and the text of the edit are read in one way. -/
structure ClearEdit (source : List Char) (e : Edit) : Prop where
  start_le : e.start ≤ e.stop
  parenthesis : ∃ place, e.start = place + 1 ∧ ⟨place, '('⟩ ∈ codeChars source ∧
    SelfContained anything (source.take place)
  closing : ∃ place, e.stop = place + 1 ∧ ⟨place, ')'⟩ ∈ codeChars source
  text : ∃ known, Reads anything (.mark '(') e.text known (.mark ')')

/-- Before a call whose text in front is self-contained, a snippet with the edits made is read in one
way. -/
theorem exists_reads_applyFrom {edits : List Edit} {look : Segment.Lookback} {start stop : Nat}
    (hresumes : Resumes source look start) (hedits : ∀ e ∈ edits, ClearEdit source e)
    (hordered : edits.Pairwise fun e e' => e.stop < e'.start)
    (hstart : ∀ e ∈ edits, start < e.start) (hstop : ∀ e ∈ edits, e.stop ≤ stop)
    (hle : start ≤ stop) (hlength : stop ≤ source.length)
    (hself : SelfContained anything (source.take stop)) :
    ∃ known last, Reads anything look (Edit.applyFrom (source.take stop) start edits) known last := by
  induction edits generalizing look start with
  | nil =>
    have hslice : (source.take stop).drop start = Region.slice source start stop := List.drop_take
    rw [Edit.applyFrom, hslice]
    exact hresumes.opens stop hle hlength hself
  | cons e rest ih =>
    obtain ⟨hclear, hrest⟩ := List.forall_mem_cons.mp hedits
    obtain ⟨hfirst, hordered⟩ := List.pairwise_cons.mp hordered
    obtain ⟨hstart, -⟩ := List.forall_mem_cons.mp hstart
    obtain ⟨hstopFirst, hstop⟩ := List.forall_mem_cons.mp hstop
    have hwhole := hclear.start_le
    obtain ⟨place, hplace, hparenthesis, hbefore⟩ := hclear.parenthesis
    obtain ⟨close, hclose, hclosing⟩ := hclear.closing
    obtain ⟨inner, hinner⟩ := hclear.text
    obtain ⟨known, last, hlead⟩ := hresumes.opens place (by omega)
      (Nat.le_of_lt (place_lt_of_mem_codeChars hparenthesis)) hbefore
    have hbehind := resumes_behind hclosing (show isMark ')' = true by decide +kernel)
    obtain ⟨later, last', hlater⟩ := ih hbehind hrest hordered
      (fun e' he' => hclose ▸ hfirst e' he') hstop (hclose ▸ hstopFirst)
    have hopening := Reads.of_isMark (show isMark '(' = true by decide +kernel) last
    have hall := (hlead.append hopening fun _ _ _ _ => rfl).append
      (hinner.append hlater fun _ _ _ _ => rfl) fun _ _ _ _ => rfl
    rw [Edit.applyFrom, Region.slice_take (by omega), hplace, Region.slice_succ hparenthesis (by omega), hclose,
      List.append_assoc]
    exact ⟨_, last', hall⟩

/-- A snippet with edits made is divided at each of them. -/
theorem applyFrom_divide {pre post : List Edit} {e : Edit} {start place : Nat}
    (hstart : e.start = place + 1) (hplace : ⟨place, '('⟩ ∈ codeChars source)
    (hbefore : ∀ e' ∈ pre, e'.start ≤ place) (hle : start ≤ place)
    (hstop : ∀ e' ∈ pre, e'.stop ≤ place) :
    Edit.applyFrom source start (pre ++ e :: post) =
      Edit.applyFrom (source.take place) start pre ++
        '(' :: (e.text ++ Edit.applyFrom source e.stop post) := by
  induction pre generalizing start with
  | nil =>
    have hslice : (source.take place).drop start = Region.slice source start place := List.drop_take
    rw [List.nil_append, Edit.applyFrom, Edit.applyFrom, hslice, hstart, Region.slice_succ hplace hle]
    simp
  | cons e' rest ih =>
    obtain ⟨hfirst, hbefore⟩ := List.forall_mem_cons.mp hbefore
    obtain ⟨hstopFirst, hstop⟩ := List.forall_mem_cons.mp hstop
    rw [List.cons_append, Edit.applyFrom, Edit.applyFrom, Region.slice_take hfirst,
      ih hbefore hstopFirst hstop]
    simp

/-! ## The first line -/

/-- A JSON string is a string of a script. -/
theorem quotedBody_flatMap (asciiOnly : Bool) (text : List Char) :
    Segment.QuotedBody '"' (text.flatMap (Json.escapedChar asciiOnly)) := by
  have hdigits : ∀ c ∈ Json.hexDigits, c ≠ '"' ∧ c ≠ '\\' ∧ c ≠ '\n' := by decide
  have hplain : ∀ {digits rest : List Char}, (∀ c ∈ digits, c ∈ Json.hexDigits) →
      Segment.QuotedBody '"' rest → Segment.QuotedBody '"' (digits ++ rest) := by
    intro digits rest hmem hrest
    induction digits with
    | nil => exact hrest
    | cons c cs ih =>
      obtain ⟨hc, hcs⟩ := List.forall_mem_cons.mp hmem
      obtain ⟨hquote, hslash, hline⟩ := hdigits c hc
      exact .char hquote hslash hline (ih hcs)
  have hunit : ∀ {unit : Nat} {rest : List Char}, Segment.QuotedBody '"' rest →
      Segment.QuotedBody '"' (Json.unitEscape unit ++ rest) := fun hrest =>
    .escape (hplain (fun c hc => Json.mem_hexDigits_of_mem_hexPadded hc) hrest)
  induction text with
  | nil => exact .nil
  | cons c cs ih =>
    rw [List.flatMap_cons]
    obtain ⟨codes, hwritten⟩ := Json.exists_writtenAs asciiOnly c
    generalize Json.escapedChar asciiOnly c = written at hwritten
    cases hwritten with
    | letter => exact .escape ih
    | plain hquote hslash hcontrol =>
      exact .char hquote hslash (by rintro rfl; exact hcontrol (by decide)) ih
    | number => exact hunit ih
    | pair =>
      rw [List.append_assoc]
      exact hunit (hunit ih)

/-- The line that wraps the capability is read in one way, and an expression may start after it. -/
theorem exists_reads_wrapperLine (root : String) : ∃ known,
    Reads anything .start (wrapperLine root) known (.mark ';') := by
  obtain ⟨code, look, hlead, -⟩ := exists_codeOfKnown_lead
  have hroot := @Reads.of_isToken _ (.string (by decide) (quotedBody_flatMap true root.toList)) nofun
    nofun look
  have hend := Reads.of_plain (show ∀ c ∈ [')', ';', '\n'], c ∉ Segment.openers by decide) .literal
  rw [List.foldl_cons, List.foldl_cons, List.foldl_cons, List.foldl_nil,
    afterCode_of_isMark (c := ';') (by decide +kernel),
    Segment.Lookback.afterCode_of_isBlank (c := '\n') (by decide) (by decide)] at hend
  have htext : wrapperLine root = wrapperLead.toList ++
      (('"' :: (root.toList.flatMap (Json.escapedChar true) ++ ['"'])) ++ [')', ';', '\n']) := by
    have hclosing : ");".toList = [')', ';'] := rfl
    rw [wrapperLine, pathWrapper, String.toList_append, String.toList_append, hclosing,
      Json.toList_quote]
    simp
  have hall := (Reads.of_known hlead).append (hroot.append hend fun _ _ _ _ => rfl)
    fun _ _ _ _ => rfl
  rw [htext]
  exact ⟨_, hall⟩

/-! ## Rewritten calls -/

theorem pairwise_positionalEdits {start : Nat} {calls : List Found}
    (hcalls : ∀ call ∈ calls, fileCall.Takes call.text ∧
      ∃ before, source = before ++ (call.text ++ call.after) ∧ call.start = before.length) :
    (positionalEdits source (Region.ofSource source) (codeChars source) start calls).Pairwise
      (fun e e' => e.stop < e'.start) ∧
    ∀ e ∈ positionalEdits source (Region.ofSource source) (codeChars source) start calls,
      start < e.start ∧ ∃ call ∈ calls, ∃ arguments,
        positionalEdit? source (Region.ofSource source) (codeChars source) call = some e ∧
          EditsCall source call arguments e := by
  fun_induction positionalEdits source (Region.ofSource source) (codeChars source) start calls with
  | case1 => exact ⟨.nil, by simp⟩
  | case2 start call rest _ ih | case3 start call rest _ _ ih =>
    obtain ⟨hordered, hedits⟩ := ih fun c hc => hcalls c (.tail _ hc)
    refine ⟨hordered, fun e he => ?_⟩
    obtain ⟨hlt, c, hc, hcall⟩ := hedits e he
    exact ⟨hlt, c, .tail _ hc, hcall⟩
  | case4 start call rest hstart e he ih =>
    obtain ⟨⟨htakes, before, hsource, hbefore⟩, hothers⟩ := List.forall_mem_cons.mp hcalls
    obtain ⟨arguments, hcall⟩ := exists_editsCall hsource hbefore htakes he
    obtain ⟨hordered, hedits⟩ := ih hothers
    have hle := hcall.start_le
    obtain ⟨c, -, -, hclose⟩ := exists_close hcall.parenthesis hcall.arguments_eq
    have hplaces : start < e.start ∧ start ≤ e.stop := by
      rw [hcall.edit_eq]
      dsimp only
      omega
    refine ⟨List.pairwise_cons.mpr ⟨fun e' he' => (hedits e' he').1, hordered⟩,
      List.forall_mem_cons.mpr ⟨⟨hplaces.1, call, .head _, arguments, he, hcall⟩, ?_⟩⟩
    intro e' he'
    obtain ⟨hlt, c, hc, hcall'⟩ := hedits e' he'
    exact ⟨Nat.lt_of_le_of_lt hplaces.2 hlt, c, .tail _ hc, hcall'⟩

/-- The edits of calls do not overlap, and each is for a call. -/
theorem pairwise_callEdits (source : List Char) :
    (callEdits source).Pairwise (fun e e' => e.stop < e'.start) ∧
    ∀ e ∈ callEdits source, ∃ call ∈ fileCall.findAll source, ∃ arguments,
      positionalEdit? source (Region.ofSource source) (codeChars source) call = some e ∧
        EditsCall source call arguments e := by
  obtain ⟨hordered, hedits⟩ := @pairwise_positionalEdits source 0 (fileCall.findAll source)
    fun call hcall => by
      obtain ⟨before, hmatch, -, hsource⟩ := exists_of_mem_findAll rfl hcall
      obtain ⟨htakes, -, hstart⟩ := exists_of_matchAt? hmatch
      exact ⟨htakes, before, hsource, hstart⟩
  exact ⟨hordered, fun e he => (hedits e he).2⟩

/-- A call that can be rewritten without harm: the snippet before its parenthesis is self-contained,
and so is each argument that becomes a field. -/
structure TidyCall (source : List Char) (e : Edit) : Prop where
  before : SelfContained anything (source.take (e.start - 1))
  arguments : ∀ call ∈ fileCall.findAll source, ∀ arguments,
    positionalEdit? source (Region.ofSource source) (codeChars source) call = some e →
    argumentSpans? source (codeChars source) (call.stop - 1 : Nat) = some arguments →
    ∀ field ∈ (positionalKeys (call.captured 1)).zip (arguments.texts source),
      SelfContained separates field.2

/-- A tidy call gets an object. -/
theorem TidyCall.exists_readsAsObject {e : Edit} (h : TidyCall source e) (he : e ∈ callEdits source) :
    ∃ inner known, ReadsAsObject e.text inner known := by
  obtain ⟨call, hcall, arguments, hedit, hedits⟩ := (pairwise_callEdits source).2 e he
  have htext : e.text =
      objectArgument (positionalKeys (call.captured 1)) (arguments.texts source) := by
    rw [hedits.edit_eq]
  rw [htext]
  refine exists_readsAsObject_objectArgument fun field hfield => ?_
  have hself := h.arguments call hcall arguments hedit hedits.arguments_eq field hfield
  obtain ⟨span, hspan, heq⟩ := List.mem_map.mp (List.of_mem_zip hfield).2
  obtain ⟨left, right, hleft, hright, -, hstands⟩ :=
    exists_stands_of_mem_spans hedits.parenthesis hedits.arguments_eq hspan
  rw [← heq] at hself ⊢
  exact enclosed_of_stands hstands hleft hright hself

/-- A tidy call that was closed by a parenthesis. -/
theorem TidyCall.clearEdit {e : Edit} (h : TidyCall source e) (he : e ∈ callEdits source)
    (hclosed : source[e.stop - 1]? = some ')') : ClearEdit source e := by
  obtain ⟨call, -, arguments, -, hcall⟩ := (pairwise_callEdits source).2 e he
  obtain ⟨c, -, hclose, hlt⟩ := exists_close hcall.parenthesis hcall.arguments_eq
  obtain ⟨inner, known, hobject⟩ := h.exists_readsAsObject he
  have hbefore := h.before
  have hstart : e.start = call.stop - 1 + 1 := by rw [hcall.edit_eq]
  have hstop : e.stop = arguments.close + 1 := by rw [hcall.edit_eq]
  rw [hstart, Nat.add_sub_cancel] at hbefore
  rw [hstop, Nat.add_sub_cancel] at hclosed
  obtain rfl := Option.some.inj ((inCode_of_mem_codeChars hclose).2.symm.trans hclosed)
  exact ⟨by omega, ⟨_, hstart, hcall.parenthesis, hbefore⟩, ⟨_, hstop, hclose⟩, _, hobject.reads⟩

/-- A range that starts and ends with a bracket is not trimmed. -/
theorem trimSpan_object {before inner after : List Char} :
    trimSpan (before ++ ('\x7b' :: (inner ++ '\x7d' :: after))) before.length
        (before.length + (inner.length + 2)) =
      (before.length, before.length + (inner.length + 2)) := by
  have hslice : Region.slice (before ++ ('\x7b' :: (inner ++ '\x7d' :: after))) before.length
      (before.length + (inner.length + 2)) = '\x7b' :: (inner ++ ['\x7d']) := by
    rw [Region.slice, List.drop_left, Nat.add_sub_cancel_left, List.take_succ_cons,
      List.take_length_add_append]
    rfl
  have hopening : isBlank '\x7b' = false := by decide
  have hclosing : isBlank '\x7d' = false := by decide
  rw [trimSpan, hslice]
  simp [hopening, hclosing]

/-- Behind a text that is read in one way, an object in parentheses is the only argument of a call. -/
theorem argumentSpans?_object {lead text inner after : List Char} {known fields : List Placed}
    {last : Segment.Lookback} (hlead : Reads anything .start lead known last)
    (hobject : ReadsAsObject text inner fields) :
    let output := lead ++ '(' :: (text ++ after)
    argumentSpans? output (codeChars output) lead.length =
      some ⟨[(lead.length + 1, lead.length + text.length)], lead.length + text.length⟩ := by
  intro output
  obtain ⟨close, hclose⟩ : ∃ close, lead.length + text.length = close := ⟨_, rfl⟩
  have hlength : close = lead.length + 1 + (inner.length + 4) := by
    rw [← hclose, hobject.text_eq]
    simp only [List.length_cons, List.length_append, List.length_nil]
    omega
  have hbehind := (hlead.append (Reads.of_isMark (show isMark '(' = true by decide +kernel) last)
    fun _ _ _ _ => rfl).append hobject.reads (fun _ _ _ _ => rfl) after (fun _ _ => rfl)
  have hdivide : lead ++ ['('] ++ text ++ after = output := by simp [output]
  rw [hdivide, ← codeChars_eq_codeAfter] at hbehind
  -- The scan for the arguments starts at the parenthesis, and comes to the end of the object.
  have hcommas : commasIn? 0 ((codeChars output).dropWhile fun p =>
      decide ((p.place : Int) < lead.length)) = some ([], close) := by
    have hbefore : ∀ p ∈ known, decide ((p.place : Int) < lead.length) = true := by
      intro p hp
      rw [hlead.eq_codeAfter] at hp
      simpa using place_lt_of_mem_codeAfter hp
    rw [hbehind, List.append_assoc, List.append_assoc, List.dropWhile_append_of_pos hbefore,
      List.map_cons, List.map_nil, List.singleton_append,
      List.dropWhile_cons_of_neg (by simp [Placed.shift])]
    have hinner : Balanced ((fields.map (Placed.shift (lead ++ ['(']).length)).map Placed.char) := by
      rw [map_char_shift]
      exact hobject.balanced
    simp only [List.map_cons, List.map_append, List.map_nil, List.cons_append, List.append_assoc,
      List.nil_append]
    refine (commasIn?_object hinner _ _ _ _ _ _).trans ?_
    rw [hlength, List.length_append, List.length_singleton]
  have htrim : trimSpan output (lead.length + 1) close = (lead.length + 1, close) := by
    have houtput : output =
        (lead ++ ['(']) ++ '\x7b' :: ((' ' :: (inner ++ [' '])) ++ '\x7d' :: (')' :: after)) := by
      simp [output, hobject.text_eq]
    have hstop : close = (lead ++ ['(']).length + ((' ' :: (inner ++ [' '])).length + 2) := by
      simp only [List.length_cons, List.length_append, List.length_nil]
      omega
    have hstart : lead.length + 1 = (lead ++ ['(']).length := by
      rw [List.length_append, List.length_singleton]
    rw [houtput, hstop, hstart]
    exact trimSpan_object
  have hne : (lead.length + 1 == close) = false := beq_false_of_ne (by omega)
  have hplace : ((lead.length : Int) + 1).toNat = lead.length + 1 := by omega
  rw [argumentSpans?, hcommas, hclose, Option.map_some]
  dsimp only [List.nil_append, spansBetween]
  rw [hplace, htrim]
  simp only [hne, Bool.false_eq_true, if_false]

/-- Up to a tidy call, a snippet with its calls rewritten is read in one way, and the object of the
call comes next. -/
theorem exists_reads_before {pre post : List Edit} {e : Edit}
    (hedits : callEdits source = pre ++ e :: post) (htidy : ∀ e' ∈ pre ++ [e], TidyCall source e')
    (hclosed : ∀ e' ∈ pre, source[e'.stop - 1]? = some ')') :
    let lead := Edit.applyAll pre (source.take (e.start - 1))
    (∃ known last, Reads anything .start lead known last) ∧
      Edit.applyAll (callEdits source) source =
        lead ++ '(' :: (e.text ++ Edit.applyFrom source e.stop post) := by
  intro lead
  have hmem : ∀ e' ∈ pre ++ [e], e' ∈ callEdits source := by
    intro e' he'
    rw [hedits, List.append_cons]
    exact List.mem_append_left post he'
  obtain ⟨hordered, hcalls⟩ := pairwise_callEdits source
  obtain ⟨hpre, hlast⟩ := List.forall_mem_append.mp hmem
  obtain ⟨htidyPre, htidyLast⟩ := List.forall_mem_append.mp htidy
  obtain ⟨call, -, arguments, -, hcall⟩ := hcalls e (hlast e (.head _))
  obtain ⟨place, hplace⟩ : ∃ place, e.start - 1 = place := ⟨_, rfl⟩
  have hstart : e.start = place + 1 := by
    rw [← hplace, hcall.edit_eq]
    rfl
  have hparenthesis : ⟨place, '('⟩ ∈ codeChars source := by
    rw [← hplace, hcall.edit_eq]
    exact hcall.parenthesis
  have hbefore := (htidyLast e (.head _)).before
  rw [hplace] at hbefore
  have hlead : lead = Edit.applyFrom (source.take place) 0 pre := by
    rw [← hplace]
    rfl
  have hclear : ∀ e' ∈ pre, ClearEdit source e' :=
    fun e' he' => (htidyPre e' he').clearEdit (hpre e' he') (hclosed e' he')
  rw [hedits] at hordered
  obtain ⟨hordered, -, hacross⟩ := List.pairwise_append.mp hordered
  have hstop : ∀ e' ∈ pre, e'.stop ≤ place := fun e' he' => by
    have hlt := hacross e' he' e (.head _)
    omega
  have hfirst : ∀ e' ∈ pre, 0 < e'.start := fun e' he' => by
    obtain ⟨place', heq, -⟩ := (hclear e' he').parenthesis
    omega
  rw [hlead, hedits, Edit.applyAll]
  exact ⟨exists_reads_applyFrom (resumes_start source) hclear hordered hfirst hstop
      (Nat.zero_le place) (Nat.le_of_lt (place_lt_of_mem_codeChars hparenthesis)) hbefore,
    applyFrom_divide hstart hparenthesis
      (fun e' he' => (hclear e' he').start_le.trans (hstop e' he')) (Nat.zero_le place) hstop⟩

/-- The line that is put before a snippet whose calls are rewritten, unless the mark is there. -/
def addedLine (root : String) (source : List Char) : List Char :=
  if Text.occursIn wrapperMark.toList (Edit.applyAll (callEdits source) source) then []
  else wrapperLine root

theorem rewritePositionalCalls_of_ne_nil (root : String) (h : callEdits source ≠ []) :
    rewritePositionalCalls (Json.quote true root) source =
      addedLine root source ++ Edit.applyAll (callEdits source) source := by
  rw [rewritePositionalCalls_eq, if_neg h, addedLine]
  split
  · rfl
  · simp [wrapperLine]

theorem exists_reads_addedLine (root : String) (source : List Char) :
    ∃ known last, Reads anything .start (addedLine root source) known last ∧
      last.isFresh = true := by
  rw [addedLine]
  split
  · exact ⟨[], .start, Reads.nil _ _, rfl⟩
  · obtain ⟨known, hline⟩ := exists_reads_wrapperLine root
    exact ⟨known, .mark ';', hline, by decide⟩

/-- A positional call that is rewritten is left with one argument, an object in braces, and is closed
by the parenthesis that is put directly after it, if up to this call the rewritten calls are tidy and
the ones before it were closed by parentheses. Other kinds of brackets count as closed, too. -/
theorem argumentSpans?_rewritePositionalCalls (root : String) {pre post : List Edit} {e : Edit}
    (hedits : callEdits source = pre ++ e :: post) (htidy : ∀ e' ∈ pre ++ [e], TidyCall source e')
    (hclosed : ∀ e' ∈ pre, source[e'.stop - 1]? = some ')') :
    let output := rewritePositionalCalls (Json.quote true root) source
    let lead := addedLine root source ++ Edit.applyAll pre (source.take (e.start - 1))
    let close := lead.length + e.text.length
    output = lead ++ '(' :: (e.text ++ Edit.applyFrom source e.stop post) ∧
      (∃ fields, e.text = "\x7b ".toList ++ fields ++ " \x7d)".toList) ∧
      argumentSpans? output (codeChars output) lead.length =
        some ⟨[(lead.length + 1, close)], close⟩ := by
  intro output lead close
  have he : e ∈ callEdits source := by
    rw [hedits]
    exact List.mem_append_right pre (.head _)
  obtain ⟨⟨known, last, hbefore⟩, hall⟩ := exists_reads_before hedits htidy hclosed
  obtain ⟨line, fresh, hline, hfresh⟩ := exists_reads_addedLine root source
  have hlead := hline.append (hbefore.congr rfl hfresh) fun _ _ _ _ => rfl
  have houtput : output = lead ++ '(' :: (e.text ++ Edit.applyFrom source e.stop post) := by
    simp only [output, lead, rewritePositionalCalls_of_ne_nil root (List.ne_nil_of_mem he), hall,
      List.append_assoc]
  obtain ⟨inner, fields, hobject⟩ := (htidy e (by simp)).exists_readsAsObject he
  refine ⟨houtput, ⟨inner, ?_⟩, ?_⟩
  · rw [hobject.text_eq]
    simp
  · rw [houtput]
    exact argumentSpans?_object hlead hobject

theorem argumentSpans?_rewritePositionalCalls_twoCalls :
    let source := "filesystem.readFile(a); filesystem.writeFile(\"b\", c)".toList
    let pre : List Edit := [⟨20, 22, "\x7b path: a \x7d)".toList⟩]
    let e : Edit := ⟨45, 52, "\x7b path: \"b\", content: c \x7d)".toList⟩
    let output := rewritePositionalCalls (Json.quote true "/projects") source
    let lead := addedLine "/projects" source ++ Edit.applyAll pre (source.take (e.start - 1))
    let close := lead.length + e.text.length
    callEdits source = pre ++ [e] ∧ (∀ e' ∈ pre ++ [e], TidyCall source e') ∧
      (∀ e' ∈ pre, source[e'.stop - 1]? = some ')') ∧
      argumentSpans? output (codeChars output) lead.length =
        some ⟨[(lead.length + 1, close)], close⟩ := by
  intro source pre e output lead close
  have hedits : callEdits source = pre ++ [e] := by decide +kernel
  have hclosed : ∀ e' ∈ pre, source[e'.stop - 1]? = some ')' := by decide
  have hbefore : ∀ e' ∈ pre ++ [e], ∀ c ∈ source.take (e'.start - 1), c ∉ Segment.openers := by
    decide +kernel
  have hfields : (fileCall.findAll source).flatMap (fun call =>
      (argumentSpans? source (codeChars source) (call.stop - 1 : Nat)).toList.flatMap fun arguments =>
        (positionalKeys (call.captured 1)).zip (arguments.texts source)) =
      [("path", ['a']), ("path", ['"', 'b', '"']), ("content", ['c'])] := by
    decide +kernel
  have hself : ∀ field ∈ [("path", ['a']), ("path", ['"', 'b', '"']), ("content", ['c'])],
      SelfContained separates field.2 := by
    have hquoted : Segment.IsToken ⟨.string, ['"', 'b', '"']⟩ :=
      .string (by decide) (.char (by decide) (by decide) (by decide) .nil)
    have hname : ∀ {name : List Char}, (∀ c ∈ name, c ∉ Segment.openers) →
        SelfContained separates name :=
      fun hplain => (selfContained_of_plain hplain).mono fun _ _ => rfl
    simp only [List.forall_mem_cons]
    exact ⟨hname (by decide),
      (selfContained_of_isToken hquoted nofun nofun).mono fun _ _ => rfl, hname (by decide), nofun⟩
  have htidy : ∀ e' ∈ pre ++ [e], TidyCall source e' := fun e' he' =>
    ⟨selfContained_of_plain (hbefore e' he'), fun call hcall arguments _ hspans field hfield => by
      refine hself field ?_
      rw [← hfields]
      exact List.mem_flatMap.mpr ⟨call, hcall, List.mem_flatMap.mpr
        ⟨arguments, Option.mem_toList.mpr hspans, hfield⟩⟩⟩
  exact ⟨hedits, htidy, hclosed,
    (argumentSpans?_rewritePositionalCalls "/projects" hedits htidy hclosed).2.2⟩

/-- A comment at the end of an argument swallows the brace and the parenthesis that are put after it. -/
theorem argumentSpans?_swallowed :
    let source := "filesystem.readFile(p // c\n)".toList
    let output := rewritePositionalCalls (Json.quote true "/projects") source
    let lead := addedLine "/projects" source ++ "filesystem.readFile".toList
    output = lead ++ "(\x7b path: p // c \x7d)".toList ∧
      argumentSpans? output (codeChars output) lead.length = none := by
  intro source output lead
  have hedits : callEdits source = [⟨20, 28, "\x7b path: p // c \x7d)".toList⟩] := by decide +kernel
  have hne : callEdits source ≠ [] := by
    rw [hedits]
    exact List.cons_ne_nil _ _
  have happlied : Edit.applyAll (callEdits source) source =
      "filesystem.readFile".toList ++ "(\x7b path: p // c \x7d)".toList := by
    rw [hedits]
    decide +kernel
  have houtput : output = addedLine "/projects" source ++
      ("filesystem.readFile".toList ++ "(\x7b path: p // c \x7d)".toList) := by
    rw [← happlied]
    exact rewritePositionalCalls_of_ne_nil "/projects" hne
  obtain ⟨known, last, hread, hfresh⟩ := exists_reads_addedLine "/projects" source
  refine ⟨by rw [houtput, List.append_assoc], ?_⟩
  rw [houtput, List.length_append]
  exact argumentSpans?_behind hread hfresh (by decide +kernel)

end GuestCode.Rewrite
