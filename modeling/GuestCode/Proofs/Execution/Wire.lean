import GuestCode.Proofs.Execution.Replies
import GuestCode.Proofs.Json.Characters
import GuestCode.Proofs.Json.RoundTrip
import GuestCode.Service.Server

/-!
# Results on the wire

What a capability returns goes to the runner as a JSON text inside a message, which is a JSON text
itself, on a line of its own. Messages hold no line ends, whatever they are about, so the octets
that are sent fall into the messages again; and a result that is made of what JSON has is read from
its message as it was.

## Main statements

* `Host.inputLines_flatMap_lineOf`: what has been sent falls into the messages.
* `Host.run_send_result`: a result is sent on one line, and can be read from it as it was.
-/

namespace GuestCode

namespace Host

/-! ## Lines -/

/-- The octets of a message, with the line end that is sent after it. -/
def lineOf (message : String) : List UInt8 := Utf8.encode (message.toList ++ ['\n'])

/-- The first line of an input ends at the first line end. -/
theorem inputLines_append {body : List UInt8} (h : 10 ∉ body) (rest : List UInt8) :
    Server.inputLines (body ++ 10 :: rest) = (body ++ [10]) :: Server.inputLines rest := by
  induction body with
  | nil => rw [List.nil_append, Server.inputLines, if_pos rfl, List.nil_append]
  | cons b body ih =>
    obtain ⟨hb, hbody⟩ := not_or.mp (mt List.mem_cons.mpr h)
    rw [List.cons_append, Server.inputLines, if_neg (Ne.symm hb), ih hbody]
    rfl

theorem not_mem_encode {text : String} (h : Json.Printable text) :
    10 ∉ Utf8.encode text.toList := by
  rw [Utf8.encode, List.mem_flatMap]
  rintro ⟨c, hc, hmem⟩
  obtain ⟨hlow, hhigh⟩ := h c hc
  -- A printable character is one octet, with the code of the character.
  have hchar : Utf8.encodeChar c = [UInt8.ofNat c.toNat] := by
    unfold Utf8.encodeChar
    dsimp only
    rw [if_pos (by omega)]
  rw [hchar, List.mem_singleton] at hmem
  have hvalue := congrArg UInt8.toNat hmem
  rw [Utf8.toNat_ofNat_of_lt (by omega)] at hvalue
  have hten : (10 : UInt8).toNat = 10 := rfl
  omega

theorem lineOf_eq (message : String) : lineOf message = Utf8.encode message.toList ++ [10] := by
  rw [lineOf, Utf8.encode, List.flatMap_append]
  rfl

/-- Messages of printable characters can be told apart in what has been sent. -/
theorem inputLines_flatMap_lineOf {messages : List String}
    (h : ∀ message ∈ messages, Json.Printable message) :
    Server.inputLines (messages.flatMap lineOf) = messages.map lineOf := by
  induction messages with
  | nil => rfl
  | cons message messages ih =>
    obtain ⟨hfirst, hrest⟩ := List.forall_mem_cons.mp h
    rw [List.flatMap_cons, lineOf_eq, List.append_assoc, List.singleton_append,
      inputLines_append (not_mem_encode hfirst), ih hrest, List.map_cons, lineOf_eq]

/-! ## Messages -/

/-- Whatever is encoded, its text is made of printable ASCII characters. -/
theorem printable_of_encode {v : Value} {text : String} (h : Json.encode v = .ok text) :
    Json.Printable text := by
  have hfallback : Json.Layout.line.AllowsAll fun w => .ok (Json.quote true w.display) := by
    rintro w s ⟨⟩
    exact @Json.allows_quote .line w.display
  intro c hc
  -- On one line no indentation is written, and no character beyond ASCII as it is.
  rcases Json.allows_of_writeAt hfallback h c hc with hprintable | ⟨-, hindent⟩ | ⟨-, hwide⟩
  · exact hprintable
  · cases hindent
  · cases hwide

theorem isKept_reply {id : Value} (hid : Json.IsKept id) (text : String) :
    Json.IsKept (HostMessage.reply id (.result text)).toValue :=
  .record (by simp) (by simp [Json.IsKept.text, hid])

/-- A result and the id of a call that are made of what JSON has are sent on one line, from which
they can be read as they were: the message has the id and a text, and the text is the result. What
has been sent falls into the messages, whatever they are about. -/
theorem run_send_result {id v : Value} (hid : Json.IsKept id) (hv : Json.IsKept v) {m : Machine}
    {before : List Launch} {l : Launch} (hlaunches : m.launches = before ++ [l]) :
    (∃ text line, Json.encode v = .ok text ∧
      (send .open (.reply id (.result text))).run m =
        (.ok (), { m with launches := before ++ [{ l with sent := l.sent ++ [line] }] }) ∧
      Json.Printable line ∧
      Utf8.decode (lineOf line) = .ok (line.toList ++ ['\n']) ∧
      Json.read (line.toList ++ ['\n']) =
        .ok (Value.record [("type", .text "reply"), ("id", id), ("result", .text text)]) ∧
      Json.read text.toList = .ok v) ∧
    ∀ sent : List String,
      (∀ line ∈ sent, ∃ message : HostMessage, Json.encode message.toValue = .ok line) →
      Server.inputLines (sent.flatMap lineOf) = sent.map lineOf := by
  constructor
  · obtain ⟨text, htext⟩ := hv.isPlain.exists_encode
    -- For the message the text of the result is a text like any other.
    have hreply := isKept_reply hid text
    obtain ⟨line, hline⟩ := hreply.isPlain.exists_encode
    refine ⟨text, line, htext, ?_, printable_of_encode hline, Utf8.decode_encode _, ?_, ?_⟩
    · rw [run_send_open hline]
      simp [afterSending, Action.send, hlaunches]
    · have hread := (hreply.isReadable.readAs hline).read_append Json.blank_lineEnd
      rw [hread, hreply.reread_eq]
      rfl
    · rw [hv.isReadable.read_encode htext, hv.reread_eq]
  · intro sent hsent
    refine inputLines_flatMap_lineOf fun line hline => ?_
    obtain ⟨message, hmessage⟩ := hsent line hline
    exact printable_of_encode hmessage

/-- A result with quotes, a line end, characters that are escaped as one number and as two, and keys
that are not in order. -/
def nestedResult : Value :=
  .list [.text "\"é\n😀", Value.record [("b", .null), ("a", .list [.int (-5), .bool true])]]

theorem isKept_int {n : Int} (h : n.natAbs < 10) : Json.IsKept (.int n) :=
  .int (Nat.lt_of_lt_of_le h (Nat.le_self_pow (by decide) 10))

theorem isKept_nestedResult : Json.IsKept nestedResult := by
  refine .list (List.forall_mem_cons.mpr ⟨.text _, List.forall_mem_singleton.mpr ?_⟩)
  refine .record (by simp) ?_
  simp [Json.IsKept.null, Json.IsKept.list, Json.IsKept.bool, isKept_int]

/-- The text of this result. -/
def nestedText : String :=
  "[\"\\\"\\u00e9\\n\\ud83d\\ude00\", \x7b\"b\": null, \"a\": [-5, true]\x7d]"

/-- A machine on which a program has been started. -/
def machineSent (sent : List String) : Machine :=
  { Machine.bare [] [] with launches := [⟨"node", "runner.js", "", [], sent⟩] }

theorem run_send_result_nested :
    Json.encode nestedResult = .ok nestedText ∧
    ∃ line,
      (send .open (.reply (.int 7) (.result nestedText))).run (machineSent []) =
        (.ok (), machineSent [line]) ∧
      Json.read (line.toList ++ ['\n']) = .ok (Value.record
        [("type", .text "reply"), ("id", .int 7), ("result", .text nestedText)]) ∧
      Json.read nestedText.toList = .ok nestedResult := by
  have hid : Json.IsKept (.int 7) := isKept_int (by decide)
  have hlaunches : (machineSent []).launches = [] ++ [⟨"node", "runner.js", "", [], []⟩] := rfl
  obtain ⟨⟨text, line, htext, hsend, -, -, hmessage, hresult⟩, -⟩ :=
    run_send_result hid isKept_nestedResult hlaunches
  have hwritten : Json.encode nestedResult = .ok nestedText := by cbv
  obtain rfl : text = nestedText := Except.ok.inj (htext.symm.trans hwritten)
  exact ⟨hwritten, line, hsend, hmessage, hresult⟩

end Host

end GuestCode
