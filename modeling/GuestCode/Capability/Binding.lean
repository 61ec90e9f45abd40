import GuestCode.Data.Signature
import GuestCode.Json.Writer
import GuestCode.Machine

/-!
# Bindings of capabilities

A snippet reaches the host through a closed table of capabilities, each with a list of methods. A
call names a capability and a method; what is not in the table is refused.

* `Method`, `Binding`, `BindingTable`: the table
* `BindingTable.ofBindings`: a table, if its names are allowed and each stands once
* `BindingTable.dispatch`: serving a call
* `Signature.method`: a method that takes a number of arguments
-/

namespace GuestCode

/-- A method of a capability. A method that never completes is called, but gives no answer. -/
structure Method where
  completes : Bool
  call : List Value → Action Value

/-- A capability that a snippet can reach: its name and its methods. -/
structure Binding where
  name : String
  methods : List (String × Method)

/-- The capabilities that a snippet can reach. -/
structure BindingTable where
  bindings : List Binding

/-- The names that capabilities can have. -/
def capabilityNames : List String := ["filesystem", "bestcase", "guides", "metadata"]

namespace Binding

/-- The names of the methods of a capability. -/
def methodNames (b : Binding) : List String := b.methods.map Prod.fst

/-- The method that a call names. -/
def method (b : Binding) (name : String) : Except Failure Method :=
  match b.methods.lookup name with
  | some m => .ok m
  | none => .error (.notBound b.name (some name) b.methodNames)

end Binding

namespace BindingTable

/-- Refuses bindings, which stand after those named `seen`, if a name is one that no capability can
have or stands twice. -/
def checkNames (seen : List String) : List Binding → Except Failure Unit
  | [] => .ok ()
  | b :: rest =>
    if !capabilityNames.contains b.name then
      .error (.configuration ("Unknown capability '" ++ b.name ++ "'. Allowed capabilities: " ++
        ", ".intercalate capabilityNames))
    else if seen.contains b.name then
      .error (.configuration ("Capability '" ++ b.name ++ "' is bound twice"))
    else checkNames (b.name :: seen) rest

/-- The table of some bindings, if it can be made. -/
def ofBindings (bindings : List Binding) : Except Failure BindingTable :=
  (checkNames [] bindings).map fun _ => ⟨bindings⟩

/-- The names of the bound capabilities. -/
def names (t : BindingTable) : List String := t.bindings.map Binding.name

/-- The names of the bound capabilities with those of their methods. -/
def manifest (t : BindingTable) : List (String × List String) :=
  t.bindings.map fun b => (b.name, b.methodNames)

/-- The method that a call names. -/
def method (t : BindingTable) (capability name : String) : Except Failure Method :=
  match t.bindings.find? fun b => b.name == capability with
  | some b => b.method name
  | none => .error (.notBound capability none t.names)

/-- Serves a call. -/
def dispatch (t : BindingTable) (capability name : String) (arguments : List Value) :
    Action Value := do
  let m ← Action.ofExcept (t.method capability name)
  m.call arguments

/-- The answer to a call: the JSON text of its result, or what the snippet is told. -/
inductive Answer where
  | result (text : String)
  | rejection (text : String)
deriving Repr, DecidableEq, Inhabited

/-- Serves a call and puts its outcome into words. -/
def answer (t : BindingTable) (capability name : String) (arguments : List Value) :
    Action Answer := do
  match ← Action.attempt (t.dispatch capability name arguments) with
  | .error failure => return .rejection failure.rejection
  | .ok value =>
    match Json.encode value with
    | .ok text => return .result text
    | .error e => return .rejection (Failure.mismatch .wrongKind e.message).rejection

end BindingTable

/-! ## Arguments -/

namespace Signature

/-- A method with this signature; arguments that are not given are null. -/
def method (s : Signature) (call : Value → Value → Action Value) : Method :=
  { completes := true
    call := fun arguments => do
      Action.ofExcept (s.check arguments)
      call (arguments[0]?.getD .null) (arguments[1]?.getD .null) }

end Signature

end GuestCode
