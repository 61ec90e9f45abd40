import GuestCode.Failure

/-!
# Arithmetic on values

Time limits can be values of any kind. They are doubled where a longer one is proposed, and turned
from milliseconds into seconds.

* `Value.doubled`, `Value.thousandth`
* `Failure.ofTimeLimit`: the failure of taking longer than a limit
-/

namespace GuestCode

namespace Value

/-- The failure of a sign for an operation between a value and an integer. -/
def noOperation (sign : String) (v : Value) : Failure :=
  .mismatch .wrongKind
    ("unsupported operand type(s) for " ++ sign ++ ": '" ++ v.kindName ++ "' and 'int'")

/-- Twice a value: a number is doubled, and what has an order of members is repeated. -/
def doubled : Value → Except Failure Value
  | bool b => .ok (int (ofBool b * 2))
  | int n => .ok (int (n * 2))
  | float x => .ok (float (x.add x))
  | text s => .ok (text (s ++ s))
  | bytes octets => .ok (bytes (octets ++ octets))
  | list items => .ok (list (items ++ items))
  | tuple items => .ok (tuple (items ++ items))
  | v => .error (v.noOperation "*")

/-- A thousandth of a value, which only a number has. A large integer has none that is finite. -/
def thousandth : Value → Except Failure Binary64
  | float x => .ok (x.divNat 1000)
  | v =>
    match v.number? with
    | some (.inl n) =>
      match Binary64.ofRatio (decide (n < 0)) n.natAbs 1000 with
      | .infinite _ =>
        .error (.mismatch .overflow "integer division result too large for a float")
      | x => .ok x
    | _ => .error (v.noOperation "/")

end Value

/-- The failure of taking longer than a limit, which must be one that can be doubled. -/
def Failure.ofTimeLimit (limit : Value) : Except Failure Failure :=
  limit.doubled.map fun twice => .timeout limit.display twice.display

end GuestCode
