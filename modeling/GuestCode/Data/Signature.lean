import GuestCode.Failure

/-!
# Signatures

How many arguments can be given, and what is said of a number that cannot.

* `Signature`, `Signature.check`
-/

namespace GuestCode

/-- The arguments that something called takes: those that must be given, and how many more may
be. -/
structure Signature where
  /-- The name of what is called in reports. -/
  owner : String
  required : List String
  optional : Nat
deriving Repr, DecidableEq, Inhabited

namespace Signature

/-- A number of positional arguments in words. -/
def countText (n : Nat) : String :=
  toString n ++ (if n = 1 then " positional argument" else " positional arguments")

/-- Names in words. -/
def enumerate : List String → String
  | [] => ""
  | [a] => quotedString a
  | [a, b] => quotedString a ++ " and " ++ quotedString b
  | names =>
    ", ".intercalate (names.dropLast.map quotedString) ++ ", and " ++
      quotedString (names.getLast?.getD "")

/-- Refuses a number of arguments that is not taken. The object that is called counts as an
argument. -/
def check (s : Signature) (arguments : List Value) : Except Failure Unit :=
  let given := arguments.length
  let least := s.required.length
  let most := least + s.optional
  if most < given then
    let takes :=
      if s.optional = 0 then "takes " ++ countText (most + 1)
      else "takes from " ++ toString (least + 1) ++ " to " ++ countText (most + 1)
    .error (.mismatch .wrongKind
      (s.owner ++ "() " ++ takes ++ " but " ++ toString (given + 1) ++ " were given"))
  else if given < least then
    let missing := s.required.drop given
    .error (.mismatch .wrongKind
      (s.owner ++ "() missing " ++ toString missing.length ++ " required positional " ++
        (if missing.length = 1 then "argument: " else "arguments: ") ++ enumerate missing))
  else .ok ()

end Signature

end GuestCode
