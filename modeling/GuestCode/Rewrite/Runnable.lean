import GuestCode.Rewrite.Modules
import GuestCode.Rewrite.Types
import GuestCode.Rewrite.Wrapper

/-!
# Runnable snippets

The seven rewritings, one after the other, make one pass; passes are made until one changes
nothing, ten at most.

* `Rewrite.Settings`: what the rewritings depend on
* `Rewrite.stages`, `Rewrite.pass`: the rewritings, and all of them once
* `Rewrite.toRunnable`: the runnable form of a snippet
-/

namespace GuestCode.Rewrite

/-- What the rewritings depend on. -/
structure Settings where
  /-- The projects root as a literal. -/
  root : String
  /-- Whether only matches that start in code are rewritten. -/
  codeOnly : Bool
deriving Repr, DecidableEq, Inhabited

/-- The rewritings, in their order. -/
def stages (settings : Settings) : List (List Char → List Char) :=
  [removeImports settings.codeOnly, normalizeExports settings.codeOnly,
    removeRequires settings.codeOnly, replaceSyncCalls settings.codeOnly,
    rewritePositionalCalls settings.root, stripTypes settings.codeOnly, unwrap]

/-- All rewritings once. -/
def pass (settings : Settings) (source : List Char) : List Char :=
  (stages settings).foldl (fun text stage => stage text) source

/-- The most passes that are made. -/
def maxPasses : Nat := 10

/-- The outcome of the passes: the text, and the number of passes made. -/
structure Runnable where
  text : List Char
  passes : Nat
deriving Repr, DecidableEq, Inhabited

/-- Makes passes until one changes nothing, `remaining` at most; `made` have been made. -/
def passesFrom (settings : Settings) (made : Nat) : Nat → List Char → Runnable
  | 0, source => ⟨source, made⟩
  | remaining + 1, source =>
    let updated := pass settings source
    if updated == source then ⟨source, made + 1⟩
    else passesFrom settings (made + 1) remaining updated

/-- The runnable form of a snippet. -/
def toRunnable (settings : Settings) (source : List Char) : Runnable :=
  passesFrom settings 0 maxPasses source

end GuestCode.Rewrite
