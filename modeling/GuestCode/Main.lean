import GuestCode.CommandLine.Program
import GuestCode.CommandLine.Screen

/-!
# The command line

Hands the words of the command line, the environment and the standard input to the program, and
puts out what comes of it. The program sees a machine without files and without other programs.
-/

namespace GuestCode.CommandLine

/-- The environment variables that the program asks for. -/
def askedVariables : List String :=
  ["CODEMODE_NODE", "PROJECTS_PATH", "HOST_PROJECTS_PATH", "MASK_SENSITIVE_LOGS",
    "MAX_LOG_PREVIEW_LENGTH", "NODE_ENV", "PATH"]

/-- The variables of the environment that are set. -/
def setVariables : IO (List (String × String)) :=
  askedVariables.filterMapM fun name => do
    return (← IO.getEnv name).map fun value => (name, value)

/-- Reads a stream to its end. -/
partial def readAll (stream : IO.FS.Stream) (octets : ByteArray) : IO ByteArray := do
  let more ← stream.read 65536
  if more.isEmpty then return octets else readAll stream (octets ++ more)

/-- The standard input, as far as a command line asks for it. -/
def inputFor (words : List String) : IO (List UInt8) := do
  match Invocation.read words with
  | .ok invocation =>
    if invocation.readsInput then
      return (← readAll (← IO.getStdin) .empty).toList
    else return []
  | .error _ => return []

end GuestCode.CommandLine

open GuestCode CommandLine in
/-- Does what the command line says. -/
def main (words : List String) : IO UInt32 := do
  let machine := Machine.bare (← setVariables) (← inputFor words)
  let (outcome, machine) := (perform words).run machine
  for text in machine.output do IO.print text
  for item in machine.shown do IO.print item.plain
  for item in machine.shownFaults do IO.eprint item.plain
  match outcome with
  | .ok code => return UInt32.ofNat code.toNat
  | .error failure => do
    IO.eprintln (failure.name ++ ": " ++ failure.message)
    return 1
