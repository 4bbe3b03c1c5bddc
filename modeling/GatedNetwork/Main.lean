import GatedNetwork.Demonstration
import GatedNetwork.FileTool

/-!
# Command line

Carries out the dialogue of the file tool on real files. With `demo` in front, the other arguments
are those of the demonstrations.
-/

namespace GatedNetwork

/-- The value of an action, or the text of its failure. -/
def attempt {β : Type} (action : IO β) : IO (Except String β) := do
  try
    return .ok (← action)
  catch e =>
    return .error (toString e)

/-- Carries out a dialogue on real files. -/
def Dialogue.run : Dialogue → IO Outcome
  | .done outcome => return outcome
  | .read path next => do (next (← attempt (IO.FS.readFile path))).run
  | .write path content next => do
    (next (← attempt (IO.FS.writeBinFile path (ByteArray.mk content.toArray)))).run

/-- Prints an outcome; its exit code. -/
def Outcome.report (o : Outcome) : IO UInt32 := do
  IO.print o.stdout
  IO.eprint o.stderr
  return o.code.toUInt32

end GatedNetwork

open GatedNetwork in
/-- The command line. -/
def main (args : List String) : IO UInt32 := do
  match args with
  | "demo" :: args => (Demonstration.outcome args).report
  | _ => (← (FileTool.dialogue args).run).report
