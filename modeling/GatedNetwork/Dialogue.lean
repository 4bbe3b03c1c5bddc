import GatedNetwork.Storage.Bytes

/-!
# Dialogues

What a command line tool does, apart from doing it: it reads files, writes files and ends with an
outcome. A dialogue is carried out on a model of the files in a directory or, by the outer layer, on
real ones.
-/

namespace GatedNetwork

/-- How a tool ends. -/
structure Outcome where
  code : UInt8
  stdout : String
  stderr : String
deriving DecidableEq, Repr

namespace Outcome

/-- A success that prints `stdout`. -/
def success (stdout : String) : Outcome := ⟨0, stdout, ""⟩

/-- A failure with a one-line message. -/
def failure (message : String) : Outcome := ⟨1, "", message ++ "\n"⟩

end Outcome

/-- Steps of a tool. A step that fails goes on with the reason. -/
inductive Dialogue where
  | done (outcome : Outcome)
  | read (path : String) (next : Except String String → Dialogue)
  | write (path : String) (content : Bytes) (next : Except String Unit → Dialogue)

namespace Dialogue

/-- Files as a tool finds them. -/
structure Files where
  /-- The text of a file, or why it cannot be read. -/
  read : String → Except String String
  /-- Why a file cannot be made, if it cannot. -/
  refusal : String → Option String

/-- Carries out a dialogue; the outcome, and the files written in order. -/
def perform (files : Files) : Dialogue → Outcome × List (String × Bytes)
  | done outcome => (outcome, [])
  | read path next => (next (files.read path)).perform files
  | write path content next =>
    match files.refusal path with
    | some reason => (next (.error reason)).perform files
    | none =>
      let (outcome, written) := (next (.ok ())).perform files
      (outcome, (path, content) :: written)

end Dialogue

end GatedNetwork
