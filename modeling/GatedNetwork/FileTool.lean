import GatedNetwork.Dialogue
import GatedNetwork.Network.Overview
import GatedNetwork.Snapshot.Document
import GatedNetwork.Storage.Image
import GatedNetwork.Text
import GatedNetwork.Training

/-!
# The file tool

A tool for snapshot files: it shows the wiring of a network, runs it once on an input, or compiles it
and writes the memory image.
-/

namespace GatedNetwork.FileTool

/-- A failure of the tool. -/
inductive Failure where
  | unreadable (path reason : String)
  /-- The file was read, but no network came of it. -/
  | unparsed (path : String) (error : Error)
  | badValue (text : String)
  | network (error : Error)
  | uncreated (path reason : String)
  | unwritten (path : String) (fault : StorageFault)
  | missingArguments (command needs : String)
  | unknownCommand (name : String)
deriving DecidableEq, Repr

def Failure.message : Failure → String
  | unreadable path reason => s!"read {path}: {reason}"
  | unparsed path error => s!"parse {path}: {error.message}"
  | badValue text => s!"bad value {Text.quote text}: invalid float literal"
  | network error => error.message
  | uncreated path reason => s!"create {path}: {reason}"
  | unwritten path fault => s!"write {path}: {fault.text}"
  | missingArguments command needs => s!"{command} needs {needs}"
  | unknownCommand name => s!"unknown command: {name}"

/-- What the tool says when it is not told what to do. -/
def usage : String := Text.lines [
  "gatenet-cli (reads graph snapshots written by Graph::to_json)",
  "Usage: gatenet-cli [--seed N] <command> [args]",
  "",
  "Commands:",
  "  inspect <snapshot.json>              Show layers, groups and counts",
  "  eval <snapshot.json> <x1,x2,...>     Activate once and print outputs",
  "  image <snapshot.json> <out.gnm>      Compile and write the memory image"]

/-! ## Arguments -/

/-- Settings and command, if the arguments make sense so far. A seed comes before the command. -/
def splitArguments? (args : List String) : Option (Settings Double × String × List String) :=
  match args with
  | "--seed" :: seed :: rest => do
    let seed ← Decimal.readWord? seed
    match rest with
    | [] => none
    | command :: args => some ({ Settings.standard with seed }, command, args)
  | command :: args => some (.standard, command, args)
  | [] => none

/-- A comma-separated list of numbers. Blank parts are skipped. -/
def parseVector (s : String) : Except Failure (List Double) :=
  let parts := (s.splitOn ",").filter fun part => !(Text.trim part).isEmpty
  parts.mapM fun part =>
    match Decimal.read? (Text.trim part) with
    | some x => .ok x
    | none => .error (.badValue part)

/-- The network in the text of a file. Each run of the tool builds one circuit. -/
def load (path : String) (settings : Settings Double) (content : Except String String) :
    Except Failure (Network Double) :=
  match content with
  | .error reason => .error (.unreadable path reason)
  | .ok text => (Network.ofJson text 0 settings).mapError (.unparsed path)

/-- The value of an operation on a network, and the network after it. -/
def run {β : Type} (op : Op (Network Double) β) (n : Network Double) :
    Except Failure (β × Network Double) :=
  match op n with
  | .ok b n => .ok (b, n)
  | .error e _ => .error (.network e)

/-! ## Commands -/

def layerText : Layer → String
  | .input => "Input"
  | .hidden i => s!"Hidden({i})"
  | .output => "Output"

def gatersText (p : OutgoingView) : String :=
  "[" ++ ", ".intercalate (p.gatings.map fun g => toString g.gater) ++ "]"

def projectionLine (p : OutgoingView) : String :=
  let id := Text.alignRight 3 (toString p.id)
  let target := Text.alignLeft 3 (toString p.target)
  s!"    group {id} -> ensemble {target} {p.topology.name} links={p.size} gated_by={gatersText p}"

def ensembleLine (e : EnsembleView) : String :=
  let id := Text.alignRight 3 (toString e.id)
  let layer := Text.alignLeft 10 (layerText e.layer)
  let size := Text.alignLeft 4 (toString e.size)
  s!"ensemble {id} {layer} size={size} self_connected={e.selfConnected}"

def countsLine (n : Network Double) (v : Overview) : String :=
  s!"units={v.neurons} links={v.links} gated_links={v.gatedLinks} inputs={n.inputSize} " ++
    s!"outputs={n.outputSize}"

/-- Shows the wiring of a network. -/
def inspect (n : Network Double) : Except Failure String := do
  let v ← n.overview.mapError .network
  return Text.lines (countsLine n v ::
    v.ensembles.flatMap fun e => ensembleLine e :: e.projections.map projectionLine)

/-- Runs a network once and shows its outputs. -/
def evaluate (n : Network Double) (values : String) : Except Failure String := do
  let x ← parseVector values
  let (y, _) ← run (Network.activate x) n
  return Text.lines [",".intercalate (y.map (Double.fixed 6))]

/-- The program of a network that has not run yet. -/
def program (n : Network Double) : Except Failure (Program Double) :=
  (n.circuit.compile n.placements).mapError .network

def wroteLine (path : String) (p : Program Double) : String :=
  s!"wrote {path}: slots={p.memory.size} instructions={p.instructionCount}"

/-- The image of a compiled network, and what is said when it is written. -/
def image (path : String) (n : Network Double) : Except Failure (Bytes × String) := do
  let p ← program n
  let bytes ← p.image.mapError (.unwritten path)
  return (bytes, Text.lines [wroteLine path p])

/-! ## The tool -/

/-- How a failure is reported. -/
def finish : Except Failure String → Outcome
  | .ok text => .success text
  | .error failure => .failure failure.message

/-- Compiles a network and writes its image to `path`. -/
def writeImage (path : String) (n : Network Double) : Dialogue :=
  match image path n with
  | .error failure => .done (finish (.error failure))
  | .ok (bytes, text) => .write path bytes fun
    | .ok () => .done (finish (.ok text))
    | .error reason => .done (finish (.error (.uncreated path reason)))

/-- Carries out a command. -/
def perform (settings : Settings Double) (command : String) (args : List String) : Dialogue :=
  let fail (failure : Failure) : Dialogue := .done (finish (.error failure))
  let withNetwork (path : String) (next : Network Double → Dialogue) : Dialogue :=
    .read path fun content =>
      match load path settings content with
      | .ok n => next n
      | .error failure => fail failure
  match command, args with
  | "inspect", path :: _ => withNetwork path fun n => .done (finish (inspect n))
  | "inspect", [] => fail (.missingArguments command "a snapshot path")
  | "eval", path :: values :: _ => withNetwork path fun n => .done (finish (evaluate n values))
  | "eval", _ => fail (.missingArguments command "a snapshot path and an input vector")
  | "image", path :: target :: _ => withNetwork path (writeImage target)
  | "image", _ => fail (.missingArguments command "a snapshot path and an output path")
  | _, _ => fail (.unknownCommand command)

/-- The whole tool. -/
def dialogue (args : List String) : Dialogue :=
  match splitArguments? args with
  | none => .done ⟨1, "", usage⟩
  | some (settings, command, args) => perform settings command args

end GatedNetwork.FileTool
