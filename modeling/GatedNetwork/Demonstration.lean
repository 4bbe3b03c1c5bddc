import GatedNetwork.Decimal.Text
import GatedNetwork.Dialogue
import GatedNetwork.Network.Basic
import GatedNetwork.Text
import GatedNetwork.Training

/-!
# Demonstrations

Two runs of the engine that show what it does: learning exclusive or, and the agreement of compiled
and interpreted running on a recurrent network with gates.
-/

namespace GatedNetwork.Demonstration

/-- Makes a circuit and a layer set, and the network over them. -/
def build (seed : UInt64) (make : Edit Double Layers) : Except Error (Network Double) :=
  match make (.empty 0 { Settings.standard with seed }) with
  | .ok layers circuit => Network.create circuit layers
  | .error e _ => .error e

/-- The value of an operation on a network, and the network after it. -/
def run {β : Type} (op : Op (Network Double) β) (n : Network Double) :
    Except Error (β × Network Double) :=
  match op n with
  | .ok b n => .ok (b, n)
  | .error e _ => .error e

/-! ## Exclusive or -/

/-- Three layers, each wired to the next. -/
def feedForward (input hidden output : Nat) : Edit Double Layers := do
  let input ← Edit.addEnsemble input
  let hidden ← Edit.addEnsemble hidden
  let output ← Edit.addEnsemble output
  let _ ← Edit.project input (.ensemble hidden) none none
  let _ ← Edit.project hidden (.ensemble output) none none
  return .unbound input [hidden] output

/-- An input vector and its target, as numbers and as text. -/
structure Sample where
  input : List Double
  target : List Double
  inputText : String
  targetText : String

/-- The truth table of exclusive or. -/
def truthTable : List Sample := [
  ⟨[0, 0], [0], "[0.0, 0.0]", "0"⟩,
  ⟨[0, 1], [1], "[0.0, 1.0]", "1"⟩,
  ⟨[1, 0], [1], "[1.0, 0.0]", "1"⟩,
  ⟨[1, 1], [0], "[1.0, 1.0]", "0"⟩]

/-- The learning rate, 0.3. -/
def xorRate : Double := ⟨0x3FD3333333333333⟩

/-- Training stops below this error, 0.005. -/
def xorGoal : Double := ⟨0x3F747AE147AE147B⟩

/-- Learns the samples in order. The error before each sample is learned is added to `error`. -/
def learnAll (error : Double) : List Sample → Op (Network Double) Double
  | [] => return error
  | s :: rest => do
    let y ← Network.activate s.input
    Network.propagate xorRate s.target
    let e ← Op.read fun _ => Cost.meanSquare s.target y
    learnAll (error + e) rest

/-- Trains for as many epochs as are left; the lines printed on the way. -/
def train (total : Nat) : (left : Nat) → Op (Network Double) (List String)
  | 0 => return []
  | left + 1 => do
    let epoch := total - left
    let sum ← learnAll 0 truthTable
    let error := sum / .ofWord (UInt64.ofNat truthTable.length)
    let shown := error.fixed 6
    let report :=
      if epoch % 2000 = 0 then [s!"epoch={Text.alignRight 6 (toString epoch)} mse={shown}"] else []
    if error.lessThan xorGoal then
      return report ++ [s!"converged at epoch {epoch} (mse={shown})"]
    let rest ← train total left
    return report ++ rest

/-- The line of a sample after training. -/
def answer (s : Sample) : Op (Network Double) String := do
  let y ← Network.activate s.input
  return s!"{s.inputText} -> {(y.headD 0).fixed 4} (target {s.targetText})"

/-- Trains a small network on exclusive or. -/
def xor : Except Error (List String) := do
  let n ← build 2024 (feedForward 2 3 1)
  let (report, n) ← run (train 20000 20000) n
  let (answers, _) ← run (truthTable.mapM answer) n
  return report ++ answers

/-! ## Parity of the two ways to run -/

/-- A recurrent network: the loops, the inputs and the outputs of one hidden ensemble are gated by
the other. -/
def gatedMemory : Edit Double Layers := do
  let input ← Edit.addEnsemble 3
  let memory ← Edit.addEnsemble 4
  let gates ← Edit.addEnsemble 4
  let output ← Edit.addEnsemble 2
  Edit.configure memory (some .tanh) none
  let feed ← Edit.project input (.ensemble memory) none none
  let recur ← Edit.project memory (.ensemble memory) none none
  let _ ← Edit.project input (.ensemble gates) none none
  let _ ← Edit.project memory (.ensemble gates) none none
  let out ← Edit.project memory (.ensemble output) none none
  Edit.gate gates recur .links
  Edit.gate gates feed .targets
  Edit.gate gates out .sources
  return .unbound input [memory, gates] output

/-- The input of a step: a multiple of the step number modulo 7, in sevenths. -/
def parityInput (step : Nat) : List Double :=
  [1, 2, 3].map fun k => .ofWord (UInt64.ofNat (step * k % 7)) / .ofWord 7

/-- The target that goes with an input. -/
def parityTarget : List Double → List Double
  | [x, y, z] => [x * y, 1 - z]
  | _ => []

def magnitude (x : Double) : Double := if x.isNegative then -x else x

/-- The larger number; a NaN counts as the smaller one. -/
def larger (x y : Double) : Double := if x.isNaN || x.lessThan y then y else x

/-- The largest difference so far, with those between two outputs. -/
def difference (soFar : Double) (a b : List Double) : Double :=
  (List.zipWith (fun x y => magnitude (x - y)) a b).foldl larger soFar

/-- Runs both networks side by side from step `step` on; the largest difference. -/
def compare (interpreted compiled : Network Double) (worst : Double) (step : Nat) :
    (left : Nat) → Except Error (Double × Network Double)
  | 0 => .ok (worst, compiled)
  | left + 1 => do
    let x := parityInput step
    let t := parityTarget x
    let (a, interpreted) ← run (Network.activate x) interpreted
    let (b, compiled) ← run (Network.activate x) compiled
    let (_, interpreted) ← run (Network.propagate .tenth t) interpreted
    let (_, compiled) ← run (Network.propagate .tenth t) compiled
    compare interpreted compiled (difference worst a b) (step + 1) left

/-- Compares compiled and interpreted running. -/
def parity : Except Error (List String) := do
  let n ← build 99 gatedMemory
  let (_, interpreted) ← run (Network.setOptimize false) n
  let (worst, compiled) ← compare interpreted n 0 0 500
  let slots := (compiled.program?.map (·.memory.size)).getD 0
  let instructions := (compiled.program?.map (·.instructionCount)).getD 0
  return [s!"steps=500 slots={slots} instructions={instructions} max_diff={worst.scientific}"]

/-! ## The tool -/

def help : String := Text.lines [
  "gatenet (gated recurrent network engine)",
  "usage:",
  "  cargo run              (same as xor)",
  "  cargo run -- xor       train a 2-3-1 graph on XOR",
  "  cargo run -- parity    compare compiled and interpreted runs",
  "  cargo run -- --help"]

/-- How a demonstration ends. -/
def finish : Except Error (List String) → Outcome
  | .ok ls => .success (Text.lines ls)
  | .error e => .failure s!"error: {e.message}"

/-- The demonstration that the first argument names; exclusive or if there is none. -/
def outcome (args : List String) : Outcome :=
  match args with
  | [] => finish xor
  | command :: _ =>
    if command = "--help" ∨ command = "-h" ∨ command = "help" then .success help
    else if command = "xor" then finish xor
    else if command = "parity" then finish parity
    else ⟨2, help, s!"Unknown command: {command}\n"⟩

end GatedNetwork.Demonstration
