import GatedNetwork.Circuit.Wiring
import GatedNetwork.Program.Basic

/-!
# Networks

A network is a circuit with a layer set. It runs either step by step in the circuit or, compiled, as
a program. While a program is live it holds the current values and the circuit lags behind; restoring
writes them back. Every change to the wiring restores and drops the program first, and the next run
compiles a new one.
-/

namespace GatedNetwork

variable {α : Type} [Arithmetic α]

/-- How a network runs. -/
inductive Mode (α : Type) where
  /-- It will be compiled by the next run. -/
  | pending
  | compiled (program : Program α)
  /-- Always step by step. -/
  | interpreted
deriving DecidableEq

/-- A trainable network. -/
structure Network (α : Type) where
  circuit : Circuit α
  layers : Layers
  mode : Mode α
deriving DecidableEq

namespace Network

/-- A network over a circuit, if all ensembles of the layer set exist. The layer set is bound to the
circuit. -/
def create (circuit : Circuit α) (layers : Layers) : Except Error (Network α) :=
  match layers.ensembles.find? fun e => !circuit.hasEnsemble e with
  | some missing => .error (.unknownEnsemble missing)
  | none => .ok { circuit, layers := layers.bind circuit.identity, mode := .pending }

/-- A copy whose circuit has an identity of its own. -/
def copy (n : Network α) (identity : Identity) : Network α :=
  { n with circuit := n.circuit.copy identity, layers := n.layers.bind identity }

/-! ## Looking at a network -/

def program? (n : Network α) : Option (Program α) :=
  match n.mode with
  | .compiled p => some p
  | _ => none

def isCompiled (n : Network α) : Bool := n.program?.isSome

def inputSize (n : Network α) : Nat := (n.circuit.members n.layers.input).length

def outputSize (n : Network α) : Nat := (n.circuit.members n.layers.output).length

/-- The neurons in canonical order. -/
def placements (n : Network α) : List Placement := n.circuit.placements n.layers

/-! ## Operations on the parts -/

/-- An operation on the circuit alone. -/
def onCircuit {β : Type} (op : Edit α β) : Op (Network α) β := fun n =>
  match op n.circuit with
  | .ok b circuit => .ok b { n with circuit }
  | .error e circuit => .error e { n with circuit }

/-- An operation on the live program, if there is one. -/
def onProgram {β : Type} (op : Op (Program α) β) : Op (Network α) (Option β) := fun n =>
  match n.mode with
  | .compiled p =>
    match op p with
    | .ok b p => .ok (some b) { n with mode := .compiled p }
    | .error e p => .error e { n with mode := .compiled p }
  | _ => .ok none n

/-! ## The live program -/

/-- Writes the memory of the live program back into the circuit. -/
def restore : Op (Network α) Unit := do
  match (← get).mode with
  | .compiled p => onCircuit p.restoreInto
  | _ => return

/-- Drops the live program, so that the next run compiles a new one. -/
def discard : Op (Network α) Unit := modify fun n =>
  match n.mode with
  | .compiled _ => { n with mode := .pending }
  | _ => n

/-- Restores and drops the live program. -/
def invalidate : Op (Network α) Unit := do
  restore
  discard

/-- Builds a new program from the restored circuit. -/
def compile : Op (Network α) Unit := do
  restore
  Op.checked (fun n => n.circuit.compile n.placements)
    fun p n => ((), { n with mode := .compiled p })

/-- Switches compiled running on or off. -/
def setOptimize (on : Bool) : Op (Network α) Unit := do
  restore
  modify fun n => { n with mode := if on then .pending else .interpreted }

/-- Compiles if that is still to be done. -/
def prepare : Op (Network α) Unit := do
  match (← get).mode with
  | .pending => compile
  | _ => return

/-- An operation on the restored circuit, without a live program. -/
def edit {β : Type} (op : Edit α β) : Op (Network α) β := do
  invalidate
  onCircuit op

/-! ## Running -/

/-- Checks the number of values given against the network. -/
def checkSize (what : Sized) (expected : Network α → Nat) (got : Nat) : Op (Network α) Unit :=
  Op.read fun n => checkLength what (expected n) got

/-- Forward steps of the layers in order; the activations of the output. -/
def stepForward (input : List α) (layers : Layers) : Edit α (List α) := do
  let _ ← Edit.activateEnsemble layers.input (some input)
  layers.hidden.forM fun e => do let _ ← Edit.activateEnsemble e none
  Edit.activateEnsemble layers.output none

/-- Backward steps of the layers from the output to the first hidden one. -/
def stepBackward (rate : α) (target : List α) (layers : Layers) : Edit α Unit := do
  Edit.propagateEnsemble layers.output (some rate) (some target)
  layers.hidden.reverse.forM fun e => Edit.propagateEnsemble e (some rate) none

/-- Feeds an input forward; the activations of the output. -/
def activate (input : List α) : Op (Network α) (List α) := do
  checkSize .input inputSize input.length
  prepare
  match ← onProgram (Program.activate input) with
  | some output => return output
  | none => onCircuit (stepForward input (← get).layers)

/-- Feeds the error against a target back and learns one step. -/
def propagate (rate : α) (target : List α) : Op (Network α) Unit := do
  checkSize .target outputSize target.length
  prepare
  match ← onProgram (Program.propagate rate target) with
  | some () => return
  | none => onCircuit (stepBackward rate target (← get).layers)

/-! ## Wiring -/

/-- Wires the output ensemble to a destination. -/
def project (destination : Destination) (topology : Option Topology) (weight : Option α) :
    Op (Network α) ProjectionId := do
  let target ← Op.read fun n => n.circuit.resolve destination
  invalidate
  onCircuit (Edit.project (← get).layers.output (.ensemble target) topology weight)

/-- Lets the output ensemble gate a projection. -/
def gate (projection : ProjectionId) (side : GateSide) : Op (Network α) Unit := do
  invalidate
  onCircuit (Edit.gate (← get).layers.output projection side)

/-! ## Forgetting -/

/-- Sets all traces and error terms to zero. -/
def clear : Op (Network α) Unit := do
  restore
  onCircuit ((← get).layers.ensembles.forM Edit.clearEnsemble)
  discard

/-- Clears the network and draws every weight and bias again. -/
def reset : Op (Network α) Unit := do
  restore
  onCircuit ((← get).layers.ensembles.forM Edit.resetEnsemble)
  discard

/-- The restored circuit and the layer set. -/
def takeApart : Op (Network α) (Circuit α × Layers) := do
  restore
  let n ← get
  return (n.circuit, n.layers)

end Network

end GatedNetwork
