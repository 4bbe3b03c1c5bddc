import GatedNetwork.Circuit.Basic

/-!
# Layers

A layer set names one input ensemble, any number of hidden ensembles and one output ensemble. Going
through it in canonical order, from the input to the output, places every neuron in a layer.
-/

namespace GatedNetwork

/-- The place of an ensemble in the canonical order. -/
inductive Layer where
  | input
  | hidden (index : Nat)
  | output
deriving DecidableEq, Repr

/-- A neuron together with the layer it is used in. -/
structure Placement where
  neuron : NeuronId
  layer : Layer
deriving DecidableEq, Repr

/-- A layer set. -/
structure Layers where
  input : EnsembleId
  hidden : List EnsembleId
  output : EnsembleId
  /-- The circuit it is bound to, if any. -/
  circuit : Option Identity
deriving DecidableEq

namespace Layers

/-- A layer set that no circuit owns. -/
def unbound (input : EnsembleId) (hidden : List EnsembleId) (output : EnsembleId) : Layers :=
  { input, hidden, output, circuit := none }

/-- The layer set bound to a circuit. -/
def bind (layers : Layers) (circuit : Identity) : Layers := { layers with circuit := some circuit }

/-- Hidden ensembles with their layers, counted from `first`. -/
def hiddenFrom (first : Nat) : List EnsembleId → List (Layer × EnsembleId)
  | [] => []
  | e :: es => (.hidden first, e) :: hiddenFrom (first + 1) es

/-- The ensembles in canonical order, with their layers. -/
def toList (layers : Layers) : List (Layer × EnsembleId) :=
  (.input, layers.input) :: hiddenFrom 0 layers.hidden ++ [(.output, layers.output)]

/-- The ensembles in canonical order. -/
def ensembles (layers : Layers) : List EnsembleId := layers.toList.map (·.2)

end Layers

/-- Where a projection lands. -/
inductive Destination where
  | ensemble (id : EnsembleId)
  /-- The input ensemble of a layer set. -/
  | layers (layers : Layers)
deriving DecidableEq

namespace Circuit

variable {α : Type} [Arithmetic α]

/-- The neurons of a layer set in canonical order. -/
def placements (c : Circuit α) (layers : Layers) : List Placement :=
  layers.toList.flatMap fun (layer, e) => (c.members e).map fun neuron => { neuron, layer }

end Circuit

end GatedNetwork
