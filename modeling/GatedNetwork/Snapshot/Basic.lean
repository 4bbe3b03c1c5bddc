import GatedNetwork.Network.Basic

/-!
# Snapshots

A snapshot holds the continuous state and the topology of a network without ids: neurons are rows in
canonical order, and connections name neurons by their position. Going back from a snapshot builds a
network in a new circuit. Traces and error terms are not part of it.
-/

namespace GatedNetwork

variable {α : Type}

/-- A neuron of a snapshot. -/
structure NeuronRow (α : Type) where
  state : α
  previous : α
  activation : α
  bias : α
  layer : Layer
  transfer : Transfer
deriving DecidableEq

/-- A connection of a snapshot; neurons are named by their position. -/
structure ConnectionRow (α : Type) where
  source : Nat
  target : Nat
  weight : α
  gain : α
  gater : Option Nat
deriving DecidableEq

/-- State and topology of a network. -/
structure Snapshot (α : Type) where
  neurons : List (NeuronRow α)
  connections : List (ConnectionRow α)
deriving DecidableEq

variable [Arithmetic α]

/-! ## Taking a snapshot -/

namespace Circuit

/-- The position of a neuron in canonical order. One that is listed more than once has its last
position. -/
def position? (placements : List Placement) (u : NeuronId) : Option Nat :=
  (placements.reverse.findIdx? fun p => p.neuron == u).map fun i => placements.length - 1 - i

/-- The row of a placed neuron. -/
def neuronRow (c : Circuit α) (p : Placement) : NeuronRow α :=
  let n := c.neuron p.neuron
  { state := n.state
    previous := n.previous
    activation := n.activation
    bias := n.bias
    layer := p.layer
    transfer := n.transfer }

/-- The row of a link between placed neurons. A loop has one only if it carries weight or a gater. A
gater that is not placed is left out. -/
def connectionRow? (placements : List Placement) (k : Link α) : Option (ConnectionRow α) := do
  let source ← position? placements k.source
  let target ← position? placements k.target
  if k.source = k.target ∧ Arithmetic.isZero k.weight ∧ k.gater = none then none
  else
    some { source, target, weight := k.weight, gain := k.gain,
           gater := k.gater.bind (position? placements) }

/-- The snapshot of placed neurons. Connections are listed in the order of their creation. -/
def snapshot (c : Circuit α) (placements : List Placement) : Snapshot α where
  neurons := placements.map c.neuronRow
  connections := c.links.toList.filterMap (connectionRow? placements)

end Circuit

namespace Network

/-- Restores and takes a snapshot. -/
def snapshot : Op (Network α) (Snapshot α) := do
  restore
  Op.read fun n => do
    n.circuit.requireNeurons (n.placements.map (·.neuron))
    return n.circuit.snapshot n.placements

end Network

/-! ## Going back -/

namespace Snapshot

/-- Do source, target and gater of a row name neurons below `n`? -/
def isInside (n : Nat) (row : ConnectionRow α) : Bool :=
  row.source < n && row.target < n && (row.gater.all fun g => g < n)

/-- Fails at the first connection that names a neuron outside. -/
def check (s : Snapshot α) : Except Error Unit :=
  match s.connections.findIdx? fun row => !isInside s.neurons.length row with
  | some row => .error (.snapshot (.outside row s.neurons.length))
  | none => .ok ()

/-- Adds the neuron of a row. -/
def addNeuron (c : Circuit α) (row : NeuronRow α) : Circuit α :=
  let (u, c) := c.addNeuron
  c.modifyNeuron u fun n =>
    { n with
      state := row.state
      previous := row.previous
      activation := row.activation
      bias := row.bias
      transfer := row.transfer }

/-- Adds the connection of a row. The gain of the row is the last one its gater gave. -/
def addConnection (c : Circuit α) (row : ConnectionRow α) : Circuit α :=
  let (l, c) := c.connect row.source row.target (some row.weight)
  let c := match row.gater with
    | some g => c.gateLink g l
    | none => c
  c.setGain l row.gain

/-- The positions of the neurons in a layer. -/
def inLayer (s : Snapshot α) (layer : Layer) : List NeuronId :=
  (List.range s.neurons.length).filter fun i =>
    s.neurons[i]?.any fun row => row.layer == layer

/-- The indices of hidden layers, each once. -/
def hiddenIndices (s : Snapshot α) : IdSet :=
  s.neurons.foldl (fun is row => match row.layer with
    | .hidden i => is.insert i
    | _ => is) ∅

/-- Wraps several lists of neurons. -/
def wrapAll (c : Circuit α) : List (List NeuronId) → List EnsembleId × Circuit α
  | [] => ([], c)
  | us :: rest =>
    let (e, c) := c.wrap us
    let (es, c) := wrapAll c rest
    (e :: es, c)

/-- The circuit of a snapshot and its layer set. Hidden layers keep their order; gaps between their
indices close. -/
def build (s : Snapshot α) (identity : Identity) (settings : Settings α) : Circuit α × Layers :=
  let c := s.neurons.foldl addNeuron (.empty identity settings)
  let (input, c) := c.wrap (s.inLayer .input)
  let (hidden, c) := wrapAll c (s.hiddenIndices.toList.map fun i => s.inLayer (.hidden i))
  let (output, c) := c.wrap (s.inLayer .output)
  (s.connections.foldl addConnection c, .unbound input hidden output)

/-- The network of a snapshot, in a new circuit. -/
def toNetwork (s : Snapshot α) (identity : Identity) (settings : Settings α) :
    Except Error (Network α) := do
  s.check
  let (circuit, layers) := s.build identity settings
  Network.create circuit layers

end Snapshot

namespace Network

/-- An independent copy by way of a snapshot. -/
def duplicate (identity : Identity) : Op (Network α) (Network α) := do
  let s ← snapshot
  Op.read fun n => s.toNetwork identity n.circuit.settings

end Network

end GatedNetwork
