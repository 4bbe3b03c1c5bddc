import GatedNetwork.Network.Basic

/-!
# Overview of the wiring

A picture of a network at the level of ensembles. Taking it changes nothing.
-/

namespace GatedNetwork

/-- A projection that starts at an ensemble. -/
structure OutgoingView where
  id : ProjectionId
  target : EnsembleId
  topology : Topology
  size : Nat
  gatings : List GateRecord
deriving DecidableEq

/-- An ensemble of a network. -/
structure EnsembleView where
  id : EnsembleId
  layer : Layer
  size : Nat
  /-- Does it have members, and do all of them have a loop? -/
  selfConnected : Bool
  projections : List OutgoingView
deriving DecidableEq

/-- A network at the level of ensembles. -/
structure Overview where
  ensembles : List EnsembleView
  neurons : Nat
  /-- Links, absent loops excepted. -/
  links : Nat
  gatedLinks : Nat
  /-- Size of the memory of the live program. -/
  compiledSlots : Option Nat
deriving DecidableEq

namespace Network

variable {α : Type} [Arithmetic α]

def outgoingView (c : Circuit α) (id : ProjectionId) : OutgoingView :=
  let p := c.projection id
  { id, target := p.target, topology := p.topology, size := p.links.length, gatings := p.gatings }

def ensembleView (c : Circuit α) (layer : Layer) (id : EnsembleId) : Except Error EnsembleView := do
  let us := c.members id
  let loops ← c.allSelfConnected us
  return {
    id, layer
    size := us.length
    selfConnected := !us.isEmpty && loops
    projections := (c.ensemble id).projections.map (outgoingView c) }

/-- Is the link more than an absent loop? -/
def isPresent (k : Link α) : Bool := k.source != k.target || !Arithmetic.isZero k.weight

/-- The overview of a network as it is, without restoring it. -/
def overview (n : Network α) : Except Error Overview := do
  let ensembles ← n.layers.toList.mapM fun (layer, e) => ensembleView n.circuit layer e
  return {
    ensembles
    neurons := n.placements.length
    links := n.circuit.links.toList.countP isPresent
    gatedLinks := n.circuit.gatedLinkCount
    compiledSlots := n.program?.map (·.memory.size) }

end Network

end GatedNetwork
