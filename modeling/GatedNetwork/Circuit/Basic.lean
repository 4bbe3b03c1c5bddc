import GatedNetwork.Arithmetic
import GatedNetwork.Error
import GatedNetwork.IdMap

/-!
# Circuits

A circuit is an arena: it owns neurons, links, ensembles of neurons and projections between
ensembles, and names each of them by the number of those made before it. Nothing is ever removed, so
an id stays good for ever.

Every neuron has a loop, a link onto itself that is made together with it. A loop of weight zero
counts as absent. All other links join two different neurons.

## Reading

`Circuit.neuron` and `Circuit.link` answer a blank record for an id that names nothing. No operation
relies on that: each checks the ids it follows before it acts, and reports a dangling one.
-/

namespace GatedNetwork

variable {α : Type}

/-- Settings of a circuit. -/
structure Settings (α : Type) where
  /-- Start of the generator that draws weights and biases. -/
  seed : UInt64
  /-- Weights and biases are drawn from the open interval of this half width around zero. -/
  initRange : α
  /-- Learning rate of a step for which none is given. -/
  defaultRate : α
deriving DecidableEq

/-- Identity of a circuit. Layer sets carry it, so that they are not taken for ensembles of another
circuit. -/
abbrev Identity := Nat

/-- A weighted link between two neurons. Its gain is 1 until a gater drives it. -/
structure Link (α : Type) where
  source : NeuronId
  target : NeuronId
  weight : α
  gain : α
  gater : Option NeuronId
deriving DecidableEq

namespace Link

variable [Arithmetic α]

/-- A link nobody gates. -/
def plain (source target : NeuronId) (weight : α) : Link α :=
  { source, target, weight, gain := 1, gater := none }

instance : Inhabited (Link α) := ⟨plain 0 0 0⟩

/-- A link, if both of its endpoints are given. -/
def ofEndpoints (source target : Option NeuronId) (weight : α) : Except Error (Link α) :=
  match source, target with
  | some s, some t => .ok (plain s t weight)
  | _, _ => .error (.unlinked source target)

def isGated (k : Link α) : Bool := k.gater.isSome

end Link

/-- The terms of the error at a neuron. -/
structure ErrorTerms (α : Type) where
  responsibility : α
  /-- The share that came back through outgoing links. -/
  projected : α
  /-- The share that came back through gated neurons. -/
  gated : α
deriving DecidableEq

/-- What a neuron remembers about the past for learning. -/
structure Traces (α : Type) where
  /-- Per incoming link. -/
  eligibility : IdMap α
  /-- Per gated neuron and incoming link. -/
  extended : IdMap (IdMap α)
  /-- Per gated neuron: the links into it that this neuron gates, its loop excepted. -/
  influences : IdMap IdSet
deriving DecidableEq

/-- A neuron. -/
structure Neuron (α : Type) where
  activation : α
  state : α
  /-- The state before the last step. -/
  previous : α
  bias : α
  derivative : α
  transfer : Transfer
  error : ErrorTerms α
  trace : Traces α
  /-- Links into this neuron, its loop excepted. -/
  inputs : IdSet
  /-- Links out of this neuron, its loop excepted. -/
  projected : IdSet
  /-- Links this neuron gates. -/
  gated : IdSet
  /-- The link onto itself. -/
  loop : LinkId
deriving DecidableEq

namespace ErrorTerms

variable [Arithmetic α]

def zero : ErrorTerms α := ⟨0, 0, 0⟩

end ErrorTerms

namespace Traces

/-- No trace of anything. -/
def none : Traces α := ⟨∅, ∅, ∅⟩

/-- The links into `g` that are gated here, the loop of `g` excepted. -/
def influencesOn (t : Traces α) (g : NeuronId) : IdSet := (t.influences.find? g).getD ∅

end Traces

namespace Neuron

variable [Arithmetic α]

/-- A neuron with no links but its loop. -/
def fresh (bias : α) (loop : LinkId) : Neuron α where
  activation := 0
  state := 0
  previous := 0
  bias := bias
  derivative := 0
  transfer := .logistic
  error := .zero
  trace := .none
  inputs := ∅
  projected := ∅
  gated := ∅
  loop := loop

instance : Inhabited (Neuron α) := ⟨fresh 0 0⟩

end Neuron

/-- How one ensemble is wired to another. -/
inductive Topology where
  | allToAll
  | oneToOne
  /-- All pairs of different neurons. -/
  | allToElse
deriving DecidableEq, Repr

namespace Topology

def name : Topology → String
  | allToAll => "AllToAll"
  | oneToOne => "OneToOne"
  | allToElse => "AllToElse"

end Topology

/-- Which side of a projection a gating ensemble controls. -/
inductive GateSide where
  /-- The i-th gater gates the links into the i-th target neuron. -/
  | targets
  /-- The i-th gater gates the links out of the i-th source neuron. -/
  | sources
  /-- The i-th gater gates the i-th link. -/
  | links
deriving DecidableEq, Repr

namespace GateSide

def name : GateSide → String
  | targets => "Input"
  | sources => "Output"
  | links => "OneToOne"

end GateSide

/-- An ordered list of neurons, wired and run together. -/
structure Ensemble where
  members : List NeuronId
  /-- The projections that start here, in the order of their creation. -/
  projections : List ProjectionId
deriving DecidableEq, Inhabited

/-- One gating of a projection by an ensemble. -/
structure GateRecord where
  gater : EnsembleId
  side : GateSide
deriving DecidableEq

/-- The links made by wiring one ensemble to another. -/
structure Projection where
  source : EnsembleId
  target : EnsembleId
  topology : Topology
  links : List LinkId
  gatings : List GateRecord
deriving DecidableEq

namespace Projection

instance : Inhabited Projection := ⟨⟨0, 0, .allToAll, [], []⟩⟩

/-- Does the projection end where it starts? -/
def isLoop (p : Projection) : Bool := p.source == p.target

end Projection

/-- An arena of neurons and links. -/
structure Circuit (α : Type) where
  identity : Identity
  settings : Settings α
  neurons : Array (Neuron α)
  links : Array (Link α)
  ensembles : Array Ensemble
  projections : Array Projection
  generator : Generator
deriving DecidableEq

/-- An operation on a circuit. -/
abbrev Edit (α : Type) := Op (Circuit α)

namespace Circuit

/-- A circuit without neurons. -/
def empty (identity : Identity) (settings : Settings α) : Circuit α where
  identity := identity
  settings := settings
  neurons := #[]
  links := #[]
  ensembles := #[]
  projections := #[]
  generator := .ofSeed settings.seed

/-- A copy under an identity of its own. -/
def copy (c : Circuit α) (identity : Identity) : Circuit α := { c with identity }

/-! ## Which ids name something -/

def hasNeuron (c : Circuit α) (u : NeuronId) : Bool := u < c.neurons.size

def hasLink (c : Circuit α) (l : LinkId) : Bool := l < c.links.size

def hasEnsemble (c : Circuit α) (e : EnsembleId) : Bool := e < c.ensembles.size

def hasProjection (c : Circuit α) (p : ProjectionId) : Bool := p < c.projections.size

def requireNeuron (c : Circuit α) (u : NeuronId) : Except Error Unit :=
  require (c.hasNeuron u) (.dangling (.neuron u))

def requireLink (c : Circuit α) (l : LinkId) : Except Error Unit :=
  require (c.hasLink l) (.dangling (.link l))

def requireEnsemble (c : Circuit α) (e : EnsembleId) : Except Error Unit :=
  require (c.hasEnsemble e) (.dangling (.ensemble e))

def requireProjection (c : Circuit α) (p : ProjectionId) : Except Error Unit :=
  require (c.hasProjection p) (.dangling (.projection p))

/-- Fails at the first id that names no neuron. -/
def requireNeurons (c : Circuit α) (us : List NeuronId) : Except Error Unit :=
  us.forM c.requireNeuron

/-! ## Reading -/

variable [Arithmetic α]

def neuron (c : Circuit α) (u : NeuronId) : Neuron α := c.neurons.getD u default

def link (c : Circuit α) (l : LinkId) : Link α := c.links.getD l default

def ensemble (c : Circuit α) (e : EnsembleId) : Ensemble := c.ensembles.getD e default

def projection (c : Circuit α) (p : ProjectionId) : Projection := c.projections.getD p default

def members (c : Circuit α) (e : EnsembleId) : List NeuronId := (c.ensemble e).members

/-- The loop of a neuron. -/
def loopOf (c : Circuit α) (u : NeuronId) : Link α := c.link (c.neuron u).loop

/-- Is this link the loop of the neuron it leads to? -/
def isLoop (c : Circuit α) (l : LinkId) : Bool := (c.neuron (c.link l).target).loop == l

/-! ## Writing -/

def modifyNeuron (c : Circuit α) (u : NeuronId) (f : Neuron α → Neuron α) : Circuit α :=
  { c with neurons := c.neurons.modify u f }

def modifyLink (c : Circuit α) (l : LinkId) (f : Link α → Link α) : Circuit α :=
  { c with links := c.links.modify l f }

def setWeight (c : Circuit α) (l : LinkId) (w : α) : Circuit α :=
  c.modifyLink l fun k => { k with weight := w }

def setGain (c : Circuit α) (l : LinkId) (x : α) : Circuit α :=
  c.modifyLink l fun k => { k with gain := x }

/-- Draws a number from the open interval of the initial range. -/
def draw (c : Circuit α) : α × Circuit α :=
  let (word, generator) := c.generator.next
  (c.settings.initRange * Arithmetic.spread word, { c with generator })

/-- Adds a neuron with a random bias and an absent loop. -/
def addNeuron (c : Circuit α) : NeuronId × Circuit α :=
  let u := c.neurons.size
  let (bias, c) := c.draw
  (u, { c with
    neurons := c.neurons.push (.fresh bias c.links.size)
    links := c.links.push (.plain u u 0) })

/-- Adds `size` neurons. -/
def addNeurons (c : Circuit α) : (size : Nat) → List NeuronId × Circuit α
  | 0 => ([], c)
  | size + 1 =>
    let (u, c) := c.addNeuron
    let (us, c) := c.addNeurons size
    (u :: us, c)

/-- Wraps neurons into an ensemble. -/
def wrap (c : Circuit α) (us : List NeuronId) : EnsembleId × Circuit α :=
  (c.ensembles.size, { c with ensembles := c.ensembles.push ⟨us, []⟩ })

/-- Adds an ensemble of `size` new neurons. -/
def addEnsemble (c : Circuit α) (size : Nat) : EnsembleId × Circuit α :=
  let (us, c) := c.addNeurons size
  c.wrap us

/-- Number of links that have a gater. -/
def gatedLinkCount (c : Circuit α) : Nat := c.links.toList.countP (·.isGated)

end Circuit

end GatedNetwork
