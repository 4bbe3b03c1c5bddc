import GatedNetwork.Circuit.Layers
import GatedNetwork.Circuit.Linking
import GatedNetwork.Circuit.Step

/-!
# Wiring and running whole ensembles

A projection wires one ensemble to another by a topology. Asking again for a projection that is there
already answers the existing one, so no link is made twice. Gating a projection gives every link of
it a gater from an ensemble.

Each operation decides first what there is to do, or why it cannot be done, and then does it.
-/

namespace GatedNetwork

variable {α : Type} [Arithmetic α]

/-! ## Topologies -/

namespace Topology

/-- The pairs of neurons to link, in the order in which they are linked. -/
def pairs (t : Topology) (here there : List NeuronId) : List (NeuronId × NeuronId) :=
  match t with
  | allToAll => here.flatMap fun a => there.map fun b => (a, b)
  | oneToOne => here.zip there
  | allToElse => (here.flatMap fun a => there.map fun b => (a, b)).filter fun p => p.1 != p.2

end Topology

namespace Circuit

/-- Has every pair a link? -/
def allLinked (c : Circuit α) (pairs : List (NeuronId × NeuronId)) : Bool :=
  pairs.all fun p => (c.linkBetween? p.1 p.2).isSome

/-- How one list of neurons is wired to another. -/
def wiring? (c : Circuit α) (here there : List NeuronId) : Option Topology :=
  if c.allLinked (Topology.allToAll.pairs here there) then some .allToAll
  else if here.length == there.length && c.allLinked (Topology.oneToOne.pairs here there) then
    some .oneToOne
  else none

/-- Fails unless the queries of `wiring?` find their neurons. They look at the starting side, and
only if there is a pair to ask about. -/
def requireSurvey (c : Circuit α) (here there : List NeuronId) : Except Error Unit :=
  if there.isEmpty then .ok () else c.requireNeurons here

/-- The loops of the neurons are looked at until one is absent. -/
def allSelfConnected (c : Circuit α) : List NeuronId → Except Error Bool
  | [] => .ok true
  | u :: us => do
    c.requireNeuron u
    if c.isSelfConnected u then c.allSelfConnected us else return false

/-! ## Projections -/

/-- The ensemble a destination names: itself, or the input of a layer set that is not bound to another
circuit. -/
def entrance (c : Circuit α) : Destination → Except Error EnsembleId
  | .ensemble e => .ok e
  | .layers layers => do
    if let some owner := layers.circuit then
      require (owner == c.identity) (.destination .foreignLayers)
    return layers.input

/-- The ensemble a destination stands for. Whichever way it is named, it has to be in the circuit. -/
def resolve (c : Circuit α) (destination : Destination) : Except Error EnsembleId := do
  let e ← c.entrance destination
  require (c.hasEnsemble e) (.destination (.unknownTarget e))
  return e

omit [Arithmetic α] in
/-- A destination stands for exactly the ensemble it names, if the circuit has it. -/
theorem resolve_eq_ok_iff {c : Circuit α} {destination : Destination} {e : EnsembleId} :
    c.resolve destination = .ok e ↔ c.entrance destination = .ok e ∧ c.hasEnsemble e = true := by
  unfold resolve
  cases c.entrance destination with
  | error _ => simp [bind, Except.bind]
  | ok d =>
    by_cases h : c.hasEnsemble d = true
    · simp only [bind, Except.bind, require, h, if_true, pure, Except.pure, Except.ok.injEq]
      exact ⟨fun he => ⟨he, he ▸ h⟩, And.left⟩
    · simp only [bind, Except.bind, require, h, Bool.false_eq_true, if_false, Except.ok.injEq,
        reduceCtorEq, false_iff, not_and]
      exact fun he => he ▸ h

/-- The first projection between two ensembles that satisfies `p`. -/
def findProjection? (c : Circuit α) (source target : EnsembleId) (p : Projection → Bool) :
    Option ProjectionId :=
  c.projections.findIdx? fun q => q.source == source && q.target == target && p q

/-- Does this wiring hold every link that a topology asks for? -/
def covers : Option Topology → Topology → Bool
  | some .allToAll, _ => true
  | some .oneToOne, .oneToOne => true
  | _, _ => false

/-- What a request for a projection amounts to. -/
inductive ProjectionPlan where
  | existing (id : ProjectionId)
  | new (source target : EnsembleId) (topology : Topology)
deriving DecidableEq

/-- Decides a request for a projection.

Without a topology, an ensemble is wired to itself one to one and to another one all to all. A
projection of the same topology is taken, or else any projection between the two ensembles if the
links asked for are all there. -/
def planProjection (c : Circuit α) (source : EnsembleId) (destination : Destination)
    (topology : Option Topology) : Except Error ProjectionPlan := do
  require (c.hasEnsemble source) (.destination (.unknownSource source))
  let target ← c.resolve destination
  let topology := topology.getD (if source = target then .oneToOne else .allToAll)
  let here := c.members source
  let there := c.members target
  if topology = .oneToOne then
    checkLength .oneToOneTarget here.length there.length
  match c.findProjection? source target (·.topology == topology) with
  | some p => return .existing p
  | none =>
    c.requireSurvey here there
    -- from here on no projection has the topology asked for
    let covering :=
      if covers (c.wiring? here there) topology then c.findProjection? source target fun _ => true
      else none
    match covering with
    | some p => return .existing p
    | none =>
      let pairs := topology.pairs here there
      c.requireNeurons (pairs.map (·.1))
      c.requireNeurons (pairs.map (·.2))
      return .new source target topology

/-- Records a new projection. -/
def addProjection (c : Circuit α) (p : Projection) : ProjectionId × Circuit α :=
  let id := c.projections.size
  (id, { c with
    projections := c.projections.push p
    ensembles := c.ensembles.modify p.source fun e =>
      { e with projections := e.projections ++ [id] } })

/-- Carries out a plan. -/
def performProjection (c : Circuit α) (weight : Option α) : ProjectionPlan → ProjectionId × Circuit α
  | .existing p => (p, c)
  | .new source target topology =>
    let (links, c) := c.connectAll weight (topology.pairs (c.members source) (c.members target))
    c.addProjection { source, target, topology, links, gatings := [] }

/-! ## Gating a projection -/

/-- The links of a projection, each with the neuron that is to gate it. -/
def gatePlan (c : Circuit α) (gaters : List NeuronId) (p : Projection) (side : GateSide) :
    Except Error (List (NeuronId × LinkId)) :=
  let bySide (members : List NeuronId) (endpoint : Link α → NeuronId) := do
    require (members.length == gaters.length)
      (.gate (.sideSize gaters.length members.length))
    return (members.zip gaters).flatMap fun (u, gater) =>
      (p.links.filter fun l => endpoint (c.link l) == u).map fun l => (gater, l)
  match side with
  | .targets => bySide (c.members p.target) (·.target)
  | .sources => bySide (c.members p.source) (·.source)
  | .links => do
    require (p.links.length == gaters.length) (.gate (.linkCount gaters.length p.links.length))
    return gaters.zip p.links

/-- Decides a request to gate a projection. -/
def planGating (c : Circuit α) (gater : EnsembleId) (projection : ProjectionId) (side : GateSide) :
    Except Error (List (NeuronId × LinkId)) := do
  require (c.hasEnsemble gater) (.gate (.unknownGater gater))
  require (c.hasProjection projection) (.gate (.unknownProjection projection))
  let plan ← c.gatePlan (c.members gater) (c.projection projection) side
  c.requireNeurons (plan.map (·.1))
  return plan

/-- Appends a record of a gating to a projection. -/
def recordGating (c : Circuit α) (projection : ProjectionId) (record : GateRecord) : Circuit α :=
  { c with
    projections := c.projections.modify projection fun p =>
      { p with gatings := p.gatings ++ [record] } }

/-! ## Running ensembles -/

/-- Values for the members of an ensemble: one each, or none at all. -/
def spreadOver (us : List NeuronId) : Option (List α) → List (NeuronId × Option α)
  | none => us.map (·, none)
  | some xs => us.zip (xs.map some)

/-- Forward steps in turn; the activations. -/
def activateAll (c : Circuit α) : List (NeuronId × Option α) → List α × Circuit α
  | [] => ([], c)
  | (u, input) :: rest =>
    let c := c.activateNeuron u input
    let x := (c.neuron u).activation
    let (xs, c) := c.activateAll rest
    (x :: xs, c)

/-- Backward steps in turn. -/
def propagateAll (c : Circuit α) (rate : Option α) (us : List (NeuronId × Option α)) : Circuit α :=
  us.foldl (fun c p => c.propagateNeuron p.1 rate p.2) c

def clearAll (c : Circuit α) (us : List NeuronId) : Circuit α := us.foldl clearNeuron c

def resetAll (c : Circuit α) (us : List NeuronId) : Circuit α := us.foldl resetNeuron c

/-- Fails unless the ensemble exists and as many values are given as it has members. -/
def requireValues (c : Circuit α) (what : Sized) (e : EnsembleId) (values : Option (List α)) :
    Except Error Unit := do
  c.requireEnsemble e
  match values with
  | none => return
  | some xs => checkLength what (c.members e).length xs.length

/-- Fails unless the ensemble exists and steps of its members find everything they follow. -/
def requireSteps (c : Circuit α) (e : EnsembleId) : Except Error Unit := do
  c.requireEnsemble e
  (c.members e).forM c.requireStep

/-- Sets a transfer function, a bias or both for the members of an ensemble. -/
def configureAll (c : Circuit α) (transfer : Option Transfer) (bias : Option α)
    (us : List NeuronId) : Circuit α :=
  us.foldl (fun c u => c.modifyNeuron u fun n =>
    { n with transfer := transfer.getD n.transfer, bias := bias.getD n.bias }) c

end Circuit

/-! ## Operations -/

namespace Edit

open Circuit

/-- Adds an ensemble of `size` new neurons. -/
def addEnsemble (size : Nat) : Edit α EnsembleId := modifyGet (·.addEnsemble size)

/-- Wraps neurons into an ensemble. -/
def wrap (us : List NeuronId) : Edit α EnsembleId := modifyGet (·.wrap us)

/-- Sets a transfer function, a bias or both for a whole ensemble. -/
def configure (e : EnsembleId) (transfer : Option Transfer) (bias : Option α) : Edit α Unit :=
  Op.checked (fun c => do c.requireEnsemble e; c.requireNeurons (c.members e))
    fun _ c => ((), c.configureAll transfer bias (c.members e))

/-- Wires an ensemble to a destination; the projection, new or existing. -/
def project (source : EnsembleId) (destination : Destination) (topology : Option Topology)
    (weight : Option α) : Edit α ProjectionId :=
  Op.checked (·.planProjection source destination topology)
    fun plan c => c.performProjection weight plan

/-- Lets the neurons of an ensemble drive the gains of the links of a projection. -/
def gate (gater : EnsembleId) (projection : ProjectionId) (side : GateSide) : Edit α Unit :=
  Op.checked (·.planGating gater projection side)
    fun plan c => ((), (c.gateAll plan).recordGating projection { gater, side })

/-- Forward steps of the members in order, from the inputs if there are any; the activations. -/
def activateEnsemble (e : EnsembleId) (inputs : Option (List α)) : Edit α (List α) :=
  Op.checked
    (fun c => do
      c.requireValues .input e inputs
      match inputs with
      | some _ => c.requireNeurons (c.members e)
      | none => c.requireSteps e)
    fun _ c => c.activateAll (spreadOver (c.members e) inputs)

/-- Backward steps of the members in reverse order. -/
def propagateEnsemble (e : EnsembleId) (rate : Option α) (targets : Option (List α)) :
    Edit α Unit :=
  Op.checked (fun c => do c.requireValues .target e targets; c.requireSteps e)
    fun _ c => ((), c.propagateAll rate (spreadOver (c.members e) targets).reverse)

/-- Sets traces and error terms of the members to zero. -/
def clearEnsemble (e : EnsembleId) : Edit α Unit :=
  Op.checked (fun c => do c.requireEnsemble e; c.requireNeurons (c.members e))
    fun _ c => ((), c.clearAll (c.members e))

/-- Clears the members and draws their weights and biases again. -/
def resetEnsemble (e : EnsembleId) : Edit α Unit :=
  Op.checked
    (fun c => do
      c.requireEnsemble e
      (c.members e).forM fun u => require (c.resolves u) (.dangling (.neuron u)))
    fun _ c => ((), c.resetAll (c.members e))

/-- How one ensemble is wired to another. -/
def wiring? (a b : EnsembleId) : Edit α (Option Topology) :=
  Op.read fun c => do
    c.requireEnsemble a
    c.requireEnsemble b
    c.requireSurvey (c.members a) (c.members b)
    return c.wiring? (c.members a) (c.members b)

/-- Have all members of the ensemble a loop of a weight other than zero? -/
def isSelfConnected (e : EnsembleId) : Edit α Bool :=
  Op.read fun c => do c.requireEnsemble e; c.allSelfConnected (c.members e)

/-- The record of a projection. -/
def projection (p : ProjectionId) : Edit α Projection :=
  Op.read fun c => do c.requireProjection p; return c.projection p

end Edit

end GatedNetwork
