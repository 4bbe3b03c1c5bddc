import GatedNetwork.Proofs.Circuit.Copy
import GatedNetwork.Proofs.Circuit.Growth
import GatedNetwork.Proofs.Network.Passes

/-!
# Requests to a network

What a caller observes of a network are the answers to requests: to run it, to wire and gate its
output, to make it forget, to take a snapshot of it, and to change its circuit. Upkeep asks nothing;
it compiles, restores and drops programs, switches compiled running on and off, and goes on with a
copy. A run is a sequence of both.

`Request.effect` says what a request does to the circuit alone, step by step and without any program.

* `alike_effect` — the effect on a copy is a copy of the effect
* `keeps_effect` — an effect keeps what all requests to a circuit keep
-/

namespace GatedNetwork

variable {α : Type} [Arithmetic α]

namespace Network

/-- Something to ask of a network. -/
inductive Request (α : Type) where
  | activate (input : List α)
  | propagate (rate : α) (target : List α)
  /-- Wires the output to an ensemble. -/
  | project (target : EnsembleId) (topology : Option Topology) (weight : Option α)
  | gate (projection : ProjectionId) (side : GateSide)
  | clear
  | reset
  | snapshot
  /-- Asks something of the circuit. -/
  | edit (r : Circuit.Request α)

/-- What a network answers to a request. -/
inductive Answer (α : Type) where
  | done
  | projection (p : ProjectionId)
  | outputs (xs : List α)
  | snapshot (s : Snapshot α)
  | circuit (a : Circuit.Answer α)
deriving DecidableEq

/-- Something to do to a network that asks nothing. -/
inductive Upkeep where
  | compile
  | restore
  | invalidate
  | setOptimize (on : Bool)
  /-- Takes the circuit for changing and changes nothing. -/
  | idle
  /-- Goes on with a copy. -/
  | copy (identity : Identity)

/-- A part of a run. -/
inductive Event (α : Type) where
  | request (r : Request α)
  | upkeep (u : Upkeep)

namespace Request

/-- Performs a request. -/
def perform : Request α → Op (Network α) (Answer α)
  | activate input => .outputs <$> Network.activate input
  | propagate rate target => (fun _ => .done) <$> Network.propagate rate target
  | project target topology weight =>
    .projection <$> Network.project (.ensemble target) topology weight
  | gate projection side => (fun _ => .done) <$> Network.gate projection side
  | clear => (fun _ => .done) <$> Network.clear
  | reset => (fun _ => .done) <$> Network.reset
  | snapshot => .snapshot <$> Network.snapshot
  | edit r => .circuit <$> Network.edit r.perform

/-- What a request does to the circuit of a network without a live program. -/
def effect (layers : Layers) : Request α → Edit α (Answer α)
  | activate input => .outputs <$> do
    Op.read fun c => checkLength .input (c.members layers.input).length input.length
    stepForward input layers
  | propagate rate target => (fun _ => .done) <$> do
    Op.read fun c => checkLength .target (c.members layers.output).length target.length
    stepBackward rate target layers
  | project target topology weight => .projection <$> do
    let target ← Op.read fun c => c.resolve (.ensemble target)
    Edit.project layers.output (.ensemble target) topology weight
  | gate projection side => (fun _ => .done) <$> Edit.gate layers.output projection side
  | clear => (fun _ => .done) <$> layers.ensembles.forM Edit.clearEnsemble
  | reset => (fun _ => .done) <$> layers.ensembles.forM Edit.resetEnsemble
  | snapshot => .snapshot <$> Op.read fun c => do
    c.requireNeurons ((c.placements layers).map (·.neuron))
    return c.snapshot (c.placements layers)
  | edit r => .circuit <$> r.perform

/-- A request that does not tell two identities apart. -/
def Indifferent (i j : Identity) : Request α → Prop
  | edit r => r.Indifferent i j
  | _ => True

end Request

/-- Does upkeep. -/
def Upkeep.perform : Upkeep → Op (Network α) Unit
  | compile => Network.compile
  | restore => Network.restore
  | invalidate => Network.invalidate
  | setOptimize on => Network.setOptimize on
  | idle => Network.edit (pure ())
  | copy identity => modify (·.copy identity)

/-- A run: upkeep has to succeed, requests may fail. The answers to the requests. -/
def run : List (Event α) → Op (Network α) (List (Except Error (Answer α)))
  | [] => pure []
  | .request r :: es => do
    let a ← Op.observe r.perform
    return a :: (← run es)
  | .upkeep u :: es => do
    u.perform
    run es

/-- The requests of a run. -/
def requests (es : List (Event α)) : List (Request α) :=
  es.filterMap fun
    | .request r => some r
    | .upkeep _ => none

/-- The effects of requests in turn: the answers, and the circuit at the end. -/
def effects (layers : Layers) :
    List (Request α) → Circuit α → List (Except Error (Answer α)) × Circuit α
  | [], c => ([], c)
  | r :: rs, c =>
    let (as, d) := effects layers rs ((r.effect layers).final c)
    ((r.effect layers).answer c :: as, d)

/-- The requests of a run tell the identity the network had at first from none it has had when they
come. -/
def Indifferent (original : Identity) : (current : Identity) → List (Event α) → Prop
  | _, [] => True
  | current, .request r :: es => r.Indifferent original current ∧ Indifferent original current es
  | _, .upkeep (.copy identity) :: es => Indifferent original identity es
  | current, .upkeep _ :: es => Indifferent original current es

end Network

namespace Circuit

variable {c d : Circuit α} {layers : Layers}

/-! ## Circuits that can be a network's -/

/-- A circuit that can be the circuit of a network: it is consistent, and has the ensembles of the
layer set, with neurons that exist. -/
structure Hosts (c : Circuit α) (layers : Layers) : Prop where
  consistent : c.Consistent
  runs : c.Runs layers

namespace Hosts

/-- A consistent circuit that has all of a host's ensembles and neurons is one. -/
theorem of_grows (h : c.Hosts layers) (hd : d.Consistent) (hg : Grows c d) : d.Hosts layers where
  consistent := hd
  runs :=
    { sound := hd.sound
      ensembles := fun e he => hg.ensembles e (h.runs.ensembles e he)
      inhabits := fun p hp => by
        obtain ⟨⟨layer, e⟩, hle, hp⟩ := List.mem_flatMap.mp hp
        have he := h.runs.ensembles e (List.mem_map_of_mem (f := (·.2)) hle)
        simp only [hg.members e he] at hp
        have hlt := h.runs.inhabits p (List.mem_flatMap.mpr ⟨(layer, e), hle, hp⟩)
        exact Nat.lt_of_lt_of_le hlt hg.neurons }

theorem of_sameWiring (h : c.Hosts layers) (hw : SameWiring c d) : d.Hosts layers :=
  h.of_grows (h.consistent.of_sameWiring hw) (.of_sameWiring hw)

theorem copy (h : c.Hosts layers) (i : Identity) : (c.copy i).Hosts (layers.bind i) where
  consistent := h.consistent.of_sameWiring (sameWiring_copy c i)
  runs :=
    { sound := h.runs.sound.of_sameWiring (sameWiring_copy c i)
      ensembles := h.runs.ensembles
      inhabits := h.runs.inhabits }

end Hosts

theorem keeps_hosts (r : Request α) : Op.Keeps (·.Hosts layers) r.perform :=
  fun c h => h.of_grows (consistent_perform h.consistent r) (grows_perform c r)

/-- A host whose output lists no neuron twice. -/
structure Distinct (c : Circuit α) (layers : Layers) : Prop where
  hosts : c.Hosts layers
  nodup : (c.members layers.output).Nodup

theorem Distinct.copy (h : c.Distinct layers) (i : Identity) :
    (c.copy i).Distinct (layers.bind i) :=
  ⟨h.hosts.copy i, h.nodup⟩

theorem keeps_distinct (r : Request α) : Op.Keeps (·.Distinct layers) r.perform := by
  intro c h
  refine ⟨keeps_hosts r c h.hosts, ?_⟩
  rw [(grows_perform c r).members _ (h.hosts.runs.ensembles _ (Runs.output_mem layers))]
  exact h.nodup

end Circuit

namespace Network

open Circuit

variable {c : Circuit α} {layers : Layers}

section Keeps

variable {P : Circuit α → Prop} (hP : ∀ r : Circuit.Request α, Op.Keeps P r.perform)

include hP

theorem keeps_stepForward (input : List α) (layers : Layers) :
    Op.Keeps P (stepForward input layers) := by
  have hactivate : ∀ e inputs, Op.Keeps P (Edit.activateEnsemble e inputs) :=
    fun e inputs => Op.Keeps.of_map (hP (.activateEnsemble e inputs))
  refine (hactivate _ _).bind fun _ => ?_
  refine (Op.Keeps.forM (fun e => ?_) _).bind fun _ => hactivate _ _
  exact (hactivate e _).bind fun _ _ hs => hs

theorem keeps_stepBackward (rate : α) (target : List α) (layers : Layers) :
    Op.Keeps P (stepBackward rate target layers) := by
  have hpropagate : ∀ e rate targets, Op.Keeps P (Edit.propagateEnsemble e rate targets) :=
    fun e rate targets => Op.Keeps.of_map (hP (.propagateEnsemble e rate targets))
  exact (hpropagate _ _ _).bind fun _ => Op.Keeps.forM (fun e => hpropagate e _ _) _

/-- What all requests to a circuit keep, those to a network keep too. -/
theorem keeps_effect (layers : Layers) (r : Request α) : Op.Keeps P (r.effect layers) := by
  cases r <;> refine Op.Keeps.map ?_ _
  case activate input => exact (Op.Keeps.read _).bind fun _ => keeps_stepForward hP input layers
  case propagate rate target =>
    exact (Op.Keeps.read _).bind fun _ => keeps_stepBackward hP rate target layers
  case project target topology weight =>
    refine (Op.Keeps.read _).bind fun target => ?_
    exact Op.Keeps.of_map (hP (.project _ _ topology weight))
  case gate projection side => exact Op.Keeps.of_map (hP (.gate _ projection side))
  case clear => exact Op.Keeps.forM (fun e => Op.Keeps.of_map (hP (.clearEnsemble e))) _
  case reset => exact Op.Keeps.forM (fun e => Op.Keeps.of_map (hP (.resetEnsemble e))) _
  case snapshot => exact Op.Keeps.read _
  case edit r => exact hP r

end Keeps

/-! ## Effects on a copy -/

/-- What owns a layer set does not matter to a request. -/
theorem effect_bind (layers : Layers) (i : Identity) (r : Request α) :
    r.effect (layers.bind i) = r.effect layers := by
  cases r <;> rfl

/-- The effect on a copy is answered like that on the original, and leaves a copy. -/
theorem alike_effect {r : Request α} {i : Identity} (hr : r.Indifferent c.identity i) :
    Op.Alike (IsCopy i) (r.effect layers (c.copy i)) (r.effect layers c) := by
  cases r <;> refine Op.Alike.map ?_ _
  case activate input =>
    refine (alike_read rfl).bind ?_
    rintro _ _ d - - rfl
    refine (alike_activateEnsemble _ _).bind ?_
    rintro _ _ d - - rfl
    refine Op.Alike.bind (Op.Alike.forM ?_ _ rfl) ?_
    · rintro e _ d rfl
      refine (alike_activateEnsemble _ _).bind ?_
      rintro _ _ d - - rfl
      exact .ok () rfl
    · rintro _ _ d - - rfl
      exact alike_activateEnsemble _ _
  case propagate rate target =>
    refine (alike_read rfl).bind ?_
    rintro _ _ d - - rfl
    refine (alike_propagateEnsemble _ _ _).bind ?_
    rintro _ _ d - - rfl
    refine Op.Alike.forM ?_ _ rfl
    rintro e _ d rfl
    exact alike_propagateEnsemble _ _ _
  case project target topology weight =>
    refine (alike_read rfl).bind ?_
    rintro e _ d - - rfl
    have hdestination : (Destination.ensemble e).Indifferent d.identity i := trivial
    exact alike_project hdestination _ _ _
  case gate projection side => exact alike_gate _ _ _
  case clear =>
    refine Op.Alike.forM ?_ _ rfl
    rintro e _ d rfl
    exact alike_clearEnsemble e
  case reset =>
    refine Op.Alike.forM ?_ _ rfl
    rintro e _ d rfl
    exact alike_resetEnsemble e
  case snapshot => exact alike_read rfl
  case edit r => exact alike_perform hr

omit [Arithmetic α] in
theorem Request.indifferent_self (r : Request α) (i : Identity) : r.Indifferent i i := by
  cases r with
  | edit r => exact r.indifferent_self i
  | _ => trivial

/-- Effects leave the identity of a circuit alone. -/
theorem identity_effect (layers : Layers) (r : Request α) (c : Circuit α) :
    ((r.effect layers).final c).identity = c.identity :=
  congrArg (·.identity) (alike_effect (r.indifferent_self c.identity)).final

end Network

end GatedNetwork
