import GatedNetwork.Snapshot.Document

/-!
# Workspaces

A workspace makes circuits and networks and gives every circuit an identity of its own: one that no
circuit made before has. It holds one free circuit, the networks made so far and the layer set of the
network that was taken apart last.
-/

namespace GatedNetwork

variable {α : Type} [Arithmetic α]

/-- Circuits and networks with different identities. -/
structure Workspace (α : Type) where
  /-- No circuit has this identity or a higher one yet. -/
  next : Identity
  /-- The free circuit. -/
  circuit : Circuit α
  /-- The networks in the order of their making, gone once they are taken apart. -/
  networks : Array (Option (Network α))
  /-- The layer set of the network that was taken apart last. -/
  parts : Option Layers

namespace Workspace

/-- A workspace with an empty free circuit. -/
def start (settings : Settings α) : Workspace α where
  next := 1
  circuit := .empty 0 settings
  networks := #[]
  parts := none

/-- An identity that no circuit has. -/
def freshIdentity : Op (Workspace α) Identity :=
  modifyGet fun w => (w.next, { w with next := w.next + 1 })

/-- Keeps a network; its number. -/
def keep (n : Network α) : Op (Workspace α) Nat :=
  modifyGet fun w => (w.networks.size, { w with networks := w.networks.push (some n) })

/-- The network of this number, unless it is gone. -/
def network? (w : Workspace α) (i : Nat) : Option (Network α) := w.networks.getD i none

/-- The network of this number. -/
def network (i : Nat) : Op (Workspace α) (Network α) := Op.read fun w =>
  match w.network? i with
  | some n => .ok n
  | none => .error (.dangling (.network i))

/-- An operation on the free circuit. -/
def onCircuit {β : Type} (op : Edit α β) : Op (Workspace α) β := fun w =>
  match op w.circuit with
  | .ok b circuit => .ok b { w with circuit }
  | .error e circuit => .error e { w with circuit }

/-- An operation on a network. -/
def onNetwork {β : Type} (i : Nat) (op : Op (Network α) β) : Op (Workspace α) β := fun w =>
  match w.network? i with
  | none => .error (.dangling (.network i)) w
  | some n =>
    match op n with
    | .ok b n => .ok b { w with networks := w.networks.setIfInBounds i (some n) }
    | .error e n => .error e { w with networks := w.networks.setIfInBounds i (some n) }

/-- Replaces the free circuit by a new one. -/
def newCircuit (settings : Settings α) : Op (Workspace α) Unit := do
  let identity ← freshIdentity
  modify fun w => { w with circuit := .empty identity settings }

/-- Replaces the free circuit by a copy of it. -/
def copyCircuit : Op (Workspace α) Unit := do
  let identity ← freshIdentity
  modify fun w => { w with circuit := w.circuit.copy identity }

/-- Makes a network of the free circuit. A new circuit with the same settings takes its place, even
if no network can be made. -/
def form (layers : Layers) : Op (Workspace α) Nat := do
  let circuit := (← get).circuit
  newCircuit circuit.settings
  let n ← Op.read fun _ => Network.create circuit layers
  keep n

/-- Copies a network. -/
def copyNetwork (i : Nat) : Op (Workspace α) Nat := do
  let n ← network i
  let identity ← freshIdentity
  keep (n.copy identity)

/-- Copies a network by way of a snapshot. -/
def duplicate (i : Nat) : Op (Workspace α) Nat := do
  let identity ← freshIdentity
  keep (← onNetwork i (Network.duplicate identity))

/-- Makes a network from a snapshot. -/
def importSnapshot (s : Snapshot α) (settings : Settings α) : Op (Workspace α) Nat := do
  let identity ← freshIdentity
  keep (← Op.read fun _ => s.toNetwork identity settings)

/-- Takes a network apart: its circuit becomes the free circuit and its layer set is kept. -/
def takeApart (i : Nat) : Op (Workspace α) Unit := do
  let (circuit, layers) ← onNetwork i Network.takeApart
  modify fun w => { w with
    circuit
    networks := w.networks.setIfInBounds i none
    parts := some layers }

/-- Makes a network from the text of a snapshot. -/
def importJson (text : String) (settings : Settings Double) : Op (Workspace Double) Nat := do
  let s ← Op.read fun _ => Snapshot.read text
  importSnapshot s settings

end Workspace

end GatedNetwork
