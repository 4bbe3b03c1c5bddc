import GatedNetwork.Proofs.Circuit.Reachable

/-!
# Requests to a copy

A copy differs from its original in the identity alone, and the identity matters to nothing but the
check that a layer set is not bound to another circuit. So a request to a copy is answered like one to
the original, and makes of the copy a copy of what it makes of the original.

* lemmas `_copy`: each action of a circuit on a copy
* `alike_perform` — every request, unless it wires to a layer set bound to one of the two
-/

namespace GatedNetwork

variable {α : Type} [Arithmetic α]

namespace Circuit

variable (c : Circuit α) (i : Identity)

/-! ## Actions on a copy -/

omit [Arithmetic α] in
/-- What can be done before copying as well as after it in one step, can be so in many. -/
theorem foldl_copy {β : Type} {f : Circuit α → β → Circuit α}
    (hf : ∀ d b, f (d.copy i) b = (f d b).copy i) (bs : List β) :
    bs.foldl f (c.copy i) = (bs.foldl f c).copy i := by
  induction bs generalizing c with
  | nil => rfl
  | cons b bs ih => rw [List.foldl_cons, hf, ih, List.foldl_cons]

theorem step_copy (u : NeuronId) : (c.copy i).step u = (c.step u).copy i :=
  foldl_copy ((c.fire u).retrace u) i (fun _ _ => rfl) _

/-- A neuron of a copy is activated as the one it was copied from. -/
theorem activateNeuron_copy (u : NeuronId) (input : Option α) :
    (c.copy i).activateNeuron u input = (c.activateNeuron u input).copy i := by
  cases input with
  | some x => rfl
  | none => exact step_copy c i u

/-- A neuron of a copy is trained as the one it was copied from. -/
theorem propagateNeuron_copy (u : NeuronId) (rate target : Option α) :
    (c.copy i).propagateNeuron u rate target = (c.propagateNeuron u rate target).copy i := by
  have hassign : (c.copy i).assignError u target = (c.assignError u target).copy i := by
    cases target <;> rfl
  have hcorrect : ∀ (d : Circuit α) (x : α),
      (d.copy i).correctWeights u x = (d.correctWeights u x).copy i :=
    fun d x => foldl_copy d i (fun _ _ => rfl) _
  simp only [propagateNeuron, hassign, hcorrect]
  rfl

theorem resetNeuron_copy (u : NeuronId) :
    (c.copy i).resetNeuron u = (c.resetNeuron u).copy i := by
  have hclear : (c.copy i).clearNeuron u = (c.clearNeuron u).copy i := rfl
  have hincident : ((c.clearNeuron u).copy i).incident u = (c.clearNeuron u).incident u := rfl
  simp only [resetNeuron, hclear, hincident,
    foldl_copy (c.clearNeuron u) i (f := redrawWeight) fun _ _ => rfl]
  generalize ((c.clearNeuron u).incident u).toList.foldl redrawWeight (c.clearNeuron u) = d
  rfl

omit [Arithmetic α] in
/-- Numbers are written back to a copy as to the original. -/
theorem store_copy (s : Symbol) (x : α) : (c.copy i).store x s = (c.store x s).copy i := by
  cases s <;> rfl

omit [Arithmetic α] in
theorem storeAll_copy (values : List (Symbol × α)) :
    (c.copy i).storeAll values = (c.storeAll values).copy i :=
  foldl_copy c i (fun d v => store_copy d i v.1 v.2) values

/-- Connecting in a copy answers the same link. -/
theorem connect_copy (a b : NeuronId) (weight : Option α) :
    (c.copy i).connect a b weight =
      ((c.connect a b weight).1, (c.connect a b weight).2.copy i) := by
  have hlink : (c.copy i).linkBetween? a b = c.linkBetween? a b := rfl
  unfold connect
  rw [hlink]
  split
  · rfl
  · split <;> rfl

theorem connectAll_copy (weight : Option α) (pairs : List (NeuronId × NeuronId)) :
    (c.copy i).connectAll weight pairs =
      ((c.connectAll weight pairs).1, (c.connectAll weight pairs).2.copy i) := by
  induction pairs generalizing c with
  | nil => rfl
  | cons p pairs ih => simp only [connectAll, connect_copy, ih]

theorem gateLink_copy (u : NeuronId) (l : LinkId) :
    (c.copy i).gateLink u l = (c.gateLink u l).copy i := by
  have hlink : (c.copy i).link l = c.link l := rfl
  unfold gateLink
  rw [hlink]
  split
  · rfl
  · split <;> rfl

theorem gateAll_copy (plan : List (NeuronId × LinkId)) :
    (c.copy i).gateAll plan = (c.gateAll plan).copy i :=
  foldl_copy c i (fun d q => gateLink_copy d i q.1 q.2) plan

theorem addNeurons_copy (size : Nat) :
    (c.copy i).addNeurons size = ((c.addNeurons size).1, (c.addNeurons size).2.copy i) := by
  induction size generalizing c with
  | zero => rfl
  | succ size ih =>
    have hadd : (c.copy i).addNeuron = (c.addNeuron.1, c.addNeuron.2.copy i) := rfl
    simp only [addNeurons, hadd, ih]

/-- Projecting in a copy answers the same projection. -/
theorem performProjection_copy (weight : Option α) (plan : ProjectionPlan) :
    (c.copy i).performProjection weight plan =
      ((c.performProjection weight plan).1, (c.performProjection weight plan).2.copy i) := by
  cases plan with
  | existing p => rfl
  | new source target topology =>
    have hpairs : topology.pairs ((c.copy i).members source) ((c.copy i).members target) =
      topology.pairs (c.members source) (c.members target) := rfl
    simp only [performProjection, hpairs, connectAll_copy]
    rfl

theorem activateAll_copy (us : List (NeuronId × Option α)) :
    (c.copy i).activateAll us = ((c.activateAll us).1, (c.activateAll us).2.copy i) := by
  induction us generalizing c with
  | nil => rfl
  | cons p us ih =>
    simp only [activateAll, activateNeuron_copy, ih]
    rfl

theorem propagateAll_copy (rate : Option α) (us : List (NeuronId × Option α)) :
    (c.copy i).propagateAll rate us = (c.propagateAll rate us).copy i :=
  foldl_copy c i (fun d p => propagateNeuron_copy d i p.1 rate p.2) us

omit [Arithmetic α] in
theorem configureAll_copy (transfer : Option Transfer) (bias : Option α) (us : List NeuronId) :
    (c.copy i).configureAll transfer bias us = (c.configureAll transfer bias us).copy i :=
  foldl_copy c i (fun _ _ => rfl) us

theorem clearAll_copy (us : List NeuronId) :
    (c.copy i).clearAll us = (c.clearAll us).copy i :=
  foldl_copy c i (fun _ _ => rfl) us

theorem resetAll_copy (us : List NeuronId) :
    (c.copy i).resetAll us = (c.resetAll us).copy i :=
  foldl_copy c i (fun d u => resetNeuron_copy d i u) us

end Circuit

/-! ## Layer sets that are bound -/

/-- A destination that is the same for two identities: no layer set bound to one of them only. -/
def Destination.Indifferent (i j : Identity) : Destination → Prop
  | .ensemble _ => True
  | .layers owned => owned.circuit = some i ↔ owned.circuit = some j

namespace Circuit

/-- A request that does not tell two identities apart. -/
def Request.Indifferent (i j : Identity) : Request α → Prop
  | .project _ destination _ _ => destination.Indifferent i j
  | _ => True

omit [Arithmetic α] in
theorem Request.indifferent_self (r : Request α) (i : Identity) : r.Indifferent i i := by
  cases r with
  | project source destination topology weight =>
    cases destination with
    | ensemble e => trivial
    | layers owned => exact Iff.rfl
  | _ => trivial

/-- The first circuit is a copy of the second. -/
def IsCopy (i : Identity) (d c : Circuit α) : Prop := d = c.copy i

variable {c : Circuit α} {i : Identity}

omit [Arithmetic α] in
/-- An indifferent destination is entered at the same ensemble of a copy. -/
theorem entrance_copy {destination : Destination} (h : destination.Indifferent c.identity i) :
    (c.copy i).entrance destination = c.entrance destination := by
  cases destination with
  | ensemble e => rfl
  | layers owned =>
    cases howner : owned.circuit with
    | none => simp only [entrance, howner]
    | some owner =>
      simp only [Destination.Indifferent, howner, Option.some.injEq] at h
      have hsame : (owner == (c.copy i).identity) = (owner == c.identity) := by
        rw [Bool.eq_iff_iff, beq_iff_eq, beq_iff_eq, h]
        rfl
      simp only [entrance, howner, hsame]

/-- A copy plans the same projection. -/
theorem planProjection_copy {destination : Destination} (source : EnsembleId)
    (topology : Option Topology) (h : destination.Indifferent c.identity i) :
    (c.copy i).planProjection source destination topology =
      c.planProjection source destination topology := by
  have hresolve : (c.copy i).resolve destination = c.resolve destination := by
    unfold resolve
    rw [entrance_copy h]
    rfl
  unfold planProjection
  rw [hresolve]
  rfl

/-! ## Operations on a copy -/

omit [Arithmetic α] in
theorem alike_read {β : Type} {f : Circuit α → Except Error β} (h : f (c.copy i) = f c) :
    Op.Alike (IsCopy i) (Op.read f (c.copy i)) (Op.read f c) :=
  .read rfl h

theorem alike_addEnsemble (size : Nat) :
    Op.Alike (IsCopy i) (Edit.addEnsemble size (c.copy i)) (Edit.addEnsemble size c) := by
  have hadd : (c.copy i).addEnsemble size =
      ((c.addEnsemble size).1, (c.addEnsemble size).2.copy i) := by
    simp only [addEnsemble, addNeurons_copy]
    rfl
  show Op.Alike _ (.ok ((c.copy i).addEnsemble size).1 ((c.copy i).addEnsemble size).2)
    (.ok (c.addEnsemble size).1 (c.addEnsemble size).2)
  rw [hadd]
  exact .ok _ rfl

/-- Projections onto an indifferent destination are alike in a copy. -/
theorem alike_project {destination : Destination} (h : destination.Indifferent c.identity i)
    (source : EnsembleId) (topology : Option Topology) (weight : Option α) :
    Op.Alike (IsCopy i) (Edit.project source destination topology weight (c.copy i))
      (Edit.project source destination topology weight c) := by
  refine Op.Alike.checked rfl (planProjection_copy source topology h) fun plan _ => ?_
  rw [performProjection_copy]
  exact ⟨rfl, rfl⟩

theorem alike_gate (gater : EnsembleId) (projection : ProjectionId) (side : GateSide) :
    Op.Alike (IsCopy i) (Edit.gate gater projection side (c.copy i))
      (Edit.gate gater projection side c) := by
  refine Op.Alike.checked rfl rfl fun plan _ => ⟨rfl, ?_⟩
  rw [gateAll_copy]
  rfl

/-- Activating an ensemble of a copy gives the same answers. -/
theorem alike_activateEnsemble (e : EnsembleId) (inputs : Option (List α)) :
    Op.Alike (IsCopy i) (Edit.activateEnsemble e inputs (c.copy i))
      (Edit.activateEnsemble e inputs c) := by
  refine Op.Alike.checked rfl rfl fun _ _ => ?_
  rw [activateAll_copy]
  exact ⟨rfl, rfl⟩

theorem alike_propagateEnsemble (e : EnsembleId) (rate : Option α) (targets : Option (List α)) :
    Op.Alike (IsCopy i) (Edit.propagateEnsemble e rate targets (c.copy i))
      (Edit.propagateEnsemble e rate targets c) :=
  Op.Alike.checked rfl rfl fun _ _ => ⟨rfl, propagateAll_copy c i rate _⟩

theorem alike_clearEnsemble (e : EnsembleId) :
    Op.Alike (IsCopy i) (Edit.clearEnsemble e (c.copy i)) (Edit.clearEnsemble e c) :=
  Op.Alike.checked rfl rfl fun _ _ => ⟨rfl, clearAll_copy c i _⟩

theorem alike_resetEnsemble (e : EnsembleId) :
    Op.Alike (IsCopy i) (Edit.resetEnsemble e (c.copy i)) (Edit.resetEnsemble e c) :=
  Op.Alike.checked rfl rfl fun _ _ => ⟨rfl, resetAll_copy c i _⟩

/-- A request is answered by a copy as by the original, and leaves a copy. -/
theorem alike_perform {r : Request α} (hr : r.Indifferent c.identity i) :
    Op.Alike (IsCopy i) (r.perform (c.copy i)) (r.perform c) := by
  cases r <;> refine Op.Alike.map ?_ _
  case addNeuron => exact .ok _ rfl
  case addEnsemble size => exact alike_addEnsemble size
  case wrap us => exact .ok _ rfl
  case connect a b weight =>
    refine Op.Alike.checked rfl rfl fun _ _ => ?_
    rw [connect_copy]
    exact ⟨rfl, rfl⟩
  case connectGiven source target weight =>
    refine Op.Alike.checked rfl rfl fun _ _ => ?_
    rw [connect_copy]
    exact ⟨rfl, rfl⟩
  case gateLink u l =>
    exact Op.Alike.checked rfl rfl fun _ _ => ⟨rfl, gateLink_copy c i u l⟩
  case activateNeuron u input =>
    refine Op.Alike.checked rfl rfl fun _ _ => ?_
    rw [activateNeuron_copy]
    exact ⟨rfl, rfl⟩
  case propagateNeuron u rate target =>
    exact Op.Alike.checked rfl rfl fun _ _ => ⟨rfl, propagateNeuron_copy c i u rate target⟩
  case clearNeuron u => exact Op.Alike.checked rfl rfl fun _ _ => ⟨rfl, rfl⟩
  case resetNeuron u =>
    exact Op.Alike.checked rfl rfl fun _ _ => ⟨rfl, resetNeuron_copy c i u⟩
  case setNumber s x =>
    refine Op.Alike.checked rfl ?_ fun _ _ => ⟨rfl, store_copy c i s x⟩
    cases s <;> rfl
  case setTransfer u t => exact Op.Alike.checked rfl rfl fun _ _ => ⟨rfl, rfl⟩
  case configure e transfer bias =>
    exact Op.Alike.checked rfl rfl fun _ _ => ⟨rfl, configureAll_copy c i transfer bias _⟩
  case project source destination topology weight =>
    exact alike_project hr source topology weight
  case gate gater projection side => exact alike_gate gater projection side
  case activateEnsemble e inputs => exact alike_activateEnsemble e inputs
  case propagateEnsemble e rate targets => exact alike_propagateEnsemble e rate targets
  case clearEnsemble e => exact alike_clearEnsemble e
  case resetEnsemble e => exact alike_resetEnsemble e
  case restore p =>
    exact Op.Alike.checked rfl rfl fun _ _ => ⟨rfl, storeAll_copy c i _⟩

/-! ## The identity stays -/

/-- A circuit is a copy of itself, so requests leave its identity alone. -/
theorem identity_perform (r : Request α) (c : Circuit α) :
    (r.perform.final c).identity = c.identity :=
  congrArg (·.identity) (alike_perform (r.indifferent_self c.identity)).final

theorem identity_connect (c : Circuit α) (a b : NeuronId) (weight : Option α) :
    (c.connect a b weight).2.identity = c.identity :=
  congrArg (·.2.identity) (connect_copy c c.identity a b weight)

theorem identity_gateLink (c : Circuit α) (u : NeuronId) (l : LinkId) :
    (c.gateLink u l).identity = c.identity :=
  congrArg (·.identity) (gateLink_copy c c.identity u l)

/-- No request changes the identity of a circuit. -/
theorem identity_performAll (rs : List (Request α)) (c : Circuit α) :
    (c.performAll rs).identity = c.identity := by
  induction rs generalizing c with
  | nil => rfl
  | cons r rs ih => exact (ih _).trans (identity_perform r c)

end Circuit

end GatedNetwork
