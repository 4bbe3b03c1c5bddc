import GatedNetwork.Proofs.Circuit.Sound
import GatedNetwork.Proofs.Op

/-!
# Requests to a circuit

Everything a caller can ask of a circuit, as data. A request is performed by one of the operations of
the library, and its answer is a value of one type, so that sequences of requests can be compared.

`Circuit.Consistent` is the invariant of all requests: the circuit is sound, and projections list
links that exist. It does not ask ensembles to list neurons that exist, for nothing checks that when
an ensemble is made; `Circuit.Peopled` says it of circuits whose ensembles were wrapped with care.
-/

namespace GatedNetwork

variable {α : Type} [Arithmetic α]

namespace Topology

variable {here there : List NeuronId} {p : NeuronId × NeuronId}

theorem mem_pairs_allToAll : p ∈ allToAll.pairs here there ↔ p.1 ∈ here ∧ p.2 ∈ there := by
  simp only [pairs, List.mem_flatMap, List.mem_map]
  constructor
  · rintro ⟨a, ha, b, hb, rfl⟩
    exact ⟨ha, hb⟩
  · rintro ⟨ha, hb⟩
    exact ⟨p.1, ha, p.2, hb, rfl⟩

/-- Whatever the topology is, pairs go from one list to the other. -/
theorem mem_of_mem_pairs {t : Topology} (h : p ∈ t.pairs here there) :
    p.1 ∈ here ∧ p.2 ∈ there := by
  cases t with
  | allToAll => exact mem_pairs_allToAll.mp h
  | oneToOne => exact List.of_mem_zip h
  | allToElse => exact mem_pairs_allToAll.mp (List.mem_filter.mp h).1

end Topology

namespace Symbol

/-- The record that holds the number of a symbol. The places of programs have none. -/
def record? : Symbol → Option Reference
  | neuron u _ => some (.neuron u)
  | weight l => some (.link l)
  | gain l => some (.link l)
  | eligibility u _ => some (.neuron u)
  | extended u _ _ => some (.neuron u)
  | rate => none
  | target _ => none
  | influence _ _ => none
  | scratch _ => none

end Symbol

namespace Circuit

/-- Something to ask of a circuit. -/
inductive Request (α : Type) where
  | addNeuron
  | connect (a b : NeuronId) (weight : Option α)
  | connectGiven (source target : Option NeuronId) (weight : Option α)
  | gateLink (u : NeuronId) (l : LinkId)
  | activateNeuron (u : NeuronId) (input : Option α)
  | propagateNeuron (u : NeuronId) (rate target : Option α)
  | clearNeuron (u : NeuronId)
  | resetNeuron (u : NeuronId)
  /-- Replaces one number of a record: of a neuron, of a link or of a trace. -/
  | setNumber (s : Symbol) (x : α)
  | setTransfer (u : NeuronId) (t : Transfer)
  | addEnsemble (size : Nat)
  | wrap (us : List NeuronId)
  | configure (e : EnsembleId) (transfer : Option Transfer) (bias : Option α)
  | project (source : EnsembleId) (destination : Destination) (topology : Option Topology)
      (weight : Option α)
  | gate (gater : EnsembleId) (projection : ProjectionId) (side : GateSide)
  | activateEnsemble (e : EnsembleId) (inputs : Option (List α))
  | propagateEnsemble (e : EnsembleId) (rate : Option α) (targets : Option (List α))
  | clearEnsemble (e : EnsembleId)
  | resetEnsemble (e : EnsembleId)
  /-- Writes the memory of a program back. -/
  | restore (p : Program α)

/-- What a circuit answers to a request. -/
inductive Answer (α : Type) where
  | done
  /-- The id of a neuron, a link, an ensemble or a projection. -/
  | id (n : Nat)
  | number (x : α)
  | numbers (xs : List α)
deriving DecidableEq

namespace Request

/-- Replaces one number of a record. -/
def write (s : Symbol) (x : α) : Edit α Unit :=
  Op.checked (fun c => require (c.houses s) (.dangling (s.record?.getD (.slot 0))))
    fun _ c => ((), c.store x s)

/-- Performs a request. -/
def perform : Request α → Edit α (Answer α)
  | addNeuron => .id <$> Edit.addNeuron
  | connect a b weight => .id <$> Edit.connect a b weight
  | connectGiven source target weight => .id <$> Edit.connectGiven source target weight
  | gateLink u l => (fun _ => .done) <$> Edit.gateLink u l
  | activateNeuron u input => .number <$> Edit.activateNeuron u input
  | propagateNeuron u rate target => (fun _ => .done) <$> Edit.propagateNeuron u rate target
  | clearNeuron u => (fun _ => .done) <$> Edit.clearNeuron u
  | resetNeuron u => (fun _ => .done) <$> Edit.resetNeuron u
  | setNumber s x => (fun _ => .done) <$> write s x
  | setTransfer u t => (fun _ => .done) <$> Edit.modifyNeuron u fun n => { n with transfer := t }
  | addEnsemble size => .id <$> Edit.addEnsemble size
  | wrap us => .id <$> Edit.wrap us
  | configure e transfer bias => (fun _ => .done) <$> Edit.configure e transfer bias
  | project source destination topology weight =>
    .id <$> Edit.project source destination topology weight
  | gate gater projection side => (fun _ => .done) <$> Edit.gate gater projection side
  | activateEnsemble e inputs => .numbers <$> Edit.activateEnsemble e inputs
  | propagateEnsemble e rate targets =>
    (fun _ => .done) <$> Edit.propagateEnsemble e rate targets
  | clearEnsemble e => (fun _ => .done) <$> Edit.clearEnsemble e
  | resetEnsemble e => (fun _ => .done) <$> Edit.resetEnsemble e
  | restore p => (fun _ => .done) <$> p.restoreInto

end Request

/-- The circuit after several requests, whether they succeed or fail. -/
def performAll (c : Circuit α) (rs : List (Request α)) : Circuit α :=
  rs.foldl (fun c r => r.perform.final c) c

namespace Request

/-- Does a request change numbers and transfer functions only? -/
def keepsWiring : Request α → Bool
  | addNeuron | connect _ _ _ | connectGiven _ _ _ | gateLink _ _ | addEnsemble _ | wrap _ => false
  | project _ _ _ _ | gate _ _ _ => false
  | _ => true

/-- A request that wraps neurons is grounded in a circuit that has them. -/
def Grounded (c : Circuit α) : Request α → Prop
  | wrap us => ∀ u ∈ us, u < c.neurons.size
  | _ => True

end Request

/-- A circuit whose indexes mirror its links and whose projections list links that exist. -/
structure Consistent (c : Circuit α) : Prop where
  sound : c.Sound
  listed : ∀ p ∈ c.projections, ∀ l ∈ p.links, l < c.links.size

/-- A circuit whose ensembles list neurons that exist. -/
def Peopled (c : Circuit α) : Prop := ∀ e ∈ c.ensembles, ∀ u ∈ e.members, u < c.neurons.size

/-! ## What the checks say -/

variable {c : Circuit α} {u : NeuronId} {l : LinkId}

omit [Arithmetic α] in
theorem requireNeuron_eq_ok_iff {x : Unit} :
    c.requireNeuron u = .ok x ↔ u < c.neurons.size := by
  rw [requireNeuron, require_eq_ok_iff, hasNeuron_iff]

omit [Arithmetic α] in
theorem requireLink_eq_ok_iff {x : Unit} : c.requireLink l = .ok x ↔ l < c.links.size := by
  rw [requireLink, require_eq_ok_iff, hasLink_iff]

omit [Arithmetic α] in
theorem requireNeurons_eq_ok_iff {us : List NeuronId} {x : Unit} :
    c.requireNeurons us = .ok x ↔ ∀ u ∈ us, u < c.neurons.size := by
  rw [requireNeurons, forM_eq_ok_iff]
  simp only [requireNeuron_eq_ok_iff]

/-- What a request for a projection amounts to once its ends, its topology and their sizes are
settled. -/
def planBetween (c : Circuit α) (source target : EnsembleId) (topology : Topology) :
    Except Error ProjectionPlan :=
  match c.findProjection? source target (·.topology == topology) with
  | some p => return .existing p
  | none => do
    c.requireSurvey (c.members source) (c.members target)
    let covering :=
      if covers (c.wiring? (c.members source) (c.members target)) topology then
        c.findProjection? source target fun _ => true
      else none
    match covering with
    | some p => return .existing p
    | none =>
      let pairs := topology.pairs (c.members source) (c.members target)
      c.requireNeurons (pairs.map (·.1))
      c.requireNeurons (pairs.map (·.2))
      return .new source target topology

/-- What is asked for by a request for a projection: the ensembles at its ends, and the topology that is
given or follows from them, for which the ensembles have the right sizes. -/
structure Asks (c : Circuit α) (source : EnsembleId) (destination : Destination)
    (given : Option Topology) (target : EnsembleId) (topology : Topology) : Prop where
  hasSource : c.hasEnsemble source = true
  resolved : c.resolve destination = .ok target
  chosen : topology = given.getD (if source = target then .oneToOne else .allToAll)
  sizes : topology = .oneToOne → (c.members source).length = (c.members target).length

/-- A request for a projection is decided once it is clear what it asks for. -/
theorem planProjection_eq_ok_iff {source : EnsembleId} {destination : Destination}
    {given : Option Topology} {plan : ProjectionPlan} :
    c.planProjection source destination given = .ok plan ↔
      ∃ target topology, c.Asks source destination given target topology ∧
        c.planBetween source target topology = .ok plan := by
  rw [planProjection, bind_eq_ok_iff]
  simp only [require_eq_ok_iff, bind_eq_ok_iff]
  constructor
  · rintro ⟨_, hs, target, ht, h⟩
    generalize hchosen : given.getD (if source = target then .oneToOne else .allToAll) = t at h
    split at h
    · obtain ⟨_, hlen, h⟩ := bind_eq_ok_iff.mp h
      exact ⟨target, t, ⟨hs, ht, hchosen.symm, fun _ => checkLength_eq_ok_iff.mp hlen⟩, h⟩
    · next hne => exact ⟨target, t, ⟨hs, ht, hchosen.symm, fun hone => absurd hone hne⟩, h⟩
  · rintro ⟨target, t, ⟨hs, ht, hchosen, hlen⟩, h⟩
    refine ⟨(), hs, target, ht, ?_⟩
    rw [← hchosen]
    split
    · next hone => exact bind_eq_ok_iff.mpr ⟨(), checkLength_eq_ok_iff.mpr (hlen hone), h⟩
    · exact h

/-- A decided request for a projection names a source and a target of the circuit. -/
theorem planProjection_eq_ok {source : EnsembleId} {destination : Destination}
    {topology : Option Topology} {plan : ProjectionPlan}
    (h : c.planProjection source destination topology = .ok plan) :
    c.hasEnsemble source = true ∧ ∃ target, c.resolve destination = .ok target ∧
      c.planBetween source target
        (topology.getD (if source = target then .oneToOne else .allToAll)) = .ok plan := by
  obtain ⟨target, _, ⟨hs, ht, rfl, -⟩, h⟩ := planProjection_eq_ok_iff.mp h
  exact ⟨hs, target, ht, h⟩

/-- A plan for a new projection joins neurons that exist. -/
theorem pairs_lt_of_planBetween {source target s t : EnsembleId} {topology top : Topology}
    (h : c.planBetween source target topology = .ok (.new s t top)) :
    s = source ∧ t = target ∧
      ∀ p ∈ top.pairs (c.members s) (c.members t), p.1 < c.neurons.size ∧ p.2 < c.neurons.size := by
  unfold planBetween at h
  split at h
  · cases h
  · obtain ⟨_, -, h⟩ := bind_eq_ok_iff.mp h
    simp only at h
    split at h
    · cases h
    · obtain ⟨_, hs, h⟩ := bind_eq_ok_iff.mp h
      obtain ⟨_, ht, h⟩ := bind_eq_ok_iff.mp h
      cases h
      rw [requireNeurons_eq_ok_iff] at hs ht
      exact ⟨rfl, rfl,
        fun p hp => ⟨hs _ (List.mem_map_of_mem hp), ht _ (List.mem_map_of_mem hp)⟩⟩

/-! ## Plans to gate -/

/-- The place of a link of a projection, on the gated side or in the list of links. -/
def GatePlace (c : Circuit α) (p : Projection) (side : GateSide) (l : LinkId) (i : Nat) : Prop :=
  match side with
  | .targets => (c.members p.target)[i]? = some (c.link l).target
  | .sources => (c.members p.source)[i]? = some (c.link l).source
  | .links => p.links[i]? = some l

theorem mem_pairedLinks_iff {members gaters : List NeuronId} {links : List LinkId}
    {endpoint : LinkId → NeuronId} {q : NeuronId × LinkId} :
    (q ∈ (members.zip gaters).flatMap fun e =>
        (links.filter fun l => endpoint l == e.1).map fun l => (e.2, l)) ↔
      q.2 ∈ links ∧ ∃ i : Nat, members[i]? = some (endpoint q.2) ∧ gaters[i]? = some q.1 := by
  simp only [List.mem_flatMap, List.mem_map, List.mem_filter, beq_iff_eq]
  constructor
  · rintro ⟨⟨m, u⟩, hzip, l, ⟨hl, hm⟩, rfl⟩
    obtain ⟨i, hi⟩ := List.mem_iff_getElem?.mp hzip
    obtain ⟨hmember, hgater⟩ := List.getElem?_zip_eq_some.mp hi
    exact ⟨hl, i, hm ▸ hmember, hgater⟩
  · rintro ⟨hl, i, hmember, hgater⟩
    refine ⟨(endpoint q.2, q.1), ?_, q.2, ⟨hl, rfl⟩, rfl⟩
    exact List.mem_iff_getElem?.mpr ⟨i, List.getElem?_zip_eq_some.mpr ⟨hmember, hgater⟩⟩

/-- The plan holds every link of the projection, with the gater at its place. -/
theorem mem_gatePlan_iff {gaters : List NeuronId} {p : Projection} {side : GateSide}
    {plan : List (NeuronId × LinkId)} (h : c.gatePlan gaters p side = .ok plan)
    {q : NeuronId × LinkId} :
    q ∈ plan ↔ q.2 ∈ p.links ∧ ∃ i, c.GatePlace p side q.2 i ∧ gaters[i]? = some q.1 := by
  unfold gatePlan at h
  cases side with
  | targets =>
    obtain ⟨_, -, h⟩ := bind_eq_ok_iff.mp h
    cases h
    exact mem_pairedLinks_iff
  | sources =>
    obtain ⟨_, -, h⟩ := bind_eq_ok_iff.mp h
    cases h
    exact mem_pairedLinks_iff
  | links =>
    obtain ⟨_, -, h⟩ := bind_eq_ok_iff.mp h
    cases h
    simp only [GatePlace]
    rw [List.mem_iff_getElem?]
    simp only [List.getElem?_zip_eq_some]
    constructor
    · rintro ⟨i, hgater, hlink⟩
      exact ⟨List.mem_of_getElem? hlink, i, hlink, hgater⟩
    · rintro ⟨-, i, hlink, hgater⟩
      exact ⟨i, hgater, hlink⟩

/-- There are as many gaters as places. -/
theorem exists_gater {gaters : List NeuronId} {p : Projection} {side : GateSide}
    {plan : List (NeuronId × LinkId)} (h : c.gatePlan gaters p side = .ok plan) {i : Nat}
    (hi : c.GatePlace p side l i) : ∃ u, gaters[i]? = some u := by
  have hlt : i < gaters.length := by
    unfold gatePlan at h
    cases side with
    | targets =>
      obtain ⟨_, hlen, -⟩ := bind_eq_ok_iff.mp h
      rw [← eq_of_beq (require_eq_ok_iff.mp hlen)]
      exact (List.getElem?_eq_some_iff.mp hi).1
    | sources =>
      obtain ⟨_, hlen, -⟩ := bind_eq_ok_iff.mp h
      rw [← eq_of_beq (require_eq_ok_iff.mp hlen)]
      exact (List.getElem?_eq_some_iff.mp hi).1
    | links =>
      obtain ⟨_, hlen, -⟩ := bind_eq_ok_iff.mp h
      rw [← eq_of_beq (require_eq_ok_iff.mp hlen)]
      exact (List.getElem?_eq_some_iff.mp hi).1
  exact ⟨gaters[i], List.getElem?_eq_getElem hlt⟩

/-- A plan to gate a projection pairs gaters of the ensemble with links of the projection. -/
theorem mem_of_gatePlan {gaters : List NeuronId} {p : Projection} {side : GateSide}
    {plan : List (NeuronId × LinkId)} (h : c.gatePlan gaters p side = .ok plan) :
    ∀ q ∈ plan, q.1 ∈ gaters ∧ q.2 ∈ p.links := by
  intro q hq
  obtain ⟨hl, _, -, hgater⟩ := (mem_gatePlan_iff h).mp hq
  exact ⟨List.mem_of_getElem? hgater, hl⟩

/-- What a request to gate a projection has found good once it is decided. -/
theorem planGating_eq_ok {gater : EnsembleId} {p : ProjectionId} {side : GateSide}
    {plan : List (NeuronId × LinkId)} (h : c.planGating gater p side = .ok plan) :
    c.hasEnsemble gater = true ∧ c.hasProjection p = true ∧
      c.gatePlan (c.members gater) (c.projection p) side = .ok plan ∧
      ∀ q ∈ plan, q.1 < c.neurons.size := by
  unfold planGating at h
  obtain ⟨_, hgater, h⟩ := bind_eq_ok_iff.mp h
  obtain ⟨_, hp, h⟩ := bind_eq_ok_iff.mp h
  obtain ⟨plan', hgate, h⟩ := bind_eq_ok_iff.mp h
  obtain ⟨_, hneurons, h⟩ := bind_eq_ok_iff.mp h
  cases h
  rw [requireNeurons_eq_ok_iff] at hneurons
  exact ⟨require_eq_ok_iff.mp hgater, require_eq_ok_iff.mp hp, hgate,
    fun q hq => hneurons _ (List.mem_map_of_mem hq)⟩

/-! ## Requests that keep the wiring -/

theorem sameWiring_perform (c : Circuit α) {r : Request α} (hr : r.keepsWiring = true) :
    SameWiring c (r.perform.final c) := by
  cases r <;> simp only [Request.keepsWiring, Bool.false_eq_true] at hr <;>
    simp only [Request.perform, Op.final_map] <;> refine Op.checked_final (.refl c) fun _ _ => ?_
  case activateNeuron => exact sameWiring_activateNeuron c _ _
  case propagateNeuron => exact sameWiring_propagateNeuron c _ _ _
  case clearNeuron => exact sameWiring_clearNeuron c _
  case resetNeuron => exact sameWiring_resetNeuron c _
  case setNumber => exact sameWiring_store c _ _
  case setTransfer => exact sameWiring_modifyNeuron c _ fun _ => rfl
  case configure => exact sameWiring_configureAll c _ _ _
  case activateEnsemble => exact sameWiring_activateAll _ c
  case propagateEnsemble => exact sameWiring_propagateAll c _ _
  case clearEnsemble => exact sameWiring_clearAll c _
  case resetEnsemble => exact sameWiring_resetAll c _
  case restore => exact sameWiring_storeAll c _

end Circuit

end GatedNetwork
