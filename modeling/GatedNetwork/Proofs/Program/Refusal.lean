import GatedNetwork.Proofs.Circuit.Planning
import GatedNetwork.Proofs.Circuit.Reachable
import GatedNetwork.Proofs.Network.Passes
import GatedNetwork.Proofs.Program.Intact

/-!
# Requests that are refused

A request to a circuit or to a program is refused for what can be seen before anything is done: an id
that names nothing, a layer set of another circuit, or numbers of neurons, links or values that differ.
Nothing else refuses it, and one that is refused leaves everything as it was, down to the generator of
the circuit and the memory of the program.

* `Op.Refuses` — when an operation is refused, and that it does nothing then
* `Circuit.Guarded`, `Program.Guarded` — the reasons, request by request
* `Circuit.guarded_of_reachable` — they hold of every circuit within reach and of all programs that are
  compiled from it, whatever their memory holds
-/

namespace GatedNetwork

namespace Op

variable {σ β π : Type} {s : σ} {P : Prop}

/-- The operation is refused in this state exactly if `P` holds, and then it leaves the state as it
was. -/
structure Refuses (op : Op σ β) (s : σ) (P : Prop) : Prop where
  refused_iff : (∃ e s', op s = .error e s') ↔ P
  unchanged : ∀ e s', op s = .error e s' → s' = s

/-- A checked operation is refused exactly if its check finds no plan. -/
theorem refuses_checked {check : σ → Except Error π} {act : π → σ → β × σ}
    (h : (∃ plan, check s = .ok plan) ↔ ¬ P) : (checked check act).Refuses s P := by
  cases hc : check s with
  | ok plan =>
    have hP : ¬ P := h.mp ⟨plan, hc⟩
    have hrun : checked check act s = .ok (act plan s).1 (act plan s).2 := checked_ok hc
    refine ⟨⟨?_, fun hp => absurd hp hP⟩, ?_⟩
    · rintro ⟨e, s', he⟩
      rw [hrun] at he
      cases he
    · intro e s' he
      rw [hrun] at he
      cases he
  | error e =>
    have hP : P := by
      by_contra hP
      obtain ⟨plan, hplan⟩ := h.mpr hP
      rw [hc] at hplan
      cases hplan
    have hrun : checked check act s = .error e s := checked_error hc
    refine ⟨⟨fun _ => hP, fun _ => ⟨e, s, hrun⟩⟩, ?_⟩
    intro e' s' he
    rw [hrun] at he
    cases he
    rfl

end Op

/-- A check decides alone if nothing behind it fails once it is passed. -/
theorem exists_bind_eq_ok_iff {ε β : Type} {x : Except ε Unit} {f : Unit → Except ε β}
    (h : x = .ok () → ∃ b, f () = .ok b) : (∃ b, (x >>= f) = .ok b) ↔ x = .ok () := by
  constructor
  · rintro ⟨_, hb⟩
    obtain ⟨_, hx, -⟩ := bind_eq_ok_iff.mp hb
    exact hx
  · intro hx
    obtain ⟨b, hb⟩ := h hx
    exact ⟨b, bind_eq_ok_iff.mpr ⟨(), hx, hb⟩⟩

namespace Destination

/-- The ensemble a destination names, whichever circuit it is meant for. -/
def named : Destination → EnsembleId
  | .ensemble e => e
  | .layers set => set.input

/-- A layer set that is bound to another circuit. -/
def IsForeign (d : Destination) (circuit : Identity) : Prop :=
  ∃ layers owner, d = .layers layers ∧ layers.circuit = some owner ∧ owner ≠ circuit

end Destination

namespace Circuit

variable {α : Type} [Arithmetic α] {c : Circuit α}

/-! ## Projections -/

omit [Arithmetic α] in
/-- A destination is the ensemble it names, unless it is foreign. -/
theorem entrance_eq_ok_iff {destination : Destination} {e : EnsembleId} :
    c.entrance destination = .ok e ↔
      destination.named = e ∧ ¬ destination.IsForeign c.identity := by
  cases destination with
  | ensemble d => simp [entrance, Destination.named, Destination.IsForeign]
  | layers layers =>
    have hforeign : (Destination.layers layers).IsForeign c.identity ↔
        ∃ owner, layers.circuit = some owner ∧ owner ≠ c.identity := by
      simp [Destination.IsForeign]
    rw [hforeign]
    cases howner : layers.circuit with
    | none => simp [entrance, Destination.named, howner, pure, Except.pure]
    | some owner =>
      rw [entrance, howner]
      simp only [bind_eq_ok_iff, require_eq_ok_iff, beq_iff_eq, Destination.named]
      constructor
      · rintro ⟨_, hown, he⟩
        cases he
        exact ⟨rfl, by simp [hown]⟩
      · rintro ⟨rfl, hown⟩
        exact ⟨(), by simpa using hown, rfl⟩

/-- The topology of a projection that is asked for without one: an ensemble is wired to itself one to
one, and to another one all to all. -/
def topologyFor (given : Option Topology) (source target : EnsembleId) : Topology :=
  given.getD (if source = target then .oneToOne else .allToAll)

/-- Why a request for a projection is refused. -/
def CannotProject (c : Circuit α) (source : EnsembleId) (destination : Destination)
    (given : Option Topology) : Prop :=
  c.hasEnsemble source = false ∨ destination.IsForeign c.identity ∨
    c.hasEnsemble destination.named = false ∨
    (topologyFor given source destination.named = .oneToOne ∧
      (c.members source).length ≠ (c.members destination.named).length)

omit [Arithmetic α] in
/-- What is asked for is clear exactly if nothing speaks against it. -/
theorem exists_asks_iff {source : EnsembleId} {destination : Destination}
    {given : Option Topology} :
    (∃ target topology, c.Asks source destination given target topology) ↔
      ¬ c.CannotProject source destination given := by
  unfold CannotProject topologyFor
  constructor
  · rintro ⟨target, topology, hasks⟩
    obtain ⟨hentrance, htarget⟩ := resolve_eq_ok_iff.mp hasks.resolved
    obtain ⟨rfl, hown⟩ := entrance_eq_ok_iff.mp hentrance
    rintro (hs | hforeign | ht | ⟨hone, hne⟩)
    · exact absurd hasks.hasSource (by simp [hs])
    · exact hown hforeign
    · exact absurd htarget (by simp [ht])
    · exact hne (hasks.sizes (hasks.chosen.trans hone))
  · intro hfine
    simp only [not_or, Bool.not_eq_false] at hfine
    obtain ⟨hs, hown, ht, hsizes⟩ := hfine
    refine ⟨destination.named, _, hs, ?_, rfl, fun hone => ?_⟩
    · exact resolve_eq_ok_iff.mpr ⟨entrance_eq_ok_iff.mpr ⟨rfl, hown⟩, ht⟩
    · by_contra hne
      exact hsizes ⟨hone, hne⟩

theorem exists_planProjection_iff (h : c.Peopled) {source : EnsembleId} {destination : Destination}
    {given : Option Topology} :
    (∃ plan, c.planProjection source destination given = .ok plan) ↔
      ¬ c.CannotProject source destination given := by
  rw [← exists_asks_iff]
  constructor
  · rintro ⟨plan, hplan⟩
    obtain ⟨target, topology, hasks, -⟩ := planProjection_eq_ok_iff.mp hplan
    exact ⟨target, topology, hasks⟩
  · rintro ⟨target, topology, hasks⟩
    -- the neurons are there, so nothing is left to go wrong once it is clear what is asked for
    obtain ⟨plan, hplan⟩ :=
      exists_planBetween (h.members_lt source) (h.members_lt target) topology
    exact ⟨plan, planProjection_eq_ok_iff.mpr ⟨target, topology, hasks, hplan⟩⟩

/-! ## Gates -/

/-- How many gaters a side of a projection takes. -/
def placesFor (c : Circuit α) (p : Projection) : GateSide → Nat
  | .targets => (c.members p.target).length
  | .sources => (c.members p.source).length
  | .links => p.links.length

/-- Why a request for a gate is refused. -/
def CannotGate (c : Circuit α) (gater : EnsembleId) (projection : ProjectionId)
    (side : GateSide) : Prop :=
  c.hasEnsemble gater = false ∨ c.hasProjection projection = false ∨
    (c.members gater).length ≠ c.placesFor (c.projection projection) side

theorem exists_gatePlan_iff {gaters : List NeuronId} {p : Projection} {side : GateSide} :
    (∃ plan, c.gatePlan gaters p side = .ok plan) ↔ gaters.length = c.placesFor p side := by
  unfold gatePlan
  cases side
  all_goals
    simp only [bind_eq_ok_iff, require_eq_ok_iff, beq_iff_eq, placesFor]
    constructor
    · rintro ⟨_, _, hlen, _⟩
      exact hlen.symm
    · exact fun hlen => ⟨_, (), hlen.symm, rfl⟩

theorem exists_planGating_iff (h : c.Peopled) {gater : EnsembleId} {projection : ProjectionId}
    {side : GateSide} :
    (∃ plan, c.planGating gater projection side = .ok plan) ↔
      ¬ c.CannotGate gater projection side := by
  simp only [CannotGate, not_or, Bool.not_eq_false, not_not]
  constructor
  · rintro ⟨plan, hplan⟩
    obtain ⟨hgater, hp, hgate, -⟩ := planGating_eq_ok hplan
    exact ⟨hgater, hp, exists_gatePlan_iff.mp ⟨plan, hgate⟩⟩
  · rintro ⟨hgater, hp, hlen⟩
    obtain ⟨plan, hgate⟩ := exists_gatePlan_iff.mpr hlen
    have hneurons : c.requireNeurons (plan.map (·.1)) = .ok () := by
      refine requireNeurons_eq_ok_iff.mpr fun u hu => ?_
      obtain ⟨q, hq, rfl⟩ := List.mem_map.mp hu
      exact h.members_lt gater _ (mem_of_gatePlan hgate q hq).1
    refine ⟨plan, ?_⟩
    refine bind_eq_ok_iff.mpr ⟨(), require_eq_ok_iff.mpr hgater, ?_⟩
    refine bind_eq_ok_iff.mpr ⟨(), require_eq_ok_iff.mpr hp, ?_⟩
    exact bind_eq_ok_iff.mpr ⟨plan, hgate, bind_eq_ok_iff.mpr ⟨(), hneurons, rfl⟩⟩

/-! ## Runs of ensembles -/

/-- Why a run of an ensemble is refused: it does not exist, or is given another number of values than
it has members. -/
def CannotRun (c : Circuit α) (e : EnsembleId) (values : Option (List α)) : Prop :=
  c.hasEnsemble e = false ∨ ∃ xs, values = some xs ∧ xs.length ≠ (c.members e).length

omit [Arithmetic α] in
theorem requireValues_eq_ok_iff {what : Sized} {e : EnsembleId} {values : Option (List α)} :
    c.requireValues what e values = .ok () ↔ ¬ c.CannotRun e values := by
  unfold requireValues
  rw [bind_eq_ok_iff]
  simp only [requireEnsemble, require_eq_ok_iff, CannotRun, not_or, Bool.not_eq_false]
  cases values with
  | none => simp [pure, Except.pure]
  | some xs => simpa using fun _ => eq_comm

omit [Arithmetic α] in
theorem hasEnsemble_of_requireValues {what : Sized} {e : EnsembleId} {values : Option (List α)}
    (h : c.requireValues what e values = .ok ()) : c.hasEnsemble e = true := by
  have hfine := requireValues_eq_ok_iff.mp h
  simp only [CannotRun, not_or, Bool.not_eq_false] at hfine
  exact hfine.1

/-! ## What a circuit refuses -/

/-- Why a request for a link is refused: it does not name two neurons that exist. -/
def CannotConnect (c : Circuit α) (source target : Option NeuronId) : Prop :=
  ¬ ∃ a b, source = some a ∧ target = some b ∧ a < c.neurons.size ∧ b < c.neurons.size

/-- Each request to a circuit is refused for the reasons given here only, and then changes nothing. -/
structure Guarded (c : Circuit α) : Prop where
  connect : ∀ (source target : Option NeuronId) (weight : Option α),
    (Edit.connectGiven source target weight).Refuses c (c.CannotConnect source target)
  project : ∀ (source : EnsembleId) (destination : Destination) (topology : Option Topology)
    (weight : Option α),
    (Edit.project source destination topology weight).Refuses c
      (c.CannotProject source destination topology)
  gate : ∀ (gater : EnsembleId) (projection : ProjectionId) (side : GateSide),
    (Edit.gate gater projection side).Refuses c (c.CannotGate gater projection side)
  activate : ∀ (e : EnsembleId) (inputs : Option (List α)),
    (Edit.activateEnsemble e inputs).Refuses c (c.CannotRun e inputs)
  propagate : ∀ (e : EnsembleId) (rate : Option α) (targets : Option (List α)),
    (Edit.propagateEnsemble e rate targets).Refuses c (c.CannotRun e targets)

omit [Arithmetic α] in
theorem known_eq_some_iff {u : Option NeuronId} {a : NeuronId} :
    Edit.known c u = some a ↔ u = some a ∧ a < c.neurons.size := by
  simp [Edit.known, Option.filter_eq_some_iff, hasNeuron_iff]

theorem refuses_connectGiven (c : Circuit α) (source target : Option NeuronId)
    (weight : Option α) :
    (Edit.connectGiven source target weight).Refuses c (c.CannotConnect source target) := by
  refine Op.refuses_checked ?_
  rw [CannotConnect, not_not]
  constructor
  · rintro ⟨⟨a, b⟩, hpair⟩
    split at hpair
    · next a b hsource htarget =>
      obtain ⟨rfl, ha⟩ := known_eq_some_iff.mp hsource
      obtain ⟨rfl, hb⟩ := known_eq_some_iff.mp htarget
      exact ⟨a, b, rfl, rfl, ha, hb⟩
    · cases hpair
  · rintro ⟨a, b, rfl, rfl, ha, hb⟩
    refine ⟨(a, b), ?_⟩
    rw [known_eq_some_iff.mpr ⟨rfl, ha⟩, known_eq_some_iff.mpr ⟨rfl, hb⟩]

theorem refuses_activateEnsemble (h : c.Consistent) (hp : c.Peopled) (e : EnsembleId)
    (inputs : Option (List α)) :
    (Edit.activateEnsemble e inputs).Refuses c (c.CannotRun e inputs) := by
  refine Op.refuses_checked
    ((exists_bind_eq_ok_iff fun hvalues => ⟨(), ?_⟩).trans requireValues_eq_ok_iff)
  cases inputs with
  | none =>
    exact requireSteps_eq_ok h.sound (hasEnsemble_of_requireValues hvalues) (hp.members_lt e)
  | some xs => exact requireNeurons_eq_ok_iff.mpr (hp.members_lt e)

theorem refuses_propagateEnsemble (h : c.Consistent) (hp : c.Peopled) (e : EnsembleId)
    (rate : Option α) (targets : Option (List α)) :
    (Edit.propagateEnsemble e rate targets).Refuses c (c.CannotRun e targets) := by
  refine Op.refuses_checked
    ((exists_bind_eq_ok_iff fun hvalues => ⟨(), ?_⟩).trans requireValues_eq_ok_iff)
  exact requireSteps_eq_ok h.sound (hasEnsemble_of_requireValues hvalues) (hp.members_lt e)

theorem Consistent.guarded (h : c.Consistent) (hp : c.Peopled) : c.Guarded where
  connect := refuses_connectGiven c
  project := fun _ _ _ _ => Op.refuses_checked (exists_planProjection_iff hp)
  gate := fun _ _ _ => Op.refuses_checked (exists_planGating_iff hp)
  activate := refuses_activateEnsemble h hp
  propagate := refuses_propagateEnsemble h hp

end Circuit

/-! ## What a program refuses -/

namespace Program

variable {α : Type} [Arithmetic α] {p : Program α}

/-- Each request to a program is refused for the number of values given only, and then changes
nothing. -/
structure Guarded (p : Program α) : Prop where
  activate : ∀ input : List α,
    (Program.activate input).Refuses p (input.length ≠ p.inputs.length)
  propagate : ∀ (rate : α) (target : List α),
    (Program.propagate rate target).Refuses p (target.length ≠ p.targets.length)
  replaceMemory : ∀ memory : Memory α,
    (Program.replaceMemory memory).Refuses p (memory.size ≠ p.memory.size)

/-- An intact program is refused nothing but a wrong number of values. -/
theorem Intact.guarded (h : p.Intact) : p.Guarded where
  activate := by
    intro input
    refine Op.refuses_checked ⟨?_, fun hlen => ?_⟩
    · rintro ⟨_, hplan⟩ hne
      obtain ⟨_, hlen, -⟩ := bind_eq_ok_iff.mp hplan
      exact hne (checkLength_eq_ok_iff.mp hlen).symm
    · obtain ⟨_, _, hrun, -⟩ := h.activate_ok (not_not.mp hlen)
      obtain ⟨plan, hplan, -⟩ := Op.checked_eq_ok hrun
      exact ⟨plan, hplan⟩
  propagate := by
    intro rate target
    refine Op.refuses_checked ⟨?_, fun hlen => ?_⟩
    · rintro ⟨_, hplan⟩ hne
      obtain ⟨_, hlen, -⟩ := bind_eq_ok_iff.mp hplan
      exact hne (checkLength_eq_ok_iff.mp hlen).symm
    · obtain ⟨_, hrun, -⟩ := h.propagate_ok rate (not_not.mp hlen)
      obtain ⟨plan, hplan, -⟩ := Op.checked_eq_ok hrun
      exact ⟨plan, hplan⟩
  replaceMemory := by
    intro memory
    refine Op.refuses_checked ?_
    rw [not_not, eq_comm]
    exact ⟨fun ⟨_, h⟩ => checkLength_eq_ok_iff.mp h, fun h => ⟨(), checkLength_eq_ok_iff.mpr h⟩⟩

end Program

namespace Circuit

variable {α : Type} [Arithmetic α] {c : Circuit α}

/-- Every circuit within reach, and every program compiled from one, with whatever numbers in its
memory, is refused what `Guarded` says and nothing else, and a request that is refused changes
nothing. -/
theorem guarded_of_reachable (h : c.Reachable) :
    c.Guarded ∧ ∀ ps p, c.compile ps = .ok p → ∀ m : Memory α, m.size = p.memory.size →
      Program.Guarded { p with memory := m } := by
  refine ⟨(consistent_of_reachable h).guarded (peopled_of_reachable h), ?_⟩
  intro ps p hp m hm
  obtain ⟨_, -, hlower⟩ := bind_eq_ok_iff.mp hp
  cases hlower
  exact ((intact_lower c ps).withMemory hm).guarded

/-- Two neurons wired to a third one. -/
def funnel : Circuit Int :=
  performAll (.empty 0 ⟨7, 2, 1⟩)
    [.addEnsemble 2, .addEnsemble 1, .project 0 (.ensemble 1) none (some 3),
      .activateEnsemble 0 (some [5, 1]), .activateEnsemble 1 none]

/-- The third neuron can gate what leads into it. It cannot gate two links one by one, and the two
neurons cannot be wired to it one to one. -/
theorem guarded_of_reachable_funnel :
    funnel.Reachable ∧ funnel.Guarded ∧
      Program.Guarded (funnel.lower (funnel.placements (.unbound 0 [] 1))) ∧
      (Edit.gate 1 0 .targets).answer funnel = .ok () ∧
      (Edit.gate 1 0 .links).answer funnel = .error (.gate (.linkCount 1 2)) ∧
      (Edit.project 0 (.ensemble 1) (some .oneToOne) none).answer funnel =
        .error (.sizeMismatch .oneToOneTarget 2 1) := by
  have h : funnel.Reachable :=
    reachable_performAll (.new 0 ⟨7, 2, 1⟩) (by simp [Request.Grounded])
  have hlt : ∀ p ∈ funnel.placements (.unbound 0 [] 1), p.neuron < funnel.neurons.size := by
    decide +kernel
  obtain ⟨hcircuit, hprogram⟩ := guarded_of_reachable h
  exact ⟨h, hcircuit, hprogram _ _ ((sound_of_reachable h).compile hlt) _ rfl, by decide +kernel,
    by decide +kernel, by decide +kernel⟩

end Circuit

end GatedNetwork
