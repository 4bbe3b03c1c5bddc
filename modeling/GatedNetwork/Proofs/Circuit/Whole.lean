import GatedNetwork.Proofs.Circuit.Failure
import GatedNetwork.Proofs.Program.Compile
import GatedNetwork.Proofs.Snapshot.Build

/-!
# Circuits in which every id names something

A consistent circuit keeps good ids in its links, its indexes and its traces. Ensembles and projections
keep ids of each other, too: `Circuit.Indexed` says that these are good. A circuit is whole if, beside
all that, its ensembles list neurons that exist. Then a request or a query meets an id that names
nothing only if the caller brought it along.

* `whole_perform` — grounded requests keep a circuit whole
* `Whole.anchored_perform`, `Whole.anchored_query` — with good ids, nothing is missing
-/

namespace GatedNetwork

variable {α : Type}

namespace Circuit

/-- The ids that ensembles and projections keep of each other name something. -/
structure Indexed (c : Circuit α) : Prop where
  started : ∀ e ∈ c.ensembles, ∀ p ∈ e.projections, p < c.projections.size
  ends : ∀ p ∈ c.projections, p.source < c.ensembles.size ∧ p.target < c.ensembles.size
  gaters : ∀ p ∈ c.projections, ∀ r ∈ p.gatings, r.gater < c.ensembles.size

theorem indexed_empty (identity : Identity) (settings : Settings α) :
    (empty identity settings).Indexed where
  started := fun e he => absurd he (Array.not_mem_empty e)
  ends := fun p hp => absurd hp (Array.not_mem_empty p)
  gaters := fun p hp => absurd hp (Array.not_mem_empty p)

variable {c d : Circuit α}

theorem Indexed.of_records (h : c.Indexed) (he : d.ensembles = c.ensembles)
    (hp : d.projections = c.projections) : d.Indexed where
  started := by
    rw [he, hp]
    exact h.started
  ends := by
    rw [he, hp]
    exact h.ends
  gaters := by
    rw [he, hp]
    exact h.gaters

/-- A new ensemble keeps no ids of projections, and is none that was named before. -/
theorem indexed_wrap (h : c.Indexed) (us : List NeuronId) : (c.wrap us).2.Indexed where
  started := by
    intro e he p hp
    rcases Array.mem_push.mp he with he | rfl
    · exact h.started e he p hp
    · exact absurd hp List.not_mem_nil
  ends := by
    intro p hp
    have hends := h.ends p hp
    simp only [wrap, Array.size_push]
    exact ⟨Nat.lt_succ_of_lt hends.1, Nat.lt_succ_of_lt hends.2⟩
  gaters := by
    intro p hp r hr
    simp only [wrap, Array.size_push]
    exact Nat.lt_succ_of_lt (h.gaters p hp r hr)

/-- A new projection is added to those of its source. -/
theorem indexed_addProjection (h : c.Indexed) {p : Projection} (hs : p.source < c.ensembles.size)
    (ht : p.target < c.ensembles.size) (hg : p.gatings = []) : (c.addProjection p).2.Indexed where
  started := by
    intro e he q hq
    simp only [addProjection, Array.size_push] at he ⊢
    obtain ⟨i, hi, rfl⟩ := Array.mem_iff_getElem.mp he
    rw [Array.size_modify] at hi
    have hold := h.started _ (Array.getElem_mem hi)
    rw [Array.getElem_modify] at hq
    split at hq
    · rcases List.mem_append.mp hq with hq | hq
      · exact Nat.lt_succ_of_lt (hold q hq)
      · rw [List.mem_singleton.mp hq]
        exact Nat.lt_succ_self _
    · exact Nat.lt_succ_of_lt (hold q hq)
  ends := by
    intro q hq
    simp only [addProjection, Array.size_modify]
    rcases Array.mem_push.mp hq with hq | rfl
    · exact h.ends q hq
    · exact ⟨hs, ht⟩
  gaters := by
    intro q hq r hr
    simp only [addProjection, Array.size_modify]
    rcases Array.mem_push.mp hq with hq | rfl
    · exact h.gaters q hq r hr
    · rw [hg] at hr
      exact absurd hr List.not_mem_nil

theorem indexed_recordGating (h : c.Indexed) {r : GateRecord} (hr : r.gater < c.ensembles.size)
    (p : ProjectionId) : (c.recordGating p r).Indexed where
  started := by
    intro e he q hq
    simp only [recordGating, Array.size_modify]
    exact h.started e he q hq
  ends := by
    intro q hq
    obtain ⟨i, hi, rfl⟩ := Array.mem_iff_getElem.mp hq
    simp only [recordGating, Array.size_modify] at hi
    have hold := h.ends _ (Array.getElem_mem hi)
    simp only [recordGating, Array.getElem_modify]
    split
    · exact hold
    · exact hold
  gaters := by
    intro q hq r' hr'
    obtain ⟨i, hi, rfl⟩ := Array.mem_iff_getElem.mp hq
    simp only [recordGating, Array.size_modify] at hi
    simp only [recordGating, Array.getElem_modify] at hr'
    split at hr'
    · rcases List.mem_append.mp hr' with hr' | hr'
      · exact h.gaters _ (Array.getElem_mem hi) r' hr'
      · rw [List.mem_singleton.mp hr']
        exact hr
    · exact h.gaters _ (Array.getElem_mem hi) r' hr'

variable [Arithmetic α]

theorem Indexed.of_sameWiring (h : c.Indexed) (hw : SameWiring c d) : d.Indexed :=
  h.of_records hw.ensembles hw.projections

/-- A projection between ensembles that exist keeps all records in order. -/
theorem indexed_performProjection (h : c.Indexed) (weight : Option α) {plan : ProjectionPlan}
    (hplan : ∀ s t top, plan = .new s t top → s < c.ensembles.size ∧ t < c.ensembles.size) :
    (c.performProjection weight plan).2.Indexed := by
  cases plan with
  | existing p => exact h
  | new s t top =>
    obtain ⟨hs, ht⟩ := hplan s t top rfl
    have hlinked := h.of_records (ensembles_connectAll weight (top.pairs (c.members s) (c.members t)))
      (projections_connectAll weight _)
    refine indexed_addProjection hlinked ?_ ?_ rfl
    · rwa [ensembles_connectAll]
    · rwa [ensembles_connectAll]

/-- A request keeps the ids of ensembles and projections good, whether it succeeds or fails. -/
theorem indexed_perform (h : c.Indexed) (r : Request α) : (r.perform.final c).Indexed := by
  cases r with
  | addNeuron => exact h.of_records rfl rfl
  | connect a b weight =>
    simp only [Request.perform, Op.final_map]
    refine Op.checked_final h fun _ _ => ?_
    exact h.of_records (ensembles_connect weight) (projections_connect weight)
  | connectGiven source target weight =>
    simp only [Request.perform, Op.final_map]
    refine Op.checked_final h fun _ _ => ?_
    exact h.of_records (ensembles_connect weight) (projections_connect weight)
  | gateLink u l =>
    simp only [Request.perform, Op.final_map]
    exact Op.checked_final h fun _ _ => h.of_records ensembles_gateLink projections_gateLink
  | addEnsemble size =>
    exact indexed_wrap (h.of_records (ensembles_addNeurons size) (projections_addNeurons size)) _
  | wrap us => exact indexed_wrap h us
  | project source destination topology weight =>
    simp only [Request.perform, Op.final_map]
    refine Op.checked_final h fun plan hok => indexed_performProjection h weight ?_
    rintro s t top rfl
    obtain ⟨hs, target, ht, hbetween⟩ := planProjection_eq_ok hok
    obtain ⟨rfl, rfl, -⟩ := pairs_lt_of_planBetween hbetween
    exact ⟨hasEnsemble_iff.mp hs, hasEnsemble_iff.mp (resolve_eq_ok_iff.mp ht).2⟩
  | gate gater projection side =>
    simp only [Request.perform, Op.final_map]
    refine Op.checked_final h fun plan hok => ?_
    obtain ⟨_, hgater, -⟩ := bind_eq_ok_iff.mp hok
    refine indexed_recordGating (h.of_records (ensembles_gateAll plan) (projections_gateAll plan)) ?_ _
    rw [ensembles_gateAll]
    exact hasEnsemble_iff.mp (require_eq_ok_iff.mp hgater)
  | _ => exact h.of_sameWiring (sameWiring_perform c rfl)

/-! ## Whole circuits -/

/-- Every id that the circuit keeps names something. -/
structure Whole (c : Circuit α) : Prop where
  consistent : c.Consistent
  peopled : c.Peopled
  indexed : c.Indexed

/-- An empty circuit is whole. -/
theorem whole_empty (identity : Identity) (settings : Settings α) :
    (empty identity settings).Whole :=
  ⟨consistent_empty identity settings, peopled_empty identity settings,
    indexed_empty identity settings⟩

/-- Being whole is a matter of wiring. -/
theorem Whole.of_sameWiring (h : c.Whole) (hw : SameWiring c d) : d.Whole :=
  ⟨h.consistent.of_sameWiring hw, h.peopled.of_sameWiring hw,
    h.indexed.of_sameWiring hw⟩

/-- A grounded request keeps a circuit whole, whether it succeeds or fails. -/
theorem whole_perform (h : c.Whole) {r : Request α} (hr : r.Grounded c) :
    (r.perform.final c).Whole :=
  ⟨consistent_perform h.consistent r, peopled_perform h.peopled hr, indexed_perform h.indexed r⟩

end Circuit

/-! ## Circuits of snapshots -/

namespace Snapshot

open Circuit

variable [Arithmetic α] {c : Circuit α}

theorem indexed_addRows (h : c.Indexed) (rows : List (NeuronRow α)) :
    (rows.foldl addNeuron c).Indexed := by
  induction rows generalizing c with
  | nil => exact h
  | cons row rows ih => exact ih (h.of_records rfl rfl)

omit [Arithmetic α] in
theorem indexed_wrapAll (h : c.Indexed) (lists : List (List NeuronId)) :
    (wrapAll c lists).2.Indexed := by
  induction lists generalizing c with
  | nil => exact h
  | cons us lists ih => exact ih (indexed_wrap h us)

theorem projections_addConnection (c : Circuit α) (row : ConnectionRow α) :
    (addConnection c row).projections = c.projections := by
  rw [addConnection_eq, (sameWiring_setGain _ _ _).projections]
  cases row.gater with
  | none => exact projections_connect _
  | some g => exact projections_gateLink.trans (projections_connect _)

theorem indexed_addConnections (h : c.Indexed) (rows : List (ConnectionRow α)) :
    (rows.foldl addConnection c).Indexed := by
  induction rows generalizing c with
  | nil => exact h
  | cons row rows ih =>
    exact ih (h.of_records (ensembles_addConnection row) (projections_addConnection c row))

/-- A snapshot that passes its check is built into a whole circuit. -/
theorem whole_build {s : Snapshot α} (h : s.check = .ok ()) (identity : Identity)
    (settings : Settings α) : (s.build identity settings).1.Whole where
  consistent := consistent_build h identity settings
  peopled := peopled_build s identity settings
  indexed := by
    have hrows := indexed_addRows (indexed_empty identity settings) s.neurons
    rw [build_fst]
    exact indexed_addConnections (indexed_wrap (indexed_wrapAll (indexed_wrap hrows _) _) _) _

end Snapshot

/-! ## Requests and queries with good ids -/

namespace Circuit

variable [Arithmetic α] {c d : Circuit α}

/-- Every id that a request vouches for names something. Where an unknown id is answered by a failure of
its own, any id will do. -/
def Request.Named (c : Circuit α) : Request α → Prop
  | connect a b _ => a < c.neurons.size ∧ b < c.neurons.size
  | gateLink u l => u < c.neurons.size ∧ l < c.links.size
  | activateNeuron u _ | propagateNeuron u _ _ | clearNeuron u | resetNeuron u | setTransfer u _ =>
    u < c.neurons.size
  | setNumber s _ => c.houses s = true
  | wrap us => ∀ u ∈ us, u < c.neurons.size
  | configure e _ _ | activateEnsemble e _ | propagateEnsemble e _ _ | clearEnsemble e
  | resetEnsemble e => e < c.ensembles.size
  | restore p => p.fits c = true
  | addNeuron | connectGiven _ _ _ | addEnsemble _ | project _ _ _ _ | gate _ _ _ => True

/-- A question about a circuit. -/
inductive Query where
  | relation (a b : NeuronId)
  | linkBetween (a b : NeuronId)
  | neuron (u : NeuronId)
  | link (l : LinkId)
  | wiring (a b : EnsembleId)
  | selfConnected (e : EnsembleId)
  | projection (p : ProjectionId)

namespace Query

/-- Asks a question; what the answer is does not matter here. -/
def perform : Query → Edit α Unit
  | relation a b => (fun _ => ()) <$> Edit.relation? a b
  | linkBetween a b => (fun _ => ()) <$> Edit.linkBetween? a b
  | neuron u => (fun _ => ()) <$> Edit.neuron u
  | link l => (fun _ => ()) <$> Edit.link l
  | wiring a b => (fun _ => ()) <$> Edit.wiring? a b
  | selfConnected e => (fun _ => ()) <$> Edit.isSelfConnected e
  | projection p => (fun _ => ()) <$> Edit.projection p

/-- Every id that a question vouches for names something. -/
def Named (c : Circuit α) : Query → Prop
  | relation a _ | linkBetween a _ | neuron a => a < c.neurons.size
  | link l => l < c.links.size
  | wiring a b => a < c.ensembles.size ∧ b < c.ensembles.size
  | selfConnected e => e < c.ensembles.size
  | projection p => p < c.projections.size

end Query

/-- What a request names is found in every circuit with the wiring. -/
theorem Request.Named.of_sameWiring (hw : SameWiring c d) {r : Request α} (h : r.Named c) :
    r.Named d := by
  cases r <;>
    simp only [Named, hw.neurons, hw.links, hw.ensembles, hw.fits, hw.houses] at h ⊢ <;> exact h

omit [Arithmetic α] in
theorem requireEnsemble_eq_ok_iff {e : EnsembleId} {x : Unit} :
    c.requireEnsemble e = .ok x ↔ e < c.ensembles.size := by
  rw [requireEnsemble, require_eq_ok_iff, hasEnsemble_iff]

omit [Arithmetic α] in
theorem resolved_requireNeuron {u : NeuronId} (hu : u < c.neurons.size) :
    Resolved (c.requireNeuron u) :=
  .of_eq_ok (b := ()) (requireNeuron_eq_ok_iff.mpr hu)

omit [Arithmetic α] in
theorem resolved_requireNeurons {us : List NeuronId} (hus : ∀ u ∈ us, u < c.neurons.size) :
    Resolved (c.requireNeurons us) :=
  .of_eq_ok (b := ()) (requireNeurons_eq_ok_iff.mpr hus)

omit [Arithmetic α] in
theorem resolved_requireEnsemble {e : EnsembleId} (he : e < c.ensembles.size) :
    Resolved (c.requireEnsemble e) :=
  .of_eq_ok (b := ()) (requireEnsemble_eq_ok_iff.mpr he)

theorem resolved_allSelfConnected {us : List NeuronId} (hus : ∀ u ∈ us, u < c.neurons.size) :
    Resolved (c.allSelfConnected us) := by
  induction us with
  | nil => exact .ok true
  | cons u us ih =>
    obtain ⟨hu, hus⟩ := List.forall_mem_cons.mp hus
    refine FailsWith.bind (resolved_requireNeuron hu) fun _ _ => ?_
    split
    · exact ih hus
    · exact .ok false

omit [Arithmetic α] in
/-- Resolving a destination looks up nothing that is not there. -/
theorem resolved_resolve (c : Circuit α) (destination : Destination) :
    Resolved (c.resolve destination) := by
  refine FailsWith.bind ?_ fun e _ => .bind (.require fun _ => by simp) fun _ _ => .ok e
  cases destination with
  | ensemble e => exact .ok e
  | layers layers =>
    simp only [entrance]
    split
    · exact FailsWith.bind (.require fun _ => by simp) fun _ _ => .ok layers.input
    · exact FailsWith.ok layers.input

omit [Arithmetic α] in
theorem resolved_requireValues (what : Sized) {e : EnsembleId} (he : e < c.ensembles.size)
    (values : Option (List α)) : Resolved (c.requireValues what e values) := by
  refine FailsWith.bind (resolved_requireEnsemble he) fun _ _ => ?_
  cases values with
  | none => exact .ok ()
  | some xs => exact .require fun _ => by simp

namespace Whole

variable (h : c.Whole)

include h

theorem resolved_requireSteps {e : EnsembleId} (he : e < c.ensembles.size) :
    Resolved (c.requireSteps e) := by
  refine FailsWith.bind (resolved_requireEnsemble he) fun _ _ => .forM fun u hu => ?_
  exact .of_eq_ok (h.consistent.sound.requireStep (h.peopled.members_lt e u hu))

theorem resolved_requireSurvey (a b : EnsembleId) :
    Resolved (c.requireSurvey (c.members a) (c.members b)) := by
  unfold requireSurvey
  split
  · exact .ok ()
  · exact resolved_requireNeurons (h.peopled.members_lt a)

/-- A topology pairs neurons that exist. -/
theorem pairs_lt (topology : Topology) (a b : EnsembleId) :
    ∀ p ∈ topology.pairs (c.members a) (c.members b),
      p.1 < c.neurons.size ∧ p.2 < c.neurons.size := by
  intro p hp
  obtain ⟨h₁, h₂⟩ := Topology.mem_of_mem_pairs hp
  exact ⟨h.peopled.members_lt a _ h₁, h.peopled.members_lt b _ h₂⟩

/-- Planning a projection between two ensembles looks up nothing that is not there. -/
theorem resolved_planBetween (a b : EnsembleId) (topology : Topology) :
    Resolved (c.planBetween a b topology) := by
  unfold planBetween
  split
  · exact .ok _
  · refine FailsWith.bind (h.resolved_requireSurvey a b) fun _ _ => ?_
    simp only
    split
    · exact .ok _
    · have hpairs := h.pairs_lt topology a b
      refine FailsWith.bind (resolved_requireNeurons ?_) fun _ _ =>
        FailsWith.bind (resolved_requireNeurons ?_) fun _ _ => .ok _
      · intro u hu
        obtain ⟨p, hp, rfl⟩ := List.mem_map.mp hu
        exact (hpairs p hp).1
      · intro u hu
        obtain ⟨p, hp, rfl⟩ := List.mem_map.mp hu
        exact (hpairs p hp).2

theorem resolved_planProjection (source : EnsembleId) (destination : Destination)
    (topology : Option Topology) : Resolved (c.planProjection source destination topology) := by
  unfold planProjection
  refine FailsWith.bind (.require fun _ => by simp) fun _ _ => ?_
  refine FailsWith.bind (resolved_resolve c destination) fun target _ => ?_
  generalize topology.getD (if source = target then .oneToOne else .allToAll) = t
  simp only
  split
  · refine FailsWith.bind (.require fun _ => by simp) fun _ _ => ?_
    exact h.resolved_planBetween source target t
  · exact h.resolved_planBetween source target t

/-- Planning to gate looks up nothing that is not there, whatever it is given. -/
theorem resolved_planGating (gater : EnsembleId) (projection : ProjectionId) (side : GateSide) :
    Resolved (c.planGating gater projection side) := by
  refine FailsWith.bind (.require fun _ => by simp) fun _ _ => ?_
  refine FailsWith.bind (.require fun _ => by simp) fun _ _ => ?_
  refine FailsWith.bind ?_ fun plan hplan => ?_
  · rintro e he r rfl
    obtain ⟨_, he⟩ := failsWith_gatePlan _ _ _ _ he
    cases he
  · refine FailsWith.bind (resolved_requireNeurons ?_) fun _ _ => .ok _
    intro u hu
    obtain ⟨q, hq, rfl⟩ := List.mem_map.mp hu
    exact h.peopled.members_lt gater _ (mem_of_gatePlan hplan q hq).1

/-- A request with good ids meets none that names nothing. -/
theorem anchored_perform {r : Request α} (hr : r.Named c) : r.perform.Anchored c := by
  have hmembers := h.peopled.members_lt
  cases r with
  | addNeuron => exact .of_ok rfl
  | addEnsemble size => exact .of_ok rfl
  | wrap us => exact .of_ok rfl
  | connect a b weight =>
    refine Op.Anchored.map (.checked ?_) _
    exact .bind (resolved_requireNeuron hr.1) fun _ _ => resolved_requireNeuron hr.2
  | connectGiven source target weight =>
    refine Op.Anchored.map (.checked ?_) _
    split
    · exact .ok _
    · exact .error (by simp)
  | gateLink u l =>
    refine Op.Anchored.map (.checked ?_) _
    refine FailsWith.bind (.of_eq_ok (b := ()) (requireLink_eq_ok_iff.mpr hr.2)) fun _ _ => ?_
    exact resolved_requireNeuron hr.1
  | activateNeuron u input =>
    refine Op.Anchored.map (.checked ?_) _
    split
    · exact resolved_requireNeuron hr
    · exact .of_eq_ok (h.consistent.sound.requireStep hr)
  | propagateNeuron u rate target =>
    refine Op.Anchored.map (.checked ?_) _
    exact .of_eq_ok (h.consistent.sound.requireStep hr)
  | clearNeuron u =>
    refine Op.Anchored.map (.checked ?_) _
    exact resolved_requireNeuron hr
  | resetNeuron u =>
    refine Op.Anchored.map (.checked ?_) _
    exact .of_eq_ok (b := ()) (require_eq_ok_iff.mpr (h.consistent.sound.resolves hr))
  | setNumber s x =>
    refine Op.Anchored.map (.checked ?_) _
    exact .of_eq_ok (b := ()) (require_eq_ok_iff.mpr hr)
  | setTransfer u t =>
    refine Op.Anchored.map (.checked ?_) _
    exact resolved_requireNeuron hr
  | configure e transfer bias =>
    refine Op.Anchored.map (.checked ?_) _
    exact .bind (resolved_requireEnsemble hr) fun _ _ => resolved_requireNeurons (hmembers e)
  | project source destination topology weight =>
    refine Op.Anchored.map (.checked ?_) _
    exact h.resolved_planProjection source destination topology
  | gate gater projection side =>
    refine Op.Anchored.map (.checked ?_) _
    exact h.resolved_planGating gater projection side
  | activateEnsemble e inputs =>
    refine Op.Anchored.map (.checked ?_) _
    refine FailsWith.bind (resolved_requireValues _ hr inputs) fun _ _ => ?_
    split
    · exact resolved_requireNeurons (hmembers e)
    · exact h.resolved_requireSteps hr
  | propagateEnsemble e rate targets =>
    refine Op.Anchored.map (.checked ?_) _
    refine FailsWith.bind (resolved_requireValues _ hr targets) fun _ _ => ?_
    exact h.resolved_requireSteps hr
  | clearEnsemble e =>
    refine Op.Anchored.map (.checked ?_) _
    exact .bind (resolved_requireEnsemble hr) fun _ _ => resolved_requireNeurons (hmembers e)
  | resetEnsemble e =>
    refine Op.Anchored.map (.checked ?_) _
    refine FailsWith.bind (resolved_requireEnsemble hr) fun _ _ => .forM fun u hu => ?_
    exact .of_eq_ok (b := ()) (require_eq_ok_iff.mpr (h.consistent.sound.resolves (hmembers e u hu)))
  | restore p =>
    refine Op.Anchored.map (.checked ?_) _
    exact .of_eq_ok (b := ()) (require_eq_ok_iff.mpr hr)

/-- So does a question. -/
theorem anchored_query {q : Query} (hq : q.Named c) : (q.perform : Edit α Unit).Anchored c := by
  cases q with
  | relation a b =>
    refine Op.Anchored.map (.read ?_) _
    exact .bind (resolved_requireNeuron hq) fun _ _ => .ok _
  | linkBetween a b =>
    refine Op.Anchored.map (.read ?_) _
    exact .bind (resolved_requireNeuron hq) fun _ _ => .ok _
  | neuron u =>
    refine Op.Anchored.map (.read ?_) _
    exact .bind (resolved_requireNeuron hq) fun _ _ => .ok _
  | link l =>
    refine Op.Anchored.map (.read ?_) _
    exact .bind (.of_eq_ok (b := ()) (requireLink_eq_ok_iff.mpr hq)) fun _ _ => .ok _
  | wiring a b =>
    refine Op.Anchored.map (.read ?_) _
    refine FailsWith.bind (resolved_requireEnsemble hq.1) fun _ _ => ?_
    refine FailsWith.bind (resolved_requireEnsemble hq.2) fun _ _ => ?_
    exact .bind (h.resolved_requireSurvey a b) fun _ _ => .ok _
  | selfConnected e =>
    refine Op.Anchored.map (.read ?_) _
    refine FailsWith.bind (resolved_requireEnsemble hq) fun _ _ => ?_
    exact resolved_allSelfConnected (h.peopled.members_lt e)
  | projection p =>
    refine Op.Anchored.map (.read ?_) _
    exact .bind (.of_eq_ok (b := ()) (require_eq_ok_iff.mpr (decide_eq_true hq))) fun _ _ => .ok _

end Whole

end Circuit

end GatedNetwork
