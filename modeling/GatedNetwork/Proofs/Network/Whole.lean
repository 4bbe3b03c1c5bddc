import GatedNetwork.Double
import GatedNetwork.Network.Overview
import GatedNetwork.Proofs.Circuit.Whole
import GatedNetwork.Proofs.Network.Valid

/-!
# Nothing dangles

What a caller can hold are circuits and networks: a network is made over a circuit or from a snapshot,
and gives its circuit back when it is taken apart. All of them that can come about are whole, so nothing
that is asked of them comes upon an id, a trace entry or a slot that is not there, as long as the ids
that the caller brings along are good.

* `Holding.whole_of_reachable` — everything within reach is whole
* `Circuit.Firm`, `Program.Firm`, `Network.Firm` — nothing is missing for any operation
* `firm_of_reachable` — everything within reach is firm
-/

namespace GatedNetwork

variable {α : Type} [Arithmetic α]

/-! ## What a caller can hold -/

/-- A circuit or a network. -/
inductive Holding (α : Type) where
  | circuit (c : Circuit α)
  | network (n : Network α)

namespace Holding

/-- The circuits and networks that can come about, in any order of requests, each of which counts
whether it succeeds or fails. Ensembles are wrapped from neurons that exist. -/
inductive Reachable : Holding α → Prop where
  | empty (identity : Identity) (settings : Settings α) :
      Reachable (circuit (.empty identity settings))
  | perform {c : Circuit α} (r : Circuit.Request α) : Reachable (circuit c) → r.Grounded c →
      Reachable (circuit (r.perform.final c))
  | copy {c : Circuit α} (identity : Identity) : Reachable (circuit c) →
      Reachable (circuit (c.copy identity))
  | create {c : Circuit α} {layers : Layers} {n : Network α} : Reachable (circuit c) →
      Network.create c layers = .ok n → Reachable (network n)
  | imported {s : Snapshot α} {identity : Identity} {settings : Settings α} {n : Network α} :
      s.toNetwork identity settings = .ok n → Reachable (network n)
  | request {n : Network α} (r : Network.Request α) : Reachable (network n) →
      (∀ q, r = .edit q → q.Grounded n.circuit) → Reachable (network (r.perform.final n))
  | project {n : Network α} (destination : Destination) (topology : Option Topology)
      (weight : Option α) : Reachable (network n) →
      Reachable (network ((Network.project destination topology weight).final n))
  | upkeep {n : Network α} (u : Network.Upkeep) : Reachable (network n) →
      Reachable (network (u.perform.final n))
  /-- Puts any numbers into the memory of a live program. -/
  | overwrite {n : Network α} {p : Program α} {m : Memory α} : Reachable (network n) →
      n.mode = .compiled p → m.size = p.memory.size →
      Reachable (network { n with mode := .compiled { p with memory := m } })
  /-- Takes a network apart. -/
  | release {n : Network α} : Reachable (network n) → Reachable (circuit n.restored)

end Holding

/-! ## Whole networks -/

namespace Network

open Circuit

variable {n n' : Network α} {c d : Circuit α} {layers : Layers}

/-- A valid network whose circuit is whole. -/
structure Whole (n : Network α) : Prop where
  valid : n.Valid
  circuit : n.circuit.Whole

namespace Whole

theorem restored (h : n.Whole) : n.restored.Whole :=
  h.circuit.of_sameWiring h.valid.sameWiring_restored

/-- Whatever an operation leaves is whole, if the request it comes down to is grounded. -/
theorem of_leaves (h : n.Whole) {among : Circuit.Request α → Prop} (hl : Leaves n n' among)
    (hr : ∀ r, among r → r.Grounded n.restored) : n'.Whole := by
  refine ⟨hl.valid, ?_⟩
  rcases hl.circuit with hw | ⟨r, hmem, hn'⟩
  · exact h.circuit.of_sameWiring hw
  · rw [hn']
    exact whole_perform h.restored (hr r hmem)

theorem grounded_restored (h : n.Whole) {r : Circuit.Request α} (hr : r.Grounded n.circuit) :
    r.Grounded n.restored := by
  cases r with
  | wrap us =>
    intro u hu
    rw [h.valid.sameWiring_restored.neurons]
    exact hr u hu
  | _ => trivial

theorem request (h : n.Whole) {r : Request α} (hr : ∀ q, r = .edit q → q.Grounded n.circuit) :
    (r.perform.final n).Whole := by
  refine h.of_leaves (h.valid.leaves_request r) fun q hq => ?_
  cases r with
  | edit r =>
    cases hq
    exact h.grounded_restored (hr q rfl)
  | project target topology weight =>
    cases hq
    trivial
  | gate projection side =>
    cases hq
    trivial
  | _ => cases hq

theorem project (h : n.Whole) (destination : Destination) (topology : Option Topology)
    (weight : Option α) : ((Network.project destination topology weight).final n).Whole := by
  refine h.of_leaves (h.valid.leaves_project destination topology weight) ?_
  rintro r ⟨e, -, rfl⟩
  trivial

theorem upkeep (h : n.Whole) (u : Upkeep) : (u.perform.final n).Whole := by
  obtain ⟨n', hupkeep, hvalid, hw⟩ := h.valid.upkeep_ok u
  rw [Op.final_of_ok hupkeep]
  exact ⟨hvalid, h.circuit.of_sameWiring hw⟩

end Whole

theorem whole_create (hc : c.Whole) (hn : Network.create c layers = .ok n) : n.Whole := by
  refine ⟨valid_create hc.consistent (hc.peopled.inhabits layers) hn, ?_⟩
  obtain ⟨-, rfl⟩ := create_eq_ok hn
  exact hc

theorem whole_imported {s : Snapshot α} {identity : Identity} {settings : Settings α}
    (hn : s.toNetwork identity settings = .ok n) : n.Whole := by
  obtain ⟨hcheck, hn⟩ := Snapshot.toNetwork_eq_ok_iff.mp hn
  exact whole_create (Snapshot.whole_build hcheck identity settings) hn

end Network

namespace Holding

/-- Every id that is kept names something. -/
def Whole : Holding α → Prop
  | circuit c => c.Whole
  | network n => n.Whole

/-- Whatever comes about is whole. -/
theorem whole_of_reachable {x : Holding α} (h : x.Reachable) : x.Whole := by
  induction h with
  | empty identity settings => exact Circuit.whole_empty identity settings
  | perform r _ hr ih => exact Circuit.whole_perform ih hr
  | copy identity _ ih => exact Circuit.Whole.of_sameWiring ih (Circuit.sameWiring_copy _ identity)
  | create _ hn ih => exact Network.whole_create ih hn
  | imported hn => exact Network.whole_imported hn
  | request r _ hr ih => exact Network.Whole.request ih hr
  | project destination topology weight _ ih =>
    exact Network.Whole.project ih destination topology weight
  | upkeep u _ ih => exact Network.Whole.upkeep ih u
  | overwrite _ hmode hm ih =>
    obtain ⟨hvalid, hcircuit⟩ := ih
    exact ⟨hvalid.withMemory hmode hm, hcircuit⟩
  | release _ ih => exact Network.Whole.restored ih

end Holding

/-! ## Operations on whole networks -/

namespace Network

open Circuit

variable {n : Network α}

omit [Arithmetic α] in
/-- What an operation on the circuit misses, the circuit misses. -/
theorem anchored_onCircuit {m : Network α} {β : Type} {op : Op (Network α) β} {edit : Edit α β}
    (hop : op n = onCircuit edit m) (hedit : edit.Anchored m.circuit) : op.Anchored n := by
  have hanswer : op.answer n = edit.answer m.circuit := by
    rw [← answer_onCircuit, Op.answer, hop]
    rfl
  rw [Op.Anchored, hanswer]
  exact hedit

namespace Whole

variable (h : n.Whole)

include h

theorem anchored_activate (input : List α) : (activate input).Anchored n := by
  by_cases hlen : n.inputSize = input.length
  · obtain ⟨_, _, hactivate, -⟩ := h.valid.activate_ok hlen
    exact .of_ok hactivate
  · exact .of_error (activate_error hlen) (by simp)

theorem anchored_propagate (rate : α) (target : List α) : (propagate rate target).Anchored n := by
  by_cases hlen : n.outputSize = target.length
  · obtain ⟨_, hpropagate, -⟩ := h.valid.propagate_ok rate hlen
    exact .of_ok hpropagate
  · exact .of_error (propagate_error rate hlen) (by simp)

theorem anchored_project (destination : Destination) (topology : Option Topology)
    (weight : Option α) : (Network.project destination topology weight).Anchored n := by
  cases he : n.circuit.resolve destination with
  | error e =>
    exact .of_error (project_error he topology weight) (resolved_resolve n.circuit destination e he)
  | ok e =>
    refine anchored_onCircuit (h.valid.project_eq he topology weight) (.checked ?_)
    exact h.restored.resolved_planProjection _ _ topology

theorem anchored_forget {f : EnsembleId → Edit α Unit}
    (hf : ∃ d, n.layers.ensembles.forM f n.restored = .ok () d ∧ SameWiring n.restored d) :
    (do Network.restore; onCircuit ((← get).layers.ensembles.forM f); discard :
      Op (Network α) Unit).Anchored n := by
  obtain ⟨d, hd, -⟩ := hf
  exact .of_ok (h.valid.forget_ok hd)

theorem anchored_request {r : Request α} (hr : ∀ q, r = .edit q → q.Named n.circuit) :
    r.perform.Anchored n := by
  cases r <;> refine Op.Anchored.map ?_ _
  case activate input => exact h.anchored_activate input
  case propagate rate target => exact h.anchored_propagate rate target
  case project target topology weight => exact h.anchored_project _ topology weight
  case gate projection side =>
    refine anchored_onCircuit (h.valid.gate_eq projection side) (.checked ?_)
    exact h.restored.resolved_planGating _ projection side
  case clear => exact h.anchored_forget (clearEnsembles_ok h.valid.hosts_restored.runs)
  case reset => exact h.anchored_forget (resetEnsembles_ok h.valid.hosts_restored.runs)
  case snapshot => exact .of_ok h.valid.snapshot_ok
  case edit q =>
    have hq := (hr q rfl).of_sameWiring h.valid.sameWiring_restored
    exact anchored_onCircuit (h.valid.edit_eq q.perform) (h.restored.anchored_perform hq)

theorem anchored_upkeep (u : Upkeep) : u.perform.Anchored n := by
  obtain ⟨_, hupkeep, -⟩ := h.valid.upkeep_ok u
  exact .of_ok hupkeep

theorem anchored_duplicate (identity : Identity) : (duplicate identity).Anchored n := by
  refine Op.Anchored.bind (.of_ok h.valid.snapshot_ok) fun s n' _ => .read ?_
  unfold Snapshot.toNetwork
  refine FailsWith.bind ?_ fun _ _ => ?_
  · unfold Snapshot.check
    split
    · exact .error (by simp)
    · exact .ok ()
  · simp only
    unfold Network.create
    split
    · exact .error (by simp)
    · exact .ok _

theorem anchored_takeApart : takeApart.Anchored n :=
  .of_ok (Op.bind_of_ok h.valid.restore_ok.1)

theorem resolved_overview : Resolved n.overview := by
  refine FailsWith.bind (.mapM fun le _ => ?_) fun _ _ => .ok _
  refine FailsWith.bind ?_ fun _ _ => .ok _
  exact resolved_allSelfConnected (h.circuit.peopled.members_lt _)

end Whole

end Network

/-! ## Nothing is missing -/

/-- Whatever a program is asked, in any order, it stays intact and comes upon no slot that is not
there. -/
structure Program.Firm (p : Program Double) : Prop where
  intact : ∀ rs, (p.performAll rs).Intact
  performs : ∀ rs (r : Program.Request), r.perform.Anchored (p.performAll rs)

theorem Program.Intact.firm {p : Program Double} (h : p.Intact) : p.Firm where
  intact := h.performAll
  performs := fun rs r => (h.performAll rs).anchored_perform r

/-- Nothing is missing for any operation on the circuit that is called with good ids. -/
structure Circuit.Firm (c : Circuit Double) : Prop where
  whole : c.Whole
  /-- Every incoming link has its eligibility entry, and an extended entry for every gated neuron. -/
  traced : ∀ u < c.neurons.size, ∀ l ∈ (c.neuron u).inputs,
    (c.neuron u).trace.eligibility.contains l = true ∧
      ∀ g ∈ (c.neuron u).trace.extended.keys, ∃ xs,
        (c.neuron u).trace.extended.find? g = some xs ∧ xs.contains l = true
  performs : ∀ r : Circuit.Request Double, r.Named c → r.perform.Anchored c
  answers : ∀ q : Circuit.Query, q.Named c → (q.perform : Edit Double Unit).Anchored c
  compiles : ∀ ps : List Placement, (∀ p ∈ ps, p.neuron < c.neurons.size) →
    ∃ p, c.compile ps = .ok p ∧ p.fits c = true ∧ p.Firm

/-- Nothing is missing for any operation on the network that is called with good ids. -/
structure Network.Firm (n : Network Double) : Prop where
  whole : n.Whole
  requests : ∀ r : Request Double, (∀ q, r = .edit q → q.Named n.circuit) → r.perform.Anchored n
  projects : ∀ destination topology weight, (project destination topology weight).Anchored n
  upkeep : ∀ u : Upkeep, (u.perform : Op (Network Double) Unit).Anchored n
  duplicates : ∀ identity, (duplicate identity).Anchored n
  takesApart : takeApart.Anchored n
  overview : Resolved n.overview
  live : ∀ p, n.mode = .compiled p → p.fits n.circuit = true ∧ p.Firm

theorem Circuit.Whole.firm {c : Circuit Double} (h : c.Whole) : c.Firm where
  whole := h
  traced := by
    intro u hu l hl
    have hsound := h.consistent.sound
    rw [← IdMap.mem_keys, hsound.eligibility_keys u hu]
    refine ⟨hl, fun g hg => ?_⟩
    obtain ⟨xs, hxs⟩ := Option.isSome_iff_exists.mp (IdMap.mem_keys.mp hg)
    refine ⟨xs, hxs, ?_⟩
    rw [← IdMap.mem_keys, hsound.extended_keys u hu g xs hxs]
    exact hl
  performs := fun _ hr => h.anchored_perform hr
  answers := fun _ hq => h.anchored_query hq
  compiles := by
    intro ps hps
    have hsound := h.consistent.sound
    exact ⟨_, hsound.compile hps, fits_lower hsound hps (.refl c) _, (intact_lower c ps).firm⟩

theorem Network.Whole.firm {n : Network Double} (h : n.Whole) : n.Firm where
  whole := h
  requests := fun _ hr => h.anchored_request hr
  projects := h.anchored_project
  upkeep := h.anchored_upkeep
  duplicates := h.anchored_duplicate
  takesApart := h.anchored_takeApart
  overview := h.resolved_overview
  live := fun p hp => ⟨(h.valid.live p hp).fits, (h.valid.live p hp).intact.firm⟩

namespace Holding

/-- Nothing is missing for any operation that is called with good ids. -/
def Firm : Holding Double → Prop
  | circuit c => c.Firm
  | network n => n.Firm

/-- Whatever circuit or network comes about, operations on it that are called with good ids find every
neuron, link, ensemble, projection, trace entry and slot that they follow. -/
theorem firm_of_reachable {x : Holding Double} (h : x.Reachable) : x.Firm := by
  have hwhole := whole_of_reachable h
  cases x with
  | circuit c => exact Circuit.Whole.firm hwhole
  | network n => exact Network.Whole.firm hwhole

theorem reachable_performAll {c : Circuit α} {rs : List (Circuit.Request α)}
    (h : Reachable (circuit c)) (hrs : ∀ r ∈ rs, ∀ d : Circuit α, r.Grounded d) :
    Reachable (circuit (c.performAll rs)) := by
  induction rs generalizing c with
  | nil => exact h
  | cons r rs ih =>
    obtain ⟨hr, hrest⟩ := List.forall_mem_cons.mp hrs
    exact ih (.perform r h (hr c)) hrest

/-- Three layers. The neurons of the middle one are linked to each other, and the output gates the links
into them. -/
def gatedLayers : Circuit Double :=
  (Circuit.empty 0 ⟨7, Double.half, Double.tenth⟩).performAll
    [.addEnsemble 1, .addEnsemble 2, .addEnsemble 2, .project 0 (.ensemble 1) none (some .half),
      .project 1 (.ensemble 2) none none, .project 1 (.ensemble 1) (some .allToElse) (some .two),
      .gate 2 0 .targets, .gate 2 2 .targets]

/-- A compiled network over it. -/
def gatedNetwork : Network Double :=
  Network.compile.final ⟨gatedLayers, (Layers.unbound 0 [1] 2).bind gatedLayers.identity, .pending⟩

theorem firm_of_reachable_gatedNetwork :
    Reachable (circuit gatedLayers) ∧ gatedLayers.gatedLinkCount = 4 ∧ gatedLayers.Firm ∧
      Reachable (network gatedNetwork) ∧ gatedNetwork.isCompiled = true ∧ gatedNetwork.Firm := by
  have hcircuit : Reachable (circuit gatedLayers) := by
    refine reachable_performAll (.empty 0 ⟨7, Double.half, Double.tenth⟩) ?_
    simp [Circuit.Request.Grounded]
  have hensembles : ∀ e ∈ (Layers.unbound 0 [1] 2).ensembles, gatedLayers.hasEnsemble e = true := by
    decide +kernel
  obtain ⟨n, hn⟩ := Circuit.create_ok hensembles
  obtain ⟨-, rfl⟩ := Circuit.create_eq_ok hn
  have hnetwork : Reachable (network gatedNetwork) := .upkeep .compile (.create hcircuit hn)
  have hgated : gatedLayers.gatedLinkCount = 4 := by decide +kernel
  exact ⟨hcircuit, hgated, firm_of_reachable hcircuit, hnetwork, by decide +kernel,
    firm_of_reachable hnetwork⟩

end Holding

end GatedNetwork
