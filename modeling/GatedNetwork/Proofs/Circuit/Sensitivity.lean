import Mathlib.Algebra.BigOperators.Group.Finset.Piecewise
import Mathlib.Tactic.Ring
import GatedNetwork.Proofs.Circuit.Plain
import GatedNetwork.Proofs.Circuit.Reachable

/-!
# Eligibilities are sensitivities

Two circuits run side by side. In the second one, the weight of a link is larger by some number and the
state of the neuron it leads to by that number times the eligibility of the link. Before each step of the
neuron, whatever is around it is set to the same values in both. Then the states go on differing by the
number times the eligibility, which is the same in both: in exact arithmetic, the eligibility is the
derivative of the state by the weight.

* `Circuit.expose`, `Edit.live` — what is around a neuron is set, and the neuron makes a step
* `Circuit.Nudged` — how the two circuits differ, as far as it matters
* `Nudged.step` — one step keeps that
* `sensitivity` — so does any number of steps
-/

namespace GatedNetwork

variable {α : Type}

namespace Circuit

variable [Arithmetic α]

/-- The numbers around a neuron that a step of it depends on: the activations of its sources, the gains of
its incoming links, and weight and gain of its loop. -/
def surroundings (c : Circuit α) (u : NeuronId) : List Symbol :=
  .weight (c.neuron u).loop :: .gain (c.neuron u).loop ::
    (c.neuron u).inputs.toList.flatMap fun l => [.neuron (c.link l).source .activation, .gain l]

/-- Sets what is around a neuron. -/
def expose (c : Circuit α) (u : NeuronId) (σ : Environment α) : Circuit α :=
  c.storeAll ((c.surroundings u).map fun s => (s, σ s))

/-- Makes the weight of a link into `u` larger by `δ`, and the state of `u` by `δ` times the eligibility
of the link. -/
def nudge (c : Circuit α) (u : NeuronId) (l : LinkId) (δ : α) : Circuit α :=
  (c.modifyLink l fun k => { k with weight := k.weight + δ }).modifyNeuron u fun n =>
    { n with state := n.state + δ * (n.trace.eligibility.find? l).getD 0 }

end Circuit

/-- A life of a neuron: at each moment what is around it is set, and it makes a step. -/
def Edit.live [Arithmetic α] (u : NeuronId) (moments : List (Environment α)) : Edit α Unit :=
  moments.forM fun σ => do
    modify (·.expose u σ)
    discard (Edit.activateNeuron u none)

namespace Circuit

/-! ## What is set and what is not -/

section Expose

variable [Arithmetic α] {c d : Circuit α} {u : NeuronId} {l : LinkId} {σ : Environment α} {s : Symbol}

theorem mem_surroundings : s ∈ c.surroundings u ↔
    s = .weight (c.neuron u).loop ∨ s = .gain (c.neuron u).loop ∨
      ∃ l ∈ (c.neuron u).inputs, s = .neuron (c.link l).source .activation ∨ s = .gain l := by
  simp only [surroundings, List.mem_cons, List.mem_flatMap, List.not_mem_nil, or_false]
  rfl

omit [Arithmetic α] in
theorem putEach_map (τ : Environment α) (ss : List Symbol) (s : Symbol) :
    Memory.putEach τ (ss.map fun s => (s, σ s)) s = if s ∈ ss then σ s else τ s := by
  induction ss generalizing τ with
  | nil => rfl
  | cons t ss ih =>
    rw [List.map_cons, Memory.putEach_cons, ih]
    by_cases hs : s ∈ ss
    · rw [if_pos hs, if_pos (List.mem_cons_of_mem t hs)]
    · rw [if_neg hs]
      by_cases hst : s = t
      · subst hst
        rw [Function.update_self, if_pos List.mem_cons_self]
      · rw [Function.update_of_ne hst, if_neg (by simp [hst, hs])]

/-- The numbers of a circuit with those around a neuron set. -/
def exposed (c : Circuit α) (u : NeuronId) (σ : Environment α) : Environment α :=
  fun s => if s ∈ c.surroundings u then σ s else c.load s

theorem exposed_of_mem (hs : s ∈ c.surroundings u) : c.exposed u σ s = σ s := if_pos hs

theorem exposed_of_not_mem (hs : s ∉ c.surroundings u) : c.exposed u σ s = c.load s := if_neg hs

theorem expose_eq (c : Circuit α) (u : NeuronId) (σ : Environment α) :
    c.expose u σ = c.fill (c.exposed u σ) := by
  have hfill := storeAll_fill c c.load ((c.surroundings u).map fun s => (s, σ s))
  rw [fill_load] at hfill
  rw [expose, hfill]
  congr 1
  funext s
  exact putEach_map c.load (c.surroundings u) s

theorem sameWiring_expose (c : Circuit α) (u : NeuronId) (σ : Environment α) :
    SameWiring c (c.expose u σ) :=
  sameWiring_storeAll c _

/-- Nothing about the neuron itself is set. -/
theorem neuron_expose (h : c.Sound) (hu : u < c.neurons.size) :
    (c.expose u σ).neuron u = c.neuron u := by
  have hneuron : ∀ a, c.exposed u σ (.neuron u a) = c.load (.neuron u a) := by
    intro a
    refine exposed_of_not_mem fun hmem => ?_
    rcases mem_surroundings.mp hmem with he | he | ⟨k, hk, he | he⟩
    · cases he
    · cases he
    · cases he
      exact ((h.mem_inputs _ hu k).mp hk).2.2 rfl
    · cases he
  have heligibility : ∀ k, c.exposed u σ (.eligibility u k) = c.load (.eligibility u k) := by
    intro k
    refine exposed_of_not_mem fun hmem => ?_
    rcases mem_surroundings.mp hmem with he | he | ⟨_, -, he | he⟩ <;> cases he
  have hextended : ∀ g k, c.exposed u σ (.extended u g k) = c.load (.extended u g k) := by
    intro g k
    refine exposed_of_not_mem fun hmem => ?_
    rcases mem_surroundings.mp hmem with he | he | ⟨_, -, he | he⟩ <;> cases he
  have hself : (c.neuron u).filled c.load u = c.neuron u := by
    rw [← neuron_fill hu, fill_load]
  rw [expose_eq, neuron_fill hu]
  conv => rhs; rw [← hself]
  simp only [Neuron.filled, hneuron, heligibility, hextended]

theorem gain_expose (h : c.Sound) (hu : u < c.neurons.size) (hl : l ∈ (c.neuron u).inputs) :
    ((c.expose u σ).link l).gain = σ (.gain l) := by
  rw [expose_eq, link_fill ((h.mem_inputs u hu l).mp hl).1]
  exact exposed_of_mem (mem_surroundings.mpr (.inr (.inr ⟨l, hl, .inr rfl⟩)))

/-- The weight of a loop is set, and an incoming link is no loop. -/
theorem weight_expose (h : c.Sound) (hu : u < c.neurons.size) (hl : l ∈ (c.neuron u).inputs) :
    ((c.expose u σ).link l).weight = (c.link l).weight := by
  obtain ⟨hlt, -, hsource⟩ := (h.mem_inputs u hu l).mp hl
  rw [expose_eq, link_fill hlt]
  refine exposed_of_not_mem fun hmem => ?_
  rcases mem_surroundings.mp hmem with he | he | ⟨k, hk, he | he⟩
  · cases he
    exact hsource (h.loop_source u hu)
  · cases he
  · cases he
  · cases he

theorem sourceActivation_expose (h : c.Sound) (hu : u < c.neurons.size)
    (hl : l ∈ (c.neuron u).inputs) :
    (c.expose u σ).sourceActivation l = σ (.neuron (c.link l).source .activation) := by
  have hlt := ((h.mem_inputs u hu l).mp hl).1
  rw [sourceActivation, (sameWiring_expose c u σ).source, expose_eq,
    neuron_fill (h.ends_lt l hlt).1]
  exact exposed_of_mem (mem_surroundings.mpr (.inr (.inr ⟨l, hl, .inl rfl⟩)))

theorem recurrence_expose (h : c.Sound) (hu : u < c.neurons.size) :
    (c.expose u σ).recurrence u =
      σ (.gain (c.neuron u).loop) * σ (.weight (c.neuron u).loop) := by
  rw [recurrence, loopOf, neuron_expose h hu, expose_eq, link_fill (h.loop_lt u hu)]
  have hgain : c.exposed u σ (.gain (c.neuron u).loop) = σ _ :=
    exposed_of_mem (mem_surroundings.mpr (.inr (.inl rfl)))
  have hweight : c.exposed u σ (.weight (c.neuron u).loop) = σ _ :=
    exposed_of_mem (mem_surroundings.mpr (.inl rfl))
  simp only [Link.filled, hgain, hweight]

theorem sound_expose (h : c.Sound) (u : NeuronId) (σ : Environment α) : (c.expose u σ).Sound :=
  h.of_sameWiring (sameWiring_expose c u σ)

theorem size_neurons_expose (c : Circuit α) (u : NeuronId) (σ : Environment α) :
    (c.expose u σ).neurons.size = c.neurons.size :=
  (sameWiring_expose c u σ).neurons

/-- The eligibility of an incoming link before and after a step, what is around being set first. -/
theorem find?_eligibility_step_expose (h : c.Sound) (hu : u < c.neurons.size)
    (hl : l ∈ (c.neuron u).inputs) :
    ∃ old, (c.neuron u).trace.eligibility.find? l = some old ∧
      (((c.expose u σ).step u).neuron u).trace.eligibility.find? l =
        some (σ (.gain (c.neuron u).loop) * σ (.weight (c.neuron u).loop) * old +
          σ (.gain l) * σ (.neuron (c.link l).source .activation)) := by
  have hu' : u < (c.expose u σ).neurons.size := by rwa [size_neurons_expose]
  have hl' : l ∈ ((c.expose u σ).neuron u).inputs := by rwa [neuron_expose h hu]
  obtain ⟨old, hold, hstep⟩ := find?_eligibility_step (sound_expose h u σ) hu' hl'
  rw [neuron_expose h hu] at hold
  refine ⟨old, hold, ?_⟩
  rw [hstep, recurrence_expose h hu, gain_expose h hu hl, sourceActivation_expose h hu hl]

theorem state_step_expose (hu : u < c.neurons.size) :
    (((c.expose u σ).step u).neuron u).state = (c.expose u σ).nextState u := by
  have hu' : u < (c.expose u σ).neurons.size := by rwa [size_neurons_expose]
  obtain ⟨trace, hself⟩ := neuron_step_self hu'
  rw [hself]

theorem bias_step_expose (h : c.Sound) (hu : u < c.neurons.size) :
    (((c.expose u σ).step u).neuron u).bias = (c.neuron u).bias := by
  have hu' : u < (c.expose u σ).neurons.size := by rwa [size_neurons_expose]
  obtain ⟨trace, hself⟩ := neuron_step_self hu'
  rw [hself, neuron_expose h hu]

/-- A step sets gains only, and no incoming link has its weight set before. -/
theorem weight_step_expose (h : c.Sound) (hu : u < c.neurons.size) (hl : l ∈ (c.neuron u).inputs) :
    (((c.expose u σ).step u).link l).weight = (c.link l).weight := by
  have hlt : l < (c.expose u σ).links.size := by
    rw [(sameWiring_expose c u σ).links]
    exact ((h.mem_inputs u hu l).mp hl).1
  have hu' : u < (c.expose u σ).neurons.size := by rwa [size_neurons_expose]
  rw [← weight_expose (σ := σ) h hu hl, link_step (sound_expose h u σ) hu' hlt]
  split
  · rfl
  · rfl

theorem find?_eligibility_step_eq_none (h : c.Sound) (hu : u < c.neurons.size)
    (hl : l ∉ (c.neuron u).inputs) :
    (((c.expose u σ).step u).neuron u).trace.eligibility.find? l = none := by
  have hw := (sameWiring_expose c u σ).trans (sameWiring_step (c.expose u σ) u)
  have hu' : u < ((c.expose u σ).step u).neurons.size := by rwa [hw.neurons]
  have hkeys := (h.of_sameWiring hw).eligibility_keys u hu'
  rw [hw.inputs] at hkeys
  rw [← hkeys, IdMap.mem_keys_iff] at hl
  exact Option.eq_none_iff_forall_ne_some.mpr (not_exists.mp hl)

end Expose

/-! ## One step -/

section Step

variable [ExactArithmetic α] {c d : Circuit α} {u : NeuronId} {l : LinkId} {σ : Environment α} {δ : α}

/-- How far the second of two circuits is ahead of the first, as far as a step of `u` can see it once what
is around `u` is set alike. -/
structure Nudged (c d : Circuit α) (u : NeuronId) (l : LinkId) (δ : α) : Prop where
  wiring : SameWiring c d
  weight : ∀ k ∈ (c.neuron u).inputs,
    (d.link k).weight = (c.link k).weight + if k = l then δ else 0
  bias : (d.neuron u).bias = (c.neuron u).bias
  eligibility : (d.neuron u).trace.eligibility = (c.neuron u).trace.eligibility
  state : ∀ e, (c.neuron u).trace.eligibility.find? l = some e →
    (d.neuron u).state = (c.neuron u).state + δ * e

theorem nudged_nudge (h : c.Sound) (hu : u < c.neurons.size) (δ : α) :
    Nudged c (c.nudge u l δ) u l δ := by
  have hself : (c.nudge u l δ).neuron u = { c.neuron u with
      state := (c.neuron u).state + δ * ((c.neuron u).trace.eligibility.find? l).getD 0 } :=
    neuron_modifyNeuron_self (c := c.modifyLink l _) hu
  constructor
  case wiring =>
    have hlink : SameWiring c (c.modifyLink l fun k => { k with weight := k.weight + δ }) :=
      sameWiring_modifyLink c l fun _ => rfl
    exact hlink.trans (sameWiring_modifyNeuron _ u fun _ => rfl)
  case weight =>
    intro k hk
    have hlt := ((h.mem_inputs u hu k).mp hk).1
    rw [nudge, link_modifyNeuron]
    split
    · next hkl =>
      subst hkl
      rw [link_modifyLink_self hlt]
    · next hkl => rw [link_modifyLink_ne hkl, add_zero]
  case bias => rw [hself]
  case eligibility => rw [hself]
  case state =>
    intro e he
    rw [hself, he]
    rfl

/-- The next state after what is around has been set. -/
theorem nextState_expose (h : c.Sound) (hu : u < c.neurons.size) :
    (c.expose u σ).nextState u =
      σ (.gain (c.neuron u).loop) * σ (.weight (c.neuron u).loop) * (c.neuron u).state +
        (c.neuron u).bias +
        ∑ k ∈ c.incoming u,
          σ (.neuron (c.link k).source .activation) * (c.link k).weight * σ (.gain k) := by
  have hu' : u < (c.expose u σ).neurons.size := by rwa [size_neurons_expose]
  have hterm : ∀ k ∈ c.incoming u,
      (c.expose u σ).sourceActivation k * ((c.expose u σ).link k).weight *
          ((c.expose u σ).link k).gain =
        σ (.neuron (c.link k).source .activation) * (c.link k).weight * σ (.gain k) := by
    intro k hk
    have hin := (h.mem_inputs_iff hu).mpr hk
    rw [sourceActivation_expose h hu hin, weight_expose h hu hin, gain_expose h hu hin]
  rw [nextState, foldl_inputs (sound_expose h u σ) hu', recurrence_expose h hu, neuron_expose h hu,
    (sameWiring_expose c u σ).incoming, Finset.sum_congr rfl hterm]

namespace Nudged

/-- The next states differ by what the eligibility will be, for what comes through the link is weighted by
the difference of the weights. -/
theorem nextState (hn : Nudged c d u l δ) (h : c.Sound) (hu : u < c.neurons.size)
    (hl : l ∈ (c.neuron u).inputs) {e : α}
    (he : (c.neuron u).trace.eligibility.find? l = some e) :
    (d.expose u σ).nextState u = (c.expose u σ).nextState u +
      δ * (σ (.gain (c.neuron u).loop) * σ (.weight (c.neuron u).loop) * e +
        σ (.gain l) * σ (.neuron (c.link l).source .activation)) := by
  have hd := h.of_sameWiring hn.wiring
  have hterm : ∀ k ∈ c.incoming u,
      σ (.neuron (d.link k).source .activation) * (d.link k).weight * σ (.gain k) =
        σ (.neuron (c.link k).source .activation) * (c.link k).weight * σ (.gain k) +
          if k = l then σ (.neuron (c.link k).source .activation) * δ * σ (.gain k) else 0 := by
    intro k hk
    rw [hn.wiring.source, hn.weight k ((h.mem_inputs_iff hu).mpr hk)]
    split <;> ring
  rw [nextState_expose hd (hn.wiring.neurons ▸ hu), nextState_expose h hu, hn.wiring.loop,
    hn.wiring.incoming, hn.bias, hn.state e he, Finset.sum_congr rfl hterm, Finset.sum_add_distrib,
    Finset.sum_ite_eq', if_pos ((h.mem_inputs_iff hu).mp hl)]
  ring

/-- Eligibilities depend on what is around and on nothing else. -/
theorem eligibility_step (hn : Nudged c d u l δ) (h : c.Sound) (hu : u < c.neurons.size) :
    (((d.expose u σ).step u).neuron u).trace.eligibility =
      (((c.expose u σ).step u).neuron u).trace.eligibility := by
  have hd := h.of_sameWiring hn.wiring
  have hud : u < d.neurons.size := hn.wiring.neurons ▸ hu
  refine IdMap.ext fun k => ?_
  have hinputs := hn.wiring.inputs u
  by_cases hk : k ∈ (c.neuron u).inputs
  · obtain ⟨x, hx, hstep⟩ := find?_eligibility_step_expose (σ := σ) h hu hk
    obtain ⟨y, hy, hstep'⟩ := find?_eligibility_step_expose (σ := σ) hd hud (hinputs ▸ hk)
    rw [hn.eligibility, hx] at hy
    cases hy
    rw [hstep, hstep', hn.wiring.loop, hn.wiring.source]
  · rw [find?_eligibility_step_eq_none h hu hk,
      find?_eligibility_step_eq_none hd hud (hinputs ▸ hk)]

/-- One step keeps the second circuit ahead. -/
theorem step (hn : Nudged c d u l δ) (h : c.Sound) (hu : u < c.neurons.size)
    (hl : l ∈ (c.neuron u).inputs) (σ : Environment α) :
    Nudged ((c.expose u σ).step u) ((d.expose u σ).step u) u l δ := by
  have hd := h.of_sameWiring hn.wiring
  have hud : u < d.neurons.size := hn.wiring.neurons ▸ hu
  have hc' := (sameWiring_expose c u σ).trans (sameWiring_step (c.expose u σ) u)
  have hd' := (sameWiring_expose d u σ).trans (sameWiring_step (d.expose u σ) u)
  constructor
  case wiring => exact (hc'.symm.trans hn.wiring).trans hd'
  case weight =>
    intro k hk
    rw [hc'.inputs] at hk
    rw [weight_step_expose hd hud (hn.wiring.inputs u ▸ hk), weight_step_expose h hu hk,
      hn.weight k hk]
  case bias => rw [bias_step_expose h hu, bias_step_expose hd hud, hn.bias]
  case eligibility => exact hn.eligibility_step h hu
  case state =>
    obtain ⟨old, hold, hstep⟩ := find?_eligibility_step_expose (σ := σ) h hu hl
    intro e he
    rw [hstep] at he
    cases he
    rw [state_step_expose hu, state_step_expose hud, hn.nextState h hu hl hold]

end Nudged

/-! ## A life -/

/-- What a life makes of a circuit. -/
def lived (c : Circuit α) (u : NeuronId) (moments : List (Environment α)) : Circuit α :=
  moments.foldl (fun c σ => (c.expose u σ).step u) c

theorem lived_cons (c : Circuit α) (u : NeuronId) (σ : Environment α)
    (moments : List (Environment α)) :
    c.lived u (σ :: moments) = ((c.expose u σ).step u).lived u moments := by
  rw [lived, List.foldl_cons, lived]

theorem live_ok (h : c.Sound) (hu : u < c.neurons.size) (moments : List (Environment α)) :
    Edit.live u moments c = .ok () (c.lived u moments) := by
  induction moments generalizing c with
  | nil => rfl
  | cons σ moments ih =>
    have hu' : u < (c.expose u σ).neurons.size := by rwa [size_neurons_expose]
    have hw := sameWiring_step (c.expose u σ) u
    have hlater := ih ((sound_expose h u σ).of_sameWiring hw) (by rwa [hw.neurons])
    have hmoment : (do modify (·.expose u σ); discard (Edit.activateNeuron u none) : Edit α Unit) c =
        .ok () ((c.expose u σ).step u) :=
      Op.map_of_ok (step_ok (sound_expose h u σ) hu')
    rw [lived_cons, ← hlater]
    exact Op.bind_of_ok hmoment

namespace Nudged

/-- Any number of steps keeps the second circuit ahead. -/
theorem lived (hn : Nudged c d u l δ) (h : c.Sound) (hu : u < c.neurons.size)
    (hl : l ∈ (c.neuron u).inputs) (moments : List (Environment α)) :
    Nudged (c.lived u moments) (d.lived u moments) u l δ := by
  induction moments generalizing c d with
  | nil => exact hn
  | cons σ moments ih =>
    have hw := (sameWiring_expose c u σ).trans (sameWiring_step (c.expose u σ) u)
    rw [lived_cons, lived_cons]
    refine ih (hn.step h hu hl σ) (h.of_sameWiring hw) ?_ ?_
    · rwa [hw.neurons]
    · rwa [hw.inputs]

end Nudged

theorem sameWiring_lived (c : Circuit α) (u : NeuronId) (moments : List (Environment α)) :
    SameWiring c (c.lived u moments) :=
  sameWiring_foldl (fun c σ => (sameWiring_expose c u σ).trans (sameWiring_step (c.expose u σ) u))
    moments c

/-- After no time, an eligibility of zero makes no difference to the state. -/
theorem state_nudge_of_find?_eq_zero (hu : u < c.neurons.size) (δ : α)
    (hzero : (c.neuron u).trace.eligibility.find? l = some 0) :
    ((c.nudge u l δ).neuron u).state = (c.neuron u).state := by
  have hself : (c.nudge u l δ).neuron u = _ :=
    neuron_modifyNeuron_self (c := c.modifyLink l fun k => { k with weight := k.weight + δ }) hu
  rw [hself, neuron_modifyLink, hzero, Option.getD_some, mul_zero, add_zero]

theorem find?_eligibility_clearNeuron (h : c.Sound) (hu : u < c.neurons.size)
    (hl : l ∈ (c.neuron u).inputs) :
    ((c.clearNeuron u).neuron u).trace.eligibility.find? l = some 0 := by
  have hself : (c.clearNeuron u).neuron u = _ := neuron_modifyNeuron_self hu
  obtain ⟨x, hx⟩ : ∃ x, (c.neuron u).trace.eligibility.find? l = some x :=
    IdMap.mem_keys_iff.mp ((h.eligibility_keys u hu).symm ▸ hl)
  rw [hself]
  simp only [IdMap.find?_map, hx, Option.map_some]

/-- In exact arithmetic, the eligibility of a link is the sensitivity of the state it leads to: two lives
of a neuron that differ in the weight of the link by `δ`, and in the state by `δ` times the eligibility,
go on differing like that, whatever comes to be around the neuron. Where the eligibility is zero, as it
is after clearing, the states are the same at the start. -/
theorem sensitivity (h : c.Reachable) (hl : l ∈ (c.neuron u).inputs) (δ : α)
    (moments : List (Environment α)) :
    (∃ a b e, Edit.live u moments c = .ok () a ∧ Edit.live u moments (c.nudge u l δ) = .ok () b ∧
      (a.neuron u).trace.eligibility.find? l = some e ∧
      (b.neuron u).state - (a.neuron u).state = δ * e ∧
      (b.neuron u).trace.eligibility = (a.neuron u).trace.eligibility) ∧
    ((c.neuron u).trace.eligibility.find? l = some 0 →
      ((c.nudge u l δ).neuron u).state = (c.neuron u).state) ∧
    (((c.clearNeuron u).nudge u l δ).neuron u).state = (c.neuron u).state := by
  have hsound := sound_of_reachable h
  have hu : u < c.neurons.size := by
    refine Nat.lt_of_not_le fun hle => ?_
    rw [neuron_of_le hle] at hl
    exact IdSet.not_mem_empty l hl
  have hstart := nudged_nudge hsound (l := l) hu δ
  have hend := hstart.lived hsound hu hl moments
  have hw := sameWiring_lived c u moments
  refine ⟨?_, state_nudge_of_find?_eq_zero hu δ, ?_⟩
  · have hkey : l ∈ ((c.lived u moments).neuron u).trace.eligibility.keys := by
      rw [(hsound.of_sameWiring hw).eligibility_keys u (by rwa [hw.neurons]), hw.inputs]
      exact hl
    obtain ⟨e, he⟩ := IdMap.mem_keys_iff.mp hkey
    refine ⟨_, _, e, live_ok hsound hu moments,
      live_ok (hsound.of_sameWiring hstart.wiring) (hstart.wiring.neurons ▸ hu) moments, he, ?_,
      hend.eligibility⟩
    rw [hend.state e he, add_sub_cancel_left]
  · have hzero := find?_eligibility_clearNeuron hsound hu hl
    have hsize : u < (c.clearNeuron u).neurons.size := by
      rwa [(sameWiring_clearNeuron c u).neurons]
    have hself : (c.clearNeuron u).neuron u = _ := neuron_modifyNeuron_self hu
    rw [state_nudge_of_find?_eq_zero hsize δ hzero, hself]

end Step

/-- A neuron with a loop that gates its own loop and one of its two incoming links. It has run once. -/
def echoing : Circuit Int := performAll (.empty 0 ⟨7, 2, 1⟩)
  [.addNeuron, .addNeuron, .addNeuron, .connect 0 2 (some 2), .connect 1 2 (some (-1)),
    .connect 2 2 (some 1), .gateLink 2 2, .gateLink 2 3, .activateNeuron 0 (some 5),
    .activateNeuron 1 (some 3), .activateNeuron 2 none]

/-- Three moments, in which sources, gains and the loop change. -/
def changes : List (Environment Int) :=
  [fun _ => 2, fun s => match s with
    | .gain l => l + 1
    | .weight _ => -3
    | _ => 4, fun _ => 3]

theorem sensitivity_echoing :
    echoing.Reachable ∧ 3 ∈ (echoing.neuron 2).inputs ∧
      (echoing.neuron 2).trace.eligibility.find? 3 = some 5 ∧
      ∃ a b, Edit.live 2 changes echoing = .ok () a ∧
        Edit.live 2 changes (echoing.nudge 2 3 10) = .ok () b ∧
        (a.neuron 2).trace.eligibility.find? 3 = some (-1791) ∧
        (b.neuron 2).state - (a.neuron 2).state = 10 * -1791 := by
  have h : echoing.Reachable :=
    reachable_performAll (.new 0 ⟨7, 2, 1⟩) (by simp [Request.Grounded])
  have hl : 3 ∈ (echoing.neuron 2).inputs := by decide +kernel
  obtain ⟨⟨a, b, e, ha, hb, he, hstate, -⟩, -⟩ := sensitivity h hl 10 changes
  have hvalue : (((Edit.live 2 changes).final echoing).neuron 2).trace.eligibility.find? 3 =
      some (-1791) := by
    decide +kernel
  have hfinal : (Edit.live 2 changes).final echoing = a := Op.final_of_ok ha
  rw [hfinal, he] at hvalue
  cases hvalue
  exact ⟨h, hl, by decide +kernel, a, b, ha, hb, he, hstate⟩

end Circuit

end GatedNetwork
