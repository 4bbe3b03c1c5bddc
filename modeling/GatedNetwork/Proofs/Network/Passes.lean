import GatedNetwork.Network.Basic
import GatedNetwork.Proofs.Circuit.Consistent
import GatedNetwork.Proofs.Circuit.Step
import GatedNetwork.Proofs.Program.Walk

/-!
# Passes through a network

In a sound circuit whose ensembles are there, a pass through a layer set succeeds: every step passes
its check. What it leaves is what `Circuit.forwardPass` and `Circuit.backwardPass` say, and the output
is what the last activations of the outputs are, if no neuron is listed twice.

* `stepForward_ok`, `stepBackward_ok` — passes in the circuit succeed
* `Pass` — a pass of either direction, to be performed in a circuit or by a program
* `run_passes` — a program performs passes as the circuit does, whatever its memory holds
-/

namespace GatedNetwork

variable {α : Type} [Arithmetic α]

/-- The ensembles of a layer set without their layers. -/
theorem Layers.ensembles_eq (layers : Layers) :
    layers.ensembles = layers.input :: (layers.hidden ++ [layers.output]) := by
  have hhidden : ∀ (k : Nat) (es : List EnsembleId), (hiddenFrom k es).map (·.2) = es := by
    intro k es
    induction es generalizing k with
    | nil => rfl
    | cons e es ih => rw [hiddenFrom, List.map_cons, ih]
  rw [ensembles, toList, List.cons_append, List.map_cons, List.map_append, hhidden]
  rfl

namespace Circuit

variable {c d : Circuit α} {layers : Layers} {e : EnsembleId} {us : List NeuronId} {m : Memory α}

/-- A circuit that a layer set can be run in: it is sound and has all ensembles of the layer set, with
neurons that exist. -/
structure Runs (c : Circuit α) (layers : Layers) : Prop where
  sound : c.Sound
  ensembles : ∀ e ∈ layers.ensembles, c.hasEnsemble e = true
  inhabits : c.Inhabits layers

namespace Runs

/-- That a layer set runs is a matter of wiring. -/
theorem of_sameWiring (h : c.Runs layers) (hw : SameWiring c d) : d.Runs layers where
  sound := h.sound.of_sameWiring hw
  ensembles := by
    intro e he
    have hlt := h.ensembles e he
    rw [hasEnsemble, hw.ensembles]
    exact hlt
  inhabits := by
    intro p hp
    rw [hw.neurons]
    exact h.inhabits p (hw.placements layers ▸ hp)

/-- The ensembles of a layer set that runs list neurons that exist. -/
theorem member_lt (h : c.Runs layers) (he : e ∈ layers.ensembles) {u : NeuronId}
    (hu : u ∈ c.members e) : u < c.neurons.size := by
  obtain ⟨⟨layer, _⟩, hle, rfl⟩ := List.mem_map.mp he
  exact h.inhabits ⟨u, layer⟩ (List.mem_flatMap.mpr ⟨_, hle, List.mem_map_of_mem hu⟩)

theorem input_mem (layers : Layers) : layers.input ∈ layers.ensembles := by
  simp [Layers.ensembles_eq]

theorem output_mem (layers : Layers) : layers.output ∈ layers.ensembles := by
  simp [Layers.ensembles_eq]

theorem hidden_mem {layers : Layers} (he : e ∈ layers.hidden) : e ∈ layers.ensembles := by
  simp [Layers.ensembles_eq, he]

end Runs

/-! ## Networks over such circuits -/

omit [Arithmetic α] in
/-- A layer set is accepted if the circuit has all its ensembles. -/
theorem create_eq_ok {n : Network α} (h : Network.create c layers = .ok n) :
    (∀ e ∈ layers.ensembles, c.hasEnsemble e = true) ∧
      n = { circuit := c, layers := layers.bind c.identity, mode := .pending } := by
  unfold Network.create at h
  split at h
  · cases h
  · next hnone =>
    rw [List.find?_eq_none] at hnone
    cases h
    exact ⟨fun e he => by simpa using hnone e he, rfl⟩

omit [Arithmetic α] in
/-- A network is created on ensembles that exist. -/
theorem create_ok (h : ∀ e ∈ layers.ensembles, c.hasEnsemble e = true) :
    ∃ n, Network.create c layers = .ok n := by
  unfold Network.create
  have hnone : layers.ensembles.find? (fun e => !c.hasEnsemble e) = none := by
    rw [List.find?_eq_none]
    intro e he
    simp [h e he]
  rw [hnone]
  exact ⟨_, rfl⟩

/-- What can be compiled exists, and the program is the lowered one. -/
theorem compile_eq_ok {ps : List Placement} {p : Program α} (h : c.compile ps = .ok p) :
    p = c.lower ps ∧ ∀ q ∈ ps, q.neuron < c.neurons.size := by
  obtain ⟨_, hps, h⟩ := bind_eq_ok_iff.mp h
  refine ⟨by cases h; rfl, fun q hq => ?_⟩
  have hfound := require_eq_ok_iff.mp (forM_eq_ok_iff.mp hps q hq)
  split at hfound
  · exact hasNeuron_iff.mp hfound
  · simp only [resolves, Bool.and_eq_true, hasNeuron_iff] at hfound
    exact hfound.1

omit [Arithmetic α] in
theorem Peopled.inhabits (h : c.Peopled) (layers : Layers) : c.Inhabits layers := by
  intro p hp
  obtain ⟨le, -, hp⟩ := List.mem_flatMap.mp hp
  obtain ⟨u, hu, rfl⟩ := List.mem_map.mp hp
  exact h.members_lt le.2 u hu

/-- Writing the memory of a program back fills the circuit with what the memory shows. -/
theorem restoreInto_fill (h : c.Runs layers) (τ : Environment α)
    (hsize : m.size = (c.program layers).symbols.length) :
    Program.restoreInto { c.program layers with memory := m } (c.fill τ) =
      .ok () (c.fill (m.view (c.program layers).symbols τ)) := by
  have hstore := storeAll_zip c τ (nodup_symbolsOf c (Placement.duties 0 (c.placements layers))) hsize
  refine Eq.trans ?_ (congrArg _ hstore)
  refine Op.checked_of_ok () ?_
  rw [require_eq_ok_iff]
  exact fits_lower h.sound h.inhabits (sameWiring_fill c τ) m

/-- A program writes each number of its memory back to the place it was loaded from. -/
theorem restoreInto_program (h : c.Runs layers)
    (hsize : m.size = (c.program layers).symbols.length) :
    Program.restoreInto { c.program layers with memory := m } c =
      .ok () (c.fill (m.view (c.program layers).symbols c.load)) := by
  have hrestore := restoreInto_fill h c.load hsize
  rwa [fill_load] at hrestore

/-! ## The neurons of a layer set -/

theorem SameWiring.hiddenMembers (h : SameWiring c d) (layers : Layers) :
    d.hiddenMembers layers = c.hiddenMembers layers :=
  List.flatMap_congr fun e _ => h.members e

/-- The neurons that fire in a forward pass. -/
def firing (c : Circuit α) (layers : Layers) : List NeuronId :=
  c.hiddenMembers layers ++ c.members layers.output

theorem Runs.firing_lt (h : c.Runs layers) : ∀ u ∈ c.firing layers, u < c.neurons.size := by
  intro u hu
  rcases List.mem_append.mp hu with hu | hu
  · exact h.inhabits.hidden_lt u hu
  · exact h.inhabits.output_lt u hu

theorem SameWiring.firing (hw : SameWiring c d) (layers : Layers) :
    d.firing layers = c.firing layers := by
  rw [Circuit.firing, Circuit.firing, hw.hiddenMembers, hw.members]

/-- The neurons of a layer set in canonical order. -/
def placed (c : Circuit α) (layers : Layers) : List NeuronId :=
  c.members layers.input ++ (c.hiddenMembers layers ++ c.members layers.output)

omit [Arithmetic α] in
/-- The placements list the neurons of a layer set in this order. -/
theorem placed_eq (c : Circuit α) (layers : Layers) :
    (c.placements layers).map (·.neuron) = c.placed layers := by
  have hlayer : ∀ (layer : Layer) (vs : List NeuronId),
      (vs.map fun neuron => ({ neuron, layer } : Placement)).map (·.neuron) = vs := by
    intro layer vs
    rw [List.map_map]
    exact List.map_id vs
  have hhidden : ∀ (k : Nat) (es : List EnsembleId),
      ((Layers.hiddenFrom k es).flatMap fun le =>
        (c.members le.2).map fun neuron => ({ neuron, layer := le.1 } : Placement)).map
          (·.neuron) = es.flatMap c.members := by
    intro k es
    induction es generalizing k with
    | nil => rfl
    | cons e es ih =>
      rw [Layers.hiddenFrom, List.flatMap_cons, List.map_append, hlayer, ih, List.flatMap_cons]
  rw [placements_eq, List.map_append, List.map_append, hlayer, hlayer, hhidden]
  rfl

theorem Runs.placed_lt (h : c.Runs layers) : ∀ u ∈ c.placed layers, u < c.neurons.size := by
  intro u hu
  rw [← placed_eq] at hu
  obtain ⟨p, hp, rfl⟩ := List.mem_map.mp hu
  exact h.inhabits p hp

theorem SameWiring.placed (hw : SameWiring c d) (layers : Layers) :
    d.placed layers = c.placed layers := by
  simp only [Circuit.placed, hw.members, hw.hiddenMembers]

omit [Arithmetic α] in
/-- The inputs come first, and the others fire. -/
theorem placed_eq_append (c : Circuit α) (layers : Layers) :
    c.placed layers = c.members layers.input ++ c.firing layers := rfl

omit [Arithmetic α] in
/-- One ensemble after another. -/
theorem placed_eq_flatMap (c : Circuit α) (layers : Layers) :
    c.placed layers = layers.ensembles.flatMap c.members := by
  simp [Circuit.placed, hiddenMembers, Layers.ensembles_eq]

/-! ## Runs of one ensemble -/

theorem sameWiring_stepAll (c : Circuit α) (us : List NeuronId) : SameWiring c (c.stepAll us) :=
  sameWiring_foldl sameWiring_step us c

theorem sameWiring_clampAll (c : Circuit α) (vs : List (NeuronId × α)) :
    SameWiring c (c.clampAll vs) := by
  refine sameWiring_foldl (fun d v => ?_) vs c
  exact sameWiring_clamp d v.1 v.2

theorem sameWiring_forwardPass (c : Circuit α) (layers : Layers) (input : List α) :
    SameWiring c (c.forwardPass layers input) :=
  ((sameWiring_clampAll c _).trans (sameWiring_stepAll _ _)).trans (sameWiring_stepAll _ _)

theorem sameWiring_backwardPass (c : Circuit α) (layers : Layers) (rate : α) (target : List α) :
    SameWiring c (c.backwardPass layers rate target) :=
  (sameWiring_propagateAll c _ _).trans (sameWiring_propagateAll _ _ _)

/-- Activating an ensemble with inputs sets its neurons from outside. -/
theorem activateEnsemble_some (he : c.hasEnsemble e = true)
    (hus : ∀ u ∈ c.members e, u < c.neurons.size) {input : List α}
    (hlen : input.length = (c.members e).length) :
    ∃ out, Edit.activateEnsemble e (some input) c =
      .ok out (c.clampAll ((c.members e).zip input)) := by
  rw [← activateAll_some]
  refine ⟨_, Op.checked_of_ok () ?_⟩
  refine bind_eq_ok_iff.mpr ⟨(), ?_, requireNeurons_eq_ok_iff.mpr hus⟩
  refine bind_eq_ok_iff.mpr ⟨(), require_eq_ok_iff.mpr he, ?_⟩
  exact checkLength_eq_ok_iff.mpr hlen.symm

theorem requireSteps_eq_ok (h : c.Sound) (he : c.hasEnsemble e = true)
    (hus : ∀ u ∈ c.members e, u < c.neurons.size) : c.requireSteps e = .ok () := by
  refine bind_eq_ok_iff.mpr ⟨(), require_eq_ok_iff.mpr he, ?_⟩
  exact forM_eq_ok_iff.mpr fun u hu => h.requireStep (hus u hu)

/-- Activating an ensemble without inputs takes one step of each of its neurons. -/
theorem activateEnsemble_none (h : c.Sound) (he : c.hasEnsemble e = true)
    (hus : ∀ u ∈ c.members e, u < c.neurons.size) :
    Edit.activateEnsemble e none c =
      .ok (c.activateAll ((c.members e).map (·, none))).1 (c.stepAll (c.members e)) := by
  rw [← activateAll_none]
  refine Op.checked_of_ok () ?_
  refine bind_eq_ok_iff.mpr ⟨(), ?_, requireSteps_eq_ok h he hus⟩
  exact bind_eq_ok_iff.mpr ⟨(), require_eq_ok_iff.mpr he, rfl⟩

/-- Training an ensemble with targets takes its neurons from the last to the first. -/
theorem propagateEnsemble_some (h : c.Sound) (he : c.hasEnsemble e = true)
    (hus : ∀ u ∈ c.members e, u < c.neurons.size) (rate : Option α) {target : List α}
    (hlen : target.length = (c.members e).length) :
    Edit.propagateEnsemble e rate (some target) c =
      .ok () (c.propagateAll rate ((c.members e).zip (target.map some)).reverse) := by
  refine Op.checked_of_ok () ?_
  refine bind_eq_ok_iff.mpr ⟨(), ?_, requireSteps_eq_ok h he hus⟩
  refine bind_eq_ok_iff.mpr ⟨(), require_eq_ok_iff.mpr he, ?_⟩
  exact checkLength_eq_ok_iff.mpr hlen.symm

theorem propagateEnsemble_none (h : c.Sound) (he : c.hasEnsemble e = true)
    (hus : ∀ u ∈ c.members e, u < c.neurons.size) (rate : Option α) :
    Edit.propagateEnsemble e rate none c =
      .ok () (c.propagateAll rate ((c.members e).map (·, none)).reverse) := by
  refine Op.checked_of_ok () ?_
  refine bind_eq_ok_iff.mpr ⟨(), ?_, requireSteps_eq_ok h he hus⟩
  exact bind_eq_ok_iff.mpr ⟨(), require_eq_ok_iff.mpr he, rfl⟩

/-! ## Runs of several ensembles -/

/-- Going through ensembles one after another, where each run succeeds in a circuit of the same
wiring. -/
theorem forM_ok {op : EnsembleId → Edit α Unit} {f : Circuit α → EnsembleId → Circuit α}
    {es : List EnsembleId} (hw : ∀ d e, SameWiring d (f d e))
    (hop : ∀ e ∈ es, ∀ d, SameWiring c d → op e d = .ok () (f d e)) :
    es.forM op c = .ok () (es.foldl f c) := by
  have hrun : ∀ d, SameWiring c d → es.forM op d = .ok () (es.foldl f d) := by
    induction es with
    | nil => exact fun d _ => rfl
    | cons e es ih =>
      intro d hd
      obtain ⟨he, hes⟩ := List.forall_mem_cons.mp hop
      exact (Op.bind_of_ok (he d hd)).trans (ih hes _ (hd.trans (hw d e)))
  exact hrun c (.refl c)

/-- Steps of one ensemble after another are steps of all their neurons. -/
theorem foldl_stepAll (c : Circuit α) (es : List EnsembleId) :
    es.foldl (fun d e => d.stepAll (c.members e)) c = c.stepAll (es.flatMap c.members) := by
  have hfold : ∀ d : Circuit α, es.foldl (fun d e => d.stepAll (c.members e)) d =
      d.stepAll (es.flatMap c.members) := by
    induction es with
    | nil => exact fun d => rfl
    | cons e es ih =>
      intro d
      rw [List.foldl_cons, ih, List.flatMap_cons]
      exact List.foldl_append.symm
  exact hfold c

/-- All hidden ensembles take their steps. -/
theorem activateHidden_ok (h : c.Runs layers) :
    (layers.hidden.forM fun e => do let _ ← Edit.activateEnsemble e none : Edit α Unit) c =
      .ok () (c.stepAll (c.hiddenMembers layers)) := by
  rw [hiddenMembers, ← foldl_stepAll]
  refine forM_ok (fun d e => sameWiring_stepAll d _) fun e he d hd => ?_
  have hrun := h.of_sameWiring hd
  have hmembers : ∀ u ∈ d.members e, u < d.neurons.size := by
    intro u hu
    refine hrun.inhabits.hidden_lt u ?_
    exact List.mem_flatMap.mpr ⟨e, he, hu⟩
  have hok := activateEnsemble_none hrun.sound (hrun.ensembles e (Runs.hidden_mem he)) hmembers
  rw [hd.members] at hok
  exact Op.bind_of_ok hok

/-- A forward pass succeeds and leaves what `forwardPass` says. -/
theorem stepForward_ok (h : c.Runs layers) {input : List α}
    (hlen : input.length = (c.members layers.input).length) :
    Network.stepForward input layers c =
      .ok (((c.clampAll ((c.members layers.input).zip input)).stepAll
          (c.hiddenMembers layers)).activateAll ((c.members layers.output).map (·, none))).1
        (c.forwardPass layers input) := by
  obtain ⟨out, hinput⟩ := activateEnsemble_some (h.ensembles _ (Runs.input_mem layers))
    h.inhabits.input_lt hlen
  have hclamp := sameWiring_clampAll c ((c.members layers.input).zip input)
  -- each part starts from another circuit, which has the same wiring
  have hhidden := activateHidden_ok (h.of_sameWiring hclamp)
  rw [hclamp.hiddenMembers] at hhidden
  have hstep := sameWiring_stepAll (c.clampAll ((c.members layers.input).zip input))
    (c.hiddenMembers layers)
  have hrun := h.of_sameWiring (hclamp.trans hstep)
  have houtput := activateEnsemble_none hrun.sound (hrun.ensembles _ (Runs.output_mem layers))
    hrun.inhabits.output_lt
  rw [(hclamp.trans hstep).members] at houtput
  exact (Op.bind_of_ok hinput).trans ((Op.bind_of_ok hhidden).trans houtput)

/-- Training one ensemble after another, from the last, trains all their neurons from the last. -/
theorem foldl_propagateAll (c : Circuit α) (rate : Option α) (es : List EnsembleId) :
    es.reverse.foldl (fun d e => d.propagateAll rate ((c.members e).map (·, none)).reverse) c =
      c.propagateAll rate ((es.flatMap c.members).map (·, none)).reverse := by
  have hfold : ∀ (es : List EnsembleId) (d : Circuit α),
      es.foldl (fun d e => d.propagateAll rate ((c.members e).map (·, none)).reverse) d =
        d.propagateAll rate (es.flatMap fun e => ((c.members e).map (·, none)).reverse) := by
    intro es
    induction es with
    | nil => exact fun d => rfl
    | cons e es ih =>
      intro d
      rw [List.foldl_cons, ih, List.flatMap_cons, propagateAll_append]
  rw [hfold, List.map_flatMap, List.reverse_flatMap]
  rfl

/-- A backward pass succeeds and leaves what `backwardPass` says. -/
theorem stepBackward_ok (h : c.Runs layers) (rate : α) {target : List α}
    (hlen : target.length = (c.members layers.output).length) :
    Network.stepBackward rate target layers c = .ok () (c.backwardPass layers rate target) := by
  have houtput := propagateEnsemble_some h.sound (h.ensembles _ (Runs.output_mem layers))
    h.inhabits.output_lt (some rate) hlen
  have hwiring := sameWiring_propagateAll c (some rate)
    ((c.members layers.output).zip (target.map some)).reverse
  have hrun := h.of_sameWiring hwiring
  refine (Op.bind_of_ok houtput).trans ?_
  -- errors come back layer by layer, from the last hidden one to the first
  rw [backwardPass, ← hwiring.hiddenMembers, hiddenMembers, ← foldl_propagateAll]
  refine forM_ok (fun d e => sameWiring_propagateAll d _ _) fun e he d hd => ?_
  have hrun' := hrun.of_sameWiring hd
  have hmem := List.mem_reverse.mp he
  have hmembers : ∀ u ∈ d.members e, u < d.neurons.size := by
    intro u hu
    exact hrun'.inhabits.hidden_lt u (List.mem_flatMap.mpr ⟨e, hmem, hu⟩)
  have hok := propagateEnsemble_none hrun'.sound (hrun'.ensembles e (Runs.hidden_mem hmem)) hmembers
    (some rate)
  rw [hd.members] at hok
  exact hok

/-! ## What steps leave alone -/

theorem link_clampAll (c : Circuit α) (vs : List (NeuronId × α)) (l : LinkId) :
    (c.clampAll vs).link l = c.link l := by
  induction vs generalizing c with
  | nil => rfl
  | cons v vs ih => exact ih (c.clamp v.1 v.2)

theorem neuron_clampAll_of_not_mem (c : Circuit α) {vs : List (NeuronId × α)} {v : NeuronId}
    (hv : v ∉ vs.map (·.1)) : (c.clampAll vs).neuron v = c.neuron v := by
  induction vs generalizing c with
  | nil => rfl
  | cons w ws ih =>
    rw [List.map_cons, List.mem_cons, not_or] at hv
    exact (ih (c.clamp w.1 w.2) hv.2).trans (neuron_modifyNeuron_ne hv.1)

/-- Steps of other neurons leave the record of a neuron alone. -/
theorem neuron_stepAll_of_not_mem (c : Circuit α) {v : NeuronId} (hv : v ∉ us) :
    (c.stepAll us).neuron v = c.neuron v := by
  induction us generalizing c with
  | nil => rfl
  | cons u us ih =>
    rw [List.mem_cons, not_or] at hv
    obtain ⟨hne, hus⟩ := hv
    rw [stepAll_cons, ih _ hus, neuron_step_ne c hne]

/-- An input listed once holds what it is given. -/
theorem neuron_clampAll {vs : List (NeuronId × α)} {p : NeuronId × α}
    (hvs : ∀ q ∈ vs, q.1 < c.neurons.size) (hnodup : (vs.map (·.1)).Nodup) (hp : p ∈ vs) :
    (c.clampAll vs).neuron p.1 =
      { c.neuron p.1 with activation := p.2, derivative := 0, bias := 0 } := by
  induction vs generalizing c with
  | nil => cases hp
  | cons q qs ih =>
    obtain ⟨hq, hqs⟩ := List.forall_mem_cons.mp hvs
    rw [List.map_cons, List.nodup_cons] at hnodup
    show ((c.clamp q.1 q.2).clampAll qs).neuron p.1 = _
    rcases List.mem_cons.mp hp with rfl | hp
    · rw [neuron_clampAll_of_not_mem _ hnodup.1]
      exact neuron_modifyNeuron_self hq
    · have hne : p.1 ≠ q.1 := fun heq => hnodup.1 (heq ▸ List.mem_map_of_mem hp)
      have hsize : (c.clamp q.1 q.2).neurons.size = c.neurons.size := size_neurons_modifyNeuron
      rw [ih (hsize ▸ hqs) hnodup.2 hp]
      simp only [clamp, neuron_modifyNeuron_ne hne]

/-! ## Outputs -/

theorem length_activateAll (c : Circuit α) (us : List NeuronId) :
    (c.activateAll (us.map (·, none))).1.length = us.length := by
  induction us generalizing c with
  | nil => rfl
  | cons u us ih => exact congrArg (· + 1) (ih (c.step u))

/-- The activation given out in a place is the one that its neuron has right after the step there. -/
theorem getElem?_activateAll (c : Circuit α) {j : Nat} {u : NeuronId} (hj : us[j]? = some u) :
    (c.activateAll (us.map (·, none))).1[j]? =
      some ((c.stepAll (us.take (j + 1))).neuron u).activation := by
  induction us generalizing c j with
  | nil => simp at hj
  | cons v us ih =>
    cases j with
    | zero =>
      obtain rfl : v = u := by simpa using hj
      rfl
    | succ j => exact ih (c.step v) (by simpa using hj)

/-- In the last place of a neuron that is the one it has in the end. -/
theorem getElem?_activateAll_last (c : Circuit α) {j : Nat} {u : NeuronId} (hj : us[j]? = some u)
    (hlast : u ∉ us.drop (j + 1)) :
    (c.activateAll (us.map (·, none))).1[j]? = some ((c.stepAll us).neuron u).activation := by
  have hsplit : c.stepAll us = (c.stepAll (us.take (j + 1))).stepAll (us.drop (j + 1)) := by
    rw [← stepAll_append, List.take_append_drop]
  rw [getElem?_activateAll c hj, hsplit, neuron_stepAll_of_not_mem _ hlast]

/-- If no neuron is listed twice, the activations given out are the last ones. -/
theorem activateAll_fst (c : Circuit α) (hnodup : us.Nodup) :
    (c.activateAll (us.map (·, none))).1 =
      us.map fun u => ((c.stepAll us).neuron u).activation := by
  induction us generalizing c with
  | nil => rfl
  | cons u us ih =>
    obtain ⟨hu, hus⟩ := List.nodup_cons.mp hnodup
    have hhead := neuron_stepAll_of_not_mem (c.step u) hu
    show ((c.step u).neuron u).activation :: ((c.step u).activateAll (us.map (·, none))).1 = _
    rw [ih _ hus, List.map_cons, stepAll_cons, hhead]

end Circuit

/-! ## Passes in either direction -/

/-- A pass through a network: forward from an input, or backward from a rate and a target. -/
inductive Pass (α : Type) where
  | forward (input : List α)
  | backward (rate : α) (target : List α)

namespace Pass

/-- Does the pass come with as many values as the layer set takes? -/
def Suits (c : Circuit α) (layers : Layers) : Pass α → Prop
  | forward input => input.length = (c.members layers.input).length
  | backward _ target => target.length = (c.members layers.output).length

instance (c : Circuit α) (layers : Layers) : (q : Pass α) → Decidable (q.Suits c layers)
  | forward input => inferInstanceAs (Decidable (input.length = _))
  | backward _ target => inferInstanceAs (Decidable (target.length = _))

/-- Takes a pass step by step in the circuit. -/
def walk (layers : Layers) : Pass α → Edit α Unit
  | forward input => do let _ ← Network.stepForward input layers
  | backward rate target => Network.stepBackward rate target layers

/-- Takes a pass with a program. -/
def run : Pass α → Op (Program α) Unit
  | forward input => do let _ ← Program.activate input
  | backward rate target => Program.propagate rate target

end Pass

namespace Circuit

variable {c : Circuit α} {layers : Layers} {σ : Environment α} {m : Memory α}

/-- A program takes a pass as the circuit does. -/
theorem run_pass [NeutralOne α] (h : c.Runs layers) (hσ : c.Neutral σ)
    (hsize : m.size = (c.program layers).symbols.length) {q : Pass α} (hq : q.Suits c layers) :
    ∃ m' : Memory α, m'.size = (c.program layers).symbols.length ∧
      q.run { c.program layers with memory := m } =
        .ok () { c.program layers with memory := m' } ∧
      q.walk layers (c.fill (m.view (c.program layers).symbols σ)) =
        .ok () (c.fill (m'.view (c.program layers).symbols σ)) := by
  have hfilled := h.of_sameWiring (sameWiring_fill c (m.view (c.program layers).symbols σ))
  cases q with
  | forward input =>
    obtain ⟨m', hsize', hrun, hfill⟩ := activate_program h.sound h.inhabits hσ hsize hq
    refine ⟨m', hsize', Op.bind_of_ok hrun, ?_⟩
    rw [hfill]
    exact Op.bind_of_ok (stepForward_ok hfilled hq)
  | backward rate target =>
    obtain ⟨m', hsize', hrun, hfill⟩ := propagate_program h.sound h.inhabits hσ hsize rate hq
    refine ⟨m', hsize', hrun, ?_⟩
    rw [hfill]
    exact stepBackward_ok hfilled rate hq

/-- A program takes any passes as the circuit does. -/
theorem run_passes [NeutralOne α] (h : c.Runs layers) (hσ : c.Neutral σ)
    (hsize : m.size = (c.program layers).symbols.length) {qs : List (Pass α)}
    (hqs : ∀ q ∈ qs, q.Suits c layers) :
    ∃ m' : Memory α, m'.size = (c.program layers).symbols.length ∧
      qs.forM Pass.run { c.program layers with memory := m } =
        .ok () { c.program layers with memory := m' } ∧
      qs.forM (Pass.walk layers) (c.fill (m.view (c.program layers).symbols σ)) =
        .ok () (c.fill (m'.view (c.program layers).symbols σ)) := by
  induction qs generalizing m with
  | nil => exact ⟨m, hsize, rfl, rfl⟩
  | cons q qs ih =>
    obtain ⟨hq, hqs⟩ := List.forall_mem_cons.mp hqs
    obtain ⟨m₁, hsize₁, hrun₁, hwalk₁⟩ := run_pass h hσ hsize hq
    obtain ⟨m₂, hsize₂, hrun₂, hwalk₂⟩ := ih hsize₁ hqs
    exact ⟨m₂, hsize₂, (Op.bind_of_ok hrun₁).trans hrun₂, (Op.bind_of_ok hwalk₁).trans hwalk₂⟩

end Circuit

end GatedNetwork
