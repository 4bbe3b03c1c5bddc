import GatedNetwork.Proofs.Network.Passes

/-!
# Turns

In a pass that lists no neuron twice, every neuron has one turn. A forward step changes no record but
that of its neuron, and a backward step changes beside it only links that end there. So a neuron is in
the end what its own step made of it, and what it was at first until then.

* `neuron_stepAll_turn`, `neuron_propagateAll_turn`, `link_propagateAll_turn`
* `goals` — the neurons of a backward pass with their targets, in canonical order
-/

namespace GatedNetwork

variable {α : Type} [Arithmetic α]

namespace Circuit

variable {c : Circuit α} {layers : Layers} {u v : NeuronId} {l : LinkId}

/-! ## Forward -/

section Forward

variable {us vs : List NeuronId}

/-- Until its turn a neuron is what it was at first. -/
theorem neuron_stepAll_before (c : Circuit α) (hnodup : (us ++ u :: vs).Nodup) :
    (c.stepAll us).neuron u = c.neuron u :=
  neuron_stepAll_of_not_mem c fun hu =>
    (List.nodup_append.mp hnodup).2.2 u hu u List.mem_cons_self rfl

/-- After its turn a neuron stays as it is. -/
theorem neuron_stepAll_turn (c : Circuit α) (hnodup : (us ++ u :: vs).Nodup) :
    (c.stepAll (us ++ u :: vs)).neuron u = ((c.stepAll us).step u).neuron u := by
  have hu : u ∉ vs := (List.nodup_cons.mp (List.nodup_append.mp hnodup).2.1).1
  rw [stepAll_append, stepAll_cons, neuron_stepAll_of_not_mem _ hu]

/-- So do neurons that have had their turns, or have none. -/
theorem neuron_stepAll_earlier (c : Circuit α) (hv : v ∉ u :: vs) :
    (c.stepAll (us ++ u :: vs)).neuron v = (c.stepAll us).neuron v := by
  rw [stepAll_append, neuron_stepAll_of_not_mem _ hv]

end Forward

/-! ## Backward -/

section Backward

variable {r : α} {t : Option α} {ps qs : List (NeuronId × Option α)}

theorem neuron_propagateAll_of_not_mem (c : Circuit α) (rate : Option α)
    (hv : v ∉ ps.map (·.1)) : (c.propagateAll rate ps).neuron v = c.neuron v := by
  induction ps generalizing c with
  | nil => rfl
  | cons p ps ih =>
    rw [List.map_cons, List.mem_cons, not_or] at hv
    rw [propagateAll_cons, ih _ hv.2, neuron_propagateNeuron_ne c rate p.2 hv.1]

/-- Links that end elsewhere are left alone. -/
theorem link_propagateAll_of_not_mem (h : c.Sound) (hps : ∀ p ∈ ps, p.1 < c.neurons.size)
    (hl : (c.link l).target ∉ ps.map (·.1)) :
    (c.propagateAll (some r) ps).link l = c.link l := by
  induction ps generalizing c with
  | nil => rfl
  | cons p ps ih =>
    obtain ⟨hp, hps⟩ := List.forall_mem_cons.mp hps
    rw [List.map_cons, List.mem_cons, not_or] at hl
    have hw := sameWiring_propagateNeuron c p.1 (some r) p.2
    have hkept : (c.propagateNeuron p.1 (some r) p.2).link l = c.link l := by
      rw [link_propagateNeuron h hp, if_neg fun hmem => hl.1 ((h.mem_inputs _ hp l).mp hmem).2.1]
    rw [propagateAll_cons, ih (h.of_sameWiring hw) (hw.neurons ▸ hps) (hw.target l ▸ hl.2), hkept]

/-- Of a link nothing but the weight changes, and loops keep theirs. -/
theorem link_propagateAll (h : c.Sound) (hps : ∀ p ∈ ps, p.1 < c.neurons.size) (l : LinkId) :
    ∃ weight, (c.propagateAll (some r) ps).link l = { c.link l with weight } ∧
      ((c.link l).source = (c.link l).target → weight = (c.link l).weight) := by
  induction ps generalizing c with
  | nil => exact ⟨_, rfl, fun _ => rfl⟩
  | cons p ps ih =>
    obtain ⟨hp, hps⟩ := List.forall_mem_cons.mp hps
    have hw := sameWiring_propagateNeuron c p.1 (some r) p.2
    obtain ⟨weight, hrest, hloop⟩ := ih (h.of_sameWiring hw) (hw.neurons ▸ hps)
    rw [hw.source, hw.target] at hloop
    have hstep := link_propagateNeuron h hp r p.2 l
    rw [propagateAll_cons]
    by_cases hl : l ∈ (c.neuron p.1).inputs
    · rw [if_pos hl] at hstep
      refine ⟨weight, by rw [hrest, hstep], fun hends => ?_⟩
      obtain ⟨-, htarget, hne⟩ := (h.mem_inputs _ hp l).mp hl
      exact absurd (hends.trans htarget) hne
    · rw [if_neg hl] at hstep
      exact ⟨weight, by rw [hrest, hstep], fun hends => (hloop hends).trans (by rw [hstep])⟩

/-- Of a neuron nothing but the error terms and the bias changes. -/
theorem neuron_propagateAll (hps : ∀ p ∈ ps, p.1 < c.neurons.size) (v : NeuronId) :
    ∃ error bias, (c.propagateAll (some r) ps).neuron v = { c.neuron v with error, bias } := by
  induction ps generalizing c with
  | nil => exact ⟨_, _, rfl⟩
  | cons p ps ih =>
    obtain ⟨hp, hps⟩ := List.forall_mem_cons.mp hps
    have hw := sameWiring_propagateNeuron c p.1 (some r) p.2
    obtain ⟨error, bias, hrest⟩ := ih (c := c.propagateNeuron p.1 (some r) p.2) (hw.neurons ▸ hps)
    refine ⟨error, bias, hrest.trans ?_⟩
    by_cases hv : v = p.1
    · obtain ⟨error', hassign⟩ := neuron_assignError_self hp p.2
      rw [hv, neuron_propagateNeuron_self hp, hassign]
    · rw [neuron_propagateNeuron_ne c (some r) p.2 hv]

theorem neuron_propagateAll_before (c : Circuit α) (rate : Option α)
    (hnodup : ((ps ++ (u, t) :: qs).map (·.1)).Nodup) :
    (c.propagateAll rate ps).neuron u = c.neuron u := by
  rw [List.map_append] at hnodup
  exact neuron_propagateAll_of_not_mem c rate fun hu =>
    (List.nodup_append.mp hnodup).2.2 u hu u List.mem_cons_self rfl

theorem neuron_propagateAll_turn (c : Circuit α) (rate : Option α)
    (hnodup : ((ps ++ (u, t) :: qs).map (·.1)).Nodup) :
    (c.propagateAll rate (ps ++ (u, t) :: qs)).neuron u =
      ((c.propagateAll rate ps).propagateNeuron u rate t).neuron u := by
  rw [List.map_append] at hnodup
  have hu : u ∉ qs.map (·.1) := (List.nodup_cons.mp (List.nodup_append.mp hnodup).2.1).1
  rw [propagateAll_append, propagateAll_cons, neuron_propagateAll_of_not_mem _ rate hu]

/-- The links into a neuron change in its turn only. -/
theorem link_propagateAll_turn (h : c.Sound)
    (hps : ∀ p ∈ ps ++ (u, t) :: qs, p.1 < c.neurons.size)
    (hnodup : ((ps ++ (u, t) :: qs).map (·.1)).Nodup) (hl : (c.link l).target = u) :
    (c.propagateAll (some r) ps).link l = c.link l ∧
      (c.propagateAll (some r) (ps ++ (u, t) :: qs)).link l =
        ((c.propagateAll (some r) ps).propagateNeuron u (some r) t).link l := by
  obtain ⟨hps, hqs⟩ := List.forall_mem_append.mp hps
  obtain ⟨hu, hqs⟩ := List.forall_mem_cons.mp hqs
  rw [List.map_append, List.map_cons, List.nodup_append, List.nodup_cons] at hnodup
  obtain ⟨-, ⟨huqs, -⟩, hdisjoint⟩ := hnodup
  have hw := (sameWiring_propagateAll c (some r) ps).trans
    (sameWiring_propagateNeuron _ u (some r) t)
  constructor
  · refine link_propagateAll_of_not_mem h hps fun hmem => ?_
    exact hdisjoint _ hmem u List.mem_cons_self hl
  · rw [propagateAll_append, propagateAll_cons]
    refine link_propagateAll_of_not_mem (h.of_sameWiring hw) (hw.neurons ▸ hqs) ?_
    rwa [hw.target, hl]

/-- Neurons that have had their turns, or have none, stay as they are, and so do the links into them. -/
theorem propagateAll_earlier (h : c.Sound) (hps : ∀ p ∈ ps ++ (u, t) :: qs, p.1 < c.neurons.size)
    (hv : v ∉ ((u, t) :: qs).map (·.1)) :
    (c.propagateAll (some r) (ps ++ (u, t) :: qs)).neuron v =
        (c.propagateAll (some r) ps).neuron v ∧
      ∀ l, (c.link l).target = v → (c.propagateAll (some r) (ps ++ (u, t) :: qs)).link l =
        (c.propagateAll (some r) ps).link l := by
  have hw := sameWiring_propagateAll c (some r) ps
  have hrest := (List.forall_mem_append.mp hps).2
  rw [propagateAll_append]
  refine ⟨neuron_propagateAll_of_not_mem _ _ hv, fun l hl => ?_⟩
  refine link_propagateAll_of_not_mem (h.of_sameWiring hw) (hw.neurons ▸ hrest) ?_
  rwa [hw.target, hl]

end Backward

/-! ## The turns of a pass -/

/-- In a forward pass inputs are set, and then the other neurons fire in canonical order. -/
theorem forwardPass_eq (c : Circuit α) (layers : Layers) (input : List α) :
    c.forwardPass layers input =
      (c.clampAll ((c.members layers.input).zip input)).stepAll (c.firing layers) := by
  rw [forwardPass, firing, stepAll_append]

/-- The neurons that take a backward step in canonical order, with their targets if they have any. -/
def goals (c : Circuit α) (layers : Layers) (target : List α) : List (NeuronId × Option α) :=
  (c.hiddenMembers layers).map (·, none) ++ (c.members layers.output).zip (target.map some)

/-- A backward pass goes through them in reverse. -/
theorem backwardPass_eq (c : Circuit α) (layers : Layers) (rate : α) (target : List α) :
    c.backwardPass layers rate target =
      c.propagateAll (some rate) (c.goals layers target).reverse := by
  rw [backwardPass, goals, List.reverse_append, propagateAll_append]

omit [Arithmetic α] in
theorem map_fst_goals {target : List α} (hlen : target.length = (c.members layers.output).length) :
    (c.goals layers target).map (·.1) = c.firing layers := by
  rw [goals, List.map_append, List.map_map, List.map_fst_zip (by simp [hlen])]
  exact congrArg (· ++ _) (List.map_id _)

omit [Arithmetic α] in
theorem goals_output {p : NeuronId × α} {target : List α}
    (hp : p ∈ (c.members layers.output).zip target) : (p.1, some p.2) ∈ c.goals layers target := by
  rw [goals, List.zip_map_right]
  exact List.mem_append_right _ (List.mem_map_of_mem (f := Prod.map id some) hp)

omit [Arithmetic α] in
theorem goals_hidden (hu : u ∈ c.hiddenMembers layers) (target : List α) :
    (u, none) ∈ c.goals layers target :=
  List.mem_append_left _ (List.mem_map_of_mem hu)

omit [Arithmetic α] in
theorem exists_goal {target : List α} (hlen : target.length = (c.members layers.output).length)
    (hu : u ∈ c.firing layers) : ∃ t, (u, t) ∈ c.goals layers target := by
  rw [← map_fst_goals hlen] at hu
  obtain ⟨⟨v, t⟩, hp, rfl⟩ := List.mem_map.mp hu
  exact ⟨t, hp⟩

theorem Runs.goals_lt (h : c.Runs layers) {target : List α}
    (hlen : target.length = (c.members layers.output).length) :
    ∀ p ∈ (c.goals layers target).reverse, p.1 < c.neurons.size := fun _ hp =>
  h.firing_lt _ (map_fst_goals hlen ▸ List.mem_map_of_mem (List.mem_reverse.mp hp))

/-- A backward pass does not touch what the forward pass made of a neuron. -/
theorem neuron_backwardPass (h : c.Runs layers) (rate : α) {target : List α}
    (hlen : target.length = (c.members layers.output).length) (v : NeuronId) :
    ∃ error bias, (c.backwardPass layers rate target).neuron v = { c.neuron v with error, bias } := by
  rw [backwardPass_eq]
  exact neuron_propagateAll (h.goals_lt hlen) v

end Circuit

end GatedNetwork
