import GatedNetwork.Proofs.Circuit.Sound

/-!
# What a step of one neuron changes

A forward step of a neuron changes its own record and the gains of the links it gates. A value from
outside changes its record only. A backward step changes its error terms and its bias, and the weights
of the links into it.
-/

namespace GatedNetwork

variable {α : Type} [Arithmetic α]

namespace Circuit

variable {c : Circuit α} {u v : NeuronId} {l : LinkId}

/-! ## Gains -/

theorem neuron_setGains (c : Circuit α) (ls : List LinkId) (x : α) (v : NeuronId) :
    (ls.foldl (fun d l => d.setGain l x) c).neuron v = c.neuron v := by
  induction ls generalizing c with
  | nil => rfl
  | cons l ls ih => exact ih (c.setGain l x)

theorem link_setGains {ls : List LinkId} (x : α) (hl : l < c.links.size) :
    (ls.foldl (fun d k => d.setGain k x) c).link l =
      if l ∈ ls then { c.link l with gain := x } else c.link l := by
  induction ls generalizing c with
  | nil => simp
  | cons k ks ih =>
    have hsize : l < (c.setGain k x).links.size := by simpa [setGain] using hl
    rw [List.foldl_cons, ih hsize]
    by_cases hk : l = k
    · subst hk
      have hself : (c.setGain l x).link l = { c.link l with gain := x } := link_modifyLink_self hl
      simp [hself]
    · have hne : (c.setGain k x).link l = c.link l := link_modifyLink_ne hk
      simp [hne, hk]

/-! ## Forward steps -/

/-- A step of one neuron leaves the records of the others alone. -/
theorem neuron_step_ne (c : Circuit α) {u v : NeuronId} (hv : v ≠ u) :
    (c.step u).neuron v = c.neuron v := by
  rw [step, driveGains, neuron_setGains, retrace, neuron_modifyNeuron_ne hv, fire,
    neuron_modifyNeuron_ne hv]

/-- The record of a neuron after its step, apart from its traces. -/
theorem neuron_step_self (hu : u < c.neurons.size) :
    ∃ trace : Traces α, (c.step u).neuron u =
      { c.neuron u with
        previous := (c.neuron u).state
        state := c.nextState u
        activation := (Arithmetic.squash (c.neuron u).transfer (c.nextState u)).1
        derivative := (Arithmetic.squash (c.neuron u).transfer (c.nextState u)).2
        trace } := by
  have hfire : u < (c.fire u).neurons.size := by simpa [fire] using hu
  rw [step, driveGains, neuron_setGains, retrace, neuron_modifyNeuron_self hfire, fire,
    neuron_modifyNeuron_self hu]
  exact ⟨_, rfl⟩

/-- The eligibility of an incoming link before and after a step. A link never starts where it ends, so the
source is as it was before. -/
theorem find?_eligibility_step (h : c.Sound) (hu : u < c.neurons.size)
    (hl : l ∈ (c.neuron u).inputs) :
    ∃ old, (c.neuron u).trace.eligibility.find? l = some old ∧
      ((c.step u).neuron u).trace.eligibility.find? l =
      some (c.recurrence u * old + (c.link l).gain * c.sourceActivation l) := by
  have hsource : (c.link l).source ≠ u := ((h.mem_inputs u hu l).mp hl).2.2
  obtain ⟨old, hold⟩ : ∃ old, (c.neuron u).trace.eligibility.find? l = some old :=
    IdMap.mem_keys_iff.mp ((h.eligibility_keys u hu).symm ▸ hl)
  have hfire : u < (c.fire u).neurons.size := by simpa [fire] using hu
  refine ⟨old, hold, ?_⟩
  rw [step, driveGains, neuron_setGains, retrace, neuron_modifyNeuron_self hfire]
  have hself : (c.fire u).neuron u = _ := neuron_modifyNeuron_self hu
  have hother : (c.fire u).neuron (c.link l).source = c.neuron (c.link l).source :=
    neuron_modifyNeuron_ne hsource
  simp only [IdMap.find?_mapWithKey, hself, hold, Option.map_some, nextEligibility, recurrence, loopOf,
    sourceActivation]
  rw [show (c.fire u).link l = c.link l from rfl, hother]
  rfl

/-- A step of a neuron gives its new activation to the links it gates and leaves other links alone. -/
theorem link_step (h : c.Sound) (hu : u < c.neurons.size) (hl : l < c.links.size) :
    (c.step u).link l =
      if (c.link l).gater = some u then
        { c.link l with gain := (Arithmetic.squash (c.neuron u).transfer (c.nextState u)).1 }
      else c.link l := by
  have hsize : l < ((c.fire u).retrace u).links.size := hl
  have hneuron : ((c.fire u).retrace u).neuron u = (c.step u).neuron u := by
    rw [step, driveGains, neuron_setGains]
  obtain ⟨trace, hself⟩ := neuron_step_self hu
  rw [step, driveGains, link_setGains _ hsize, hneuron, hself]
  have hgated : l ∈ (c.neuron u).gated.toList ↔ (c.link l).gater = some u :=
    (h.mem_gated u hu l).trans (and_iff_right hl)
  simp only [hgated]
  rfl

theorem lt_of_gated (hg : (c.link l).gater = some u) : l < c.links.size := by
  refine Nat.lt_of_not_le fun hle => ?_
  rw [link_of_le hle] at hg
  cases hg

theorem gain_step (h : c.Sound) (hu : u < c.neurons.size) (l : LinkId) :
    ((c.step u).link l).gain =
      if (c.link l).gater = some u then ((c.step u).neuron u).activation else (c.link l).gain := by
  by_cases hl : l < c.links.size
  · obtain ⟨trace, hself⟩ := neuron_step_self hu
    rw [link_step h hu hl, hself]
    split <;> rfl
  · have hsize := (sameWiring_step c u).links
    have hg : (c.link l).gater ≠ some u := fun hg => hl (lt_of_gated hg)
    rw [if_neg hg, link_of_le (Nat.le_of_not_lt hl), link_of_le (hsize ▸ Nat.le_of_not_lt hl)]

/-! ## Backward steps -/

theorem neuron_assignError_ne (c : Circuit α) (target : Option α) (hv : v ≠ u) :
    (c.assignError u target).neuron v = c.neuron v := by
  cases target <;> exact neuron_modifyNeuron_ne hv

/-- Only the error terms of the neuron itself are assigned. -/
theorem neuron_assignError_self (hu : u < c.neurons.size) (target : Option α) :
    ∃ error, (c.assignError u target).neuron u = { c.neuron u with error } := by
  cases target with
  | some t => exact ⟨_, neuron_modifyNeuron_self hu⟩
  | none => exact ⟨_, neuron_modifyNeuron_self hu⟩

theorem link_assignError (c : Circuit α) (u : NeuronId) (target : Option α) (l : LinkId) :
    (c.assignError u target).link l = c.link l := by
  cases target <;> rfl

theorem neuron_correctWeights (c : Circuit α) (u : NeuronId) (r : α) (v : NeuronId) :
    (c.correctWeights u r).neuron v = c.neuron v := by
  have hfold : ∀ (ls : List LinkId) (d : Circuit α), (ls.foldl (fun d l => d.modifyLink l fun k =>
      { k with weight := k.weight + r * c.gradient u l }) d).neuron v = d.neuron v := by
    intro ls
    induction ls with
    | nil => exact fun d => rfl
    | cons l ls ih => exact fun d => ih (d.modifyLink l _)
  exact hfold _ c

/-- Each incoming link is corrected once. -/
theorem link_correctWeights (h : c.Sound) (hu : u < c.neurons.size) (r : α) (l : LinkId) :
    (c.correctWeights u r).link l =
      if l ∈ (c.neuron u).inputs then
        { c.link l with weight := (c.link l).weight + r * c.gradient u l }
      else c.link l := by
  have hfold : ∀ (ls : List LinkId) (d : Circuit α), ls.Nodup → (∀ k ∈ ls, k < d.links.size) →
      (ls.foldl (fun d l => d.modifyLink l fun k =>
        { k with weight := k.weight + r * c.gradient u l }) d).link l =
      if l ∈ ls then { d.link l with weight := (d.link l).weight + r * c.gradient u l }
      else d.link l := by
    intro ls
    induction ls with
    | nil => intro d _ _; simp
    | cons k ks ih =>
      intro d hnodup hlt
      obtain ⟨hk, hks⟩ := List.nodup_cons.mp hnodup
      obtain ⟨hkd, hksd⟩ := List.forall_mem_cons.mp hlt
      rw [List.foldl_cons, ih _ hks (by simpa using hksd)]
      by_cases hlk : l = k
      · subst hlk
        rw [if_neg hk, if_pos List.mem_cons_self, link_modifyLink_self hkd]
      · rw [link_modifyLink_ne hlk]
        simp [hlk]
  exact hfold _ c (c.neuron u).inputs.nodup fun k hk => ((h.mem_inputs u hu k).mp hk).1

/-- A backward step of one neuron leaves the records of the others alone. -/
theorem neuron_propagateNeuron_ne (c : Circuit α) (rate target : Option α) (hv : v ≠ u) :
    (c.propagateNeuron u rate target).neuron v = c.neuron v := by
  rw [propagateNeuron, correctBias, neuron_modifyNeuron_ne hv, neuron_correctWeights,
    neuron_assignError_ne c target hv]

/-- The bias of a neuron moves with its responsibility. -/
theorem neuron_propagateNeuron_self (hu : u < c.neurons.size) (r : α) (target : Option α) :
    (c.propagateNeuron u (some r) target).neuron u =
      { (c.assignError u target).neuron u with
        bias := (c.neuron u).bias +
          r * ((c.assignError u target).neuron u).error.responsibility } := by
  have hsize : u < ((c.assignError u target).correctWeights u r).neurons.size := by
    rw [((sameWiring_assignError c u target).trans (sameWiring_correctWeights _ u r)).neurons]
    exact hu
  obtain ⟨error, hself⟩ := neuron_assignError_self hu target
  rw [propagateNeuron, correctBias, Option.getD_some, neuron_modifyNeuron_self hsize,
    neuron_correctWeights, hself]

/-- The weights of its incoming links move along their gradients. -/
theorem link_propagateNeuron (h : c.Sound) (hu : u < c.neurons.size) (r : α) (target : Option α)
    (l : LinkId) :
    (c.propagateNeuron u (some r) target).link l =
      if l ∈ (c.neuron u).inputs then
        { c.link l with weight := (c.link l).weight + r * (c.assignError u target).gradient u l }
      else c.link l := by
  have hw := sameWiring_assignError c u target
  rw [propagateNeuron, correctBias, link_modifyNeuron, Option.getD_some,
    link_correctWeights (h.of_sameWiring hw) (hw.neurons ▸ hu), hw.inputs, link_assignError]

end Circuit

end GatedNetwork
