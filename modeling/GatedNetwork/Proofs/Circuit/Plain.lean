import GatedNetwork.Proofs.ExactArithmetic
import GatedNetwork.Proofs.Network.Passes

/-!
# Circuits without gates and loops

If no link is gated, all gains are one and no neuron has a loop, the steps of neurons have closed forms
in exact arithmetic: nothing of an earlier state or trace passes on, and all errors come back through
links.

* `Circuit.incoming`, `Circuit.outgoing` — the links of a neuron as sets to sum over
* `Circuit.Plain` — such a circuit
* `nextState_eq`, `find?_eligibility` — forward steps
* `assignError_eq`, `weight_propagateNeuron` — backward steps
-/

namespace GatedNetwork

variable {α : Type}

namespace Circuit

/-! ## The links of a neuron -/

section Links

variable [Arithmetic α] {c d : Circuit α} {u : NeuronId} {l : LinkId}

/-- The links into a neuron from other ones. -/
def incoming (c : Circuit α) (u : NeuronId) : Finset LinkId :=
  {l ∈ Finset.range c.links.size | (c.link l).target = u ∧ (c.link l).source ≠ u}

/-- The links from a neuron to other ones. -/
def outgoing (c : Circuit α) (u : NeuronId) : Finset LinkId :=
  {l ∈ Finset.range c.links.size | (c.link l).source = u ∧ (c.link l).target ≠ u}

/-- No link is gated, all gains are one and no neuron has a loop. -/
structure Plain (c : Circuit α) : Prop where
  ungated : ∀ l < c.links.size, (c.link l).gater = none
  gain : ∀ l < c.links.size, (c.link l).gain = 1
  loop : ∀ l < c.links.size, (c.link l).source = (c.link l).target → (c.link l).weight = 0

theorem mem_incoming : l ∈ c.incoming u ↔
    l < c.links.size ∧ (c.link l).target = u ∧ (c.link l).source ≠ u := by
  simp [incoming]

theorem mem_outgoing : l ∈ c.outgoing u ↔
    l < c.links.size ∧ (c.link l).source = u ∧ (c.link l).target ≠ u := by
  simp [outgoing]

theorem SameWiring.incoming (h : SameWiring c d) (u : NeuronId) : d.incoming u = c.incoming u := by
  ext l
  rw [mem_incoming, mem_incoming, h.links, h.source, h.target]

theorem SameWiring.outgoing (h : SameWiring c d) (u : NeuronId) : d.outgoing u = c.outgoing u := by
  ext l
  rw [mem_outgoing, mem_outgoing, h.links, h.source, h.target]

theorem Sound.mem_inputs_iff (h : c.Sound) (hu : u < c.neurons.size) :
    l ∈ (c.neuron u).inputs ↔ l ∈ c.incoming u :=
  (h.mem_inputs u hu l).trans mem_incoming.symm

end Links

variable [ExactArithmetic α] {c d : Circuit α} {u : NeuronId} {l : LinkId}

/-- What is added up over the inputs of a neuron. -/
theorem foldl_inputs (h : c.Sound) (hu : u < c.neurons.size) (f : LinkId → α) (z : α) :
    (c.neuron u).inputs.toList.foldl (fun sum l => sum + f l) z = z + ∑ l ∈ c.incoming u, f l := by
  have hset : (c.neuron u).inputs.toList.toFinset = c.incoming u := by
    ext l
    rw [List.mem_toFinset]
    exact h.mem_inputs_iff hu
  rw [foldl_add_toFinset (c.neuron u).inputs.nodup, hset]

theorem foldl_projected (h : c.Sound) (hu : u < c.neurons.size) (f : LinkId → α) (z : α) :
    (c.neuron u).projected.toList.foldl (fun sum l => sum + f l) z =
      z + ∑ l ∈ c.outgoing u, f l := by
  have hset : (c.neuron u).projected.toList.toFinset = c.outgoing u := by
    ext l
    rw [List.mem_toFinset]
    exact (h.mem_projected u hu l).trans mem_outgoing.symm
  rw [foldl_add_toFinset (c.neuron u).projected.nodup, hset]

/-! ## Steps among plain links -/

namespace Plain

theorem of_links (hp : c.Plain) (hsize : d.links.size = c.links.size)
    (hl : ∀ l, ∃ weight, d.link l = { c.link l with weight } ∧
      ((c.link l).source = (c.link l).target → weight = (c.link l).weight)) : d.Plain where
  ungated := by
    intro l hlt
    obtain ⟨weight, hl, -⟩ := hl l
    rw [hl]
    exact hp.ungated l (hsize ▸ hlt)
  gain := by
    intro l hlt
    obtain ⟨weight, hl, -⟩ := hl l
    rw [hl]
    exact hp.gain l (hsize ▸ hlt)
  loop := by
    intro l hlt
    obtain ⟨weight, hl, hloop⟩ := hl l
    rw [hl]
    exact fun hends => (hloop hends).trans (hp.loop l (hsize ▸ hlt) hends)

/-- Nothing of the last state passes on. -/
theorem recurrence_eq (hp : c.Plain) (h : c.Sound) (hu : u < c.neurons.size) :
    c.recurrence u = 0 := by
  have hends : (c.loopOf u).source = (c.loopOf u).target :=
    (h.loop_source u hu).trans (h.loop_target u hu).symm
  have hloop : (c.loopOf u).weight = 0 := hp.loop (c.neuron u).loop (h.loop_lt u hu) hends
  rw [recurrence, hloop, mul_zero]

theorem entries_extended (hp : c.Plain) (h : c.Sound) (hu : u < c.neurons.size) :
    (c.neuron u).trace.extended.entries = [] := by
  have hkeys : (c.neuron u).trace.extended.keys.toList = [] := by
    refine List.eq_nil_iff_forall_not_mem.mpr fun g hg => ?_
    obtain ⟨l, hl, hgater, -⟩ := (h.mem_extended u hu g).mp hg
    rw [hp.ungated l hl] at hgater
    cases hgater
  exact List.map_eq_nil_iff.mp hkeys

theorem nextState_eq (hp : c.Plain) (h : c.Sound) (hu : u < c.neurons.size) :
    c.nextState u =
      (c.neuron u).bias + ∑ l ∈ c.incoming u, c.sourceActivation l * (c.link l).weight := by
  rw [nextState, foldl_inputs h hu, hp.recurrence_eq h hu, zero_mul, zero_add]
  congr 1
  refine Finset.sum_congr rfl fun l hl => ?_
  rw [hp.gain l (mem_incoming.mp hl).1, mul_one]

/-- The eligibility of a link is the activation that came through it in the last step. -/
theorem find?_eligibility (hp : c.Plain) (h : c.Sound) (hu : u < c.neurons.size)
    (hl : l ∈ c.incoming u) :
    ((c.step u).neuron u).trace.eligibility.find? l = some (c.sourceActivation l) := by
  obtain ⟨old, -, hstep⟩ := find?_eligibility_step h hu ((h.mem_inputs_iff hu).mpr hl)
  rw [hstep, hp.recurrence_eq h hu, hp.gain l (mem_incoming.mp hl).1, zero_mul, zero_add, one_mul]

theorem link_step (hp : c.Plain) (h : c.Sound) (hu : u < c.neurons.size) (l : LinkId) :
    (c.step u).link l = c.link l := by
  by_cases hl : l < c.links.size
  · rw [Circuit.link_step h hu hl, if_neg]
    rw [hp.ungated l hl]
    nofun
  · have hsize := (sameWiring_step c u).links
    rw [link_of_le (Nat.le_of_not_lt hl), link_of_le (hsize ▸ Nat.le_of_not_lt hl)]

theorem projectedError_eq (hp : c.Plain) (h : c.Sound) (hu : u < c.neurons.size) :
    c.projectedError u = ∑ l ∈ c.outgoing u,
      (c.neuron (c.link l).target).error.responsibility * (c.link l).weight := by
  rw [projectedError, foldl_projected h hu, zero_add]
  refine Finset.sum_congr rfl fun l hl => ?_
  rw [hp.gain l (mem_outgoing.mp hl).1, mul_one]

theorem gatedError_eq (hp : c.Plain) (h : c.Sound) (hu : u < c.neurons.size) :
    c.gatedError u = 0 := by
  rw [gatedError, IdMap.toList_keys, hp.entries_extended h hu]
  rfl

theorem gradient_eq (hp : c.Plain) (h : c.Sound) (hu : u < c.neurons.size) (l : LinkId) :
    c.gradient u l =
      (c.neuron u).error.projected * ((c.neuron u).trace.eligibility.find? l).getD 0 := by
  rw [gradient, hp.entries_extended h hu]
  rfl

/-- All of the error of a neuron came back through its links. -/
theorem assignError_eq (hp : c.Plain) (h : c.Sound) (hu : u < c.neurons.size) (t : Option α) :
    ((c.assignError u t).neuron u).error.responsibility =
        (match t with
          | some t => t - (c.neuron u).activation
          | none => (c.neuron u).derivative * c.projectedError u) ∧
      ((c.assignError u t).neuron u).error.projected =
        ((c.assignError u t).neuron u).error.responsibility := by
  cases t with
  | some t =>
    have hself : (c.assignError u (some t)).neuron u = _ := neuron_modifyNeuron_self hu
    rw [hself]
    exact ⟨rfl, rfl⟩
  | none =>
    have hself : (c.assignError u none).neuron u = _ := neuron_modifyNeuron_self hu
    rw [hself, hp.gatedError_eq h hu, mul_zero, add_zero]
    exact ⟨rfl, rfl⟩

/-- The weights of the links into a neuron move with its responsibility and with what came through
them. -/
theorem weight_propagateNeuron (hp : c.Plain) (h : c.Sound) (hu : u < c.neurons.size) (r : α)
    (t : Option α) (hl : l ∈ c.incoming u) {x : α}
    (hx : (c.neuron u).trace.eligibility.find? l = some x) :
    ((c.propagateNeuron u (some r) t).link l).weight = (c.link l).weight +
      r * ((c.assignError u t).neuron u).error.responsibility * x := by
  have hw := sameWiring_assignError c u t
  have hassign : (c.assignError u t).Plain :=
    hp.of_links hw.links fun l => ⟨_, link_assignError c u t l, fun _ => rfl⟩
  obtain ⟨error, hself⟩ := neuron_assignError_self hu t
  have htrace : ((c.assignError u t).neuron u).trace.eligibility.find? l = some x := by
    rw [hself]
    exact hx
  rw [link_propagateNeuron h hu, if_pos ((h.mem_inputs_iff hu).mpr hl),
    hassign.gradient_eq (h.of_sameWiring hw) (hw.neurons ▸ hu), (hp.assignError_eq h hu t).2, htrace,
    Option.getD_some, mul_assoc]

theorem link_stepAll (hp : c.Plain) (h : c.Sound) {us : List NeuronId}
    (hus : ∀ u ∈ us, u < c.neurons.size) (l : LinkId) : (c.stepAll us).link l = c.link l := by
  induction us generalizing c with
  | nil => rfl
  | cons u us ih =>
    obtain ⟨hu, hus⟩ := List.forall_mem_cons.mp hus
    have hw := sameWiring_step c u
    have hstep : (c.step u).Plain :=
      hp.of_links hw.links fun l => ⟨_, hp.link_step h hu l, fun _ => rfl⟩
    rw [stepAll_cons, ih hstep (h.of_sameWiring hw) (hw.neurons ▸ hus), hp.link_step h hu]

end Plain

end Circuit

end GatedNetwork
