import GatedNetwork.Proofs.Circuit.Reset
import GatedNetwork.Proofs.Network.Lowered

/-!
# Clearing a network

Clearing forgets the short-term memory: the traces and error terms of the neurons of the layers. It
restores the network first and drops the live program last, so nothing that was learnt is lost, and
nothing that was forgotten comes back.

* `cleared_clearAll` — what becomes of a circuit
* `Cleared.unique` — clearing leaves nothing else to clear
* `Valid.clear_ok`, `Valid.startsFrom` — what becomes of a network, and where its next run starts
* `clear_forgets` — all of this for networks within reach, whatever program is live
-/

namespace GatedNetwork

variable {α : Type} [Arithmetic α]

/-! ## Clearing in a circuit -/

/-- The record of a neuron with its traces and error terms zero. -/
def Neuron.cleared (n : Neuron α) : Neuron α := { n with error := .zero, trace := n.trace.blank }

theorem Traces.blank_blank (t : Traces α) : t.blank.blank = t.blank := by
  have heligibility : (t.eligibility.map fun _ => (0 : α)).map (fun _ => (0 : α)) =
      t.eligibility.map fun _ => 0 := IdMap.map_const_mapWithKey _ _ _
  have hextended : (t.extended.map fun xs => xs.map fun _ => (0 : α)).map
      (fun xs => xs.map fun _ => (0 : α)) = t.extended.map fun xs => xs.map fun _ => 0 :=
    IdMap.map_mapWithKey_of_eq _ _ _ _ fun _ xs => IdMap.map_const_mapWithKey xs _ _
  rw [blank, blank, heligibility, hextended]

/-- Clearing twice is clearing once. -/
theorem Neuron.cleared_cleared (n : Neuron α) : n.cleared.cleared = n.cleared := by
  simp only [cleared, Traces.blank_blank]

namespace Circuit

variable {c d e : Circuit α} {us : List NeuronId} {u : NeuronId}

/-- What clearing some neurons makes of a circuit: their records are cleared, and all else stays as it
is, down to the generator. -/
structure Cleared (us : List NeuronId) (c d : Circuit α) : Prop where
  neuron : ∀ u ∈ us, d.neuron u = (c.neuron u).cleared
  others : ∀ u ∉ us, d.neuron u = c.neuron u
  neurons : d.neurons.size = c.neurons.size
  rest : d = { c with neurons := d.neurons }

/-- Weights and gains are not forgotten. -/
theorem Cleared.link (h : Cleared us c d) (l : LinkId) : d.link l = c.link l := by
  rw [h.rest]
  rfl

/-- There is one outcome of clearing. -/
theorem Cleared.unique (hd : Cleared us c d) (he : Cleared us c e) : d = e := by
  have hneurons : d.neurons = e.neurons := by
    refine Array.ext (hd.neurons.trans he.neurons.symm) fun i hi hi' => ?_
    have hneuron : d.neuron i = e.neuron i := by
      by_cases hmem : i ∈ us
      · rw [hd.neuron i hmem, he.neuron i hmem]
      · rw [hd.others i hmem, he.others i hmem]
    simpa [Circuit.neuron, hi, hi'] using hneuron
  rw [hd.rest, he.rest, hneurons]

/-- What is cleared once more is what was cleared at first. -/
theorem Cleared.trans_self (hd : Cleared us c d) (he : Cleared us d e) : Cleared us c e where
  neuron := fun u hu => by rw [he.neuron u hu, hd.neuron u hu, Neuron.cleared_cleared]
  others := fun u hu => by rw [he.others u hu, hd.others u hu]
  neurons := he.neurons.trans hd.neurons
  rest := by
    rw [he.rest, hd.rest]

theorem neuron_clearAll (hu : u < c.neurons.size) :
    (c.clearAll us).neuron u = if u ∈ us then (c.neuron u).cleared else c.neuron u := by
  induction us generalizing c with
  | nil => rfl
  | cons v vs ih =>
    have hsize : u < (c.clearNeuron v).neurons.size := by
      rw [(sameWiring_clearNeuron c v).neurons]
      exact hu
    rw [clearAll, List.foldl_cons]
    refine (ih hsize).trans ?_
    by_cases hv : u = v
    · -- a neuron that is listed again is cleared again
      subst hv
      have hself : (c.clearNeuron u).neuron u = (c.neuron u).cleared := neuron_modifyNeuron_self hu
      rw [hself, Neuron.cleared_cleared, ite_self, if_pos List.mem_cons_self]
    · have hne : (c.clearNeuron v).neuron u = c.neuron u := neuron_modifyNeuron_ne hv
      simp only [hne, List.mem_cons, hv, false_or]

theorem clearAll_eq (c : Circuit α) (us : List NeuronId) :
    c.clearAll us = { c with neurons := (c.clearAll us).neurons } := by
  induction us generalizing c with
  | nil => rfl
  | cons u us ih => exact ih (c.clearNeuron u)

/-- Neurons that exist are cleared, and nothing else changes. -/
theorem cleared_clearAll (hus : ∀ u ∈ us, u < c.neurons.size) : Cleared us c (c.clearAll us) where
  neuron := fun u hu => by rw [neuron_clearAll (hus u hu), if_pos hu]
  others := by
    intro u hu
    by_cases hlt : u < c.neurons.size
    · rw [neuron_clearAll hlt, if_neg hu]
    · have hsize := (sameWiring_clearAll c us).neurons
      rw [neuron_of_le (Nat.le_of_not_lt hlt), neuron_of_le (hsize ▸ Nat.le_of_not_lt hlt)]
  neurons := (sameWiring_clearAll c us).neurons
  rest := clearAll_eq c us

end Circuit

/-! ## Clearing a network -/

omit [Arithmetic α] in
theorem Mode.dropped_dropped (mode : Mode α) : mode.dropped.dropped = mode.dropped := by
  cases mode <;> rfl

namespace Network

open Circuit

variable {n : Network α} {c d : Circuit α} {layers : Layers}

/-- Does the next run of a network start from a circuit? It runs step by step in the circuit or compiles
it, and either way the memory it goes on with holds the numbers of the circuit. -/
structure StartsFrom (n : Network α) (d : Circuit α) : Prop where
  uncompiled : n.isCompiled = false
  circuit : n.circuit = d
  memory : (d.program n.layers).memory.toList = (d.program n.layers).symbols.map d.load
  next : ∃ ready : Network α,
    (ready = ⟨d, n.layers, .interpreted⟩ ∨
      ready = ⟨d, n.layers, .compiled (d.program n.layers)⟩) ∧
    prepare n = .ok () ready ∧
    (∀ input, n.inputSize = input.length → activate input n = activate input ready) ∧
    ∀ rate target, n.outputSize = target.length →
      propagate rate target n = propagate rate target ready

omit [Arithmetic α] in
theorem isCompiled_dropped (c : Circuit α) (layers : Layers) (mode : Mode α) :
    isCompiled ⟨c, layers, mode.dropped⟩ = false := by
  cases mode <;> rfl

namespace Valid

theorem clear_ok (h : n.Valid) :
    clear n =
      .ok () ⟨n.restored.clearAll (n.restored.placed n.layers), n.layers, n.mode.dropped⟩ :=
  h.forget_ok (clearEnsembles_eq h.hosts_restored.runs)

/-- Without a live program the next run starts from the circuit. -/
theorem startsFrom (h : n.Valid) (hn : n.isCompiled = false) : StartsFrom n n.circuit := by
  obtain ⟨c, layers, mode⟩ := n
  have hmemory : (c.program layers).memory.toList = (c.program layers).symbols.map c.load :=
    List.toList_toArray
  refine ⟨hn, rfl, hmemory, ?_⟩
  cases mode with
  | pending =>
    exact ⟨_, .inr rfl, prepare_pending h.hosts, fun _ hlen => activate_pending h.hosts hlen.symm,
      fun rate _ hlen => propagate_pending h.hosts rate hlen.symm⟩
  | interpreted => exact ⟨_, .inl rfl, rfl, fun _ _ => rfl, fun _ _ _ => rfl⟩
  | compiled p => cases hn

end Valid

/-- For every network within reach, in whatever mode and with any numbers in the memory of a live
program: clearing succeeds and leaves what a restore would have left, with the traces and error terms
of the neurons of the layers zero and nothing else changed. Clearing again changes nothing, and the
next run starts from just this circuit. -/
theorem clear_forgets (h : n.Reachable) :
    restore n = .ok () { n with circuit := n.restored } ∧
      ∃ d n', clear n = .ok () n' ∧ n' = ⟨d, n.layers, n.mode.dropped⟩ ∧
        Cleared (n.restored.placed n.layers) n.restored d ∧
        clear n' = .ok () n' ∧ StartsFrom n' d := by
  have hvalid := valid_of_reachable h
  have hplaced := hvalid.hosts_restored.runs.placed_lt
  have hcleared := cleared_clearAll hplaced
  have hw := sameWiring_clearAll n.restored (n.restored.placed n.layers)
  have huncompiled :=
    isCompiled_dropped (n.restored.clearAll (n.restored.placed n.layers)) n.layers n.mode
  have hvalid' := Valid.of_dropped (hvalid.hosts_restored.of_sameWiring hw) n.mode
  refine ⟨hvalid.restore_ok.1, _, _, hvalid.clear_ok, rfl, hcleared, ?_,
    hvalid'.startsFrom huncompiled⟩
  -- the circuit cleared once is restored to itself, and clearing it leaves it as it is
  have hagain := cleared_clearAll fun u hu => hw.neurons ▸ hplaced u hu
  have hsame := (hcleared.trans_self hagain).unique hcleared
  have hsecond := hvalid'.clear_ok
  rw [restored_eq huncompiled, Mode.dropped_dropped, hw.placed] at hsecond
  rw [hsecond, hsame]

/-- Three neurons. The second gates the link into it from the first, and the third has learnt already. -/
def rehearsed : Circuit Int := performAll (.empty 0 ⟨7, 2, 1⟩)
  [.addEnsemble 1, .addEnsemble 1, .addEnsemble 1, .connect 0 1 (some 3), .connect 1 1 (some 1),
    .gateLink 1 3, .activateNeuron 2 none, .propagateNeuron 2 none (some 4)]

/-- With a live program ahead of the circuit, the weight it has learnt is kept, the output forgets its
error and its trace, and the neuron beside the layers keeps its error. -/
theorem clear_forgets_rehearsed :
    ∃ n : Network Int, n.Reachable ∧ n.isCompiled = true ∧ (n.circuit.link 3).weight = 3 ∧
      ∃ d n', clear n = .ok () n' ∧ clear n' = .ok () n' ∧ StartsFrom n' d ∧
        (d.link 3).weight = 73 ∧ (n.restored.neuron 1).error.projected = 5 ∧
        (d.neuron 1).error = .zero ∧ (d.neuron 1).trace.eligibility.find? 3 = some 0 ∧
        (d.neuron 2).error.responsibility = 6 := by
  have hcreated : Reachable
      ⟨rehearsed, (Layers.unbound 0 [] 1).bind rehearsed.identity, .pending⟩ :=
    reachable_of_requests (by unfold Inhabits; decide +kernel) (by decide +kernel)
  have hreachable :=
    ((hcreated.request (.activate [2])).request (.propagate 1 [9])).request (.activate [1])
  obtain ⟨n, hn, hreachable⟩ : ∃ n : Network Int, n = _ ∧ n.Reachable := ⟨_, rfl, hreachable⟩
  obtain ⟨-, d, n', hclear, -, hcleared, hagain, hstarts⟩ := clear_forgets hreachable
  have hinside : 1 ∈ n.restored.placed n.layers := by
    rw [hn]
    decide +kernel
  have houtside : 2 ∉ n.restored.placed n.layers := by
    rw [hn]
    decide +kernel
  refine ⟨n, hreachable, ?_, ?_, d, n', hclear, hagain, hstarts, ?_, ?_, ?_, ?_, ?_⟩
  · rw [hn]
    decide +kernel
  · rw [hn]
    decide +kernel
  · rw [hcleared.link, hn]
    decide +kernel
  · rw [hn]
    decide +kernel
  · rw [hcleared.neuron 1 hinside]
    rfl
  · rw [hcleared.neuron 1 hinside, hn]
    decide +kernel
  · rw [hcleared.others 2 houtside, hn]
    decide +kernel

end Network

end GatedNetwork
