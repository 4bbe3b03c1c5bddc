import Mathlib.Data.List.Induction
import GatedNetwork.Proofs.Network.Lowered
import GatedNetwork.Proofs.Network.Refinement
import GatedNetwork.Proofs.Network.Turns

/-!
# Gains follow their gaters

When a neuron fires, the links it gates get its activation as their gain, wherever they lie. So after a
pass the gain of every link whose gater has fired in it is what that gater ended up with. An input does
not fire: it is set from outside, and drives no gain. `gain_activate` says both, for all networks within
reach and in both modes; no law of arithmetic is needed.

The pass in the circuit and the code of a program are followed side by side, as environments.
-/

namespace GatedNetwork

variable {α : Type} [Arithmetic α]

open Environment

namespace Circuit

variable {c d : Circuit α} {layers : Layers} {σ : Environment α} {us : List NeuronId}
  {u v : NeuronId} {l : LinkId}

/-- The links gated by some neurons have their activations as gains. -/
def Follows (c : Circuit α) (us : List NeuronId) (σ : Environment α) : Prop :=
  ∀ l, ∀ u ∈ us, (c.link l).gater = some u → σ (.gain l) = σ (.neuron u .activation)

/-! ## In the circuit -/

theorem follows_step (h : c.Sound) (hw : SameWiring c d) (hv : v < c.neurons.size)
    (hd : c.Follows us d.load) : c.Follows (us ++ [v]) (d.step v).load := by
  intro l u hu hg
  show ((d.step v).link l).gain = ((d.step v).neuron u).activation
  rw [gain_step (h.of_sameWiring hw) (hw.neurons ▸ hv), hw.gater, hg]
  by_cases huv : u = v
  · rw [if_pos (congrArg some huv), huv]
  · have hmem : u ∈ us := (List.mem_append.mp hu).resolve_right (by simpa using huv)
    rw [if_neg (by simpa using huv), neuron_step_ne d huv]
    exact hd l u hmem hg

theorem follows_stepAll (h : c.Sound) (hw : SameWiring c d) (hus : ∀ u ∈ us, u < c.neurons.size) :
    c.Follows us (d.stepAll us).load := by
  induction us using List.reverseRecOn with
  | nil => exact fun _ _ hu => absurd hu List.not_mem_nil
  | append_singleton us v ih =>
    obtain ⟨hus, hv⟩ := List.forall_mem_append.mp hus
    rw [stepAll_append]
    exact follows_step h (hw.trans (sameWiring_stepAll d us)) (hv v List.mem_cons_self) (ih hus)

/-- Links that no neuron of a pass gates keep their gains. -/
theorem gain_stepAll (h : c.Sound) (hw : SameWiring c d) (hus : ∀ u ∈ us, u < c.neurons.size)
    (hl : ∀ u ∈ us, (c.link l).gater ≠ some u) :
    ((d.stepAll us).link l).gain = (d.link l).gain := by
  induction us generalizing d with
  | nil => rfl
  | cons u us ih =>
    obtain ⟨hu, hus⟩ := List.forall_mem_cons.mp hus
    obtain ⟨hlu, hlus⟩ := List.forall_mem_cons.mp hl
    rw [stepAll_cons, ih (hw.trans (sameWiring_step d u)) hus hlus,
      gain_step (h.of_sameWiring hw) (hw.neurons ▸ hu), if_neg (hw.gater l ▸ hlu)]

/-! ## In the code of a program -/

/-- Handing an activation to gated links, one after another. -/
theorem run_driveCode (u : NeuronId) (ls : List LinkId) (σ : Environment α) :
    run σ (ls.map fun l => .copy (.gain l) (.neuron u .activation)) (.neuron u .activation) =
        σ (.neuron u .activation) ∧
      ∀ l ∈ ls, run σ (ls.map fun l => .copy (.gain l) (.neuron u .activation)) (.gain l) =
        σ (.neuron u .activation) := by
  have hactivation : ∀ (ls : List LinkId) (σ : Environment α),
      run σ (ls.map fun l => .copy (.gain l) (.neuron u .activation)) (.neuron u .activation) =
        σ (.neuron u .activation) := by
    intro ls σ
    refine run_of_not_mem_writes fun i hi => ?_
    obtain ⟨l, -, rfl⟩ := List.mem_map.mp hi
    simp [Instr.writes]
  refine ⟨hactivation ls σ, ?_⟩
  induction ls generalizing σ with
  | nil => exact fun _ hl => absurd hl List.not_mem_nil
  | cons k ks ih =>
    intro l hl
    have hrest := ih (exec σ (.copy (.gain k) (.neuron u .activation)))
    simp only [exec, ne_eq, reduceCtorEq, not_false_eq_true, Function.update_of_ne] at hrest
    rw [List.map_cons, run_cons]
    by_cases hks : l ∈ ks
    · exact hrest l hks
    · obtain rfl : l = k := (List.mem_cons.mp hl).resolve_right hks
      rw [run_of_not_mem_writes]
      · exact Function.update_self ..
      · intro i hi
        obtain ⟨j, hj, rfl⟩ := List.mem_map.mp hi
        simp only [Instr.writes, List.mem_singleton, Symbol.gain.injEq]
        rintro rfl
        exact hks hj

/-- Forward code writes numbers of its own neuron only. -/
theorem eq_of_neuron_mem_writes {i : Instr Symbol α} {a : Attribute}
    (hi : i ∈ c.fireCode u ++ c.traceCode u) (hw : .neuron v a ∈ i.writes) : v = u := by
  rcases writes_stepCode hi hw with ⟨_, he⟩ | ⟨_, he⟩ | ⟨_, _, he⟩ | ⟨_, _, he⟩ | ⟨_, he⟩
  all_goals cases he
  rfl

theorem follows_code (h : c.Sound) (hv : v < c.neurons.size) (hσ : c.Follows us σ) :
    c.Follows (us ++ [v]) (run σ (c.fireCode v ++ c.traceCode v)) := by
  intro l u hu hg
  by_cases huv : u = v
  · -- the last part of the code hands the activation to the gated links
    subst huv
    have hgated : l ∈ (c.neuron u).gated.toList := (h.mem_gated u hv l).mpr ⟨lt_of_gated hg, hg⟩
    rw [traceCode, ← List.append_assoc, ← List.append_assoc, run_append]
    obtain ⟨hactivation, hgains⟩ := run_driveCode u (c.neuron u).gated.toList (run σ _)
    rw [hactivation, hgains l hgated]
  · have hmem : u ∈ us := (List.mem_append.mp hu).resolve_right (by simpa using huv)
    have hgain : run σ (c.fireCode v ++ c.traceCode v) (.gain l) = σ (.gain l) := by
      refine run_of_not_mem_writes fun i hi hw => huv ?_
      simpa [hg] using gater_of_gain_mem_writes h hv hi hw
    have hactivation : run σ (c.fireCode v ++ c.traceCode v) (.neuron u .activation) =
        σ (.neuron u .activation) :=
      run_of_not_mem_writes fun i hi hw => huv (eq_of_neuron_mem_writes hi hw)
    rw [hgain, hactivation]
    exact hσ l u hmem hg

theorem follows_codes (h : c.Sound) (hus : ∀ u ∈ us, u < c.neurons.size) (σ : Environment α) :
    c.Follows us (run σ (us.flatMap fun u => c.fireCode u ++ c.traceCode u)) := by
  induction us using List.reverseRecOn with
  | nil => exact fun _ _ hu => absurd hu List.not_mem_nil
  | append_singleton us v ih =>
    obtain ⟨hus, hv⟩ := List.forall_mem_append.mp hus
    rw [List.flatMap_append, run_append, List.flatMap_singleton]
    exact follows_code h (hv v List.mem_cons_self) (ih hus)

theorem gain_codes (h : c.Sound) (hus : ∀ u ∈ us, u < c.neurons.size)
    (hl : ∀ u ∈ us, (c.link l).gater ≠ some u) (σ : Environment α) :
    run σ (us.flatMap fun u => c.fireCode u ++ c.traceCode u) (.gain l) = σ (.gain l) := by
  refine run_of_not_mem_writes fun i hi hw => ?_
  obtain ⟨u, hu, hi⟩ := List.mem_flatMap.mp hi
  exact hl u hu (gater_of_gain_mem_writes h (hus u hu) hi hw)

/-! ## A forward pass -/

/-- What a forward pass makes of the gains of a circuit: those driven by neurons that fire follow these,
all others are as before. -/
structure Regained (layers : Layers) (c d : Circuit α) : Prop where
  wiring : SameWiring c d
  followed : ∀ l, ∀ u ∈ c.firing layers, (d.link l).gater = some u →
    (d.link l).gain = (d.neuron u).activation
  kept : ∀ l, (∀ u ∈ c.firing layers, (d.link l).gater ≠ some u) →
    (d.link l).gain = (c.link l).gain

theorem regained_forwardPass (h : c.Runs layers) (input : List α) :
    Regained layers c (c.forwardPass layers input) := by
  have hw := sameWiring_clampAll c ((c.members layers.input).zip input)
  have hwiring := sameWiring_forwardPass c layers input
  refine ⟨hwiring, fun l u hu hg => ?_, fun l hl => ?_⟩
  · rw [hwiring.gater] at hg
    rw [forwardPass_eq]
    exact follows_stepAll h.sound hw h.firing_lt l u hu hg
  · simp only [hwiring.gater] at hl
    rw [forwardPass_eq, gain_stepAll h.sound hw h.firing_lt hl, link_clampAll]

/-- Filling a circuit with what the forward code makes of an environment is such a change, too. -/
theorem regained_forwardCode (h : c.Runs layers) (hw : SameWiring c d) (σ : Environment α)
    (input : List α) :
    Regained layers (d.fill σ) (d.fill (run (Memory.putEach σ
        (((c.members layers.input).map fun u => .neuron u .activation).zip input))
      ((c.tasks layers).flatMap c.forwardCode))) := by
  have hcode : (c.tasks layers).flatMap c.forwardCode = (c.members layers.input).flatMap clampCode ++
      (c.firing layers).flatMap fun u => c.fireCode u ++ c.traceCode u := by
    rw [forward_tasks, firing, List.flatMap_append]
  rw [hcode, run_append]
  generalize hτ : run (Memory.putEach σ _) _ = τ
  have hwiring : ∀ σ, SameWiring c (d.fill σ) := fun σ => hw.trans (sameWiring_fill d σ)
  refine ⟨(hwiring σ).symm.trans (hwiring _), fun l u hu hg => ?_, fun l hl => ?_⟩
  all_goals rw [(hwiring σ).firing] at *
  · rw [(hwiring _).gater] at hg
    have hlt : l < d.links.size := hw.links ▸ lt_of_gated hg
    have hult : u < d.neurons.size := hw.neurons ▸ h.firing_lt u hu
    rw [link_fill hlt, neuron_fill hult]
    exact follows_codes h.sound h.firing_lt τ l u hu hg
  · simp only [(hwiring _).gater] at hl
    by_cases hlt : l < d.links.size
    · rw [link_fill hlt, link_fill hlt]
      show run τ _ (.gain l) = σ (.gain l)
      rw [gain_codes h.sound h.firing_lt hl, ← hτ]
      -- neither the inputs nor the code that takes them in are gains
      rw [run_of_not_mem_writes, Memory.putEach_of_not_mem _ (by simp)]
      intro i hi
      obtain ⟨u, -, hi⟩ := List.mem_flatMap.mp hi
      simp only [clampCode, List.mem_cons, List.not_mem_nil, or_false] at hi
      rcases hi with rfl | rfl <;> simp [Instr.writes]
    · rw [link_of_le (by simpa using hlt), link_of_le (by simpa using hlt)]

end Circuit

namespace Network

open Circuit

variable {n : Network α} {input : List α}

/-- A network within reach that takes an input is left with regained links. -/
theorem activate_regained (h : n.Reachable) (hlen : n.inputSize = input.length) :
    ∃ xs n₁, activate input n = .ok xs n₁ ∧ n₁.Valid ∧ Regained n.layers n.restored n₁.restored := by
  have hvalid := valid_of_reachable h
  obtain ⟨xs, n₁, hactivate, hvalid₁, -, -⟩ := hvalid.activate_ok hlen
  refine ⟨xs, n₁, hactivate, hvalid₁, ?_⟩
  cases lowered_of_reachable h with
  | interpreted c layers =>
    cases hactivate.symm.trans (activate_interpreted hvalid.hosts hlen.symm)
    exact regained_forwardPass hvalid.hosts.runs input
  | pending c layers =>
    have hruns := hvalid.hosts.runs
    obtain ⟨m', hfresh, hm', hview⟩ := activate_fresh hvalid.hosts hlen.symm
    cases hactivate.symm.trans hfresh
    have hregained := regained_forwardCode hruns (.refl c) c.load input
    rw [restored_live (.refl c) hruns hm', hview]
    rwa [fill_load] at hregained
  | @live b c layers m hw hb hm =>
    obtain ⟨m', hlive, hm', hview⟩ := activate_live hw hm c.load
      (hlen.symm.trans (congrArg List.length (hw.members _)))
    cases hactivate.symm.trans hlive
    rw [restored_live hw hb hm, restored_live hw hb hm', hview]
    exact regained_forwardCode hb hw _ input

/-- One forward step of a neuron of a valid network gives its activation to the links it gates, and to
no other. -/
theorem activateNeuron_none_ok (h : n.Valid) {u : NeuronId} (hu : u < n.restored.neurons.size) :
    ∃ a n₁, edit (Edit.activateNeuron u none) n = .ok a n₁ ∧ ∀ l,
      ((n₁.circuit.link l).gater = some u → (n₁.circuit.link l).gain = a) ∧
      ((n₁.circuit.link l).gater ≠ some u →
        (n₁.circuit.link l).gain = (n.restored.link l).gain) := by
  have hsound := h.hosts_restored.runs.sound
  have hcircuit : onCircuit (Edit.activateNeuron u none) ⟨n.restored, n.layers, n.mode.dropped⟩ =
      .ok _ ⟨n.restored.step u, n.layers, n.mode.dropped⟩ := onCircuit_ok (step_ok hsound hu)
  refine ⟨_, _, (h.edit_eq _).trans hcircuit, fun l => ?_⟩
  rw [(sameWiring_step n.restored u).gater, gain_step hsound hu]
  exact ⟨fun hg => if_pos hg, fun hg => if_neg hg⟩

/-- A value from outside is given to no link. -/
theorem activateNeuron_some_ok (h : n.Valid) {u : NeuronId} (hu : u < n.restored.neurons.size)
    (x : α) :
    ∃ a n₁, edit (Edit.activateNeuron u (some x)) n = .ok a n₁ ∧ ∀ l,
      (n₁.circuit.link l).gain = (n.restored.link l).gain := by
  have hcircuit : onCircuit (Edit.activateNeuron u (some x)) ⟨n.restored, n.layers, n.mode.dropped⟩ =
      .ok _ ⟨n.restored.clamp u x, n.layers, n.mode.dropped⟩ := onCircuit_ok (clamp_ok hu x)
  exact ⟨_, _, (h.edit_eq _).trans hcircuit, fun l => rfl⟩

/-- For every network within reach, in whatever mode: an activation succeeds with every input of the
right length and is refused with any other. When it is restored after that, every link gated by a
hidden neuron or an output has the activation of its gater as gain, and every other link, among them
those gated by neurons that are inputs only, has the gain it had before. Single forward steps give the
activation to exactly the links that the neuron gates, and values from outside to none. -/
theorem gain_activate (h : n.Reachable) :
    (∀ input : List α,
      (n.inputSize ≠ input.length ∧
        activate input n = .error (.sizeMismatch .input n.inputSize input.length) n) ∨
      ∃ xs n₁ n₂, activate input n = .ok xs n₁ ∧ restore n₁ = .ok () n₂ ∧
        Regained n.layers n.restored n₂.circuit) ∧
    ∀ u < n.restored.neurons.size,
      (∃ a n₁, edit (Edit.activateNeuron u none) n = .ok a n₁ ∧ ∀ l,
        ((n₁.circuit.link l).gater = some u → (n₁.circuit.link l).gain = a) ∧
        ((n₁.circuit.link l).gater ≠ some u →
          (n₁.circuit.link l).gain = (n.restored.link l).gain)) ∧
      ∀ x, ∃ a n₁, edit (Edit.activateNeuron u (some x)) n = .ok a n₁ ∧ ∀ l,
        (n₁.circuit.link l).gain = (n.restored.link l).gain := by
  have hvalid := valid_of_reachable h
  refine ⟨fun input => ?_, fun u hu => ⟨activateNeuron_none_ok hvalid hu,
    activateNeuron_some_ok hvalid hu⟩⟩
  by_cases hlen : n.inputSize = input.length
  · obtain ⟨xs, n₁, hactivate, hvalid₁, hregained⟩ := activate_regained h hlen
    exact .inr ⟨xs, n₁, _, hactivate, hvalid₁.restore_ok.1, hregained⟩
  · exact .inl ⟨hlen, activate_error hlen⟩

/-- A network over the ring in which a hidden neuron gates its own loop and the output a link into it.
All of this may have run and learned before. -/
theorem gain_activate_layeredRing :
    ∃ n : Network Int, n.Reachable ∧ (n.restored.link 1).gater = some 1 ∧
      (n.restored.link 3).gater = some 2 ∧
      ∃ xs n₁ n₂, activate [5] n = .ok xs n₁ ∧ restore n₁ = .ok () n₂ ∧
        (n₂.circuit.link 1).gain = (n₂.circuit.neuron 1).activation ∧
        (n₂.circuit.link 3).gain = (n₂.circuit.neuron 2).activation := by
  have hconsistent : layeredRing.Consistent :=
    consistent_performAll (consistent_performAll (consistent_empty 0 ⟨7, 2, 1⟩) _) _
  have hinhabits : layeredRing.Inhabits (.unbound 0 [1] 2) := by
    unfold Inhabits
    decide +kernel
  have hensembles : ∀ e ∈ (Layers.unbound 0 [1] 2).ensembles, layeredRing.hasEnsemble e = true := by
    decide +kernel
  obtain ⟨start, hn⟩ := create_ok hensembles
  have hstart := Reachable.create hconsistent hinhabits hn
  obtain ⟨-, rfl⟩ := create_eq_ok hn
  have hreachable := (hstart.request (.activate [2])).request (.propagate 1 [3])
  obtain ⟨n, hreachable, hsize, hloop, hlink, hfires, hfires'⟩ : ∃ n : Network Int, n.Reachable ∧
      n.inputSize = 1 ∧ (n.restored.link 1).gater = some 1 ∧ (n.restored.link 3).gater = some 2 ∧
      1 ∈ n.restored.firing n.layers ∧ 2 ∈ n.restored.firing n.layers :=
    ⟨_, hreachable, by decide +kernel⟩
  refine ⟨n, hreachable, hloop, hlink, ?_⟩
  rcases (gain_activate hreachable).1 [5] with ⟨hlen, -⟩ | ⟨xs, n₁, n₂, hactivate, hrestore, hgains⟩
  · exact absurd hsize hlen
  · exact ⟨xs, n₁, n₂, hactivate, hrestore,
      hgains.followed 1 1 hfires ((hgains.wiring.gater 1).trans hloop),
      hgains.followed 3 2 hfires' ((hgains.wiring.gater 3).trans hlink)⟩

/-- An input that gates a link between two neurons outside of the layers. -/
def gatedByInput : Circuit Int := performAll (.empty 0 ⟨7, 2, 1⟩)
  [.addEnsemble 1, .addEnsemble 1, .addEnsemble 2, .connect 2 3 (some 2), .gateLink 0 4]

/-- The gain of that link stays one, whatever the input is set to. -/
theorem gain_gatedByInput :
    ∃ n : Network Int, n.Reachable ∧ 0 ∈ n.circuit.members n.layers.input ∧
      ∃ xs n₁ n₂, activate [3] n = .ok xs n₁ ∧ restore n₁ = .ok () n₂ ∧
        (n₂.circuit.link 4).gater = some 0 ∧ (n₂.circuit.neuron 0).activation = 3 ∧
        (n₂.circuit.link 4).gain = 1 := by
  have hreachable : Reachable
      ⟨gatedByInput, (Layers.unbound 0 [] 1).bind gatedByInput.identity, .pending⟩ :=
    reachable_of_requests (by unfold Inhabits; decide +kernel) (by decide +kernel)
  have hlen : Network.inputSize (⟨gatedByInput, (Layers.unbound 0 [] 1).bind gatedByInput.identity,
      .pending⟩ : Network Int) = ([3] : List Int).length := by decide +kernel
  obtain ⟨xs, n₁, hactivate, hvalid, -⟩ := activate_regained hreachable hlen
  refine ⟨_, hreachable, by decide +kernel, xs, n₁, _, hactivate, hvalid.restore_ok.1, ?_⟩
  have hn₁ : n₁ = (activate [3]).final _ := (Op.final_of_ok hactivate).symm
  rw [hn₁]
  exact ⟨by decide +kernel, by decide +kernel, by decide +kernel⟩

end Network

end GatedNetwork
