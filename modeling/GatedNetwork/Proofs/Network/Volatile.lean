import GatedNetwork.Proofs.Circuit.Difference
import GatedNetwork.Proofs.Network.ErrorTerms
import GatedNetwork.Proofs.Network.Handover

/-!
# What passes can change

A pass writes numbers of the neurons of the layer set, weights of links into neurons that fire, and
gains of links that these gate. All else is left alone, in the circuit as in the code of a program, and
whatever the passes are.

* `Volatile` — the numbers that passes write
* `passed_after` — what passes in turn leave of a network within reach
-/

namespace GatedNetwork

variable {α : Type} [Arithmetic α]

open Environment

namespace Circuit

variable {b c d : Circuit α} {layers : Layers} {s : Symbol} {i : Instr Symbol α}

/-- The numbers that a pass through a layer set may write. -/
def Volatile (c : Circuit α) (layers : Layers) : Symbol → Prop
  | .neuron u _ => u ∈ c.placed layers
  | .eligibility u _ => u ∈ c.placed layers
  | .extended u _ _ => u ∈ c.placed layers
  | .weight l => ∃ u ∈ c.firing layers, l ∈ (c.neuron u).inputs
  | .gain l => ∃ u ∈ c.firing layers, (c.link l).gater = some u
  | _ => False

omit [Arithmetic α] in
theorem mem_placed_of_input {u : NeuronId} (hu : u ∈ c.members layers.input) :
    u ∈ c.placed layers :=
  List.mem_append_left _ hu

omit [Arithmetic α] in
theorem mem_placed_of_firing {u : NeuronId} (hu : u ∈ c.firing layers) : u ∈ c.placed layers :=
  List.mem_append_right _ hu

theorem SameWiring.volatile (hw : SameWiring c d) (layers : Layers) :
    d.Volatile layers = c.Volatile layers := by
  funext s
  cases s <;> simp only [Volatile, hw.placed, hw.firing, hw.inputs, hw.gater]

theorem volatile_of_ownedBy {u : NeuronId} (hu : u ∈ c.placed layers) (hs : OwnedBy u s) :
    c.Volatile layers s := by
  cases s <;> first | exact hs ▸ hu | exact hs.elim

/-! ## In the circuit -/

theorem differsIn_forwardPass (h : c.Runs layers) (input : List α) :
    DiffersIn (c.Volatile layers) c (c.forwardPass layers input) := by
  rw [forwardPass_eq]
  refine (differsIn_foldl fun p hp d hw => ?_).trans (differsIn_foldl fun u hu d hw => ?_)
  · exact (differsIn_clamp d p.1 p.2).mono fun s hs =>
      volatile_of_ownedBy (mem_placed_of_input (List.of_mem_zip hp).1) hs
  · replace hw := (sameWiring_clampAll c _).trans hw
    refine (differsIn_step d u).mono fun s hs => ?_
    rcases hs with hs | ⟨l, hl, rfl⟩
    · exact volatile_of_ownedBy (mem_placed_of_firing hu) hs
    · rw [hw.gated] at hl
      exact ⟨u, hu, ((h.sound.mem_gated u (h.firing_lt u hu) l).mp hl).2⟩

theorem differsIn_backwardPass (rate : α) {target : List α}
    (hlen : target.length = (c.members layers.output).length) :
    DiffersIn (c.Volatile layers) c (c.backwardPass layers rate target) := by
  rw [backwardPass_eq]
  refine differsIn_foldl fun p hp d hw => ?_
  have hu : p.1 ∈ c.firing layers := by
    rw [← map_fst_goals hlen]
    exact List.mem_map_of_mem (List.mem_reverse.mp hp)
  refine (differsIn_propagateNeuron d p.1 (some rate) p.2).mono fun s hs => ?_
  rcases hs with hs | ⟨l, hl, rfl⟩
  · exact volatile_of_ownedBy (mem_placed_of_firing hu) hs
  · exact ⟨p.1, hu, hw.inputs p.1 ▸ hl⟩

/-! ## In the code of a program -/

theorem volatile_of_mem_forward (h : c.Runs layers)
    (hi : i ∈ (c.tasks layers).flatMap c.forwardCode) (hs : s ∈ i.writes) :
    c.Volatile layers s ∨ ∃ u g, s = .influence u g := by
  rw [forward_tasks, ← List.flatMap_append, List.mem_append] at hi
  rcases hi with hi | hi
  · obtain ⟨u, hu, hi⟩ := List.mem_flatMap.mp hi
    simp only [clampCode, List.mem_cons, List.not_mem_nil, or_false] at hi
    refine .inl (volatile_of_ownedBy (mem_placed_of_input hu) ?_)
    rcases hi with rfl | rfl <;> exact List.mem_singleton.mp hs ▸ rfl
  · obtain ⟨u, hu, hi⟩ := List.mem_flatMap.mp hi
    have howned : OwnedBy u s → c.Volatile layers s := volatile_of_ownedBy (mem_placed_of_firing hu)
    rcases writes_stepCode hi hs with ⟨_, rfl⟩ | ⟨_, rfl⟩ | ⟨_, _, rfl⟩ | ⟨l, hl, rfl⟩ | ⟨g, rfl⟩
    · exact .inl (howned rfl)
    · exact .inl (howned rfl)
    · exact .inl (howned rfl)
    · exact .inl ⟨u, hu, ((h.sound.mem_gated u (h.firing_lt u hu) l).mp hl).2⟩
    · exact .inr ⟨u, g, rfl⟩

theorem volatile_of_mem_backward (hi : i ∈ (c.tasks layers).reverse.flatMap c.backwardCode)
    (hs : s ∈ i.writes) : c.Volatile layers s ∨ ∃ p, s = .scratch p := by
  rw [backward_tasks] at hi
  obtain ⟨p, hp, hi⟩ := List.mem_flatMap.mp hi
  have hu : p.1 ∈ c.firing layers := by
    rw [← List.mem_reverse, ← map_fst_learners]
    exact List.mem_map_of_mem hp
  rcases writes_propagationCode hi hs with ⟨_, rfl⟩ | ⟨l, hl, rfl⟩ | ⟨p, rfl⟩
  · exact .inl (mem_placed_of_firing hu)
  · exact .inl ⟨_, hu, hl⟩
  · exact .inr ⟨p, rfl⟩

/-- A circuit that is filled with what the forward code makes of an environment. -/
theorem differsIn_forwardCode (h : b.Runs layers) (hw : SameWiring b c) (σ : Environment α)
    (input : List α) :
    DiffersIn (c.Volatile layers) (c.fill σ) (c.fill (run (Memory.putEach σ
        (((b.members layers.input).map fun u => .neuron u .activation).zip input))
      ((b.tasks layers).flatMap b.forwardCode))) := by
  rw [hw.volatile]
  refine differsIn_fill c fun s hk hs => ?_
  rw [run_of_not_mem_writes, Memory.putEach_of_not_mem]
  · intro hput
    obtain ⟨u, hu, rfl⟩ := List.mem_map.mp hput
    exact hs (mem_placed_of_input hu)
  · intro i hi hwrites
    rcases volatile_of_mem_forward h hi hwrites with hv | ⟨u, g, rfl⟩
    · exact hs hv
    · exact hk

theorem differsIn_backwardCode (hw : SameWiring b c) (layers : Layers) (σ : Environment α) (rate : α)
    (target : List α) :
    DiffersIn (c.Volatile layers) (c.fill σ) (c.fill (run (Memory.putEach
        (Function.update σ .rate rate)
        (((List.range (b.members layers.output).length).map Symbol.target).zip target))
      ((b.tasks layers).reverse.flatMap b.backwardCode))) := by
  rw [hw.volatile]
  refine differsIn_fill c fun s hk hs => ?_
  rw [run_of_not_mem_writes, Memory.putEach_of_not_mem, Function.update_of_ne]
  · rintro rfl
    exact hk
  · intro hput
    obtain ⟨t, -, rfl⟩ := List.mem_map.mp hput
    exact hk
  · intro i hi hwrites
    rcases volatile_of_mem_backward hi hwrites with hv | ⟨p, rfl⟩
    · exact hs hv
    · exact hk

end Circuit

namespace Network

open Circuit

variable {n n' n'' : Network α}

/-! ## In a network -/

/-- What passes leave of a network: numbers that they can change may differ, and it may have got a
program. -/
structure Passed (n n' : Network α) : Prop where
  layers : n'.layers = n.layers
  dropped : n'.mode.dropped = n.mode.dropped
  circuit : DiffersIn (n.restored.Volatile n.layers) n.restored n'.restored

namespace Passed

theorem refl (n : Network α) : Passed n n := ⟨rfl, rfl, .refl _ _⟩

theorem trans (h : Passed n n') (h' : Passed n' n'') : Passed n n'' where
  layers := h'.layers.trans h.layers
  dropped := h'.dropped.trans h.dropped
  circuit := by
    have hcircuit := h'.circuit
    rw [h.circuit.wiring.volatile, h.layers] at hcircuit
    exact h.circuit.trans hcircuit

end Passed

theorem activate_passed (h : n.Reachable) {input : List α} (hlen : n.inputSize = input.length) :
    ∃ xs n', activate input n = .ok xs n' ∧ Passed n n' := by
  have hvalid := valid_of_reachable h
  cases lowered_of_reachable h with
  | interpreted c layers =>
    exact ⟨_, _, activate_interpreted hvalid.hosts hlen.symm, rfl, rfl,
      differsIn_forwardPass hvalid.hosts.runs input⟩
  | pending c layers =>
    have hruns := hvalid.hosts.runs
    obtain ⟨m', hfresh, hm', hview⟩ := activate_fresh hvalid.hosts hlen.symm
    refine ⟨_, _, hfresh, ⟨rfl, rfl, ?_⟩⟩
    have hdiffers := differsIn_forwardCode hruns (.refl c) c.load input
    rw [restored_live (.refl c) hruns hm', hview]
    rwa [fill_load] at hdiffers
  | @live b c layers m hw hb hm =>
    obtain ⟨m', hlive, hm', hview⟩ := activate_live hw hm c.load
      (hlen.symm.trans (congrArg List.length (hw.members _)))
    refine ⟨_, _, hlive, ⟨rfl, rfl, ?_⟩⟩
    rw [hvalid.sameWiring_restored.volatile, restored_live hw hb hm, restored_live hw hb hm', hview]
    exact differsIn_forwardCode hb hw _ input

theorem propagate_passed (h : n.Reachable) (rate : α) {target : List α}
    (hlen : n.outputSize = target.length) :
    ∃ n', propagate rate target n = .ok () n' ∧ Passed n n' := by
  have hvalid := valid_of_reachable h
  cases lowered_of_reachable h with
  | interpreted c layers =>
    exact ⟨_, propagate_interpreted hvalid.hosts rate hlen.symm, rfl, rfl,
      differsIn_backwardPass rate hlen.symm⟩
  | pending c layers =>
    have hruns := hvalid.hosts.runs
    obtain ⟨m', hfresh, hm', hview⟩ := propagate_fresh hvalid.hosts rate hlen.symm
    refine ⟨_, hfresh, ⟨rfl, rfl, ?_⟩⟩
    have hdiffers := differsIn_backwardCode (.refl c) layers c.load rate target
    rw [restored_live (.refl c) hruns hm', hview]
    rwa [fill_load] at hdiffers
  | @live b c layers m hw hb hm =>
    obtain ⟨m', hlive, hm', hview⟩ := propagate_live hw hm c.load rate
      (hlen.symm.trans (congrArg List.length (hw.members _)))
    refine ⟨_, hlive, ⟨rfl, rfl, ?_⟩⟩
    rw [hvalid.sameWiring_restored.volatile, restored_live hw hb hm, restored_live hw hb hm', hview]
    exact differsIn_backwardCode hw layers _ rate target

/-- A pass that is refused changes nothing at all. -/
theorem passed_pass (h : n.Reachable) (p : Pass α) : Passed n (p.request.perform.final n) := by
  cases p with
  | forward input =>
    rw [Pass.request, Request.perform, Op.final_map]
    by_cases hlen : n.inputSize = input.length
    · obtain ⟨xs, n', hactivate, hn'⟩ := activate_passed h hlen
      rwa [Op.final_of_ok hactivate]
    · rw [Op.final_of_error (activate_error hlen)]
      exact .refl n
  | backward rate target =>
    rw [Pass.request, Request.perform, Op.final_map]
    by_cases hlen : n.outputSize = target.length
    · obtain ⟨n', hpropagate, hn'⟩ := propagate_passed h rate hlen
      rwa [Op.final_of_ok hpropagate]
    · rw [Op.final_of_error (propagate_error rate hlen)]
      exact .refl n

/-- The network after passes in turn. -/
def after (n : Network α) (ps : List (Pass α)) : Network α :=
  ps.foldl (fun n p => p.request.perform.final n) n

theorem reachable_after (h : n.Reachable) (ps : List (Pass α)) : (n.after ps).Reachable := by
  induction ps generalizing n with
  | nil => exact h
  | cons p ps ih => exact ih (h.request p.request)

theorem passed_after (h : n.Reachable) (ps : List (Pass α)) : Passed n (n.after ps) := by
  induction ps generalizing n with
  | nil => exact .refl n
  | cons p ps ih => exact (passed_pass h p).trans (ih (h.request p.request))

end Network

end GatedNetwork
