import Mathlib.Data.List.Nodup
import GatedNetwork.Proofs.Program.Tasks

/-!
# Programs walk like circuits

A pass through a layer set goes over its neurons in order: the inputs are set from outside, the hidden
neurons and the outputs take forward steps; backwards, the outputs and then the hidden neurons take
backward steps in reverse order. A program compiled from the same layer set does this to its memory.

* `Circuit.forwardPass`, `Circuit.backwardPass` — what passes do to a circuit
* `activate_slots`, `propagate_slots` — what passes of a program do to its memory
* `activate_program`, `propagate_program` — passes of a program, seen in the circuit
-/

namespace GatedNetwork

variable {α : Type} [Arithmetic α]

open Environment

namespace Circuit

variable {c : Circuit α} {σ : Environment α} {layers : Layers}

/-! ## Walks in a circuit -/

/-- Sets neurons to values from outside in turn. -/
def clampAll (c : Circuit α) (vs : List (NeuronId × α)) : Circuit α :=
  vs.foldl (fun d v => d.clamp v.1 v.2) c

/-- Forward steps in turn. -/
def stepAll (c : Circuit α) (us : List NeuronId) : Circuit α := us.foldl step c

theorem stepAll_cons (c : Circuit α) (u : NeuronId) (us : List NeuronId) :
    c.stepAll (u :: us) = (c.step u).stepAll us := rfl

theorem stepAll_append (c : Circuit α) (us vs : List NeuronId) :
    c.stepAll (us ++ vs) = (c.stepAll us).stepAll vs := List.foldl_append

/-- What a forward pass does. -/
def forwardPass (c : Circuit α) (layers : Layers) (input : List α) : Circuit α :=
  ((c.clampAll ((c.members layers.input).zip input)).stepAll (c.hiddenMembers layers)).stepAll
    (c.members layers.output)

/-- What a backward pass does. -/
def backwardPass (c : Circuit α) (layers : Layers) (rate : α) (target : List α) : Circuit α :=
  (c.propagateAll (some rate) ((c.members layers.output).zip (target.map some)).reverse).propagateAll
    (some rate) ((c.hiddenMembers layers).map (·, none)).reverse

theorem activateAll_some (c : Circuit α) (us : List NeuronId) (xs : List α) :
    (c.activateAll (us.zip (xs.map some))).2 = c.clampAll (us.zip xs) := by
  induction us generalizing c xs with
  | nil => rfl
  | cons u us ih =>
    cases xs with
    | nil => rfl
    | cons x xs => exact ih _ xs

theorem activateAll_none (c : Circuit α) (us : List NeuronId) :
    (c.activateAll (us.map (·, none))).2 = c.stepAll us := by
  induction us generalizing c with
  | nil => rfl
  | cons u us ih => exact ih _

theorem propagateAll_cons (c : Circuit α) (rate : Option α) (p : NeuronId × Option α)
    (us : List (NeuronId × Option α)) :
    c.propagateAll rate (p :: us) = (c.propagateNeuron p.1 rate p.2).propagateAll rate us := rfl

theorem propagateAll_append (c : Circuit α) (rate : Option α) (us vs : List (NeuronId × Option α)) :
    c.propagateAll rate (us ++ vs) = (c.propagateAll rate us).propagateAll rate vs :=
  List.foldl_append

/-! ## Walks in an environment -/

theorem clampAll_fill (c : Circuit α) (vs : List (NeuronId × α)) (σ : Environment α) :
    (c.fill σ).clampAll vs = c.fill (vs.foldl (fun σ v => clamped v.1 v.2 σ) σ) := by
  induction vs generalizing σ with
  | nil => rfl
  | cons v vs ih =>
    show ((c.fill σ).clamp v.1 v.2).clampAll vs = _
    rw [clamp_fill, ih]
    rfl

/-- The code of inputs writes derivatives and biases, so the activations may be put before all of
it. -/
theorem run_clampCode_putEach (u : NeuronId) (vs : List (NeuronId × α)) (σ : Environment α) :
    run (Memory.putEach σ (vs.map fun v => (.neuron v.1 .activation, v.2))) (clampCode u) =
      Memory.putEach (run σ (clampCode u)) (vs.map fun v => (.neuron v.1 .activation, v.2)) := by
  induction vs generalizing σ with
  | nil => rfl
  | cons v vs ih =>
    rw [List.map_cons, Memory.putEach_cons, Memory.putEach_cons, ih]
    congr 1
    simp only [clampCode, run_cons, run_nil, exec]
    rw [Function.update_comm (a := Symbol.neuron v.1 .activation) (by simp),
      Function.update_comm (a := Symbol.neuron v.1 .activation) (by simp)]

/-- Putting all inputs and running their code sets them one after another. -/
theorem run_clampCodes (us : List NeuronId) (xs : List α) (hlen : xs.length = us.length)
    (σ : Environment α) :
    run (Memory.putEach σ ((us.map fun u => .neuron u .activation).zip xs)) (us.flatMap clampCode) =
      (us.zip xs).foldl (fun σ v => clamped v.1 v.2 σ) σ := by
  have hzip : ∀ (us : List NeuronId) (xs : List α),
      (us.map fun u => Symbol.neuron u .activation).zip xs =
        (us.zip xs).map fun v => (Symbol.neuron v.1 .activation, v.2) := by
    intro us xs
    rw [List.zip_map_left]
    rfl
  rw [hzip]
  induction us generalizing xs σ with
  | nil => rfl
  | cons u us ih =>
    cases xs with
    | nil => simp at hlen
    | cons x xs =>
      have hlen' : xs.length = us.length := by simpa using hlen
      rw [List.flatMap_cons, run_append, List.zip_cons_cons, List.map_cons, List.foldl_cons,
        ← ih xs hlen']
      congr 1
      exact run_clampCode_putEach u _ _

theorem neutral_clamped (hσ : c.Neutral σ) (vs : List (NeuronId × α)) :
    c.Neutral (vs.foldl (fun σ v => clamped v.1 v.2 σ) σ) := by
  induction vs generalizing σ with
  | nil => exact hσ
  | cons v vs ih => exact ih (hσ.of_agree fun l _ => by simp [clamped])

variable [NeutralOne α]

theorem stepAll_fill (h : c.Sound) {us : List NeuronId} (hus : ∀ u ∈ us, u < c.neurons.size)
    (hσ : c.Neutral σ) :
    (c.fill σ).stepAll us = c.fill (run σ (us.flatMap fun u => c.fireCode u ++ c.traceCode u)) ∧
      c.Neutral (run σ (us.flatMap fun u => c.fireCode u ++ c.traceCode u)) := by
  induction us generalizing σ with
  | nil => exact ⟨rfl, hσ⟩
  | cons u us ih =>
    obtain ⟨hu, hus⟩ := List.forall_mem_cons.mp hus
    rw [List.flatMap_cons, run_append, stepAll_cons, step_fill h hu hσ]
    exact ih hus (neutral_step h hu hσ)

/-- Backward steps in turn, with rate and targets from the environment. -/
theorem propagateAll_fill (h : c.Sound) {us : List (NeuronId × Option Nat)}
    (hus : ∀ p ∈ us, p.1 < c.neurons.size) (hσ : c.Neutral σ) {rate : α} (hrate : σ .rate = rate)
    (values : Nat → α) (hvalues : ∀ t, σ (.target t) = values t) :
    (c.fill σ).propagateAll (some rate) (us.map fun p => (p.1, p.2.map values)) =
        c.fill (run σ (us.flatMap fun p => c.propagationCode p.1 p.2)) ∧
      c.Neutral (run σ (us.flatMap fun p => c.propagationCode p.1 p.2)) := by
  induction us generalizing σ with
  | nil => exact ⟨rfl, hσ⟩
  | cons p us ih =>
    obtain ⟨hp, hus⟩ := List.forall_mem_cons.mp hus
    have hstep : (c.fill σ).propagateNeuron p.1 (some rate) (p.2.map values) =
        c.fill (run σ (c.propagationCode p.1 p.2)) := by
      have htargets : (fun t => σ (.target t)) = values := funext hvalues
      rw [← propagateNeuron_fill h hp hσ, hrate, htargets]
    rw [List.flatMap_cons, run_append, List.map_cons, propagateAll_cons, hstep]
    refine ih hus (neutral_propagate hσ p.1 p.2) ?_ fun t => ?_
    · rw [run_propagationCode_of_ne (by simp) (by simp) (by simp), hrate]
    · rw [run_propagationCode_of_ne (by simp) (by simp) (by simp), hvalues]

/-! ## Passes of a program -/

theorem neutral_program (h : c.Sound) (hin : c.Inhabits layers) (hσ : c.Neutral σ) {m : Memory α}
    (hsize : m.size = (c.program layers).symbols.length) :
    c.Neutral (m.view (c.program layers).symbols σ) :=
  neutral_view h hin hσ hsize

omit [NeutralOne α] in
/-- A forward pass of a program: it puts the inputs, runs the code and gives out the activations of the
outputs. -/
theorem activate_slots (σ : Environment α) {m : Memory α}
    (hsize : m.size = (c.program layers).symbols.length) {input : List α}
    (hlen : input.length = (c.members layers.input).length) :
    ∃ m' : Memory α, m'.size = (c.program layers).symbols.length ∧
      Program.activate input { c.program layers with memory := m } =
        .ok ((c.members layers.output).map fun u =>
            m'.view (c.program layers).symbols σ (.neuron u .activation))
          { c.program layers with memory := m' } ∧
      m'.view (c.program layers).symbols σ =
        run (Memory.putEach (m.view (c.program layers).symbols σ)
            (((c.members layers.input).map fun u => .neuron u .activation).zip input))
          ((c.tasks layers).flatMap c.forwardCode) := by
  have hinputs : ∀ s ∈ (c.members layers.input).map fun u => Symbol.neuron u .activation,
      s ∈ (c.program layers).symbols := by
    intro s hs
    obtain ⟨u, hu, rfl⟩ := List.mem_map.mp hs
    exact mem_symbols_of_task (input_mem_tasks hu) (activation_mem_neuronSymbols c u .input)
  have houtputs : ∀ s ∈ (c.members layers.output).map fun u => Symbol.neuron u .activation,
      s ∈ (c.program layers).symbols := by
    intro s hs
    obtain ⟨u, hu, rfl⟩ := List.mem_map.mp hs
    obtain ⟨i, hi, rfl⟩ := List.mem_iff_getElem.mp hu
    exact mem_symbols_of_task (output_mem_tasks hi) (activation_mem_neuronSymbols c _ _)
  -- the memories after the inputs were put and after the code ran
  obtain ⟨m₁, hput, hsize₁, hview₁⟩ := Memory.putAll_slots σ hsize hinputs input
  obtain ⟨m₂, hrun, hsize₂, hview₂⟩ := Memory.run_slots σ ((c.tasks layers).flatMap c.forwardCode)
    hsize₁ fun s hs => mentions_flatMap_tasks _ c.forwardCode (fun _ ht => ht) (fun _ => .inl rfl) hs
  have hget := Memory.getAll_slots σ hsize₂ houtputs
  simp only [List.map_map] at hget
  refine ⟨m₂, hsize₂, ?_, by rw [hview₂, hview₁]⟩
  refine Op.checked_of_ok ((c.members layers.output).map fun u =>
    m₂.view (c.program layers).symbols σ (.neuron u .activation), m₂) ?_
  have hcheck : checkLength .input (c.program layers).inputs.length input.length = .ok () := by
    rw [checkLength_eq_ok_iff, inputs_program, List.length_map, List.length_map, hlen]
  rw [← inputs_program] at hput
  rw [← forward_program] at hrun
  refine bind_eq_ok_iff.mpr ⟨(), hcheck, bind_eq_ok_iff.mpr ⟨m₁, hput, ?_⟩⟩
  refine bind_eq_ok_iff.mpr ⟨m₂, hrun, bind_eq_ok_iff.mpr ⟨_, ?_, rfl⟩⟩
  show (c.program layers).outputs.mapM m₂.get = _
  rw [outputs_program, List.map_map]
  exact hget

/-- A forward pass of a program, seen in the circuit. -/
theorem activate_program (h : c.Sound) (hin : c.Inhabits layers) (hσ : c.Neutral σ)
    {m : Memory α} (hsize : m.size = (c.program layers).symbols.length) {input : List α}
    (hlen : input.length = (c.members layers.input).length) :
    ∃ m' : Memory α, m'.size = (c.program layers).symbols.length ∧
      Program.activate input { c.program layers with memory := m } =
        .ok ((c.members layers.output).map fun u =>
            m'.view (c.program layers).symbols σ (.neuron u .activation))
          { c.program layers with memory := m' } ∧
      c.fill (m'.view (c.program layers).symbols σ) =
        (c.fill (m.view (c.program layers).symbols σ)).forwardPass layers input := by
  obtain ⟨m', hsize', hrun, hview⟩ := activate_slots σ hsize hlen
  refine ⟨m', hsize', hrun, ?_⟩
  -- inputs, hidden neurons and outputs, each part from what the one before it leaves
  have hneutral := neutral_clamped (neutral_program h hin hσ hsize)
    ((c.members layers.input).zip input)
  obtain ⟨hhidden, hneutral'⟩ := stepAll_fill h hin.hidden_lt hneutral
  obtain ⟨houtput, -⟩ := stepAll_fill h hin.output_lt hneutral'
  rw [hview, forward_tasks, run_append, run_append, run_clampCodes _ _ hlen, ← houtput, ← hhidden,
    ← clampAll_fill]
  rfl

omit [Arithmetic α] [NeutralOne α] in
/-- Targets put into their places, one for each output. -/
theorem putEach_targets (σ : Environment α) {n : Nat} {target : List α} (hlen : target.length = n) :
    (∀ i (hi : i < target.length),
      Memory.putEach σ (((List.range n).map Symbol.target).zip target) (.target i) = target[i]) ∧
      ∀ s, (∀ i, s ≠ .target i) →
        Memory.putEach σ (((List.range n).map Symbol.target).zip target) s = σ s := by
  have hinjective : Function.Injective Symbol.target := fun i j he => by simpa using he
  have hnodup : ((List.range n).map Symbol.target).Nodup := List.nodup_range.map hinjective
  constructor
  · intro i hi
    have hlt : i < ((List.range n).map Symbol.target).length := by simpa [← hlen] using hi
    have hidx : ((List.range n).map Symbol.target).idxOf (.target i) = i := by
      have hget := hnodup.idxOf_getElem i hlt
      simpa using hget
    rw [putEach_zip hnodup (by simpa using hlen)]
    simp [hidx, hi]
  · intro s hs
    refine Memory.putEach_of_not_mem σ (fun hmem => ?_) target
    obtain ⟨i, -, rfl⟩ := List.mem_map.mp hmem
    exact hs i rfl

omit [Arithmetic α] [NeutralOne α] in
/-- Outputs paired with their targets are outputs paired with the numbers under the places of their
targets. -/
theorem zip_targets {us : List NeuronId} {target : List α} (hlen : target.length = us.length)
    (values : Nat → α) (hvalues : ∀ i (hi : i < target.length), values i = target[i]) :
    us.zip (target.map some) =
      (us.zipIdx.map fun p => (p.1, some p.2)).map fun p => (p.1, p.2.map values) := by
  refine List.ext_getElem (by simp [hlen]) fun i hi hi' => ?_
  have hlt : i < target.length := by
    simp only [List.length_zip, List.length_map] at hi
    lia
  simp [hvalues i hlt]

omit [NeutralOne α] in
/-- A circuit keeps neither rate nor targets, so these may differ. -/
theorem fill_congr_apart {τ : Environment α}
    (hsame : ∀ s, s ≠ .rate → (∀ i, s ≠ .target i) → σ s = τ s) : c.fill σ = c.fill τ := by
  refine fill_congr fun s hs => hsame s ?_ ?_
  · rintro rfl
    exact hs
  · rintro i rfl
    exact hs

omit [Arithmetic α] [NeutralOne α] in
theorem Inhabits.learners_lt (hin : c.Inhabits layers) :
    ∀ p ∈ c.learners layers, p.1 < c.neurons.size := by
  intro p hp
  simp only [learners, List.mem_append, List.mem_reverse, List.mem_map] at hp
  rcases hp with ⟨q, hq, rfl⟩ | ⟨u, hu, rfl⟩
  · exact hin.output_lt _ (List.fst_mem_of_mem_zipIdx hq)
  · exact hin.hidden_lt u hu

omit [NeutralOne α] in
/-- A backward pass of a program: it puts rate and targets and runs the code. -/
theorem propagate_slots (σ : Environment α) {m : Memory α}
    (hsize : m.size = (c.program layers).symbols.length) (rate : α) {target : List α}
    (hlen : target.length = (c.members layers.output).length) :
    ∃ m' : Memory α, m'.size = (c.program layers).symbols.length ∧
      Program.propagate rate target { c.program layers with memory := m } =
        .ok () { c.program layers with memory := m' } ∧
      m'.view (c.program layers).symbols σ =
        run (Memory.putEach (Function.update (m.view (c.program layers).symbols σ) .rate rate)
            (((List.range (c.members layers.output).length).map Symbol.target).zip target))
          ((c.tasks layers).reverse.flatMap c.backwardCode) := by
  have htargets : ∀ s ∈ (List.range (c.members layers.output).length).map Symbol.target,
      s ∈ (c.program layers).symbols := by
    intro s hs
    obtain ⟨i, hi, rfl⟩ := List.mem_map.mp hs
    have hlt := List.mem_range.mp hi
    exact mem_symbols_of_task (output_mem_tasks hlt) (target_mem_neuronSymbols c _ i)
  -- the memories after the rate was put, after the targets were put and after the code ran
  obtain ⟨m₁, hrate, hsize₁, hview₁⟩ :=
    Memory.put_slot σ hsize (rate_mem_symbols c layers) rate
  obtain ⟨m₂, hput, hsize₂, hview₂⟩ := Memory.putAll_slots σ hsize₁ htargets target
  obtain ⟨m₃, hrun, hsize₃, hview₃⟩ := Memory.run_slots σ
    ((c.tasks layers).reverse.flatMap c.backwardCode) hsize₂ fun s hs =>
      mentions_flatMap_tasks _ c.backwardCode (fun _ ht => List.mem_reverse.mp ht)
        (fun _ => .inr rfl) hs
  refine ⟨m₃, hsize₃, Op.checked_of_ok m₃ ?_, by rw [hview₃, hview₂, hview₁]⟩
  have hcheck : checkLength .target (c.program layers).targets.length target.length = .ok () := by
    rw [checkLength_eq_ok_iff, targets_program, List.length_map, List.length_map,
      List.length_range, hlen]
  rw [← targets_program] at hput
  rw [← backward_program] at hrun
  refine bind_eq_ok_iff.mpr ⟨(), hcheck, bind_eq_ok_iff.mpr ⟨m₁, hrate, ?_⟩⟩
  exact bind_eq_ok_iff.mpr ⟨m₂, hput, hrun⟩

/-- A backward pass of a program, seen in the circuit. -/
theorem propagate_program (h : c.Sound) (hin : c.Inhabits layers) (hσ : c.Neutral σ)
    {m : Memory α} (hsize : m.size = (c.program layers).symbols.length) (rate : α)
    {target : List α} (hlen : target.length = (c.members layers.output).length) :
    ∃ m' : Memory α, m'.size = (c.program layers).symbols.length ∧
      Program.propagate rate target { c.program layers with memory := m } =
        .ok () { c.program layers with memory := m' } ∧
      c.fill (m'.view (c.program layers).symbols σ) =
        (c.fill (m.view (c.program layers).symbols σ)).backwardPass layers rate target := by
  obtain ⟨m', hsize', hrun, hview⟩ := propagate_slots σ hsize rate hlen
  refine ⟨m', hsize', hrun, ?_⟩
  -- what was put does not show in the circuit, and the code finds it in the environment
  obtain ⟨hvalues, hothers⟩ :=
    putEach_targets (Function.update (m.view (c.program layers).symbols σ) .rate rate) hlen
  generalize Memory.putEach _ _ = τ at hview hvalues hothers
  have hrate : τ .rate = rate := by rw [hothers _ (by simp), Function.update_self]
  have hsame : c.fill τ = c.fill (m.view (c.program layers).symbols σ) := by
    refine fill_congr_apart fun s hs ht => ?_
    rw [hothers s ht, Function.update_of_ne hs]
  have hneutral : c.Neutral τ := (neutral_program h hin hσ hsize).of_agree fun l _ => by
    rw [hothers _ (by simp), Function.update_of_ne (by simp)]
  obtain ⟨hfill, -⟩ := propagateAll_fill h hin.learners_lt hneutral hrate
    (fun i => τ (.target i)) fun _ => rfl
  rw [hview, backward_tasks, ← hfill, hsame, backwardPass, ← propagateAll_append, learners,
    List.map_append, List.map_reverse, List.map_reverse]
  have hzip := zip_targets hlen _ hvalues
  -- hidden neurons have no target to look up
  have hnone : ((c.hiddenMembers layers).map fun u => ((u, none) : NeuronId × Option α)) =
      ((c.hiddenMembers layers).map fun u => ((u, none) : NeuronId × Option Nat)).map
        fun p => (p.1, p.2.map fun i => τ (.target i)) := by
    rw [List.map_map]
    rfl
  rw [← hzip, ← hnone]
  rfl

end Circuit

end GatedNetwork
