import GatedNetwork.Proofs.Program.Compile

/-!
# What a program is made of

A program goes over the neurons of a layer set in canonical order. Each neuron has a duty: inputs are
set from outside, hidden neurons and outputs take steps, and outputs learn from targets. Code and slots
of a program are those of these tasks.

* `Circuit.tasks` — what each neuron of a layer set has to do, and `duties_placements`, which says
  that programs are compiled to do it
* `forward_program`, `backward_program` — the code of a program, task by task
* `mentions_flatMap_tasks` — code made of tasks has slots for all of its symbols
-/

namespace GatedNetwork

variable {α : Type} [Arithmetic α]

namespace Circuit

variable {c : Circuit α} {layers : Layers}

/-! ## What each neuron has to do -/

/-- The neurons of the hidden layers in order. -/
def hiddenMembers (c : Circuit α) (layers : Layers) : List NeuronId :=
  layers.hidden.flatMap c.members

/-- What the neurons of a layer set have to do, in canonical order. -/
def tasks (c : Circuit α) (layers : Layers) : List (NeuronId × Duty) :=
  (c.members layers.input).map (·, .input) ++ (c.hiddenMembers layers).map (·, .inner) ++
    (c.members layers.output).zipIdx.map fun p => (p.1, .output p.2)

/-- The neuron and the duty of a placed neuron. -/
def taskOf (d : Placement × Duty) : NeuronId × Duty := (d.1.neuron, d.2)

omit [Arithmetic α] in
theorem input_mem_tasks {u : NeuronId} (hu : u ∈ c.members layers.input) :
    (u, .input) ∈ c.tasks layers := by
  simp only [tasks, List.mem_append]
  exact .inl (.inl (List.mem_map_of_mem hu))

omit [Arithmetic α] in
theorem inner_mem_tasks {u : NeuronId} (hu : u ∈ c.hiddenMembers layers) :
    (u, .inner) ∈ c.tasks layers := by
  simp only [tasks, List.mem_append]
  exact .inl (.inr (List.mem_map_of_mem hu))

omit [Arithmetic α] in
theorem output_mem_tasks {i : Nat} (hi : i < (c.members layers.output).length) :
    ((c.members layers.output)[i], .output i) ∈ c.tasks layers := by
  simp only [tasks, List.mem_append]
  refine .inr (List.mem_map.mpr ⟨((c.members layers.output)[i], i), ?_, rfl⟩)
  rw [List.mem_zipIdx_iff_getElem?]
  exact List.getElem?_eq_getElem hi

omit [Arithmetic α] in
/-- Outputs apart, all neurons of a layer have the same duty. -/
theorem duties_layer {layer : Layer} {duty : Duty}
    (hduty : ∀ t u ps, Placement.duties t (⟨u, layer⟩ :: ps) =
      (⟨u, layer⟩, duty) :: Placement.duties t ps)
    (t : Nat) (us : List NeuronId) (ps : List Placement) :
    (Placement.duties t (us.map (⟨·, layer⟩) ++ ps)).map taskOf =
      us.map (·, duty) ++ (Placement.duties t ps).map taskOf := by
  induction us with
  | nil => rfl
  | cons u us ih =>
    rw [List.map_cons, List.cons_append, hduty, List.map_cons, ih]
    rfl

omit [Arithmetic α] in
theorem duties_outputs (t : Nat) (us : List NeuronId) :
    (Placement.duties t (us.map (⟨·, .output⟩))).map taskOf =
      (us.zipIdx t).map fun p => (p.1, .output p.2) := by
  induction us generalizing t with
  | nil => rfl
  | cons u us ih =>
    simp only [List.map_cons, Placement.duties, List.zipIdx_cons, List.cons.injEq]
    exact ⟨rfl, ih (t + 1)⟩

omit [Arithmetic α] in
theorem duties_hiddenFrom (c : Circuit α) (t k : Nat) (es : List EnsembleId)
    (ps : List Placement) :
    (Placement.duties t ((Layers.hiddenFrom k es).flatMap (fun le =>
      (c.members le.2).map fun neuron => { neuron, layer := le.1 }) ++ ps)).map taskOf =
      (es.flatMap c.members).map (·, .inner) ++ (Placement.duties t ps).map taskOf := by
  induction es generalizing k with
  | nil => rfl
  | cons e es ih =>
    rw [Layers.hiddenFrom, List.flatMap_cons, List.append_assoc, duties_layer fun _ _ _ => rfl, ih,
      List.flatMap_cons, List.map_append, List.append_assoc]

omit [Arithmetic α] in
theorem placements_eq (c : Circuit α) (layers : Layers) :
    c.placements layers =
      (c.members layers.input).map (fun neuron => ⟨neuron, .input⟩) ++
        ((Layers.hiddenFrom 0 layers.hidden).flatMap (fun le =>
            (c.members le.2).map fun neuron => ⟨neuron, le.1⟩) ++
          (c.members layers.output).map fun neuron => ⟨neuron, .output⟩) := by
  simp [placements, Layers.toList]

omit [Arithmetic α] in
/-- A program is compiled to do the tasks of its layer set. -/
theorem duties_placements (c : Circuit α) (layers : Layers) :
    (Placement.duties 0 (c.placements layers)).map taskOf = c.tasks layers := by
  rw [placements_eq, duties_layer fun _ _ _ => rfl, duties_hiddenFrom, duties_outputs, tasks,
    List.append_assoc]
  rfl

/-! ## The parts of a program -/

/-- The program of a layer set. -/
def program (c : Circuit α) (layers : Layers) : Program α := c.lower (c.placements layers)

/-- A symbol has a slot in a program if a task of the layer set brings it along. -/
theorem mem_symbols_of_task {s : Symbol} {t : NeuronId × Duty} (ht : t ∈ c.tasks layers)
    (hs : s ∈ c.neuronSymbols t.1 t.2) : s ∈ (c.program layers).symbols := by
  rw [← duties_placements] at ht
  obtain ⟨d, hd, rfl⟩ := List.mem_map.mp ht
  exact mem_symbolsOf.mpr (.inr ⟨d, hd, hs⟩)

theorem rate_mem_symbols (c : Circuit α) (layers : Layers) :
    .rate ∈ (c.program layers).symbols :=
  mem_symbolsOf.mpr (.inl rfl)

/-- Is the number of the neuron set from outside? -/
def isInput : Duty → Bool
  | .input => true
  | _ => false

/-- Does the neuron learn from a target? -/
def isOutput : Duty → Bool
  | .output _ => true
  | _ => false

/-- The slot of the target that belongs to a duty. -/
def targetSlot? (slot : Symbol → Slot) : Duty → Option Slot
  | .output t => some (slot (.target t))
  | _ => none

omit [Arithmetic α] in
/-- Slots picked by duty are slots of tasks. -/
theorem map_filter_duties (c : Circuit α) (layers : Layers) (wanted : Duty → Bool)
    (f : NeuronId → Slot) :
    ((Placement.duties 0 (c.placements layers)).filter fun d => wanted d.2).map
        (fun d => f d.1.neuron) =
      ((c.tasks layers).filter fun t => wanted t.2).map fun t => f t.1 := by
  rw [← duties_placements, List.filter_map, List.map_map]
  rfl

theorem inputs_program (c : Circuit α) (layers : Layers) :
    (c.program layers).inputs =
      ((c.members layers.input).map fun u => Symbol.neuron u .activation).map
        (c.program layers).symbols.idxOf := by
  refine (map_filter_duties c layers isInput fun u =>
    (c.program layers).symbols.idxOf (.neuron u .activation)).trans ?_
  simp [tasks, isInput, List.filter_map, Function.comp_def, List.map_map]

theorem outputs_program (c : Circuit α) (layers : Layers) :
    (c.program layers).outputs =
      ((c.members layers.output).map fun u => Symbol.neuron u .activation).map
        (c.program layers).symbols.idxOf := by
  refine (map_filter_duties c layers isOutput fun u =>
    (c.program layers).symbols.idxOf (.neuron u .activation)).trans ?_
  have houtputs : (c.members layers.output).zipIdx.map (fun p => Symbol.neuron p.1 .activation) =
      (c.members layers.output).map fun u => Symbol.neuron u .activation := by
    conv => rhs; rw [← List.zipIdx_map_fst 0 (c.members layers.output), List.map_map]
    rfl
  rw [← houtputs]
  simp [tasks, isOutput, List.filter_map, Function.comp_def, List.map_map]

theorem targets_program (c : Circuit α) (layers : Layers) :
    (c.program layers).targets =
      ((List.range (c.members layers.output).length).map Symbol.target).map
        (c.program layers).symbols.idxOf := by
  have htasks : (c.program layers).targets =
      (c.tasks layers).filterMap fun t => targetSlot? (c.program layers).symbols.idxOf t.2 := by
    rw [← duties_placements, List.filterMap_map]
    rfl
  generalize (c.program layers).symbols.idxOf = slot at htasks
  have htargets : (c.members layers.output).zipIdx.filterMap
        (fun p => targetSlot? slot (.output p.2)) =
      ((c.members layers.output).zipIdx.map Prod.snd).map fun t => slot (.target t) := by
    rw [List.map_map, ← List.filterMap_eq_map]
    rfl
  rw [htasks, tasks, List.filterMap_append, List.filterMap_append, List.filterMap_map,
    List.filterMap_map, List.filterMap_map]
  have hinputs : (c.members layers.input).filterMap
      ((fun t : NeuronId × Duty => targetSlot? slot t.2) ∘ fun u => (u, .input)) = [] :=
    List.filterMap_eq_nil_iff.mpr fun _ _ => rfl
  have hhidden : (c.hiddenMembers layers).filterMap
      ((fun t : NeuronId × Duty => targetSlot? slot t.2) ∘ fun u => (u, .inner)) = [] :=
    List.filterMap_eq_nil_iff.mpr fun _ _ => rfl
  rw [hinputs, hhidden, List.nil_append, List.nil_append]
  refine htargets.trans ?_
  rw [List.zipIdx_map_snd, ← List.range_eq_range', List.map_map]
  rfl

/-! ## The code of a program -/

/-- The forward code of a task. -/
def forwardCode (c : Circuit α) (t : NeuronId × Duty) : List (Instr Symbol α) :=
  (c.neuronCode t.1 t.2).activation ++ (c.neuronCode t.1 t.2).trace

/-- The backward code of a task. -/
def backwardCode (c : Circuit α) (t : NeuronId × Duty) : List (Instr Symbol α) :=
  (c.neuronCode t.1 t.2).propagation

theorem forward_program (c : Circuit α) (layers : Layers) :
    (c.program layers).forward =
      ((c.tasks layers).flatMap c.forwardCode).map (·.map (c.program layers).symbols.idxOf) := by
  rw [← duties_placements, List.flatMap_map, List.map_flatMap]
  simp only [Program.forward, program, lower, List.flatMap_map]
  refine List.flatMap_congr fun d _ => ?_
  rw [forwardCode, List.map_append]
  rfl

theorem backward_program (c : Circuit α) (layers : Layers) :
    (c.program layers).backward =
      ((c.tasks layers).reverse.flatMap c.backwardCode).map
        (·.map (c.program layers).symbols.idxOf) := by
  rw [← duties_placements, ← List.map_reverse, List.flatMap_map, List.map_flatMap]
  simp only [Program.backward, program, lower, ← List.map_reverse, List.flatMap_map]
  exact List.flatMap_congr fun d _ => rfl

theorem forward_tasks (c : Circuit α) (layers : Layers) :
    (c.tasks layers).flatMap c.forwardCode =
      (c.members layers.input).flatMap clampCode ++
        ((c.hiddenMembers layers).flatMap (fun u => c.fireCode u ++ c.traceCode u) ++
          (c.members layers.output).flatMap fun u => c.fireCode u ++ c.traceCode u) := by
  have houtputs : (c.members layers.output).zipIdx.flatMap (fun p => c.fireCode p.1 ++
      c.traceCode p.1) = (c.members layers.output).flatMap fun u => c.fireCode u ++ c.traceCode u := by
    conv => rhs; rw [← List.zipIdx_map_fst 0 (c.members layers.output), List.flatMap_map]
  rw [← houtputs, tasks, List.flatMap_append, List.flatMap_append, List.flatMap_map,
    List.flatMap_map, List.flatMap_map, List.append_assoc]
  congr 1

/-- The neurons that take backward steps, with the numbers of their targets. -/
def learners (c : Circuit α) (layers : Layers) : List (NeuronId × Option Nat) :=
  ((c.members layers.output).zipIdx.map fun p => (p.1, some p.2)).reverse ++
    ((c.hiddenMembers layers).map (·, none)).reverse

theorem backward_tasks (c : Circuit α) (layers : Layers) :
    (c.tasks layers).reverse.flatMap c.backwardCode =
      (c.learners layers).flatMap fun p => c.propagationCode p.1 p.2 := by
  have hinputs : ((c.members layers.input).map fun u => (u, Duty.input)).reverse.flatMap
      c.backwardCode = [] := by
    rw [← List.map_reverse, List.flatMap_map]
    exact List.flatMap_eq_nil_iff.mpr fun _ _ => rfl
  rw [tasks, List.reverse_append, List.reverse_append, List.flatMap_append, List.flatMap_append,
    hinputs, List.append_nil, learners, List.flatMap_append]
  simp only [← List.map_reverse, List.flatMap_map]
  rfl

theorem mentions_tasks {s : Symbol} {t : NeuronId × Duty} (ht : t ∈ c.tasks layers)
    (hs : s ∈ mentions (c.forwardCode t) ∨ s ∈ mentions (c.backwardCode t)) :
    s ∈ (c.program layers).symbols := by
  refine mem_symbols_of_task ht (mem_neuronSymbols_of_mem_mentions ?_)
  rcases hs with hs | hs
  · rw [mentions, forwardCode, List.flatMap_append, List.mem_append] at hs
    rcases hs with hs | hs
    · exact .inl hs
    · exact .inr (.inl hs)
  · exact .inr (.inr hs)

/-- Every code made of tasks of a program has slots for its symbols. -/
theorem mentions_flatMap_tasks {s : Symbol} (ts : List (NeuronId × Duty))
    (code : NeuronId × Duty → List (Instr Symbol α)) (hts : ∀ t ∈ ts, t ∈ c.tasks layers)
    (hcode : ∀ t, code t = c.forwardCode t ∨ code t = c.backwardCode t)
    (hs : s ∈ mentions (ts.flatMap code)) : s ∈ (c.program layers).symbols := by
  rw [mentions, List.flatMap_assoc] at hs
  obtain ⟨t, ht, hs⟩ := List.mem_flatMap.mp hs
  refine mentions_tasks (hts t ht) ?_
  rcases hcode t with he | he
  · exact .inl (he ▸ hs)
  · exact .inr (he ▸ hs)

/-! ## Neurons that exist -/

/-- The neurons of a layer set exist. -/
def Inhabits (c : Circuit α) (layers : Layers) : Prop :=
  ∀ p ∈ c.placements layers, p.neuron < c.neurons.size

instance (c : Circuit α) (layers : Layers) : Decidable (c.Inhabits layers) :=
  inferInstanceAs (Decidable (∀ p ∈ c.placements layers, p.neuron < c.neurons.size))

omit [Arithmetic α] in
theorem Inhabits.tasks_lt (hin : c.Inhabits layers) : ∀ t ∈ c.tasks layers, t.1 < c.neurons.size := by
  intro t ht
  rw [← duties_placements] at ht
  obtain ⟨d, hd, rfl⟩ := List.mem_map.mp ht
  exact hin _ (mem_of_mem_duties hd)

omit [Arithmetic α] in
theorem Inhabits.input_lt (hin : c.Inhabits layers) :
    ∀ u ∈ c.members layers.input, u < c.neurons.size := by
  intro u hu
  exact hin.tasks_lt _ (input_mem_tasks hu)

omit [Arithmetic α] in
theorem Inhabits.hidden_lt (hin : c.Inhabits layers) :
    ∀ u ∈ c.hiddenMembers layers, u < c.neurons.size := by
  intro u hu
  exact hin.tasks_lt _ (inner_mem_tasks hu)

omit [Arithmetic α] in
theorem Inhabits.output_lt (hin : c.Inhabits layers) :
    ∀ u ∈ c.members layers.output, u < c.neurons.size := by
  intro u hu
  obtain ⟨i, hi, rfl⟩ := List.mem_iff_getElem.mp hu
  exact hin.tasks_lt _ (output_mem_tasks hi)

end Circuit

end GatedNetwork
