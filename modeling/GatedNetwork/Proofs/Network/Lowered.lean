import GatedNetwork.Proofs.Network.Valid

/-!
# Where live programs come from

The live program of a network within reach was compiled from a circuit of the same wiring as the
network's own, for the layer set of the network; only its memory has changed since. So what it does is
known instruction by instruction, whatever the laws of the arithmetic are.

* `restored_live` — what restoring leaves
* `activate_live`, `propagate_live` — what passes leave, over the environment that the memory stands
  for; `activate_fresh`, `propagate_fresh` — the first ones, which compile
* `lowered_of_reachable` — live programs within reach come from such circuits
-/

namespace GatedNetwork

variable {α : Type} [Arithmetic α]

namespace Network

open Circuit

/-- A network whose live program, if it has one, comes from a circuit with the wiring of its own. -/
inductive Lowered : Network α → Prop
  | pending (c : Circuit α) (layers : Layers) : Lowered ⟨c, layers, .pending⟩
  | interpreted (c : Circuit α) (layers : Layers) : Lowered ⟨c, layers, .interpreted⟩
  | live {b c : Circuit α} {layers : Layers} {m : Memory α} : SameWiring b c → b.Runs layers →
      m.size = (b.program layers).symbols.length →
      Lowered ⟨c, layers, .compiled { b.program layers with memory := m }⟩

variable {n : Network α} {b c d : Circuit α} {layers : Layers} {m : Memory α}

/-! ## Networks with a live program -/

theorem size_memory_program (c : Circuit α) (layers : Layers) :
    (c.program layers).memory.size = (c.program layers).symbols.length := by
  simp [program, lower]

/-- Restoring fills the circuit with what the memory shows. -/
theorem restored_live (hw : SameWiring b c) (hb : b.Runs layers)
    (hm : m.size = (b.program layers).symbols.length) :
    restored ⟨c, layers, .compiled { b.program layers with memory := m }⟩ =
      c.fill (m.view (b.program layers).symbols c.load) := by
  have hfits : (b.program layers).fits c = true := fits_lower hb.sound hb.inhabits hw _
  have hrestore : restore ⟨c, layers, .compiled { b.program layers with memory := m }⟩ = _ :=
    onCircuit_ok (restoreInto_lower hfits hm)
  rw [restored, Op.final_of_ok hrestore]
  rfl

/-- A forward pass of a network with a live program: the inputs are put, the forward code runs and the
activations of the outputs are read. -/
theorem activate_live (hw : SameWiring b c) (hm : m.size = (b.program layers).symbols.length)
    (σ : Environment α) {input : List α} (hlen : input.length = (b.members layers.input).length) :
    ∃ m', activate input ⟨c, layers, .compiled { b.program layers with memory := m }⟩ =
        .ok ((b.members layers.output).map fun u =>
            m'.view (b.program layers).symbols σ (.neuron u .activation))
          ⟨c, layers, .compiled { b.program layers with memory := m' }⟩ ∧
      m'.size = (b.program layers).symbols.length ∧
      m'.view (b.program layers).symbols σ =
        Environment.run (Memory.putEach (m.view (b.program layers).symbols σ)
            (((b.members layers.input).map fun u => .neuron u .activation).zip input))
          ((b.tasks layers).flatMap b.forwardCode) := by
  obtain ⟨m', hm', hrun, hview⟩ := activate_slots σ hm hlen
  have hsize : (c.members layers.input).length = input.length :=
    (congrArg List.length (hw.members _)).trans hlen.symm
  exact ⟨m', activate_of_program hsize rfl hrun, hm', hview⟩

/-- A backward pass: rate and targets are put and the backward code runs. -/
theorem propagate_live (hw : SameWiring b c) (hm : m.size = (b.program layers).symbols.length)
    (σ : Environment α) (rate : α) {target : List α}
    (hlen : target.length = (b.members layers.output).length) :
    ∃ m', propagate rate target ⟨c, layers, .compiled { b.program layers with memory := m }⟩ =
        .ok () ⟨c, layers, .compiled { b.program layers with memory := m' }⟩ ∧
      m'.size = (b.program layers).symbols.length ∧
      m'.view (b.program layers).symbols σ =
        Environment.run
          (Memory.putEach (Function.update (m.view (b.program layers).symbols σ) .rate rate)
            (((List.range (b.members layers.output).length).map Symbol.target).zip target))
          ((b.tasks layers).reverse.flatMap b.backwardCode) := by
  obtain ⟨m', hm', hrun, hview⟩ := propagate_slots σ hm rate hlen
  have hsize : (c.members layers.output).length = target.length :=
    (congrArg List.length (hw.members _)).trans hlen.symm
  exact ⟨m', propagate_of_program hsize rfl hrun, hm', hview⟩

/-! ## Getting ready -/

/-- A network without a program gets a fresh one, and restores what it would have restored without. -/
theorem prepare_pending (hc : c.Hosts layers) :
    prepare ⟨c, layers, .pending⟩ = .ok () ⟨c, layers, .compiled (c.program layers)⟩ :=
  (Valid.of_pending hc).compile_ok

/-- So running it is running with the fresh program. -/
theorem activate_pending (hc : c.Hosts layers) {input : List α}
    (hlen : input.length = (c.members layers.input).length) :
    activate input ⟨c, layers, .pending⟩ = activate input ⟨c, layers, .compiled (c.program layers)⟩ := by
  have hcheck : ∀ mode, checkSize .input inputSize input.length (⟨c, layers, mode⟩ : Network α) =
      .ok () _ := fun mode => checkSize_ok hlen.symm
  have hprepare : prepare ⟨c, layers, .compiled (c.program layers)⟩ = .ok () _ := rfl
  unfold activate
  rw [Op.bind_of_ok (hcheck _), Op.bind_of_ok (prepare_pending hc), Op.bind_of_ok (hcheck _),
    Op.bind_of_ok hprepare]

theorem propagate_pending (hc : c.Hosts layers) (rate : α) {target : List α}
    (hlen : target.length = (c.members layers.output).length) :
    propagate rate target ⟨c, layers, .pending⟩ =
      propagate rate target ⟨c, layers, .compiled (c.program layers)⟩ := by
  have hcheck : ∀ mode, checkSize .target outputSize target.length (⟨c, layers, mode⟩ : Network α) =
      .ok () _ := fun mode => checkSize_ok hlen.symm
  have hprepare : prepare ⟨c, layers, .compiled (c.program layers)⟩ = .ok () _ := rfl
  unfold propagate
  rw [Op.bind_of_ok (hcheck _), Op.bind_of_ok (prepare_pending hc), Op.bind_of_ok (hcheck _),
    Op.bind_of_ok hprepare]

/-- A fresh program shows the numbers of its circuit. -/
theorem view_program (c : Circuit α) (layers : Layers) :
    (c.program layers).memory.view (c.program layers).symbols c.load = c.load :=
  Memory.view_map _ c.load

/-- So the first passes start from these. -/
theorem activate_fresh (hc : c.Hosts layers) {input : List α}
    (hlen : input.length = (c.members layers.input).length) :
    ∃ m', activate input ⟨c, layers, .pending⟩ =
        .ok ((c.members layers.output).map fun u =>
            m'.view (c.program layers).symbols c.load (.neuron u .activation))
          ⟨c, layers, .compiled { c.program layers with memory := m' }⟩ ∧
      m'.size = (c.program layers).symbols.length ∧
      m'.view (c.program layers).symbols c.load =
        Environment.run (Memory.putEach c.load
            (((c.members layers.input).map fun u => .neuron u .activation).zip input))
          ((c.tasks layers).flatMap c.forwardCode) := by
  obtain ⟨m', hactivate, hm', hview⟩ := activate_live (.refl c) (size_memory_program c layers) c.load
    hlen
  rw [view_program] at hview
  exact ⟨m', (activate_pending hc hlen).trans hactivate, hm', hview⟩

theorem propagate_fresh (hc : c.Hosts layers) (rate : α) {target : List α}
    (hlen : target.length = (c.members layers.output).length) :
    ∃ m', propagate rate target ⟨c, layers, .pending⟩ =
        .ok () ⟨c, layers, .compiled { c.program layers with memory := m' }⟩ ∧
      m'.size = (c.program layers).symbols.length ∧
      m'.view (c.program layers).symbols c.load =
        Environment.run (Memory.putEach (Function.update c.load .rate rate)
            (((List.range (c.members layers.output).length).map Symbol.target).zip target))
          ((c.tasks layers).reverse.flatMap c.backwardCode) := by
  obtain ⟨m', hpropagate, hm', hview⟩ := propagate_live (.refl c) (size_memory_program c layers)
    c.load rate hlen
  rw [view_program] at hview
  exact ⟨m', (propagate_pending hc rate hlen).trans hpropagate, hm', hview⟩

/-! ## What requests and upkeep make of them -/

namespace Lowered

theorem of_dropped (d : Circuit α) (layers : Layers) (mode : Mode α) :
    Lowered ⟨d, layers, mode.dropped⟩ := by
  cases mode with
  | pending => exact .pending d layers
  | compiled p => exact .pending d layers
  | interpreted => exact .interpreted d layers

/-- The circuit may differ in numbers. -/
theorem withCircuit (h : n.Lowered) (hw : SameWiring n.circuit d) :
    Lowered { n with circuit := d } := by
  cases h with
  | pending => exact .pending d _
  | interpreted => exact .interpreted d _
  | live hb hruns hm => exact .live (hb.trans hw) hruns hm

theorem of_program (hc : c.Runs layers) : Lowered ⟨c, layers, .compiled (c.program layers)⟩ :=
  .live (.refl c) hc (size_memory_program c layers)

theorem activate_ok (hl : n.Lowered) (h : n.Valid) {input : List α}
    (hlen : n.inputSize = input.length) :
    ∃ xs n', activate input n = .ok xs n' ∧ n'.Lowered := by
  cases hl with
  | interpreted c layers =>
    exact ⟨_, _, activate_interpreted h.hosts hlen.symm, .interpreted _ _⟩
  | pending c layers =>
    obtain ⟨m', hactivate, hm', -⟩ := activate_fresh h.hosts hlen.symm
    exact ⟨_, _, hactivate, .live (.refl c) h.hosts.runs hm'⟩
  | @live b c layers m hw hb hm =>
    obtain ⟨m', hactivate, hm', -⟩ := activate_live hw hm b.load
      (hlen.symm.trans (congrArg List.length (hw.members _)))
    exact ⟨_, _, hactivate, .live hw hb hm'⟩

theorem propagate_ok (hl : n.Lowered) (h : n.Valid) (rate : α) {target : List α}
    (hlen : n.outputSize = target.length) :
    ∃ n', propagate rate target n = .ok () n' ∧ n'.Lowered := by
  cases hl with
  | interpreted c layers =>
    exact ⟨_, propagate_interpreted h.hosts rate hlen.symm, .interpreted _ _⟩
  | pending c layers =>
    obtain ⟨m', hpropagate, hm', -⟩ := propagate_fresh h.hosts rate hlen.symm
    exact ⟨_, hpropagate, .live (.refl c) h.hosts.runs hm'⟩
  | @live b c layers m hw hb hm =>
    obtain ⟨m', hpropagate, hm', -⟩ := propagate_live hw hm b.load rate
      (hlen.symm.trans (congrArg List.length (hw.members _)))
    exact ⟨_, hpropagate, .live hw hb hm'⟩

/-- An operation on the circuit of a network that has dropped its program. -/
theorem final_onCircuit {β : Type} (op : Edit α β) (d : Circuit α) (layers : Layers)
    (mode : Mode α) : ((onCircuit op).final ⟨d, layers, mode.dropped⟩).Lowered := by
  rw [Network.final_onCircuit]
  exact of_dropped _ layers mode

theorem project (hl : n.Lowered) (h : n.Valid) (destination : Destination)
    (topology : Option Topology) (weight : Option α) :
    ((project destination topology weight).final n).Lowered := by
  cases he : n.circuit.resolve destination with
  | error e =>
    rw [Op.final_of_error (project_error he topology weight)]
    exact hl
  | ok e =>
    unfold Op.final
    rw [h.project_eq he]
    exact final_onCircuit _ _ _ _

theorem request (hl : n.Lowered) (h : n.Valid) (r : Request α) : (r.perform.final n).Lowered := by
  cases r <;> simp only [Request.perform, Op.final_map]
  case activate input =>
    by_cases hlen : n.inputSize = input.length
    · obtain ⟨xs, n', hactivate, hl'⟩ := hl.activate_ok h hlen
      rwa [Op.final_of_ok hactivate]
    · rwa [Op.final_of_error (activate_error hlen)]
  case propagate rate target =>
    by_cases hlen : n.outputSize = target.length
    · obtain ⟨n', hpropagate, hl'⟩ := hl.propagate_ok h rate hlen
      rwa [Op.final_of_ok hpropagate]
    · rwa [Op.final_of_error (propagate_error rate hlen)]
  case project target topology weight => exact hl.project h _ topology weight
  case gate projection side =>
    unfold Op.final
    rw [h.gate_eq]
    exact final_onCircuit _ _ _ _
  case clear =>
    obtain ⟨d, hd, -⟩ := clearEnsembles_ok h.hosts_restored.runs
    have hclear : Network.clear n = .ok () _ := h.forget_ok hd
    rw [Op.final_of_ok hclear]
    exact of_dropped d _ _
  case reset =>
    obtain ⟨d, hd, -⟩ := resetEnsembles_ok h.hosts_restored.runs
    have hreset : Network.reset n = .ok () _ := h.forget_ok hd
    rw [Op.final_of_ok hreset]
    exact of_dropped d _ _
  case snapshot =>
    rw [Op.final_of_ok h.snapshot_ok]
    exact hl.withCircuit h.sameWiring_restored
  case edit r =>
    unfold Op.final
    rw [h.edit_eq]
    exact final_onCircuit _ _ _ _

theorem upkeep (hl : n.Lowered) (h : n.Valid) (u : Upkeep) : (u.perform.final n).Lowered := by
  cases u with
  | compile =>
    rw [Upkeep.perform, Op.final_of_ok h.compile_ok]
    exact .of_program h.hosts_restored.runs
  | restore =>
    rw [Upkeep.perform, Op.final_of_ok h.restore_ok.1]
    exact hl.withCircuit h.sameWiring_restored
  | invalidate =>
    rw [Upkeep.perform, Op.final_of_ok h.invalidate_ok]
    exact of_dropped _ _ _
  | setOptimize on =>
    have hswitch : setOptimize on n = .ok () ⟨n.restored, n.layers, _⟩ :=
      Op.bind_of_ok h.restore_ok.1
    rw [Upkeep.perform, Op.final_of_ok hswitch]
    cases on with
    | true => exact .pending n.restored n.layers
    | false => exact .interpreted n.restored n.layers
  | idle =>
    unfold Op.final
    rw [Upkeep.perform, h.edit_eq]
    exact final_onCircuit (pure () : Edit α Unit) n.restored n.layers n.mode
  | copy i =>
    -- neither the code of a program nor what it runs on depends on the identity
    show (n.copy i).Lowered
    cases hl with
    | pending c layers => exact .pending (c.copy i) (layers.bind i)
    | interpreted c layers => exact .interpreted (c.copy i) (layers.bind i)
    | @live b c layers m hw hb hm =>
      have hbound : b.Runs (layers.bind i) := ⟨hb.sound, hb.ensembles, hb.inhabits⟩
      exact .live (hw.trans (sameWiring_copy c i)) hbound hm

end Lowered

/-- Live programs within reach come from circuits with the wiring of the network's own. -/
theorem lowered_of_reachable (h : n.Reachable) : n.Lowered := by
  induction h with
  | create _ _ hn =>
    obtain ⟨-, rfl⟩ := create_eq_ok hn
    exact .pending _ _
  | imported hn =>
    obtain ⟨-, rfl⟩ := create_eq_ok (Snapshot.toNetwork_eq_ok_iff.mp hn).2
    exact .pending _ _
  | request r hn ih => exact ih.request (valid_of_reachable hn) r
  | project destination topology weight hn ih =>
    exact ih.project (valid_of_reachable hn) destination topology weight
  | upkeep u hn ih => exact ih.upkeep (valid_of_reachable hn) u
  | overwrite _ hmode hsize ih =>
    cases ih with
    | pending => cases hmode
    | interpreted => cases hmode
    | live hw hb hm =>
      cases hmode
      exact .live hw hb (hsize.trans hm)

end Network

end GatedNetwork
