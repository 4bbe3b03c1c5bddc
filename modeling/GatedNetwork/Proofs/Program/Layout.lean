import GatedNetwork.Proofs.Program.Walk

/-!
# What a program depends on

Symbols, code and slots of a program come from the outline of a circuit: how its neurons and links
hang together, which transfer functions the neurons have, and which gains are 1 that nobody drives.
All other numbers go into the memory only, so circuits with one outline have one layout.

The passes of a program write no gain but those that are driven. So whatever it computes, writing its
memory back leaves the outline of the circuit as it was.

* `SameLayout.compile`: circuits with one outline compile to the same program, the memory apart.
* `steady_activate`, `steady_propagate`: passes keep the gains that nobody drives.
* `Steady.sameLayout_fill`: so a circuit keeps its outline when the memory is written back.
-/

namespace GatedNetwork

variable {α : Type}

/-! ## Outlines -/

/-- A neuron without its numbers. -/
structure NeuronOutline where
  transfer : Transfer
  inputs : IdSet
  projected : IdSet
  gated : IdSet
  loop : LinkId
  /-- The neurons that it keeps extended traces for. -/
  traced : IdSet
  influences : IdMap IdSet
deriving DecidableEq

/-- A link without its numbers. -/
structure LinkOutline where
  source : NeuronId
  target : NeuronId
  gater : Option NeuronId
  /-- Is its gain 1, with nobody to drive it? -/
  neutral : Bool
deriving DecidableEq

/-- The neurons and links of a circuit without their numbers. -/
structure CircuitOutline where
  neurons : Array NeuronOutline
  links : Array LinkOutline
deriving DecidableEq

def Neuron.outline (n : Neuron α) : NeuronOutline where
  transfer := n.transfer
  inputs := n.inputs
  projected := n.projected
  gated := n.gated
  loop := n.loop
  traced := n.trace.extended.keys
  influences := n.trace.influences

variable [Arithmetic α]

def Link.outline (k : Link α) : LinkOutline where
  source := k.source
  target := k.target
  gater := k.gater
  neutral := k.gater.isNone && Arithmetic.isOne k.gain

namespace Circuit

def outline (c : Circuit α) : CircuitOutline where
  neurons := c.neurons.map Neuron.outline
  links := c.links.map Link.outline

/-- The outline of a neuron can be found in that of the circuit. -/
theorem outline_neuron (c : Circuit α) (u : NeuronId) :
    (c.neuron u).outline = c.outline.neurons.getD u (default : Neuron α).outline := by
  unfold neuron
  by_cases hu : u < c.neurons.size <;> simp [outline, hu]

/-- The outline of a link can be found in that of the circuit. -/
theorem outline_link (c : Circuit α) (l : LinkId) :
    (c.link l).outline = c.outline.links.getD l (default : Link α).outline := by
  unfold link
  by_cases hl : l < c.links.size <;> simp [outline, hl]

/-- Two circuits differ at most in ensembles, projections, settings, identity and numbers, and where
nobody drives a gain, it is 1 in both or in neither. -/
def SameLayout (c d : Circuit α) : Prop := d.outline = c.outline

instance (c d : Circuit α) : Decidable (SameLayout c d) :=
  inferInstanceAs (Decidable (d.outline = c.outline))

variable {c d e : Circuit α}

namespace SameLayout

theorem symm (h : SameLayout c d) : SameLayout d c := Eq.symm h

theorem trans (h : SameLayout c d) (h' : SameLayout d e) : SameLayout c e := Eq.trans h' h

/-- Records with one outline each, as many in both circuits. -/
theorem of_records (hneurons : d.neurons.size = c.neurons.size)
    (hlinks : d.links.size = c.links.size)
    (hneuron : ∀ u < c.neurons.size, (d.neuron u).outline = (c.neuron u).outline)
    (hlink : ∀ l < c.links.size, (d.link l).outline = (c.link l).outline) : SameLayout c d := by
  unfold SameLayout outline
  congr 1
  · refine Array.ext (by simpa using hneurons) fun u hd hc => ?_
    rw [Array.size_map] at hd hc
    simpa [neuron, hd, hc] using hneuron u hc
  · refine Array.ext (by simpa using hlinks) fun l hd hc => ?_
    rw [Array.size_map] at hd hc
    simpa [link, hd, hc] using hlink l hc

variable (h : SameLayout c d)

include h

/-! ## What circuits with one outline agree on -/

theorem neuron (u : NeuronId) : (d.neuron u).outline = (c.neuron u).outline := by
  rw [outline_neuron, outline_neuron, h]

theorem link (l : LinkId) : (d.link l).outline = (c.link l).outline := by
  rw [outline_link, outline_link, h]

theorem size_neurons : d.neurons.size = c.neurons.size := by
  have hsize := congrArg (fun o => o.neurons.size) h
  simpa [outline] using hsize

theorem size_links : d.links.size = c.links.size := by
  have hsize := congrArg (fun o => o.links.size) h
  simpa [outline] using hsize

theorem transfer (u : NeuronId) : (d.neuron u).transfer = (c.neuron u).transfer :=
  congrArg (·.transfer) (h.neuron u)

theorem inputs (u : NeuronId) : (d.neuron u).inputs = (c.neuron u).inputs :=
  congrArg (·.inputs) (h.neuron u)

theorem projected (u : NeuronId) : (d.neuron u).projected = (c.neuron u).projected :=
  congrArg (·.projected) (h.neuron u)

theorem gated (u : NeuronId) : (d.neuron u).gated = (c.neuron u).gated :=
  congrArg (·.gated) (h.neuron u)

theorem loop (u : NeuronId) : (d.neuron u).loop = (c.neuron u).loop :=
  congrArg (·.loop) (h.neuron u)

theorem extended_keys (u : NeuronId) :
    (d.neuron u).trace.extended.keys = (c.neuron u).trace.extended.keys :=
  congrArg (·.traced) (h.neuron u)

theorem influencesOn (u g : NeuronId) :
    (d.neuron u).trace.influencesOn g = (c.neuron u).trace.influencesOn g :=
  congrArg (fun o => (o.influences.find? g).getD ∅) (h.neuron u)

theorem source (l : LinkId) : (d.link l).source = (c.link l).source :=
  congrArg (·.source) (h.link l)

theorem target (l : LinkId) : (d.link l).target = (c.link l).target :=
  congrArg (·.target) (h.link l)

theorem gater (l : LinkId) : (d.link l).gater = (c.link l).gater :=
  congrArg (·.gater) (h.link l)

theorem loopOf_gater (u : NeuronId) : (d.loopOf u).gater = (c.loopOf u).gater := by
  rw [loopOf, loopOf, h.loop, h.gater]

/-- A gain that nobody drives is 1 in both or in neither. -/
theorem isOne (l : LinkId) (hl : (c.link l).gater = none) :
    Arithmetic.isOne (d.link l).gain = Arithmetic.isOne (c.link l).gain := by
  have hneutral := congrArg (·.neutral) (h.link l)
  simpa [Link.outline, h.gater, hl] using hneutral

/-! ## Code -/

/-- A constant gain of one is left out of both codes or of none. -/
theorem gainFactor (l : LinkId) : d.gainFactor l = c.gainFactor l :=
  congrArg (fun o : LinkOutline => if o.neutral then [] else [Symbol.gain l]) (h.link l)

theorem recurrenceFactors (u : NeuronId) : d.recurrenceFactors u = c.recurrenceFactors u := by
  simp only [Circuit.recurrenceFactors, h.loop, h.gainFactor]

theorem sourceSymbol (l : LinkId) : d.sourceSymbol l = c.sourceSymbol l := by
  simp only [Circuit.sourceSymbol, h.source]

theorem influenceCode (u g : NeuronId) (place : Symbol) :
    d.influenceCode u g place = c.influenceCode u g place := by
  simp only [Circuit.influenceCode, h.loopOf_gater, h.influencesOn, h.sourceSymbol]

theorem fireCode (u : NeuronId) : d.fireCode u = c.fireCode u := by
  simp only [Circuit.fireCode, h.transfer, h.inputs, h.recurrenceFactors, h.sourceSymbol,
    h.gainFactor]

theorem traceLinkCode (u : NeuronId) (gs : List NeuronId) (l : LinkId) :
    d.traceLinkCode u gs l = c.traceLinkCode u gs l := by
  simp only [Circuit.traceLinkCode, h.recurrenceFactors, h.gainFactor, h.sourceSymbol]

theorem traceCode (u : NeuronId) : d.traceCode u = c.traceCode u := by
  have hlinks : d.traceLinkCode u = c.traceLinkCode u :=
    funext fun gs => funext fun l => h.traceLinkCode u gs l
  simp only [Circuit.traceCode, h.extended_keys, h.inputs, h.gated, h.influenceCode, hlinks]

theorem innerErrorCode (u : NeuronId) : d.innerErrorCode u = c.innerErrorCode u := by
  simp only [Circuit.innerErrorCode, h.projected, h.target, h.gainFactor, h.extended_keys,
    h.influenceCode]

theorem correctLinkCode (u : NeuronId) (l : LinkId) :
    d.correctLinkCode u l = c.correctLinkCode u l := by
  simp only [Circuit.correctLinkCode, h.extended_keys]

theorem propagationCode (u : NeuronId) (t : Option Nat) :
    d.propagationCode u t = c.propagationCode u t := by
  have hlinks : d.correctLinkCode u = c.correctLinkCode u := funext (h.correctLinkCode u)
  simp only [Circuit.propagationCode, h.innerErrorCode, h.inputs, hlinks]

/-- A neuron has the same code in both circuits. -/
theorem neuronCode (u : NeuronId) (duty : Duty) : d.neuronCode u duty = c.neuronCode u duty := by
  cases duty <;> simp only [Circuit.neuronCode, h.fireCode, h.traceCode, h.propagationCode]

theorem neuronSymbols (u : NeuronId) (duty : Duty) :
    d.neuronSymbols u duty = c.neuronSymbols u duty := by
  simp only [Circuit.neuronSymbols, h.neuronCode]

/-- Both circuits name their numbers in the same order. -/
theorem symbolsOf (duties : List (Placement × Duty)) : d.symbolsOf duties = c.symbolsOf duties := by
  simp only [Circuit.symbolsOf, h.neuronSymbols]

/-! ## Programs -/

/-- Circuits with one outline are lowered alike: only the memory comes from the numbers. -/
theorem lower (ps : List Placement) :
    d.lower ps = { c.lower ps with memory := (d.lower ps).memory } := by
  simp only [Circuit.lower, h.symbolsOf, h.neuronCode]

theorem resolves (u : NeuronId) : d.resolves u = c.resolves u := by
  simp only [Circuit.resolves, hasNeuron, hasLink, h.size_neurons, h.size_links, h.loop, h.inputs,
    h.projected, h.gated, h.extended_keys, h.influencesOn, h.source, h.target]

/-- Both circuits are compiled or none is. -/
theorem requireCompilable (ps : List Placement) :
    d.requireCompilable ps = c.requireCompilable ps := by
  simp only [Circuit.requireCompilable, hasNeuron, h.size_neurons, h.resolves]

/-- Circuits with one outline compile to the same program, the memory apart, or fail alike. -/
theorem compile (ps : List Placement) :
    d.compile ps = (c.compile ps).map fun p => { p with memory := (d.lower ps).memory } := by
  unfold Circuit.compile
  rw [h.requireCompilable]
  cases c.requireCompilable ps with
  | error e => rfl
  | ok _ => exact congrArg Except.ok (h.lower ps)

end SameLayout

/-- So a program can be written back to all circuits with the outline of its own. -/
theorem SameLayout.fits (h : SameLayout c d) (p : Program α) : p.fits d = p.fits c := by
  have hhouses : ∀ s, d.houses s = c.houses s := fun s => by
    cases s <;> simp only [houses, hasNeuron, hasLink, h.size_neurons, h.size_links]
  rw [Program.fits, Program.fits, funext hhouses]

/-! ## Gains that nobody drives -/

/-- Gains that nobody drives are 1 in the environment where they are in the circuit, and nowhere
else. -/
def Steady (c : Circuit α) (σ : Environment α) : Prop :=
  ∀ l, (c.link l).gater = none → Arithmetic.isOne (σ (.gain l)) = Arithmetic.isOne (c.link l).gain

open Environment

variable {σ τ : Environment α} {layers : Layers} {m : Memory α} {u : NeuronId} {l : LinkId}

/-- The gains of a circuit are steady when its numbers are loaded. -/
theorem steady_load (c : Circuit α) : c.Steady c.load := fun _ _ => rfl

namespace Steady

/-- Gains stay steady while those without a gater are not written. -/
theorem of_agree (h : c.Steady σ)
    (ha : ∀ l, (c.link l).gater = none → τ (.gain l) = σ (.gain l)) : c.Steady τ :=
  fun l hl => (congrArg Arithmetic.isOne (ha l hl)).trans (h l hl)

theorem of_sameLayout (h : c.Steady σ) (hd : SameLayout c d) : d.Steady σ := by
  intro l hl
  rw [hd.gater] at hl
  rw [h l hl, hd.isOne l hl]

/-- Code that writes driven gains only keeps the others. -/
theorem run {code : List (Instr Symbol α)} (h : c.Steady σ)
    (hcode : ∀ i ∈ code, ∀ l, .gain l ∈ i.writes → (c.link l).gater ≠ none) :
    c.Steady (run σ code) :=
  h.of_agree fun l hl => run_of_not_mem_writes fun i hi hw => hcode i hi l hw hl

/-- Writing such numbers back leaves the outline as it was. -/
theorem sameLayout_fill (h : c.Steady σ) : SameLayout c (c.fill σ) := by
  refine .of_records size_neurons_fill size_links_fill (fun u hu => ?_) fun l hl => ?_
  · rw [neuron_fill hu]
    simp only [Neuron.outline, Neuron.filled, IdMap.keys_mapWithKey]
  · rw [link_fill hl]
    cases hg : (c.link l).gater with
    | none => simp [Link.outline, Link.filled, hg, h l hg]
    | some g => simp [Link.outline, Link.filled, hg]

end Steady

/-- A program of `c` can be written back to every circuit with the outline of `c`. -/
theorem SameLayout.restoreInto (h : c.Sound) (hin : c.Inhabits layers) (hd : SameLayout c d)
    (hsize : m.size = (c.program layers).symbols.length) :
    Program.restoreInto { c.program layers with memory := m } d =
      .ok () (d.fill (m.view (c.program layers).symbols d.load)) := by
  refine restoreInto_lower ?_ hsize
  rw [hd.fits]
  exact fits_lower h hin (.refl c) _

/-! ## What passes of a program leave alone -/

/-- The memory that a program starts with is steady, if the numbers beside it are. -/
theorem steady_lower (hσ : c.Steady σ) (ps : List Placement) :
    c.Steady ((c.lower ps).memory.view (c.lower ps).symbols σ) := by
  have hsize : (c.lower ps).memory.size = (c.lower ps).symbols.length := by simp [Circuit.lower]
  intro l hl
  by_cases hmem : .gain l ∈ (c.lower ps).symbols
  · have hload : (c.lower ps).memory.view (c.lower ps).symbols c.load = c.load :=
      Memory.view_map _ c.load
    rw [Memory.view_of_mem σ c.load hsize hmem, hload, steady_load c l hl]
  · rw [Memory.view_of_not_mem hsize hmem, hσ l hl]

/-- The code of a program drives gains of gated links only. -/
theorem gater_of_gain_mem_forward (h : c.Sound) (hin : c.Inhabits layers) {i : Instr Symbol α}
    (hi : i ∈ (c.tasks layers).flatMap c.forwardCode) (hw : .gain l ∈ i.writes) :
    (c.link l).gater ≠ none := by
  obtain ⟨⟨u, duty⟩, ht, hi⟩ := List.mem_flatMap.mp hi
  have hu : u < c.neurons.size := hin.tasks_lt _ ht
  cases duty with
  | input =>
    simp only [forwardCode, Circuit.neuronCode, clampCode, List.append_nil, List.mem_cons,
      List.not_mem_nil, or_false] at hi
    rcases hi with rfl | rfl <;> simp [Instr.writes] at hw
  | inner => simp [gater_of_gain_mem_writes h hu hi hw]
  | output t => simp [gater_of_gain_mem_writes h hu hi hw]

/-- No instruction of a backward pass writes a gain. -/
theorem gain_not_mem_backward {i : Instr Symbol α}
    (hi : i ∈ (c.tasks layers).reverse.flatMap c.backwardCode) : .gain l ∉ i.writes := by
  rw [backward_tasks] at hi
  obtain ⟨p, -, hi⟩ := List.mem_flatMap.mp hi
  intro hw
  rcases writes_propagationCode hi hw with ⟨_, he⟩ | ⟨_, -, he⟩ | ⟨_, he⟩ <;> cases he

/-- A forward pass keeps the gains that nobody drives. -/
theorem steady_activate (h : c.Sound) (hin : c.Inhabits layers)
    (hsize : m.size = (c.program layers).symbols.length)
    (hm : c.Steady (m.view (c.program layers).symbols σ)) {input : List α}
    (hlen : input.length = (c.members layers.input).length) :
    ∃ outputs m', m'.size = (c.program layers).symbols.length ∧
      Program.activate input { c.program layers with memory := m } =
        .ok outputs { c.program layers with memory := m' } ∧
      c.Steady (m'.view (c.program layers).symbols σ) := by
  obtain ⟨m', hsize', hrun, hview⟩ := activate_slots σ hsize hlen
  refine ⟨_, m', hsize', hrun, ?_⟩
  rw [hview]
  refine Steady.run (hm.of_agree fun l _ => ?_) fun i hi l hw =>
    gater_of_gain_mem_forward h hin hi hw
  exact Memory.putEach_of_not_mem _ (by simp) input

/-- So does a backward pass. -/
theorem steady_propagate (hsize : m.size = (c.program layers).symbols.length)
    (hm : c.Steady (m.view (c.program layers).symbols σ)) (rate : α) {target : List α}
    (hlen : target.length = (c.members layers.output).length) :
    ∃ m' : Memory α, m'.size = (c.program layers).symbols.length ∧
      Program.propagate rate target { c.program layers with memory := m } =
        .ok () { c.program layers with memory := m' } ∧
      c.Steady (m'.view (c.program layers).symbols σ) := by
  obtain ⟨m', hsize', hrun, hview⟩ := propagate_slots σ hsize rate hlen
  refine ⟨m', hsize', hrun, ?_⟩
  rw [hview]
  refine Steady.run (hm.of_agree fun l _ => ?_) fun i hi l hw =>
    absurd hw (gain_not_mem_backward hi)
  rw [Memory.putEach_of_not_mem _ (by simp) target, Function.update_of_ne (by simp)]

end Circuit

end GatedNetwork
