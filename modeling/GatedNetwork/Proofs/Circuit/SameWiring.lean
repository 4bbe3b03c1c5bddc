import GatedNetwork.Proofs.Circuit.Records
import GatedNetwork.Proofs.IdMap
import GatedNetwork.Program.Basic

/-!
# Circuits with the same wiring

Most operations change numbers only: they leave alone which neurons and links there are, which ids a
record lists and which keys a trace has. `Circuit.SameWiring` says that two circuits differ at most
in numbers, transfer functions, settings, identity and generator.

* `SameWiring` is an equivalence
* every step of a neuron, forward, backward or forgetting, keeps the wiring
* so does writing values back from a program
-/

namespace GatedNetwork

variable {α : Type} [Arithmetic α]

/-- The record of a neuron with its numbers and its transfer function struck out. -/
def Neuron.bare (n : Neuron α) : Neuron α where
  activation := 0
  state := 0
  previous := 0
  bias := 0
  derivative := 0
  transfer := .logistic
  error := .zero
  trace :=
    { eligibility := n.trace.eligibility.map fun _ => 0
      extended := n.trace.extended.map fun xs => xs.map fun _ => 0
      influences := n.trace.influences }
  inputs := n.inputs
  projected := n.projected
  gated := n.gated
  loop := n.loop

/-- The record of a link with its numbers struck out. -/
def Link.bare (k : Link α) : Link α := { k with weight := 0, gain := 0 }

namespace Circuit

/-- Two circuits differ at most in numbers, transfer functions, settings, identity and generator. -/
structure SameWiring (c d : Circuit α) : Prop where
  neurons : d.neurons.size = c.neurons.size
  links : d.links.size = c.links.size
  ensembles : d.ensembles = c.ensembles
  projections : d.projections = c.projections
  neuron : ∀ u, (d.neuron u).bare = (c.neuron u).bare
  link : ∀ l, (d.link l).bare = (c.link l).bare

namespace SameWiring

variable {c d e : Circuit α}

@[simp] theorem refl (c : Circuit α) : SameWiring c c :=
  ⟨rfl, rfl, rfl, rfl, fun _ => rfl, fun _ => rfl⟩

theorem symm (h : SameWiring c d) : SameWiring d c where
  neurons := h.neurons.symm
  links := h.links.symm
  ensembles := h.ensembles.symm
  projections := h.projections.symm
  neuron := fun u => (h.neuron u).symm
  link := fun l => (h.link l).symm

theorem trans (h : SameWiring c d) (h' : SameWiring d e) : SameWiring c e where
  neurons := h'.neurons.trans h.neurons
  links := h'.links.trans h.links
  ensembles := h'.ensembles.trans h.ensembles
  projections := h'.projections.trans h.projections
  neuron := fun u => (h'.neuron u).trans (h.neuron u)
  link := fun l => (h'.link l).trans (h.link l)

/-! ## What circuits with the same wiring agree on -/

theorem loop (h : SameWiring c d) (u : NeuronId) : (d.neuron u).loop = (c.neuron u).loop :=
  congrArg (fun n => n.loop) (h.neuron u)

theorem inputs (h : SameWiring c d) (u : NeuronId) : (d.neuron u).inputs = (c.neuron u).inputs :=
  congrArg (fun n => n.inputs) (h.neuron u)

theorem projected (h : SameWiring c d) (u : NeuronId) :
    (d.neuron u).projected = (c.neuron u).projected :=
  congrArg (fun n => n.projected) (h.neuron u)

theorem gated (h : SameWiring c d) (u : NeuronId) : (d.neuron u).gated = (c.neuron u).gated :=
  congrArg (fun n => n.gated) (h.neuron u)

theorem influences (h : SameWiring c d) (u : NeuronId) :
    (d.neuron u).trace.influences = (c.neuron u).trace.influences :=
  congrArg (fun n => n.trace.influences) (h.neuron u)

theorem influencesOn (h : SameWiring c d) (u g : NeuronId) :
    (d.neuron u).trace.influencesOn g = (c.neuron u).trace.influencesOn g := by
  simp only [Traces.influencesOn, h.influences u]

theorem eligibility_keys (h : SameWiring c d) (u : NeuronId) :
    (d.neuron u).trace.eligibility.keys = (c.neuron u).trace.eligibility.keys := by
  have hk := congrArg (fun n => n.trace.eligibility.keys) (h.neuron u)
  simpa [Neuron.bare] using hk

theorem extended_keys (h : SameWiring c d) (u : NeuronId) :
    (d.neuron u).trace.extended.keys = (c.neuron u).trace.extended.keys := by
  have hk := congrArg (fun n => n.trace.extended.keys) (h.neuron u)
  simpa [Neuron.bare] using hk

/-- The traces for one gated neuron have the same keys. -/
theorem extended_find?_keys (h : SameWiring c d) (u g : NeuronId) :
    ((d.neuron u).trace.extended.find? g).map (·.keys) =
      ((c.neuron u).trace.extended.find? g).map (·.keys) := by
  have hk := congrArg (fun n => (n.trace.extended.find? g).map (·.keys)) (h.neuron u)
  simpa [Neuron.bare, Function.comp_def] using hk

theorem source (h : SameWiring c d) (l : LinkId) : (d.link l).source = (c.link l).source :=
  congrArg (fun k => k.source) (h.link l)

theorem target (h : SameWiring c d) (l : LinkId) : (d.link l).target = (c.link l).target :=
  congrArg (fun k => k.target) (h.link l)

theorem gater (h : SameWiring c d) (l : LinkId) : (d.link l).gater = (c.link l).gater :=
  congrArg (fun k => k.gater) (h.link l)

/-- Ensembles have the same neurons. -/
theorem members (h : SameWiring c d) (x : EnsembleId) : d.members x = c.members x := by
  simp only [Circuit.members, ensemble, h.ensembles]

/-- A layer set puts the same neurons in the same places. -/
theorem placements (h : SameWiring c d) (layers : Layers) :
    d.placements layers = c.placements layers := by
  simp only [Circuit.placements, h.members]

end SameWiring

/-! ## Writes that keep the wiring -/

variable {c : Circuit α}

/-- A change of nothing but numbers in a neuron keeps the wiring. -/
theorem sameWiring_modifyNeuron (c : Circuit α) (u : NeuronId) {f : Neuron α → Neuron α}
    (hf : ∀ n, (f n).bare = n.bare) : SameWiring c (c.modifyNeuron u f) where
  neurons := size_neurons_modifyNeuron
  links := rfl
  ensembles := rfl
  projections := rfl
  neuron := by
    intro v
    rcases neuron_modifyNeuron_cases c u f v with h | ⟨-, -, h⟩
    · rw [h]
    · rw [h, hf]
  link := fun _ => rfl

/-- A change of nothing but numbers in a link keeps the wiring. -/
theorem sameWiring_modifyLink (c : Circuit α) (l : LinkId) {f : Link α → Link α}
    (hf : ∀ k, (f k).bare = k.bare) : SameWiring c (c.modifyLink l f) where
  neurons := rfl
  links := size_links_modifyLink
  ensembles := rfl
  projections := rfl
  neuron := fun _ => rfl
  link := by
    intro k
    rcases link_modifyLink_cases c l f k with h | ⟨-, -, h⟩
    · rw [h]
    · rw [h, hf]

theorem sameWiring_setWeight (c : Circuit α) (l : LinkId) (w : α) :
    SameWiring c (c.setWeight l w) :=
  sameWiring_modifyLink c l fun _ => rfl

theorem sameWiring_setGain (c : Circuit α) (l : LinkId) (x : α) : SameWiring c (c.setGain l x) :=
  sameWiring_modifyLink c l fun _ => rfl

theorem sameWiring_draw (c : Circuit α) : SameWiring c c.draw.2 :=
  ⟨rfl, rfl, rfl, rfl, fun _ => rfl, fun _ => rfl⟩

/-- What every step of a fold keeps, the fold keeps. -/
theorem sameWiring_foldl {β : Type} {f : Circuit α → β → Circuit α}
    (hf : ∀ c b, SameWiring c (f c b)) (bs : List β) (c : Circuit α) :
    SameWiring c (bs.foldl f c) := by
  induction bs generalizing c with
  | nil => exact .refl c
  | cons b bs ih => exact (hf c b).trans (ih (f c b))

/-! ## Steps of a neuron -/

theorem sameWiring_clamp (c : Circuit α) (u : NeuronId) (x : α) : SameWiring c (c.clamp u x) :=
  sameWiring_modifyNeuron c u fun _ => rfl

theorem sameWiring_fire (c : Circuit α) (u : NeuronId) : SameWiring c (c.fire u) :=
  sameWiring_modifyNeuron c u fun _ => rfl

theorem sameWiring_retrace (c : Circuit α) (u : NeuronId) : SameWiring c (c.retrace u) := by
  refine sameWiring_modifyNeuron c u fun n => ?_
  simp only [Neuron.bare, IdMap.map_const_mapWithKey]
  congr 2
  exact IdMap.map_mapWithKey_of_eq _ _ _ _ fun _ _ => IdMap.map_const_mapWithKey _ _ _

theorem sameWiring_driveGains (c : Circuit α) (u : NeuronId) : SameWiring c (c.driveGains u) :=
  sameWiring_foldl (fun d l => sameWiring_setGain d l _) _ c

theorem sameWiring_step (c : Circuit α) (u : NeuronId) : SameWiring c (c.step u) :=
  ((sameWiring_fire c u).trans (sameWiring_retrace _ u)).trans (sameWiring_driveGains _ u)

/-- Activating a neuron keeps the wiring. -/
theorem sameWiring_activateNeuron (c : Circuit α) (u : NeuronId) (input : Option α) :
    SameWiring c (c.activateNeuron u input) := by
  cases input with
  | none => exact sameWiring_step c u
  | some x => exact sameWiring_clamp c u x

theorem sameWiring_assignError (c : Circuit α) (u : NeuronId) (target : Option α) :
    SameWiring c (c.assignError u target) := by
  cases target with
  | none => exact sameWiring_modifyNeuron c u fun _ => rfl
  | some t => exact sameWiring_modifyNeuron c u fun _ => rfl

theorem sameWiring_correctWeights (c : Circuit α) (u : NeuronId) (rate : α) :
    SameWiring c (c.correctWeights u rate) := by
  refine sameWiring_foldl (fun d l => ?_) _ c
  exact sameWiring_modifyLink d l fun _ => rfl

theorem sameWiring_correctBias (c : Circuit α) (u : NeuronId) (rate : α) :
    SameWiring c (c.correctBias u rate) :=
  sameWiring_modifyNeuron c u fun _ => rfl

/-- Training a neuron keeps the wiring. -/
theorem sameWiring_propagateNeuron (c : Circuit α) (u : NeuronId) (rate target : Option α) :
    SameWiring c (c.propagateNeuron u rate target) :=
  ((sameWiring_assignError c u target).trans (sameWiring_correctWeights _ u _)).trans
    (sameWiring_correctBias _ u _)

/-- Clearing a neuron keeps the wiring. -/
theorem sameWiring_clearNeuron (c : Circuit α) (u : NeuronId) :
    SameWiring c (c.clearNeuron u) := by
  refine sameWiring_modifyNeuron c u fun n => ?_
  simp only [Neuron.bare, IdMap.map]
  congr 2
  · exact IdMap.map_const_mapWithKey _ _ _
  · exact IdMap.map_mapWithKey_of_eq _ _ _ _ fun _ _ => IdMap.map_const_mapWithKey _ _ _

theorem sameWiring_redrawWeight (c : Circuit α) (l : LinkId) : SameWiring c (c.redrawWeight l) :=
  (sameWiring_draw c).trans (sameWiring_setWeight _ l _)

/-- Resetting a neuron keeps the wiring. -/
theorem sameWiring_resetNeuron (c : Circuit α) (u : NeuronId) :
    SameWiring c (c.resetNeuron u) := by
  unfold resetNeuron
  have hclear := sameWiring_clearNeuron c u
  have hweights := sameWiring_foldl sameWiring_redrawWeight
    ((c.clearNeuron u).incident u).toList (c.clearNeuron u)
  exact ((hclear.trans hweights).trans (sameWiring_draw _)).trans
    (sameWiring_modifyNeuron _ u fun _ => rfl)

/-! ## Ensembles -/

theorem sameWiring_activateAll (us : List (NeuronId × Option α)) (c : Circuit α) :
    SameWiring c (c.activateAll us).2 := by
  induction us generalizing c with
  | nil => exact .refl c
  | cons p us ih =>
    simp only [activateAll]
    exact (sameWiring_activateNeuron c p.1 p.2).trans (ih _)

theorem sameWiring_propagateAll (c : Circuit α) (rate : Option α)
    (us : List (NeuronId × Option α)) : SameWiring c (c.propagateAll rate us) := by
  refine sameWiring_foldl (fun d p => ?_) us c
  exact sameWiring_propagateNeuron d p.1 rate p.2

theorem sameWiring_clearAll (c : Circuit α) (us : List NeuronId) :
    SameWiring c (c.clearAll us) :=
  sameWiring_foldl sameWiring_clearNeuron us c

theorem sameWiring_resetAll (c : Circuit α) (us : List NeuronId) :
    SameWiring c (c.resetAll us) :=
  sameWiring_foldl sameWiring_resetNeuron us c

theorem sameWiring_configureAll (c : Circuit α) (transfer : Option Transfer) (bias : Option α)
    (us : List NeuronId) : SameWiring c (c.configureAll transfer bias us) := by
  refine sameWiring_foldl (fun d u => ?_) us c
  exact sameWiring_modifyNeuron d u fun _ => rfl

/-! ## Writing back from a program -/

/-- Writing back a number keeps the wiring. -/
theorem sameWiring_store (c : Circuit α) (x : α) (s : Symbol) : SameWiring c (c.store x s) := by
  cases s with
  | neuron u a => exact sameWiring_modifyNeuron c u fun n => by cases a <;> rfl
  | weight l => exact sameWiring_setWeight c l x
  | gain l => exact sameWiring_setGain c l x
  | eligibility u l =>
    refine sameWiring_modifyNeuron c u fun n => ?_
    simp only [Neuron.bare, IdMap.modify, IdMap.map_const_mapWithKey]
  | extended u g l =>
    refine sameWiring_modifyNeuron c u fun n => ?_
    simp only [Neuron.bare, IdMap.modify]
    congr 2
    refine IdMap.map_mapWithKey_of_eq _ _ _ _ fun j xs => ?_
    split
    · exact IdMap.map_const_mapWithKey _ _ _
    · rfl
  | rate => exact .refl c
  | target i => exact .refl c
  | influence u g => exact .refl c
  | scratch p => exact .refl c

/-- Restoring keeps the wiring. -/
theorem sameWiring_storeAll (c : Circuit α) (values : List (Symbol × α)) :
    SameWiring c (c.storeAll values) := by
  refine sameWiring_foldl (fun d v => ?_) values c
  exact sameWiring_store d v.2 v.1

/-- Writing back leaves transfer functions alone. -/
theorem transfer_store (c : Circuit α) (x : α) (s : Symbol) (u : NeuronId) :
    ((c.store x s).neuron u).transfer = (c.neuron u).transfer := by
  have hmodify : ∀ (v : NeuronId) {f : Neuron α → Neuron α}, (∀ n, (f n).transfer = n.transfer) →
      ((c.modifyNeuron v f).neuron u).transfer = (c.neuron u).transfer := by
    intro v f hf
    rcases neuron_modifyNeuron_cases c v f u with h | ⟨-, -, h⟩
    · rw [h]
    · rw [h, hf]
  cases s with
  | neuron v a => exact hmodify v fun n => by cases a <;> rfl
  | eligibility v l => exact hmodify v fun _ => rfl
  | extended v g l => exact hmodify v fun _ => rfl
  | weight l => rfl
  | gain l => rfl
  | rate => rfl
  | target i => rfl
  | influence v g => rfl
  | scratch p => rfl

theorem transfer_storeAll (c : Circuit α) (values : List (Symbol × α)) (u : NeuronId) :
    ((c.storeAll values).neuron u).transfer = (c.neuron u).transfer := by
  induction values generalizing c with
  | nil => rfl
  | cons v values ih => exact (ih (c.store v.2 v.1)).trans (transfer_store c v.2 v.1 u)

end Circuit

end GatedNetwork
