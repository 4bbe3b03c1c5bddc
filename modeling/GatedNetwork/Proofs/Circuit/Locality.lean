import GatedNetwork.Proofs.Circuit.Difference
import GatedNetwork.Proofs.Circuit.Reachable
import GatedNetwork.Proofs.Circuit.Step
import GatedNetwork.Proofs.Program.Compile

/-!
# Steps of a neuron are local

A step reads the neighbours of its neuron and writes little. Each kind of step has its write set, and
two circuits on both sides of the step differ in the numbers of this set only. Their wiring is the same,
so no trace gains or loses a key.

* `Sound.differsIn_step` — a forward step moves the neuron, its traces and the gains it drives
* `differsIn_clamp_sharp` — a value from outside sets three numbers
* `Sound.differsIn_propagateNeuron` — a backward step moves error terms, bias and incoming weights
* `neuron_steps_local` — all steps of the neurons of a circuit within reach succeed and are local
-/

namespace GatedNetwork

variable {α : Type} [Arithmetic α]

namespace Circuit

variable {c d : Circuit α} {u v : NeuronId} {l : LinkId} {W W' : Symbol → Prop}

/-! ## Write sets -/

/-- What a forward step of a neuron writes: its state, its traces and the gains of the links that have it
as their gater. -/
inductive FiresAt (c : Circuit α) (u : NeuronId) : Symbol → Prop
  | previous : FiresAt c u (.neuron u .previous)
  | state : FiresAt c u (.neuron u .state)
  | activation : FiresAt c u (.neuron u .activation)
  | derivative : FiresAt c u (.neuron u .derivative)
  | eligibility (l : LinkId) : FiresAt c u (.eligibility u l)
  | extended (g : NeuronId) (l : LinkId) : FiresAt c u (.extended u g l)
  | gain {l : LinkId} : (c.link l).gater = some u → FiresAt c u (.gain l)

/-- What a value from outside sets. -/
inductive ClampsAt (u : NeuronId) : Symbol → Prop
  | activation : ClampsAt u (.neuron u .activation)
  | derivative : ClampsAt u (.neuron u .derivative)
  | bias : ClampsAt u (.neuron u .bias)

/-- What a backward step of a neuron writes: its error terms, its bias and the weights of the links from
other neurons into it. -/
inductive LearnsAt (c : Circuit α) (u : NeuronId) : Symbol → Prop
  | responsibility : LearnsAt c u (.neuron u .responsibility)
  | projected : LearnsAt c u (.neuron u .projected)
  | gated : LearnsAt c u (.neuron u .gated)
  | bias : LearnsAt c u (.neuron u .bias)
  | weight {l : LinkId} : l < c.links.size → (c.link l).target = u → (c.link l).source ≠ u →
      LearnsAt c u (.weight l)

/-! ## Steps stay within their write sets -/

/-- A difference within the record of a neuron becomes sharp once it is known which part of the record is
kept. -/
theorem DiffersIn.sharpen (hd : DiffersIn W c d) (hW : ∀ s, W s → OwnedBy u s ∨ W' s)
    (hattribute : ∀ a : Attribute, ¬ W' (.neuron u a) → a.get (d.neuron u) = a.get (c.neuron u))
    (htrace : (∀ l, W' (.eligibility u l)) ∧ (∀ g l, W' (.extended u g l)) ∨
      (d.neuron u).trace = (c.neuron u).trace) : DiffersIn W' c d := by
  refine { hd with load := fun s hs => ?_ }
  by_cases hown : OwnedBy u s
  · cases s with
    | neuron v a =>
      obtain rfl : v = u := hown
      exact hattribute a hs
    | eligibility v l =>
      obtain rfl : v = u := hown
      rcases htrace with ⟨hin, -⟩ | hsame
      · exact absurd (hin l) hs
      · simp only [Circuit.load, hsame]
    | extended v g l =>
      obtain rfl : v = u := hown
      rcases htrace with ⟨-, hin⟩ | hsame
      · exact absurd (hin g l) hs
      · simp only [Circuit.load, hsame]
    | _ => exact hown.elim
  · exact hd.load s fun hin => (hW s hin).elim hown hs

/-- Of the record of its neuron, a forward step leaves the bias and the error terms alone. -/
theorem Sound.differsIn_step (h : c.Sound) (hu : u < c.neurons.size) :
    DiffersIn (FiresAt c u) c (c.step u) := by
  obtain ⟨trace, hself⟩ := neuron_step_self hu
  refine (Circuit.differsIn_step c u).sharpen ?_ ?_ (.inl ⟨.eligibility, .extended⟩)
  · rintro s (hown | ⟨l, hl, rfl⟩)
    · exact .inl hown
    · exact .inr (.gain ((h.mem_gated u hu l).mp hl).2)
  · intro a ha
    rw [hself]
    cases a with
    | previous => exact absurd .previous ha
    | state => exact absurd .state ha
    | activation => exact absurd .activation ha
    | derivative => exact absurd .derivative ha
    | bias | responsibility | projected | gated => rfl

/-- A value from outside leaves state, traces and error terms alone. -/
theorem differsIn_clamp_sharp (hu : u < c.neurons.size) (x : α) :
    DiffersIn (ClampsAt u) c (c.clamp u x) := by
  have hself : (c.clamp u x).neuron u = _ := neuron_modifyNeuron_self hu
  refine (differsIn_clamp c u x).sharpen (fun s hs => .inl hs) ?_ (.inr (by rw [hself]))
  intro a ha
  rw [hself]
  cases a with
  | activation => exact absurd .activation ha
  | derivative => exact absurd .derivative ha
  | bias => exact absurd .bias ha
  | previous | state | responsibility | projected | gated => rfl

/-- The record of a neuron after its backward step, apart from its error terms and its bias. -/
theorem neuron_propagateNeuron_eq (hu : u < c.neurons.size) (rate target : Option α) :
    ∃ error bias,
      (c.propagateNeuron u rate target).neuron u = { c.neuron u with error, bias } := by
  obtain ⟨error, hassign⟩ := neuron_assignError_self hu target
  have hself : (c.propagateNeuron u rate target).neuron u = _ :=
    neuron_propagateNeuron_self hu (rate.getD c.settings.defaultRate) target
  rw [hassign] at hself
  exact ⟨error, _, hself⟩

/-- A backward step leaves the activation of its neuron, its traces and every other weight alone. -/
theorem Sound.differsIn_propagateNeuron (h : c.Sound) (hu : u < c.neurons.size)
    (rate target : Option α) :
    DiffersIn (LearnsAt c u) c (c.propagateNeuron u rate target) := by
  obtain ⟨error, bias, hself⟩ := neuron_propagateNeuron_eq hu rate target
  refine (Circuit.differsIn_propagateNeuron c u rate target).sharpen ?_ ?_ (.inr (by rw [hself]))
  · rintro s (hown | ⟨l, hl, rfl⟩)
    · exact .inl hown
    · obtain ⟨hlt, htarget, hsource⟩ := (h.mem_inputs u hu l).mp hl
      exact .inr (.weight hlt htarget hsource)
  · intro a ha
    rw [hself]
    cases a with
    | responsibility => exact absurd .responsibility ha
    | projected => exact absurd .projected ha
    | gated => exact absurd .gated ha
    | bias => exact absurd .bias ha
    | activation | state | previous | derivative => rfl

/-! ## What a backward step never changes -/

namespace DiffersIn

variable (hd : DiffersIn (LearnsAt c u) c d)

include hd

/-- Weights of links out of the neuron are kept, and so is the weight of its own loop. -/
theorem weight_of_source (hl : (c.link l).source = u) : (d.link l).weight = (c.link l).weight :=
  hd.load (.weight l) fun hw => by
    cases hw with
    | weight _ _ hsource => exact hsource hl

/-- The weight of a link from a neuron to itself is kept, whichever neuron it belongs to. -/
theorem weight_of_loop (hl : (c.link l).source = (c.link l).target) :
    (d.link l).weight = (c.link l).weight :=
  hd.load (.weight l) fun hw => by
    cases hw with
    | weight _ htarget hsource => exact hsource (hl.trans htarget)

theorem error_of_ne (hv : v ≠ u) : (d.neuron v).error = (c.neuron v).error := by
  have hterm : ∀ a : Attribute, a.get (d.neuron v) = a.get (c.neuron v) := fun a =>
    hd.load (.neuron v a) fun hw => by cases hw <;> exact hv rfl
  calc (d.neuron v).error
      = ⟨Attribute.responsibility.get (d.neuron v), Attribute.projected.get (d.neuron v),
          Attribute.gated.get (d.neuron v)⟩ := rfl
    _ = (c.neuron v).error := by rw [hterm, hterm, hterm]; rfl

end DiffersIn

/-! ## Steps of circuits within reach -/

theorem propagateNeuron_ok (h : c.Sound) (hu : u < c.neurons.size) (rate target : Option α) :
    Edit.propagateNeuron u rate target c = .ok () (c.propagateNeuron u rate target) :=
  Op.checked_of_ok () (h.requireStep hu)

/-- In a circuit within reach, every step of a neuron succeeds. A forward step changes numbers of its
neuron and the gains it drives, a value from outside three numbers of the neuron. A backward step changes
error terms and bias of its neuron and the weights of the links from other neurons into it, so no weight
of a link out of it, of any loop, and no error term of another neuron. All of them keep the wiring, and
with it the keys of all traces. -/
theorem neuron_steps_local (h : c.Reachable) (hu : u < c.neurons.size) :
    (∃ d, Edit.activateNeuron u none c = .ok (d.neuron u).activation d ∧
      DiffersIn (FiresAt c u) c d) ∧
    (∀ x, ∃ d, Edit.activateNeuron u (some x) c = .ok (d.neuron u).activation d ∧
      DiffersIn (ClampsAt u) c d) ∧
    ∀ rate target, ∃ d, Edit.propagateNeuron u rate target c = .ok () d ∧
      DiffersIn (LearnsAt c u) c d ∧
      (∀ l, (c.link l).source = u → (d.link l).weight = (c.link l).weight) ∧
      (∀ l, (c.link l).source = (c.link l).target → (d.link l).weight = (c.link l).weight) ∧
      ∀ v, v ≠ u → (d.neuron v).error = (c.neuron v).error := by
  have hs : c.Sound := sound_of_reachable h
  refine ⟨⟨_, step_ok hs hu, hs.differsIn_step hu⟩,
    fun x => ⟨_, clamp_ok hu x, differsIn_clamp_sharp hu x⟩, fun rate target => ?_⟩
  have hd := hs.differsIn_propagateNeuron hu rate target
  exact ⟨_, propagateNeuron_ok hs hu rate target, hd, fun l => hd.weight_of_source,
    fun l => hd.weight_of_loop, fun v => hd.error_of_ne⟩

/-- Two neurons that project onto each other. The second gates its own loop and the link into it. -/
def selfGated : Circuit Int :=
  performAll (.empty 0 ⟨7, 2, 1⟩)
    [.addNeuron, .addNeuron, .connect 0 1 (some 4), .connect 1 0 (some 5), .connect 1 1 (some 1),
      .gateLink 1 1, .gateLink 1 2, .activateNeuron 0 (some 3), .activateNeuron 1 none]

/-- A step of the second neuron drives the gain of its own loop. A step back moves the weight of the link
into it and keeps the weights of its loop and of the link out of it. -/
theorem neuron_steps_local_selfGated :
    selfGated.Reachable ∧ 1 < selfGated.neurons.size ∧
      (∃ d, Edit.activateNeuron 1 none selfGated = .ok (d.neuron 1).activation d ∧
        DiffersIn (FiresAt selfGated 1) selfGated d) ∧
      (((selfGated.step 1).link 1).gain = 218 ∧ (selfGated.link 1).gain = 10) ∧
      (∃ d, Edit.propagateNeuron 1 none (some 9) selfGated = .ok () d ∧
        (d.link 3).weight = (selfGated.link 3).weight ∧
        (d.link 1).weight = (selfGated.link 1).weight) ∧
      ((selfGated.propagateNeuron 1 none (some 9)).link 2).weight = -35 ∧
      (selfGated.link 2).weight = 4 := by
  have h : selfGated.Reachable :=
    reachable_performAll (.new 0 ⟨7, 2, 1⟩) (by simp [Request.Grounded])
  have hu : 1 < selfGated.neurons.size := by decide +kernel
  obtain ⟨hforward, -, hbackward⟩ := neuron_steps_local h hu
  obtain ⟨d, hok, -, hout, hloop, -⟩ := hbackward none (some 9)
  exact ⟨h, hu, hforward, by decide +kernel,
    ⟨d, hok, hout 3 (by decide +kernel), hloop 1 (by decide +kernel)⟩, by decide +kernel⟩

end Circuit

end GatedNetwork
