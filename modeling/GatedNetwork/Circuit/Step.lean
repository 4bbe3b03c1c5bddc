import GatedNetwork.Circuit.Basic

/-!
# Steps of a single neuron

A forward step takes in the weighted activations of a neuron's sources, squashes the sum and brings
the traces up to date; then the neuron sets the gains of the links it gates. A backward step collects
the error from the neurons downstream and from the gated neurons, and corrects the incoming weights
and the bias by one learning step.

Each step is a composition of stages, and each stage reads the circuit that the stage before it
left. The order of the operands in every sum and product is part of the definition.

`Circuit.resolves` and `Circuit.isTraced` say which ids and which trace entries the steps follow.
-/

namespace GatedNetwork

variable {α : Type} [Arithmetic α]

namespace Circuit

/-! ## What a step follows -/

/-- Does every id that a step of `u` follows name something? -/
def resolves (c : Circuit α) (u : NeuronId) : Bool :=
  c.hasNeuron u &&
    let n := c.neuron u
    let hasLoop (v : NeuronId) := c.hasNeuron v && c.hasLink (c.neuron v).loop
    hasLoop u &&
      n.inputs.toList.all (fun l => c.hasLink l && c.hasNeuron (c.link l).source) &&
      n.projected.toList.all (fun l => c.hasLink l && c.hasNeuron (c.link l).target) &&
      n.gated.toList.all (fun l => c.hasLink l && c.hasNeuron (c.link l).target) &&
      n.trace.extended.keys.toList.all fun g =>
        hasLoop g &&
          (n.trace.influencesOn g).toList.all fun l => c.hasLink l && c.hasNeuron (c.link l).source

/-- Does every incoming link of `u` have its entry in every trace of `u`? -/
def isTraced (c : Circuit α) (u : NeuronId) : Bool :=
  let n := c.neuron u
  n.inputs.toList.all fun l =>
    n.trace.eligibility.contains l && n.trace.extended.entries.all fun e => e.2.contains l

/-- Fails unless a step of `u` finds everything it follows. -/
def requireStep (c : Circuit α) (u : NeuronId) : Except Error Unit :=
  require (c.resolves u && c.isTraced u) (.dangling (.neuron u))

/-! ## Quantities -/

/-- Activation of the neuron a link starts at. -/
def sourceActivation (c : Circuit α) (l : LinkId) : α := (c.neuron (c.link l).source).activation

/-- The factor by which the state of a neuron passes into its next state. -/
def recurrence (c : Circuit α) (u : NeuronId) : α := (c.loopOf u).gain * (c.loopOf u).weight

/-- Influence of a gater on a gated neuron: the previous state of the gated neuron if its loop is
gated, and the weighted activation of every gated link into it. -/
def influence (c : Circuit α) (gater gated : NeuronId) : α :=
  ((c.neuron gater).trace.influencesOn gated).toList.foldl
    (fun sum l => sum + (c.link l).weight * c.sourceActivation l)
    (if (c.loopOf gated).gater = some gater then (c.neuron gated).previous else 0)

/-- The state of a neuron after one more step. -/
def nextState (c : Circuit α) (u : NeuronId) : α :=
  (c.neuron u).inputs.toList.foldl
    (fun sum l => sum + c.sourceActivation l * (c.link l).weight * (c.link l).gain)
    (c.recurrence u * (c.neuron u).state + (c.neuron u).bias)

/-- The eligibility of an incoming link after one more step. -/
def nextEligibility (c : Circuit α) (u : NeuronId) (l : LinkId) (old : α) : α :=
  c.recurrence u * old + (c.link l).gain * c.sourceActivation l

/-! ## Forward -/

/-- Sets a neuron to a value from outside. -/
def clamp (c : Circuit α) (u : NeuronId) (x : α) : Circuit α :=
  c.modifyNeuron u fun n => { n with activation := x, derivative := 0, bias := 0 }

/-- Moves a neuron to its next state. -/
def fire (c : Circuit α) (u : NeuronId) : Circuit α :=
  let state := c.nextState u
  c.modifyNeuron u fun n =>
    let (activation, derivative) := Arithmetic.squash n.transfer state
    { n with previous := n.state, state, activation, derivative }

/-- Brings the traces of a neuron up to date after it has fired. -/
def retrace (c : Circuit α) (u : NeuronId) : Circuit α :=
  c.modifyNeuron u fun n =>
    -- extended traces follow the eligibility of this very step
    let eligibility := n.trace.eligibility.mapWithKey (c.nextEligibility u)
    let extended := n.trace.extended.mapWithKey fun g xs =>
      let influence := c.influence u g
      let recurrence := c.recurrence g
      xs.mapWithKey fun l x =>
        recurrence * x + n.derivative * (eligibility.find? l).getD 0 * influence
    { n with trace := { n.trace with eligibility, extended } }

/-- Gives the activation of a neuron to the links it gates. -/
def driveGains (c : Circuit α) (u : NeuronId) : Circuit α :=
  let n := c.neuron u
  n.gated.toList.foldl (fun c l => c.setGain l n.activation) c

/-- One forward step of a neuron. -/
def step (c : Circuit α) (u : NeuronId) : Circuit α := ((c.fire u).retrace u).driveGains u

/-- One forward step, or a value from outside if there is one. -/
def activateNeuron (c : Circuit α) (u : NeuronId) (input : Option α) : Circuit α :=
  match input with
  | some x => c.clamp u x
  | none => c.step u

/-! ## Backward -/

/-- Error that comes back to `u` through its outgoing links. -/
def projectedError (c : Circuit α) (u : NeuronId) : α :=
  (c.neuron u).projected.toList.foldl
    (fun sum l =>
      sum + (c.neuron (c.link l).target).error.responsibility * (c.link l).gain * (c.link l).weight)
    0

/-- Error that comes back to `u` through the neurons it gates. -/
def gatedError (c : Circuit α) (u : NeuronId) : α :=
  (c.neuron u).trace.extended.keys.toList.foldl
    (fun sum g => sum + (c.neuron g).error.responsibility * c.influence u g) 0

/-- Sets the error terms of a neuron, from its target if it has one. The gated share of a neuron with
a target is left as it is. -/
def assignError (c : Circuit α) (u : NeuronId) (target : Option α) : Circuit α :=
  match target with
  | some t => c.modifyNeuron u fun n =>
      let e := t - n.activation
      { n with error := { n.error with responsibility := e, projected := e } }
  | none =>
    let projected := (c.neuron u).derivative * c.projectedError u
    let gated := (c.neuron u).derivative * c.gatedError u
    c.modifyNeuron u fun n =>
      { n with error := { responsibility := projected + gated, projected, gated } }

/-- How the weight of an incoming link of `u` has to move to lower the error. -/
def gradient (c : Circuit α) (u : NeuronId) (l : LinkId) : α :=
  let n := c.neuron u
  n.trace.extended.entries.foldl
    (fun sum e => sum + (c.neuron e.1).error.responsibility * (e.2.find? l).getD 0)
    (n.error.projected * (n.trace.eligibility.find? l).getD 0)

/-- Corrects the incoming weights of a neuron. No gradient depends on a weight corrected here. -/
def correctWeights (c : Circuit α) (u : NeuronId) (rate : α) : Circuit α :=
  (c.neuron u).inputs.toList.foldl
    (fun d l => d.modifyLink l fun k => { k with weight := k.weight + rate * c.gradient u l }) c

/-- Corrects the bias of a neuron. -/
def correctBias (c : Circuit α) (u : NeuronId) (rate : α) : Circuit α :=
  c.modifyNeuron u fun n => { n with bias := n.bias + rate * n.error.responsibility }

/-- One backward step of a neuron. -/
def propagateNeuron (c : Circuit α) (u : NeuronId) (rate target : Option α) : Circuit α :=
  let rate := rate.getD c.settings.defaultRate
  ((c.assignError u target).correctWeights u rate).correctBias u rate

/-! ## Forgetting -/

/-- Sets the traces and the error terms of a neuron to zero. Weights and bias stay. -/
def clearNeuron (c : Circuit α) (u : NeuronId) : Circuit α :=
  c.modifyNeuron u fun n =>
    { n with
      trace :=
        { n.trace with
          eligibility := n.trace.eligibility.map fun _ => 0
          extended := n.trace.extended.map fun xs => xs.map fun _ => 0 }
      error := .zero }

/-- The links into, out of and gated by a neuron, loops excepted. -/
def incident (c : Circuit α) (u : NeuronId) : IdSet :=
  let n := c.neuron u
  ((n.inputs.union n.projected).union n.gated).filter fun l => !c.isLoop l

/-- Draws the weight of a link again. -/
def redrawWeight (c : Circuit α) (l : LinkId) : Circuit α :=
  let (w, c) := c.draw
  c.setWeight l w

/-- Clears a neuron, draws the weights of its incident links and its bias again and sets its state to
zero. Loops keep their weight, which switches the recurrence on and off. -/
def resetNeuron (c : Circuit α) (u : NeuronId) : Circuit α :=
  let c := c.clearNeuron u
  let c := (c.incident u).toList.foldl redrawWeight c
  let (bias, c) := c.draw
  c.modifyNeuron u fun n => { n with bias, previous := 0, state := 0, activation := 0 }

end Circuit

/-! ## Operations -/

namespace Edit

/-- One forward step of a neuron; its activation. -/
def activateNeuron (u : NeuronId) (input : Option α) : Edit α α :=
  Op.checked
    (fun c => if input.isSome then c.requireNeuron u else c.requireStep u)
    fun _ c =>
      let c := c.activateNeuron u input
      ((c.neuron u).activation, c)

/-- One backward step of a neuron. -/
def propagateNeuron (u : NeuronId) (rate target : Option α) : Edit α Unit :=
  Op.checked (·.requireStep u) fun _ c => ((), c.propagateNeuron u rate target)

/-- Sets the traces and the error terms of a neuron to zero. -/
def clearNeuron (u : NeuronId) : Edit α Unit :=
  Op.checked (·.requireNeuron u) fun _ c => ((), c.clearNeuron u)

/-- Clears a neuron and draws its weights and its bias again. -/
def resetNeuron (u : NeuronId) : Edit α Unit :=
  Op.checked (fun c => require (c.resolves u) (.dangling (.neuron u)))
    fun _ c => ((), c.resetNeuron u)

end Edit

end GatedNetwork
