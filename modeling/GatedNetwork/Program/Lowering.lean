import GatedNetwork.Circuit.Layers
import GatedNetwork.Circuit.Step
import GatedNetwork.Program.Instruction
import GatedNetwork.Program.Symbol

/-!
# Lowering steps to code

The code of a neuron does, assignment by assignment, what its forward and its backward step do in
the circuit, with the same operands in the same order. It is written over symbols. The structure of
the circuit decides what is written; of its numbers, only a gain of exactly 1 that no gater can
change matters, for it is left out of the products.
-/

namespace GatedNetwork

variable {α : Type} [Arithmetic α]

/-- What a neuron does for a program: take an input in, work inside, or give an output. -/
inductive Duty where
  /-- Its activation is set from outside. -/
  | input
  | inner
  /-- Its activation is an output, and this is the number of its target. -/
  | output (target : Nat)
deriving DecidableEq, Repr

/-- The code of one neuron. -/
structure NeuronCode (σ α : Type) where
  neuron : NeuronId
  activation : List (Instr σ α)
  /-- Brings the traces up to date and drives the gains of gated links. -/
  trace : List (Instr σ α)
  propagation : List (Instr σ α)
deriving DecidableEq

namespace NeuronCode

variable {σ τ : Type}

/-- The same code over other places. -/
def map (f : σ → τ) (b : NeuronCode σ α) : NeuronCode τ α where
  neuron := b.neuron
  activation := b.activation.map (·.map f)
  trace := b.trace.map (·.map f)
  propagation := b.propagation.map (·.map f)

end NeuronCode

namespace Circuit

/-! ## Factors -/

/-- The gain of a link as a factor. A gain of 1 that nobody drives is left out. -/
def gainFactor (c : Circuit α) (l : LinkId) : List Symbol :=
  if (c.link l).gater.isNone && Arithmetic.isOne (c.link l).gain then [] else [.gain l]

/-- The factors of the recurrence of a neuron. -/
def recurrenceFactors (c : Circuit α) (u : NeuronId) : List Symbol :=
  let l := (c.neuron u).loop
  c.gainFactor l ++ [.weight l]

/-- The activation of the neuron a link starts at. -/
def sourceSymbol (c : Circuit α) (l : LinkId) : Symbol :=
  .neuron (c.link l).source .activation

/-- Computes the influence of `u` on `g` into a place. -/
def influenceCode (c : Circuit α) (u g : NeuronId) (place : Symbol) : List (Instr Symbol α) :=
  (if (c.loopOf g).gater = some u then .copy place (.neuron g .previous) else .const place 0) ::
    ((c.neuron u).trace.influencesOn g).toList.map fun l =>
      .accumulate place [.weight l, c.sourceSymbol l]

/-! ## Forward -/

/-- Forward code of a neuron that is set from outside. -/
def clampCode (u : NeuronId) : List (Instr Symbol α) :=
  [.const (.neuron u .derivative) 0, .const (.neuron u .bias) 0]

/-- Moves a neuron to its next state. -/
def fireCode (c : Circuit α) (u : NeuronId) : List (Instr Symbol α) :=
  let n := c.neuron u
  let state := Symbol.neuron u .state
  [.copy (.neuron u .previous) state,
    .product state (c.recurrenceFactors u ++ [.neuron u .previous]),
    .sum state state (.neuron u .bias)] ++
  (n.inputs.toList.map fun l =>
    .accumulate state ([c.sourceSymbol l, .weight l] ++ c.gainFactor l)) ++
  [.transfer n.transfer state (.neuron u .activation) (.neuron u .derivative)]

/-- Brings the traces of one incoming link up to date. -/
def traceLinkCode (c : Circuit α) (u : NeuronId) (gs : List NeuronId) (l : LinkId) :
    List (Instr Symbol α) :=
  let e := Symbol.eligibility u l
  [.product e (c.recurrenceFactors u ++ [e]),
    .accumulate e (c.gainFactor l ++ [c.sourceSymbol l])] ++
  gs.flatMap fun g =>
    let x := Symbol.extended u g l
    [.product x (c.recurrenceFactors g ++ [x]),
      .accumulate x [.neuron u .derivative, e, .influence u g]]

/-- Brings the traces of a neuron up to date and drives the gains of the links it gates. -/
def traceCode (c : Circuit α) (u : NeuronId) : List (Instr Symbol α) :=
  let n := c.neuron u
  let gs := n.trace.extended.keys.toList
  gs.flatMap (fun g => c.influenceCode u g (.influence u g)) ++
  n.inputs.toList.flatMap (c.traceLinkCode u gs) ++
  n.gated.toList.map fun l => .copy (.gain l) (.neuron u .activation)

/-! ## Backward -/

/-- Sets the error terms of a neuron with a target. -/
def targetErrorCode (u : NeuronId) (target : Nat) : List (Instr Symbol α) :=
  [.difference (.neuron u .responsibility) (.target target) (.neuron u .activation),
    .copy (.neuron u .projected) (.neuron u .responsibility)]

/-- Sets the error terms of a neuron without a target. -/
def innerErrorCode (c : Circuit α) (u : NeuronId) : List (Instr Symbol α) :=
  let n := c.neuron u
  let error := Symbol.scratch .error
  let influence := Symbol.scratch .influence
  let derivative := Symbol.neuron u .derivative
  [.const error 0] ++
  (n.projected.toList.map fun l =>
    .accumulate error
      ([.neuron (c.link l).target .responsibility] ++ c.gainFactor l ++ [.weight l])) ++
  [.product (.neuron u .projected) [derivative, error], .const error 0] ++
  n.trace.extended.keys.toList.flatMap (fun g =>
    c.influenceCode u g influence ++
      [.accumulate error [.neuron g .responsibility, influence]]) ++
  [.product (.neuron u .gated) [derivative, error],
    .sum (.neuron u .responsibility) (.neuron u .projected) (.neuron u .gated)]

/-- Corrects the weight of one incoming link. -/
def correctLinkCode (c : Circuit α) (u : NeuronId) (l : LinkId) : List (Instr Symbol α) :=
  let gradient := Symbol.scratch .gradient
  [.product gradient [.neuron u .projected, .eligibility u l]] ++
  ((c.neuron u).trace.extended.keys.toList.map fun g =>
    .accumulate gradient [.neuron g .responsibility, .extended u g l]) ++
  [.accumulate (.weight l) [.rate, gradient]]

/-- Backward code of a neuron. -/
def propagationCode (c : Circuit α) (u : NeuronId) (target : Option Nat) :
    List (Instr Symbol α) :=
  (match target with
    | some t => targetErrorCode u t
    | none => c.innerErrorCode u) ++
  (c.neuron u).inputs.toList.flatMap (c.correctLinkCode u) ++
  [.accumulate (.neuron u .bias) [.rate, .neuron u .responsibility]]

/-- The code of a neuron. One that is set from outside has no state to learn. -/
def neuronCode (c : Circuit α) (u : NeuronId) : Duty → NeuronCode Symbol α
  | .input => ⟨u, clampCode u, [], []⟩
  | .inner => ⟨u, c.fireCode u, c.traceCode u, c.propagationCode u none⟩
  | .output t => ⟨u, c.fireCode u, c.traceCode u, c.propagationCode u (some t)⟩

/-! ## The order of first mention -/

/-- The places of code in the order in which it names them. -/
def mentions (code : List (Instr Symbol α)) : List Symbol := code.flatMap (·.places)

/-- Every symbol that a neuron brings into a program, in the order of mention: what its duty asks for,
its own numbers, its forward code, its error terms and its backward code. -/
def neuronSymbols (c : Circuit α) (u : NeuronId) (duty : Duty) : List Symbol :=
  let code := c.neuronCode u duty
  let own (a : Attribute) := Symbol.neuron u a
  let body :=
    [own .previous, own .state, own .bias, own .activation, own .derivative] ++
    mentions code.activation ++ mentions code.trace ++
    [own .responsibility, own .projected] ++
    mentions code.propagation
  match duty with
  | .input => own .activation :: mentions code.activation
  | .inner => body
  | .output t => .target t :: own .activation :: body

end Circuit

end GatedNetwork
