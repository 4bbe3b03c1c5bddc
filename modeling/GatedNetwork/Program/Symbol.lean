import GatedNetwork.Circuit.Basic

/-!
# Symbols

A symbol names a number that a program works with. Most symbols stand for a field of the circuit;
the others are places that only the program has. `Circuit.load` reads the number behind a symbol and
`Circuit.store` writes it back.
-/

namespace GatedNetwork

/-- The numbers of a neuron. -/
inductive Attribute where
  | activation
  | state
  | previous
  | bias
  | derivative
  | responsibility
  | projected
  | gated
deriving DecidableEq, Repr

/-- Places for intermediate results. Each is written before it is read. -/
inductive Scratch where
  | error
  | gradient
  | influence
deriving DecidableEq, Repr

/-- What a number in the memory of a program means. -/
inductive Symbol where
  | rate
  | target (index : Nat)
  | neuron (u : NeuronId) (a : Attribute)
  | weight (l : LinkId)
  | gain (l : LinkId)
  | eligibility (u : NeuronId) (l : LinkId)
  | extended (u g : NeuronId) (l : LinkId)
  /-- Influence of one neuron on another, kept while the traces are brought up to date. -/
  | influence (u g : NeuronId)
  | scratch (s : Scratch)
deriving DecidableEq, Repr

namespace Attribute

def name : Attribute → String
  | activation => "activation"
  | state => "state"
  | previous => "old"
  | bias => "bias"
  | derivative => "derivative"
  | responsibility => "responsibility"
  | projected => "projected"
  | gated => "gated"

variable {α : Type}

/-- The number of a neuron that an attribute names. -/
def get (n : Neuron α) : Attribute → α
  | activation => n.activation
  | state => n.state
  | previous => n.previous
  | bias => n.bias
  | derivative => n.derivative
  | responsibility => n.error.responsibility
  | projected => n.error.projected
  | gated => n.error.gated

/-- The neuron with a new number under an attribute. -/
def set (n : Neuron α) (x : α) : Attribute → Neuron α
  | activation => { n with activation := x }
  | state => { n with state := x }
  | previous => { n with previous := x }
  | bias => { n with bias := x }
  | derivative => { n with derivative := x }
  | responsibility => { n with error := { n.error with responsibility := x } }
  | projected => { n with error := { n.error with projected := x } }
  | gated => { n with error := { n.error with gated := x } }

theorem get_set (n : Neuron α) (x : α) (a b : Attribute) :
    b.get (a.set n x) = if a = b then x else b.get n := by
  cases a <;> cases b <;> rfl

end Attribute

namespace Scratch

def name : Scratch → String
  | error => "error"
  | gradient => "gradient"
  | influence => "influence"

end Scratch

namespace Symbol

/-- How a symbol is listed. -/
def text : Symbol → String
  | rate => "rate"
  | target i => s!"target:{i}"
  | neuron u a => s!"unit:{u}:{a.name}"
  | weight l => s!"link:{l}:weight"
  | gain l => s!"link:{l}:gain"
  | eligibility u l => s!"eligibility:{u}:{l}"
  | extended u g l => s!"extended:{u}:{g}:{l}"
  | influence u g => s!"influence:{u}:{g}"
  | scratch p => s!"scratch:{p.name}"

end Symbol

namespace Circuit

variable {α : Type} [Arithmetic α]

/-- Does the field behind a symbol lie in a record that exists? -/
def houses (c : Circuit α) : Symbol → Bool
  | .neuron u _ => c.hasNeuron u
  | .weight l => c.hasLink l
  | .gain l => c.hasLink l
  | .eligibility u _ => c.hasNeuron u
  | .extended u _ _ => c.hasNeuron u
  | .rate => true
  | .target _ => true
  | .influence _ _ => true
  | .scratch _ => true

/-- The number behind a symbol. Places that only a program has start at zero, the rate at the default
rate; so does a trace that is not kept. -/
def load (c : Circuit α) : Symbol → α
  | .rate => c.settings.defaultRate
  | .neuron u a => a.get (c.neuron u)
  | .weight l => (c.link l).weight
  | .gain l => (c.link l).gain
  | .eligibility u l => ((c.neuron u).trace.eligibility.find? l).getD 0
  | .extended u g l => (((c.neuron u).trace.extended.find? g).bind (·.find? l)).getD 0
  | .target _ => 0
  | .influence _ _ => 0
  | .scratch _ => 0

/-- Writes the number behind a symbol. A symbol without a field, or of a trace that is not kept,
changes nothing. -/
def store (c : Circuit α) (x : α) : Symbol → Circuit α
  | .neuron u a => c.modifyNeuron u fun n => a.set n x
  | .weight l => c.setWeight l x
  | .gain l => c.setGain l x
  | .eligibility u l => c.modifyNeuron u fun n =>
      { n with trace :=
        { n.trace with eligibility := n.trace.eligibility.modify l fun _ => x } }
  | .extended u g l => c.modifyNeuron u fun n =>
      { n with trace :=
        { n.trace with
          extended := n.trace.extended.modify g fun xs => xs.modify l fun _ => x } }
  | .rate => c
  | .target _ => c
  | .influence _ _ => c
  | .scratch _ => c

/-- Writes the numbers behind several symbols in turn. -/
def storeAll (c : Circuit α) (values : List (Symbol × α)) : Circuit α :=
  values.foldl (fun c v => c.store v.2 v.1) c

end Circuit

end GatedNetwork
