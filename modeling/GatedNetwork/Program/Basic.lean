import GatedNetwork.Program.Lowering

/-!
# Programs

A program is a network as straight-line code over one flat memory. Its memory holds a number for
every symbol; the symbols lie in memory in the order in which the code first mentions them, the
learning rate in front.

Running a program and writing its memory back into the circuit does what the steps of the circuit
do.
-/

namespace GatedNetwork

variable {α : Type} [Arithmetic α]

/-- A network as straight-line code. -/
structure Program (α : Type) where
  /-- What the slots mean, in order. -/
  symbols : List Symbol
  memory : Memory α
  /-- The code of each neuron, in canonical order. -/
  code : List (Layer × NeuronCode Slot α)
  inputs : List Slot
  outputs : List Slot
  targets : List Slot
  rate : Slot
deriving DecidableEq

/-! ## Compiling -/

namespace Placement

/-- The duty of each neuron. Outputs are counted from `targets`. -/
def duties (targets : Nat) : List Placement → List (Placement × Duty)
  | [] => []
  | p :: ps =>
    match p.layer with
    | .input => (p, .input) :: duties targets ps
    | .hidden _ => (p, .inner) :: duties targets ps
    | .output => (p, .output targets) :: duties (targets + 1) ps

end Placement

namespace Circuit

/-- The symbols of a program in the order of first mention. -/
def symbolsOf (c : Circuit α) (duties : List (Placement × Duty)) : List Symbol :=
  (.rate :: duties.flatMap fun (p, duty) => c.neuronSymbols p.neuron duty).eraseDups

/-- Does everything resolve that compiling these neurons follows? -/
def requireCompilable (c : Circuit α) (placements : List Placement) : Except Error Unit :=
  placements.forM fun p =>
    let found := match p.layer with
      | .input => c.hasNeuron p.neuron
      | _ => c.resolves p.neuron
    require found (.dangling (.neuron p.neuron))

/-- The program of a list of neurons. -/
def lower (c : Circuit α) (placements : List Placement) : Program α :=
  let duties := Placement.duties 0 placements
  let symbols := c.symbolsOf duties
  let slot (s : Symbol) : Slot := symbols.idxOf s
  let activations (wanted : Duty → Bool) : List Slot :=
    (duties.filter fun e => wanted e.2).map fun e => slot (.neuron e.1.neuron .activation)
  { symbols
    memory := (symbols.map c.load).toArray
    code := duties.map fun (p, duty) => (p.layer, (c.neuronCode p.neuron duty).map slot)
    inputs := activations fun
      | .input => true
      | _ => false
    outputs := activations fun
      | .output _ => true
      | _ => false
    targets := duties.filterMap fun e => match e.2 with
      | .output t => some (slot (.target t))
      | _ => none
    rate := slot .rate }

/-- The program of a list of neurons, if everything it follows resolves. -/
def compile (c : Circuit α) (placements : List Placement) : Except Error (Program α) := do
  c.requireCompilable placements
  return c.lower placements

end Circuit

namespace Program

/-! ## Parts of a program -/

/-- The slot of a symbol. -/
def slot? (p : Program α) (s : Symbol) : Option Slot := p.symbols.idxOf? s

/-- The number of a symbol. -/
def read? (p : Program α) (s : Symbol) : Option α := (p.slot? s).bind fun i => p.memory[i]?

/-- Forward code of the whole network. -/
def forward (p : Program α) : List (Instr Slot α) :=
  p.code.flatMap fun (_, n) => n.activation ++ n.trace

/-- Backward code of the whole network: from the last neuron to the first. -/
def backward (p : Program α) : List (Instr Slot α) :=
  p.code.reverse.flatMap fun (_, n) => n.propagation

def instructionCount (p : Program α) : Nat := p.forward.length + p.backward.length

/-- The code by layers: neighbours in the same layer belong together. -/
def layers (p : Program α) : List (Layer × List (NeuronCode Slot α)) :=
  (p.code.splitBy fun a b => a.1 == b.1).filterMap fun run =>
    run.head?.map fun first => (first.1, run.map (·.2))

/-! ## Running -/

/-- Puts values into the input slots and runs the forward code; the numbers in the output slots. -/
def activate (input : List α) : Op (Program α) (List α) :=
  Op.checked
    (fun p => do
      checkLength .input p.inputs.length input.length
      let memory ← p.memory.putAll p.inputs input
      let memory ← memory.run p.forward
      return (← p.outputs.mapM memory.get, memory))
    fun (outputs, memory) p => (outputs, { p with memory })

/-- Puts rate and targets into their slots and runs the backward code. -/
def propagate (rate : α) (target : List α) : Op (Program α) Unit :=
  Op.checked
    (fun p => do
      checkLength .target p.targets.length target.length
      let memory ← p.memory.put p.rate rate
      let memory ← memory.putAll p.targets target
      memory.run p.backward)
    fun memory p => ((), { p with memory })

/-- Takes another memory of the same size; the memory it had. -/
def replaceMemory (memory : Memory α) : Op (Program α) (Memory α) :=
  Op.checked (fun p => checkLength .memoryBuffer p.memory.size memory.size)
    fun _ p => (p.memory, { p with memory })

/-- Puts a number under a symbol; was there a slot for it? -/
def poke (s : Symbol) (x : α) : Op (Program α) Bool :=
  modifyGet fun p =>
    match p.slot? s with
    | some i => (true, { p with memory := p.memory.setIfInBounds i x })
    | none => (false, p)

/-! ## Writing back -/

/-- The symbols with the numbers in their slots. -/
def values (p : Program α) : List (Symbol × α) := p.symbols.zip p.memory.toList

/-- Does the circuit have a record for every symbol of the program? -/
def fits (p : Program α) (c : Circuit α) : Bool := p.symbols.all c.houses

/-- Writes every number back to where its symbol says. -/
def restoreInto (p : Program α) : Edit α Unit :=
  Op.checked (fun c => require (p.fits c) (.dangling (.slot p.symbols.length)))
    fun _ c => ((), c.storeAll p.values)

end Program

end GatedNetwork
