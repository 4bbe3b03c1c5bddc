import GatedNetwork.Circuit.Basic

/-!
# Links and gates between neurons

Making a link registers it with both of its neurons and with the traces of its target. Gating a link
registers it with its gater, whose extended traces then follow the gated neuron. A link has one gater
at a time; a second one takes it over.

The functions on `Circuit` do the work and take ids for granted. The operations in `Edit` check the
ids first.
-/

namespace GatedNetwork

variable {α : Type} [Arithmetic α]

/-- Adds the entry of a new incoming link to every trace of a neuron. -/
def Traces.watch (t : Traces α) (l : LinkId) : Traces α :=
  { t with
    eligibility := t.eligibility.insert l 0
    extended := t.extended.map fun xs => xs.insert l 0 }

namespace Circuit

/-! ## Queries -/

/-- Does the neuron have a loop of a weight other than zero? -/
def isSelfConnected (c : Circuit α) (u : NeuronId) : Bool :=
  !Arithmetic.isZero (c.loopOf u).weight

/-- The link from `a` to `b`. The loop of a neuron counts if its weight is not zero. -/
def linkBetween? (c : Circuit α) (a b : NeuronId) : Option LinkId :=
  if a = b then
    if c.isSelfConnected a then some (c.neuron a).loop else none
  else (c.neuron a).projected.toList.find? fun l => (c.link l).target == b

/-- How two neurons are related, seen from the first. -/
inductive Role where
  | loop
  | incoming
  | outgoing
  /-- The first neuron gates a link that starts or ends at the second. -/
  | gated
deriving DecidableEq, Repr

namespace Role

def name : Role → String
  | loop => "self"
  | incoming => "incoming"
  | outgoing => "outgoing"
  | gated => "gated"

end Role

/-- Does the link start or end at `u`? -/
def touches (c : Circuit α) (u : NeuronId) (l : LinkId) : Bool :=
  (c.link l).source == u || (c.link l).target == u

/-- How `a` is related to `b`, and by which link: incoming links come first, then outgoing ones, then
gated ones, each in the order of their creation. -/
def relation? (c : Circuit α) (a b : NeuronId) : Option (Role × LinkId) :=
  if a = b then
    if c.isSelfConnected a then some (.loop, (c.neuron a).loop) else none
  else
    let n := c.neuron a
    let among (role : Role) (s : IdSet) := (s.toList.find? (c.touches b)).map (role, ·)
    (among .incoming n.inputs).or ((among .outgoing n.projected).or (among .gated n.gated))

/-! ## Linking -/

/-- A new link from `a` to another neuron `b`. -/
def addLink (c : Circuit α) (a b : NeuronId) (weight : α) : LinkId × Circuit α :=
  let l := c.links.size
  let c := { c with links := c.links.push (.plain a b weight) }
  let c := c.modifyNeuron a fun n => { n with projected := n.projected.insert l }
  (l, c.modifyNeuron b fun n =>
    { n with inputs := n.inputs.insert l, trace := n.trace.watch l })

/-- Links `a` to `b`.

A neuron linked to itself gets its loop switched on, with weight 1 if none is given. An existing link
is kept, and a given weight replaces its own. The weight of a new link is drawn if none is given. -/
def connect (c : Circuit α) (a b : NeuronId) (weight : Option α) : LinkId × Circuit α :=
  if a = b then
    let l := (c.neuron a).loop
    (l, c.setWeight l (weight.getD 1))
  else
    match c.linkBetween? a b, weight with
    | some l, some w => (l, c.setWeight l w)
    | some l, none => (l, c)
    | none, some w => c.addLink a b w
    | none, none =>
      let (w, c) := c.draw
      c.addLink a b w

/-- Links each pair in turn. -/
def connectAll (c : Circuit α) (weight : Option α) :
    List (NeuronId × NeuronId) → List LinkId × Circuit α
  | [] => ([], c)
  | (a, b) :: pairs =>
    let (l, c) := c.connect a b weight
    let (ls, c) := c.connectAll weight pairs
    (l :: ls, c)

/-! ## Gating -/

/-- Takes the link `l` from its gater `u`. The traces of `u` for the gated neuron go with the last
link into it. -/
def ungate (c : Circuit α) (u : NeuronId) (l : LinkId) : Circuit α :=
  let g := (c.link l).target
  let c := c.modifyLink l fun k => { k with gater := none }
  -- influences leave the loop of the gated neuron out, but a gated loop is followed by traces, too
  let keepsLoop := (c.loopOf g).gater == some u
  c.modifyNeuron u fun n =>
    let rest := (n.trace.influencesOn g).erase l
    let trace :=
      if rest.isEmpty && !keepsLoop then
        { n.trace with
          influences := n.trace.influences.erase g
          extended := n.trace.extended.erase g }
      else { n.trace with influences := n.trace.influences.modify g fun _ => rest }
    { n with gated := n.gated.erase l, trace }

/-- Makes `u` the gater of a link that has none. -/
def addGater (c : Circuit α) (u : NeuronId) (l : LinkId) : Circuit α :=
  let g := (c.link l).target
  let loop := c.isLoop l
  let c := c.modifyNeuron u fun n =>
    let links := n.trace.influencesOn g
    { n with
      gated := n.gated.insert l
      trace :=
        { n.trace with
          extended :=
            if n.trace.extended.contains g then n.trace.extended
            else n.trace.extended.insert g (.ofKeys n.trace.eligibility.keys 0)
          influences := n.trace.influences.insert g (if loop then links else links.insert l) } }
  c.modifyLink l fun k => { k with gater := some u }

/-- Lets `u` drive the gain of the link `l`. A former gater loses it. -/
def gateLink (c : Circuit α) (u : NeuronId) (l : LinkId) : Circuit α :=
  match (c.link l).gater with
  | none => c.addGater u l
  | some v => if v = u then c else (c.ungate v l).addGater u l

/-- Sets gaters of links in turn. -/
def gateAll (c : Circuit α) (plan : List (NeuronId × LinkId)) : Circuit α :=
  plan.foldl (fun c step => c.gateLink step.1 step.2) c

end Circuit

/-! ## Operations -/

namespace Edit

open Circuit

/-- Adds a neuron. -/
def addNeuron : Edit α NeuronId := modifyGet (·.addNeuron)

/-- Links `a` to `b`, both of which the caller vouches for. -/
def connect (a b : NeuronId) (weight : Option α) : Edit α LinkId :=
  Op.checked (fun c => do c.requireNeuron a; c.requireNeuron b)
    fun _ c => c.connect a b weight

/-- The id, if it names a neuron. -/
def known (c : Circuit α) (u : Option NeuronId) : Option NeuronId := u.filter c.hasNeuron

/-- Links two neurons if both are given and exist. A failure names the endpoints as they were
given. -/
def connectGiven (source target : Option NeuronId) (weight : Option α) : Edit α LinkId :=
  Op.checked
    (fun c => match known c source, known c target with
      | some a, some b => .ok (a, b)
      | _, _ => .error (.unlinked source target))
    fun pair c => c.connect pair.1 pair.2 weight

/-- Lets `u` drive the gain of the link `l`. -/
def gateLink (u : NeuronId) (l : LinkId) : Edit α Unit :=
  Op.checked (fun c => do c.requireLink l; c.requireNeuron u)
    fun _ c => ((), c.gateLink u l)

/-- How `a` is related to `b`. Only `a` has to exist. -/
def relation? (a b : NeuronId) : Edit α (Option (Role × LinkId)) :=
  Op.read fun c => do c.requireNeuron a; return c.relation? a b

/-- The link from `a` to `b`. Only `a` has to exist. -/
def linkBetween? (a b : NeuronId) : Edit α (Option LinkId) :=
  Op.read fun c => do c.requireNeuron a; return c.linkBetween? a b

/-- The record of a neuron. -/
def neuron (u : NeuronId) : Edit α (Neuron α) :=
  Op.read fun c => do c.requireNeuron u; return c.neuron u

/-- The record of a link. -/
def link (l : LinkId) : Edit α (Link α) :=
  Op.read fun c => do c.requireLink l; return c.link l

/-- Changes numbers or the transfer function of a neuron. -/
def modifyNeuron (u : NeuronId) (f : Neuron α → Neuron α) : Edit α Unit :=
  Op.checked (fun c => c.requireNeuron u) fun _ c => ((), c.modifyNeuron u f)

/-- Changes weight or gain of a link. -/
def modifyLink (l : LinkId) (f : Link α → Link α) : Edit α Unit :=
  Op.checked (fun c => c.requireLink l) fun _ c => ((), c.modifyLink l f)

end Edit

end GatedNetwork
