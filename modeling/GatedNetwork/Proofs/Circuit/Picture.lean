import GatedNetwork.Proofs.Network.Passes

/-!
# Pictures of circuits

The forward steps of some neurons look at little of a circuit: at states, activations and biases, and
at the links into these neurons. A picture holds just that, with neurons named by their positions in a
list. Two circuits with the same picture behave alike going forward, whatever ids their neurons and
links have.

* `picture_step`, `picture_clamp` — a step of a neuron is a step in the picture
* `picture_forwardPass` — so is a whole pass
* `outputs_picture` — the output can be read off the picture
* `answers_cons` — so the answers to inputs in turn are those of the picture
-/

namespace GatedNetwork

variable {α : Type} [Arithmetic α]

/-- A link as its target sees it; neurons are named by position. -/
structure Wire (α : Type) where
  source : Nat
  weight : α
  gain : α
  gater : Option Nat

/-- What a neuron needs for its forward steps. -/
structure Cell (α : Type) where
  state : α
  activation : α
  bias : α
  transfer : Transfer
  loop : Wire α
  /-- In the order of their creation. -/
  inputs : List (Wire α)

/-- The wire after the neuron at position `j` has taken the activation `x`. -/
def Wire.driven (j : Nat) (x : α) (w : Wire α) : Wire α :=
  if w.gater = some j then { w with gain := x } else w

/-- The cell after the neuron at position `j` has taken the activation `x`. -/
def Cell.driven (j : Nat) (x : α) (a : Cell α) : Cell α :=
  { a with loop := a.loop.driven j x, inputs := a.inputs.map (·.driven j x) }

/-- The cell of a neuron that is set to a value from outside. -/
def Cell.clamped (x : α) (a : Cell α) : Cell α := { a with activation := x, bias := 0 }

/-- The forward view of a list of neurons. -/
abbrev Picture (α : Type) := List (Cell α)

namespace Picture

/-- The activation at a position. -/
def activation (p : Picture α) (i : Nat) : α := (p[i]?.map (·.activation)).getD 0

/-- The next state of a cell. -/
def nextState (p : Picture α) (a : Cell α) : α :=
  a.inputs.foldl (fun sum w => sum + activation p w.source * w.weight * w.gain)
    (a.loop.gain * a.loop.weight * a.state + a.bias)

/-- The cell of a neuron that moves to its next state. -/
def fired (p : Picture α) (a : Cell α) : Cell α :=
  { a with
    state := nextState p a
    activation := (Arithmetic.squash a.transfer (nextState p a)).1 }

/-- A forward step of the neuron at a position: it fires and drives the gains that it gates. -/
def step (p : Picture α) (j : Nat) : Picture α :=
  let q := p.modify j (fired p)
  q.map (Cell.driven j (activation q j))

/-- Sets the neuron at a position to a value from outside. -/
def clamp (p : Picture α) (v : Nat × α) : Picture α := p.modify v.1 (Cell.clamped v.2)

/-- A forward pass: the first `i` neurons are the inputs, `k` others come after them. -/
def pass (i k : Nat) (input : List α) (p : Picture α) : Picture α :=
  (List.range' i k).foldl step (((List.range i).zip input).foldl clamp p)

/-- The answers to passes in turn: the activations from position `o` on. -/
def answers (i k o : Nat) : List (List α) → Picture α → List (List α)
  | [], _ => []
  | input :: inputs, p =>
    let q := pass i k input p
    (q.drop o).map (·.activation) :: answers i k o inputs q

end Picture

namespace Circuit

/-! ## The picture of a circuit -/

/-- A link seen from its target. -/
def wire (c : Circuit α) (us : List NeuronId) (l : LinkId) : Wire α where
  source := us.idxOf (c.link l).source
  weight := (c.link l).weight
  gain := (c.link l).gain
  gater := (c.link l).gater.map us.idxOf

def cell (c : Circuit α) (us : List NeuronId) (u : NeuronId) : Cell α where
  state := (c.neuron u).state
  activation := (c.neuron u).activation
  bias := (c.neuron u).bias
  transfer := (c.neuron u).transfer
  loop := c.wire us (c.neuron u).loop
  inputs := (c.neuron u).inputs.toList.map (c.wire us)

/-- The forward view of some neurons. -/
def picture (c : Circuit α) (us : List NeuronId) : Picture α := us.map (c.cell us)

/-- Different neurons that exist, with no link into one of them from outside and none of these gated
from outside. -/
structure Closed (c : Circuit α) (us : List NeuronId) : Prop where
  nodup : us.Nodup
  lt : ∀ u ∈ us, u < c.neurons.size
  source_mem : ∀ l < c.links.size, (c.link l).target ∈ us → (c.link l).source ∈ us
  gater_mem : ∀ l < c.links.size, (c.link l).target ∈ us →
    ∀ g, (c.link l).gater = some g → g ∈ us

variable {c d : Circuit α} {us : List NeuronId} {u v : NeuronId} {l : LinkId} {j : Nat}

theorem Closed.of_sameWiring (h : c.Closed us) (hw : SameWiring c d) : d.Closed us where
  nodup := h.nodup
  lt := by
    intro u hu
    rw [hw.neurons]
    exact h.lt u hu
  source_mem := by
    intro l hl ht
    rw [hw.source]
    rw [hw.target] at ht
    exact h.source_mem l (hw.links ▸ hl) ht
  gater_mem := by
    intro l hl ht g hg
    rw [hw.target] at ht
    rw [hw.gater] at hg
    exact h.gater_mem l (hw.links ▸ hl) ht g hg

/-! ## Positions -/

section Positions

variable (h : c.Sound) (hc : c.Closed us)

omit [Arithmetic α] in
/-- In a list without repetitions, a member has its position and no other. -/
theorem idxOf_eq_iff (hnodup : us.Nodup) (hv : v ∈ us) (hj : us[j]? = some u) :
    us.idxOf v = j ↔ v = u := by
  obtain ⟨hlt, rfl⟩ := List.getElem?_eq_some_iff.mp hj
  constructor
  · rintro rfl
    exact (List.getElem_idxOf _).symm
  · rintro rfl
    exact hnodup.idxOf_getElem j hlt

theorem activation_picture (hv : v ∈ us) :
    Picture.activation (c.picture us) (us.idxOf v) = (c.neuron v).activation := by
  have hget : us[us.idxOf v]? = some v := by
    rw [List.getElem?_eq_getElem (List.idxOf_lt_length_of_mem hv), List.getElem_idxOf]
  rw [Picture.activation, picture, List.getElem?_map, hget]
  rfl

/-- Changing the cell at a position changes that of the neuron there. -/
theorem modify_picture (hnodup : us.Nodup) (hj : us[j]? = some u) (f : Cell α → Cell α) :
    (c.picture us).modify j f = us.map fun v => if v = u then f (c.cell us v) else c.cell us v := by
  refine List.ext_getElem? fun k => ?_
  rw [List.getElem?_modify, picture, List.getElem?_map, List.getElem?_map]
  cases hk : us[k]? with
  | none => rfl
  | some v =>
    have hv : v ∈ us := List.mem_of_getElem? hk
    -- without repetitions, places and neurons are the same thing
    have heq : j = k ↔ v = u := by
      rw [← idxOf_eq_iff hnodup hv hj, (idxOf_eq_iff hnodup hv hk).mpr rfl]
      exact eq_comm
    simp only [Option.map_eq_map, Option.map_some, heq]

include h hc

/-- What leads into a neuron of the list. -/
theorem target_mem (hv : v ∈ us) :
    (c.neuron v).loop < c.links.size ∧ (c.link (c.neuron v).loop).target ∈ us ∧
      ∀ l ∈ (c.neuron v).inputs, l < c.links.size ∧ (c.link l).target ∈ us := by
  have hlt := hc.lt v hv
  refine ⟨h.loop_lt v hlt, ?_, fun l hl => ?_⟩
  · rw [← loopOf, h.loop_target v hlt]
    exact hv
  · obtain ⟨hl, ht, -⟩ := (h.mem_inputs v hlt l).mp hl
    exact ⟨hl, ht ▸ hv⟩

theorem nextState_picture (hv : v ∈ us) :
    Picture.nextState (c.picture us) (c.cell us v) = c.nextState v := by
  unfold Picture.nextState cell nextState
  rw [List.foldl_map]
  refine List.foldl_ext _ _ _ fun sum l hl => ?_
  have hl := (target_mem h hc hv).2.2 l hl
  have hsource := activation_picture (c := c) (hc.source_mem l hl.1 hl.2)
  simp only [wire, hsource]
  rfl

theorem wire_step (hu : u < c.neurons.size) (hj : us[j]? = some u) (hl : l < c.links.size)
    (ht : (c.link l).target ∈ us) :
    (c.step u).wire us l =
      (c.wire us l).driven j (Arithmetic.squash (c.neuron u).transfer (c.nextState u)).1 := by
  have hgater : (c.link l).gater.map us.idxOf = some j ↔ (c.link l).gater = some u := by
    cases hg : (c.link l).gater with
    | none => simp
    | some g =>
      have hmem := hc.gater_mem l hl ht g hg
      simp [idxOf_eq_iff hc.nodup hmem hj]
  unfold wire Wire.driven
  rw [link_step h hu hl]
  simp only [hgater]
  split <;> rfl

/-- A step of a neuron is a step in the picture. -/
theorem picture_step (hj : us[j]? = some u) :
    (c.step u).picture us = Picture.step (c.picture us) j := by
  have hu := List.mem_of_getElem? hj
  have hlt := hc.lt u hu
  obtain ⟨trace, hself⟩ := neuron_step_self hlt
  have hfired : Picture.activation ((c.picture us).modify j (Picture.fired (c.picture us))) j =
      (Arithmetic.squash (c.neuron u).transfer (c.nextState u)).1 := by
    rw [Picture.activation, modify_picture hc.nodup hj, List.getElem?_map, hj, Option.map_some,
      if_pos rfl, ← nextState_picture h hc hu]
    rfl
  simp only [Picture.step]
  rw [hfired, modify_picture hc.nodup hj, List.map_map]
  -- cell by cell: gains that `u` drives change everywhere, all other numbers in the cell of `u` only
  refine List.map_congr_left fun v hv => ?_
  obtain ⟨hloop, htarget, hinputs⟩ := target_mem h hc hv
  have hloop' := wire_step h hc hlt hj hloop htarget
  have hinputs' : (c.neuron v).inputs.toList.map ((c.step u).wire us) =
      ((c.neuron v).inputs.toList.map (c.wire us)).map
        (·.driven j (Arithmetic.squash (c.neuron u).transfer (c.nextState u)).1) := by
    rw [List.map_map]
    refine List.map_congr_left fun l hl => ?_
    exact wire_step h hc hlt hj (hinputs l hl).1 (hinputs l hl).2
  by_cases hvu : v = u
  · subst hvu
    simp only [Function.comp_apply, if_true, cell, hself, Picture.fired, Cell.driven, hloop',
      hinputs']
    rw [← nextState_picture h hc hv]
    rfl
  · simp only [Function.comp_apply, if_neg hvu, cell, neuron_step_ne c hvu, Cell.driven, hloop',
      hinputs']

omit h in
/-- Setting a neuron from outside is setting it in the picture. -/
theorem picture_clamp (hj : us[j]? = some u) (x : α) :
    (c.clamp u x).picture us = Picture.clamp (c.picture us) (j, x) := by
  have hlt := hc.lt u (List.mem_of_getElem? hj)
  rw [Picture.clamp, modify_picture hc.nodup hj]
  refine List.map_congr_left fun v _ => ?_
  by_cases hvu : v = u
  · subst hvu
    have hself := neuron_modifyNeuron_self (f := fun n : Neuron α =>
      { n with activation := x, derivative := 0, bias := 0 }) hlt
    rw [if_pos rfl, cell, clamp, hself]
    rfl
  · rw [if_neg hvu, cell, clamp, neuron_modifyNeuron_ne hvu]
    rfl

end Positions

/-! ## Passes -/

theorem getElem?_middle (pre post : List NeuronId) (v : NeuronId) (vs : List NeuronId) :
    (pre ++ (v :: vs ++ post))[pre.length]? = some v := by
  rw [List.getElem?_append_right (Nat.le_refl _), Nat.sub_self]
  rfl

/-- Steps of neurons that stand next to each other in the list. -/
theorem picture_stepAll (h : c.Sound) (hc : c.Closed us) {pre vs post : List NeuronId}
    (hus : us = pre ++ (vs ++ post)) :
    (c.stepAll vs).picture us =
      (List.range' pre.length vs.length).foldl Picture.step (c.picture us) := by
  induction vs generalizing c pre with
  | nil => rfl
  | cons v vs ih =>
    have hw := sameWiring_step c v
    have hv : us[pre.length]? = some v := by rw [hus, getElem?_middle]
    have hrest : us = (pre ++ [v]) ++ (vs ++ post) := by rw [hus]; simp
    rw [stepAll_cons, ih (h.of_sameWiring hw) (hc.of_sameWiring hw) hrest, picture_step h hc hv,
      List.length_cons, List.range'_succ, List.foldl_cons, List.length_append]
    rfl

/-- Values from outside for neurons that stand next to each other in the list. -/
theorem picture_clampAll (hc : c.Closed us) {pre vs post : List NeuronId} (xs : List α)
    (hus : us = pre ++ (vs ++ post)) :
    (c.clampAll (vs.zip xs)).picture us =
      ((List.range' pre.length vs.length).zip xs).foldl Picture.clamp (c.picture us) := by
  induction vs generalizing c pre xs with
  | nil => rfl
  | cons v vs ih =>
    cases xs with
    | nil => rw [List.zip_nil_right, List.zip_nil_right]; rfl
    | cons x xs =>
      have hw := sameWiring_clamp c v x
      have hv : us[pre.length]? = some v := by rw [hus, getElem?_middle]
      have hrest : us = (pre ++ [v]) ++ (vs ++ post) := by rw [hus]; simp
      show ((c.clamp v x).clampAll (vs.zip xs)).picture us = _
      rw [ih (hc.of_sameWiring hw) xs hrest, picture_clamp hc hv, List.length_cons,
        List.range'_succ, List.zip_cons_cons, List.foldl_cons, List.length_append]
      rfl

variable {layers : Layers}

/-- A forward pass of a circuit is one of its picture. -/
theorem picture_forwardPass (h : c.Sound) (hc : c.Closed (c.placed layers)) (input : List α) :
    (c.forwardPass layers input).picture (c.placed layers) =
      Picture.pass (c.members layers.input).length
        ((c.hiddenMembers layers).length + (c.members layers.output).length) input
        (c.picture (c.placed layers)) := by
  have hw := sameWiring_clampAll c ((c.members layers.input).zip input)
  have hsteps : c.forwardPass layers input =
      (c.clampAll ((c.members layers.input).zip input)).stepAll
        (c.hiddenMembers layers ++ c.members layers.output) := by
    rw [forwardPass, stepAll_append]
  -- which places are clamped, and which take steps
  have hinput : c.placed layers = [] ++ (c.members layers.input ++
      (c.hiddenMembers layers ++ c.members layers.output)) := rfl
  have hothers : c.placed layers = c.members layers.input ++
      ((c.hiddenMembers layers ++ c.members layers.output) ++ []) := by
    rw [List.append_nil]
    rfl
  rw [hsteps, picture_stepAll (h.of_sameWiring hw) (hc.of_sameWiring hw) hothers,
    picture_clampAll hc input hinput, Picture.pass, List.range_eq_range', List.length_append]
  rfl

/-- The activations of the outputs, read off the picture. -/
theorem outputs_picture (c d : Circuit α) (layers : Layers) :
    (c.members layers.output).map (fun u => (d.neuron u).activation) =
      ((d.picture (c.placed layers)).drop
        ((c.members layers.input).length + (c.hiddenMembers layers).length)).map
        (·.activation) := by
  rw [picture, ← List.map_drop, placed, ← List.append_assoc, ← List.length_append,
    List.drop_left, List.map_map]
  rfl

/-! ## Answers -/

/-- What the picture of a circuit answers to inputs. -/
def answers (c : Circuit α) (layers : Layers) (inputs : List (List α)) : List (List α) :=
  Picture.answers (c.members layers.input).length
    ((c.hiddenMembers layers).length + (c.members layers.output).length)
    ((c.members layers.input).length + (c.hiddenMembers layers).length)
    inputs (c.picture (c.placed layers))

theorem answers_cons (h : c.Sound) (hc : c.Closed (c.placed layers)) (input : List α)
    (inputs : List (List α)) :
    c.answers layers (input :: inputs) =
      ((c.members layers.output).map fun u => ((c.forwardPass layers input).neuron u).activation) ::
        (c.forwardPass layers input).answers layers inputs := by
  have hw := sameWiring_forwardPass c layers input
  rw [answers, Picture.answers, ← picture_forwardPass h hc, ← outputs_picture]
  simp only [answers, hw.members, hw.hiddenMembers, hw.placed]

omit [Arithmetic α] in
theorem placed_bind (c : Circuit α) (layers : Layers) (i : Identity) :
    c.placed (layers.bind i) = c.placed layers := rfl

theorem answers_bind (c : Circuit α) (layers : Layers) (i : Identity) (inputs : List (List α)) :
    c.answers (layers.bind i) inputs = c.answers layers inputs := rfl

end Circuit

end GatedNetwork
