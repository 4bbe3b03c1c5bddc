import Mathlib.Data.List.Induction
import GatedNetwork.Proofs.Snapshot.Build
import GatedNetwork.Proofs.Snapshot.Export

/-!
# Imports show the picture of their snapshot

The circuit built from a snapshot names neurons by their rows. Each row of a connection either gives a
loop its numbers or makes a new link, which comes after all earlier ones; so the links into a neuron
stand in the order of the rows, and the picture of the circuit is the one the snapshot describes.

* `ownCell_addConnection_loop`, `ownCell_addConnection_input` — what one row does to the cells
* `Depicts.addConnection` — a circuit that some rows depict is depicted by one more row after it is added
* `depicts_build`, `picture_build` — the whole circuit
* `Depicts.links_eq` — its links: first the loops, then those of the other rows
-/

namespace GatedNetwork

variable {α : Type} [Arithmetic α]

namespace Circuit

variable {c d : Circuit α} {u v g : NeuronId} {l k : LinkId}

/-! ## Cells of a circuit whose neurons are all listed -/

/-- A link as its target sees it, with neurons named by their ids. -/
def ownWire (c : Circuit α) (l : LinkId) : Wire α where
  source := (c.link l).source
  weight := (c.link l).weight
  gain := (c.link l).gain
  gater := (c.link l).gater

def ownCell (c : Circuit α) (u : NeuronId) : Cell α where
  state := (c.neuron u).state
  activation := (c.neuron u).activation
  bias := (c.neuron u).bias
  transfer := (c.neuron u).transfer
  loop := c.ownWire (c.neuron u).loop
  inputs := (c.neuron u).inputs.toList.map c.ownWire

omit [Arithmetic α] in
theorem idxOf_range {n i : Nat} (hi : i < n) : (List.range n).idxOf i = i := by
  have hlt : i < (List.range n).length := by rwa [List.length_range]
  have hget := List.nodup_range.idxOf_getElem i hlt
  rwa [List.getElem_range] at hget

/-- With all neurons listed, positions are ids. -/
theorem wire_range (h : c.Sound) (hl : l < c.links.size) :
    c.wire (List.range c.neurons.size) l = c.ownWire l := by
  have hgater : (c.link l).gater.map (List.range c.neurons.size).idxOf = (c.link l).gater := by
    cases hg : (c.link l).gater with
    | none => rfl
    | some g => rw [Option.map_some, idxOf_range (h.gater_lt l hl g hg)]
  rw [wire, idxOf_range (h.ends_lt l hl).1, hgater]
  rfl

theorem cell_range (h : c.Sound) (hu : u < c.neurons.size) :
    c.cell (List.range c.neurons.size) u = c.ownCell u := by
  have hinputs : (c.neuron u).inputs.toList.map (c.wire (List.range c.neurons.size)) =
      (c.neuron u).inputs.toList.map c.ownWire := by
    refine List.map_congr_left fun l hl => ?_
    exact wire_range h (h.input_lt hu hl)
  rw [cell, hinputs, wire_range h (h.loop_lt u hu)]
  rfl

theorem closed_range (h : c.Sound) : c.Closed (List.range c.neurons.size) where
  nodup := List.nodup_range
  lt := fun _ hu => List.mem_range.mp hu
  source_mem := fun l hl _ => List.mem_range.mpr (h.ends_lt l hl).1
  gater_mem := fun l hl _ g hg => List.mem_range.mpr (h.gater_lt l hl g hg)

end Circuit

/-! ## The row of a connection -/

namespace Snapshot

open Circuit

variable {c : Circuit α} {neurons : List (NeuronRow α)} {rows : List (ConnectionRow α)}
  {row : ConnectionRow α} {n : NeuronRow α} {j : Nat} {k l : LinkId} {v : NeuronId}

/-- A link without a gater takes gater and gain of a row. -/
theorem link_gateRow_setGain (hl : l < c.links.size) (hfree : (c.link l).gater = none)
    (g : Option NeuronId) (x : α) (k : LinkId) :
    ((gateRow c l g).setGain l x).link k =
      if k = l then { c.link l with gain := x, gater := g } else c.link k := by
  have hgate : ∀ k, (gateRow c l g).link k =
      if k = l then { c.link l with gater := g } else c.link k := by
    intro k
    cases g with
    | none =>
      split
      · next hk =>
        rw [hk]
        show c.link l = { c.link l with gater := none }
        rw [← hfree]
      · rfl
    | some u => exact link_gateLink hl k
  have hsize : l < (gateRow c l g).links.size := by rwa [size_links_gateRow]
  by_cases hk : k = l
  · rw [hk, setGain, link_modifyLink_self hsize, hgate, if_pos rfl, if_pos rfl]
  · rw [if_neg hk, setGain, link_modifyLink_ne hk, hgate, if_neg hk]

theorem neuron_gateRow (c : Circuit α) (l : LinkId) (g : Option NeuronId) (v : NeuronId) :
    ∃ (gated : IdSet) (trace : Traces α),
      (gateRow c l g).neuron v = { c.neuron v with gated, trace } := by
  cases g with
  | none => exact ⟨_, _, rfl⟩
  | some u =>
    obtain ⟨_, _, _, he⟩ := regated_gateLink c u l v
    exact ⟨_, _, he⟩

theorem size_links_addConnection_loop (hself : row.source = row.target) :
    (addConnection c row).links.size = c.links.size := by
  rw [addConnection_eq, hself, connect_loop, setGain, size_links_modifyLink, size_links_gateRow,
    setWeight, size_links_modifyLink]

theorem size_links_addConnection_input (hne : row.source ≠ row.target)
    (hnone : c.linkBetween? row.source row.target = none) :
    (addConnection c row).links.size = c.links.size + 1 := by
  rw [addConnection_eq, connect_new hne hnone, setGain, size_links_modifyLink, size_links_gateRow,
    size_links_addLink]

/-- A row changes a neuron in what it is linked with and in what it gates only. -/
theorem neuron_addConnection (hs : row.source < c.neurons.size) (ht : row.target < c.neurons.size)
    (hnew : row.source = row.target ∨ c.linkBetween? row.source row.target = none)
    (v : NeuronId) :
    ∃ (inputs projected gated : IdSet) (trace : Traces α),
      (addConnection c row).neuron v = { c.neuron v with inputs, projected, gated, trace } := by
  have hgate : ∃ (gated : IdSet) (trace : Traces α), (addConnection c row).neuron v =
      { (c.connect row.source row.target (some row.weight)).2.neuron v with gated, trace } := by
    rw [addConnection_eq]
    exact neuron_gateRow _ _ _ _
  obtain ⟨gated, trace, hneuron⟩ := hgate
  by_cases hself : row.source = row.target
  · rw [hself, connect_loop] at hneuron
    exact ⟨_, _, gated, trace, hneuron⟩
  · rw [connect_new hself (hnew.resolve_left hself), neuron_addLink hself hs ht] at hneuron
    split at hneuron
    · next hv =>
      subst hv
      exact ⟨_, _, gated, _, hneuron⟩
    · split at hneuron
      · next hv =>
        subst hv
        exact ⟨_, _, gated, trace, hneuron⟩
      · exact ⟨_, _, gated, trace, hneuron⟩

section Loop

variable (h : c.Sound) (hself : row.source = row.target) (ht : row.target < c.neurons.size)

include h hself ht

/-- The row of a loop gives its numbers and its gater to the loop. -/
theorem link_addConnection_loop (hfree : (c.loopOf row.target).gater = none) (k : LinkId) :
    (addConnection c row).link k =
      if k = (c.neuron row.target).loop then row.link else c.link k := by
  have hloop := h.loop_lt _ ht
  have hsource := h.loop_source _ ht
  have htarget := h.loop_target _ ht
  rw [loopOf] at hfree hsource htarget
  have hweight : (c.setWeight (c.neuron row.target).loop row.weight).link
      (c.neuron row.target).loop =
        { c.link (c.neuron row.target).loop with weight := row.weight } :=
    link_modifyLink_self hloop
  have hsize : (c.neuron row.target).loop <
      (c.setWeight (c.neuron row.target).loop row.weight).links.size := by
    simpa [setWeight] using hloop
  have hfree' : ((c.setWeight (c.neuron row.target).loop row.weight).link
      (c.neuron row.target).loop).gater = none := by
    rw [hweight]
    exact hfree
  rw [addConnection_eq, hself, connect_loop, link_gateRow_setGain hsize hfree', hweight]
  split
  · simp only [ConnectionRow.link, hself, hsource, htarget]
  · next hk => exact link_modifyLink_ne hk

/-- The row of a loop puts its numbers into the cell of its neuron. -/
theorem ownCell_addConnection_loop (hfree : (c.loopOf row.target).gater = none)
    (hj : j < c.neurons.size) :
    (addConnection c row).ownCell j =
      if j = row.target then { c.ownCell j with loop := row.wire } else c.ownCell j := by
  have hwire : ∀ k, (addConnection c row).ownWire k =
      if k = (c.neuron row.target).loop then row.wire else c.ownWire k := by
    intro k
    rw [ownWire, link_addConnection_loop h hself ht hfree]
    split <;> rfl
  obtain ⟨gated, trace, hneuron⟩ := neuron_gateRow
    (c.setWeight (c.neuron row.target).loop row.weight) (c.neuron row.target).loop row.gater j
  have hcell : (addConnection c row).neuron j = { c.neuron j with gated, trace } := by
    rw [addConnection_eq, hself, connect_loop]
    exact hneuron
  have htarget := h.loop_target _ ht
  have hsource := h.loop_source _ ht
  have hinputs : (c.neuron j).inputs.toList.map (addConnection c row).ownWire =
      (c.neuron j).inputs.toList.map c.ownWire := by
    refine List.map_congr_left fun k hk => ?_
    rw [hwire, if_neg]
    rintro rfl
    -- an input comes from another neuron, a loop does not
    obtain ⟨-, hk, hne⟩ := (h.mem_inputs j hj _).mp hk
    exact hne (hsource.trans (htarget.symm.trans hk))
  have hiff : (c.neuron j).loop = (c.neuron row.target).loop ↔ j = row.target := by
    constructor
    · intro he
      rw [← h.loop_target j hj, ← htarget, loopOf, loopOf, he]
    · rintro rfl
      rfl
  rw [ownCell, hcell]
  simp only [hinputs, hwire, hiff]
  split <;> rfl

end Loop

section Input

variable (hne : row.source ≠ row.target) (hnone : c.linkBetween? row.source row.target = none)

include hne hnone

/-- The row of a new link is added to the table. -/
theorem link_addConnection_input (k : LinkId) :
    (addConnection c row).link k = if k = c.links.size then row.link else c.link k := by
  have hnew : (c.addLink row.source row.target row.weight).2.link c.links.size =
      .plain row.source row.target row.weight := by
    rw [link_addLink, if_pos rfl]
  have hfree : ((c.addLink row.source row.target row.weight).2.link c.links.size).gater = none := by
    rw [hnew]
    rfl
  rw [addConnection_eq, connect_new hne hnone, addLink_fst, link_gateRow_setGain (by simp) hfree,
    hnew]
  split
  · rfl
  · next hk => rw [link_addLink, if_neg hk]

/-- The row of a new link adds an input to the cell of its target, after those there are. -/
theorem ownCell_addConnection_input (h : c.Sound) (hs : row.source < c.neurons.size)
    (ht : row.target < c.neurons.size) (hj : j < c.neurons.size) :
    (addConnection c row).ownCell j =
      if j = row.target then { c.ownCell j with inputs := (c.ownCell j).inputs ++ [row.wire] }
      else c.ownCell j := by
  have hwire : ∀ k, (addConnection c row).ownWire k =
      if k = c.links.size then row.wire else c.ownWire k := by
    intro k
    rw [ownWire, link_addConnection_input hne hnone]
    split <;> rfl
  obtain ⟨gated, trace, hneuron⟩ := neuron_gateRow
    (c.addLink row.source row.target row.weight).2 c.links.size row.gater j
  have hcell : (addConnection c row).neuron j =
      { (c.addLink row.source row.target row.weight).2.neuron j with gated, trace } := by
    rw [addConnection_eq, connect_new hne hnone]
    exact hneuron
  have hold : ∀ k < c.links.size, (addConnection c row).ownWire k = c.ownWire k := by
    intro k hk
    rw [hwire, if_neg (Nat.ne_of_lt hk)]
  -- the new link has the largest id, so it comes last among the inputs
  have hlast : ∀ k ∈ (c.neuron j).inputs, k < c.links.size :=
    fun k hk => ((h.mem_inputs j hj k).mp hk).1
  have hinputs : (c.neuron j).inputs.toList.map (addConnection c row).ownWire =
      (c.neuron j).inputs.toList.map c.ownWire :=
    List.map_congr_left fun k hk => hold k (hlast k hk)
  have hloop := hold _ (h.loop_lt j hj)
  -- the target gets the input, the source a projection that no cell shows
  rw [ownCell, hcell, neuron_addLink hne hs ht]
  split
  · next hjt =>
    subst hjt
    simp only [IdSet.toList_insert hlast, List.map_append, List.map_cons, List.map_nil, hinputs,
      hloop, hwire c.links.size, if_true]
    rfl
  · split
    · next hjs =>
      subst hjs
      simp only [hinputs, hloop]
      rfl
    · simp only [hinputs, hloop]
      rfl

end Input

/-! ## Rows put together -/

omit [Arithmetic α] in
theorem inputRows_append (rows : List (ConnectionRow α)) (row : ConnectionRow α) (j : Nat) :
    inputRows (rows ++ [row]) j =
      inputRows rows j ++ if j = row.target ∧ row.source ≠ row.target then [row] else [] := by
  rw [inputRows, List.filter_append]
  congr 1
  by_cases hj : j = row.target
  · subst hj
    by_cases hself : row.source = row.target <;> simp [hself]
  · simp [hj, Ne.symm hj]

theorem loopWire_append_of_ne (h : ¬(row.target = j ∧ row.source = j)) :
    loopWire (rows ++ [row]) j = loopWire rows j := by
  have hrow : (row.target == j && row.source == j) = false := by
    simpa using h
  simp [loopWire, List.find?_append, hrow]

theorem loopWire_of_new (hself : row.source = row.target)
    (hnew : ∀ r ∈ rows, ¬r.SameEnds row) :
    loopWire rows row.target = ⟨row.target, 0, 1, none⟩ ∧
      loopWire (rows ++ [row]) row.target = row.wire := by
  have hnone : rows.find? (fun r => r.target == row.target && r.source == row.target) = none := by
    rw [List.find?_eq_none]
    intro r hr he
    rw [Bool.and_eq_true, beq_iff_eq, beq_iff_eq] at he
    exact hnew r hr ⟨he.2.trans hself.symm, he.1⟩
  constructor
  · rw [loopWire, hnone]
  · simp [loopWire, List.find?_append, hnone, hself]

/-! ## Circuits that rows depict -/

/-- The cells of a circuit are those that rows of neurons and of connections describe. Its first links
are the loops of its neurons, and the others stand in the order of their rows. -/
structure Depicts (neurons : List (NeuronRow α)) (rows : List (ConnectionRow α))
    (c : Circuit α) : Prop where
  consistent : c.Consistent
  size : c.neurons.size = neurons.length
  cell : ∀ (j : Nat) (n : NeuronRow α), neurons[j]? = some n → c.ownCell j = Snapshot.cell rows j n
  previous : ∀ (j : Nat) (n : NeuronRow α), neurons[j]? = some n →
    (c.neuron j).previous = n.previous
  loop : ∀ j < neurons.length, (c.neuron j).loop = j
  size_links : c.links.size = neurons.length + (rows.filter (!·.isLoop)).length
  links : ∀ (i : Nat) (r : ConnectionRow α), (rows.filter (!·.isLoop))[i]? = some r →
    c.link (neurons.length + i) = r.link

namespace Depicts

theorem cell_of_lt (h : Depicts neurons rows c) (hj : j < c.neurons.size) :
    ∃ n, neurons[j]? = some n ∧ c.ownCell j = Snapshot.cell rows j n := by
  have hlt : j < neurons.length := h.size ▸ hj
  exact ⟨_, List.getElem?_eq_getElem hlt, h.cell j _ (List.getElem?_eq_getElem hlt)⟩

/-- A loop that no row has named yet has no gater. -/
theorem gater_loop (h : Depicts neurons rows c) (ht : row.target < c.neurons.size)
    (hself : row.source = row.target) (hnew : ∀ r ∈ rows, ¬r.SameEnds row) :
    (c.loopOf row.target).gater = none := by
  obtain ⟨n, -, hcell⟩ := h.cell_of_lt ht
  have hloop := congrArg (fun a => a.loop.gater) hcell
  rwa [Snapshot.cell, (loopWire_of_new hself hnew).1] at hloop

/-- Neurons that no row has joined yet are not linked. -/
theorem linkBetween?_eq_none (h : Depicts neurons rows c) (hs : row.source < c.neurons.size)
    (hne : row.source ≠ row.target) (hnew : ∀ r ∈ rows, ¬r.SameEnds row) :
    c.linkBetween? row.source row.target = none := by
  rw [linkBetween?, if_neg hne, List.find?_eq_none]
  intro l hl he
  rw [beq_iff_eq] at he
  obtain ⟨hlt, hsource, -⟩ := (h.consistent.sound.mem_projected _ hs l).mp hl
  have ht : row.target < c.neurons.size := he ▸ (h.consistent.sound.ends_lt l hlt).2
  obtain ⟨n, -, hcell⟩ := h.cell_of_lt ht
  -- the link would be an input of its target, and so there would be a row of it
  have hinput : l ∈ (c.neuron row.target).inputs := by
    rw [h.consistent.sound.mem_inputs _ ht]
    exact ⟨hlt, he, hsource ▸ hne⟩
  have hwire : c.ownWire l ∈ (c.ownCell row.target).inputs := List.mem_map_of_mem hinput
  rw [hcell] at hwire
  obtain ⟨r, hr, hrwire⟩ := List.mem_map.mp hwire
  obtain ⟨hmem, hends⟩ := List.mem_filter.mp hr
  rw [Bool.and_eq_true, beq_iff_eq] at hends
  refine hnew r hmem ⟨?_, hends.1⟩
  rw [← hsource]
  exact congrArg (·.source) hrwire

/-- Of neurons that a row joins for the first time, it joins one with itself or makes a new link. -/
theorem linkBetween?_of_new (h : Depicts neurons rows c) (hs : row.source < c.neurons.size)
    (hnew : ∀ r ∈ rows, ¬r.SameEnds row) :
    row.source = row.target ∨ c.linkBetween? row.source row.target = none := by
  by_cases hself : row.source = row.target
  · exact .inl hself
  · exact .inr (h.linkBetween?_eq_none hs hself hnew)

section Step

variable (h : Depicts neurons rows c) (hrow : isInside c.neurons.size row = true)
  (hnew : ∀ r ∈ rows, ¬r.SameEnds row)

include h hrow hnew

theorem cell_addConnection {n : NeuronRow α} (hn : neurons[j]? = some n) :
    (Snapshot.addConnection c row).ownCell j = Snapshot.cell (rows ++ [row]) j n := by
  obtain ⟨hs, ht, -⟩ := isInside_iff.mp hrow
  have hj : j < c.neurons.size := h.size ▸ (List.getElem?_eq_some_iff.mp hn).1
  have hcell := h.cell j n hn
  by_cases hself : row.source = row.target
  · rw [ownCell_addConnection_loop h.consistent.sound hself ht (h.gater_loop ht hself hnew) hj,
      hcell]
    have hinputs : inputRows (rows ++ [row]) j = inputRows rows j := by
      simp [inputRows_append, hself]
    simp only [Snapshot.cell, hinputs]
    split
    · next hjt => rw [hjt, (loopWire_of_new hself hnew).2]
    · next hjt => rw [loopWire_append_of_ne fun he => hjt he.1.symm]
  · rw [ownCell_addConnection_input hself (h.linkBetween?_eq_none hs hself hnew) h.consistent.sound hs
      ht hj, hcell]
    have hloop : loopWire (rows ++ [row]) j = loopWire rows j :=
      loopWire_append_of_ne fun he => hself (he.2.trans he.1.symm)
    simp only [Snapshot.cell, hloop, inputRows_append]
    split
    · next hjt => simp [hjt, hself]
    · next hjt => simp [hjt]

theorem size_links_addConnection :
    (Snapshot.addConnection c row).links.size =
      neurons.length + ((rows ++ [row]).filter (!·.isLoop)).length := by
  rw [List.filter_append]
  by_cases hself : row.source = row.target
  · simp [size_links_addConnection_loop hself, h.size_links, ConnectionRow.isLoop, hself]
  · have hnone := h.linkBetween?_eq_none (isInside_iff.mp hrow).1 hself hnew
    simp [size_links_addConnection_input hself hnone, h.size_links, ConnectionRow.isLoop, hself,
      Nat.add_assoc]

theorem links_addConnection {i : Nat} {r : ConnectionRow α}
    (hr : ((rows ++ [row]).filter (!·.isLoop))[i]? = some r) :
    (Snapshot.addConnection c row).link (neurons.length + i) = r.link := by
  obtain ⟨hs, ht, -⟩ := isInside_iff.mp hrow
  rw [List.filter_append] at hr
  by_cases hself : row.source = row.target
  · -- the row gives its numbers to a loop, and those come before the other links
    have hlt : row.target < neurons.length := h.size ▸ ht
    have hne : neurons.length + i ≠ (c.neuron row.target).loop := by
      rw [h.loop _ hlt]
      exact Nat.ne_of_gt (Nat.lt_of_lt_of_le hlt (Nat.le_add_right _ _))
    rw [link_addConnection_loop h.consistent.sound hself ht (h.gater_loop ht hself hnew),
      if_neg hne]
    exact h.links i r (by simpa [ConnectionRow.isLoop, hself] using hr)
  · have hlast : [row].filter (!·.isLoop) = [row] := by simp [ConnectionRow.isLoop, hself]
    rw [link_addConnection_input hself (h.linkBetween?_eq_none hs hself hnew), h.size_links]
    rw [hlast, List.getElem?_append] at hr
    split at hr
    · next hlt =>
      rw [if_neg (Nat.ne_of_lt (Nat.add_lt_add_left hlt _))]
      exact h.links i r hr
    · next hle =>
      rw [List.getElem?_singleton] at hr
      split at hr
      · next hi =>
        cases hr
        rw [if_pos (congrArg _ (Nat.le_antisymm (Nat.le_of_sub_eq_zero hi) (Nat.le_of_not_lt hle)))]
      · cases hr

end Step

/-- One more row of a connection. -/
theorem addConnection (h : Depicts neurons rows c) (hrow : isInside neurons.length row = true)
    (hnew : ∀ r ∈ rows, ¬r.SameEnds row) :
    Depicts neurons (rows ++ [row]) (addConnection c row) := by
  rw [← h.size] at hrow
  obtain ⟨hs, ht, -⟩ := isInside_iff.mp hrow
  have hneuron := neuron_addConnection hs ht (h.linkBetween?_of_new hs hnew)
  refine
    { consistent := consistent_addConnection h.consistent hrow
      size := (size_neurons_addConnection row).trans h.size
      cell := fun j n hn => h.cell_addConnection hrow hnew hn
      previous := fun j n hn => ?_
      loop := fun j hj => ?_
      size_links := h.size_links_addConnection hrow hnew
      links := fun i r hr => h.links_addConnection hrow hnew hr }
  · obtain ⟨_, _, _, _, he⟩ := hneuron j
    rw [he]
    exact h.previous j n hn
  · obtain ⟨_, _, _, _, he⟩ := hneuron j
    rw [he]
    exact h.loop j hj

/-- All rows of connections, no two of which have the same ends. -/
theorem addConnections (h : Depicts neurons [] c)
    (hrows : ∀ row ∈ rows, isInside neurons.length row = true)
    (hends : rows.Pairwise fun r r' => ¬r.SameEnds r') :
    Depicts neurons rows (rows.foldl Snapshot.addConnection c) := by
  induction rows using List.reverseRecOn with
  | nil => exact h
  | append_singleton rows row ih =>
    rw [List.pairwise_append] at hends
    obtain ⟨hends, -, hnew⟩ := hends
    have hprev := ih (fun r hr => hrows r (List.mem_append_left _ hr)) hends
    rw [List.foldl_append]
    exact hprev.addConnection (hrows row (by simp)) fun r hr => hnew r hr row (by simp)

/-- A row of a neuron is the row of what was made from it, whichever its layer is. -/
theorem neuronRow (h : Depicts neurons rows c) (hn : neurons[j]? = some n) (layer : Layer) :
    c.neuronRow ⟨j, layer⟩ = { n with layer } := by
  have hcell := h.cell j n hn
  have hstate := congrArg Cell.state hcell
  have hactivation := congrArg Cell.activation hcell
  have hbias := congrArg Cell.bias hcell
  have htransfer := congrArg Cell.transfer hcell
  have hprevious := h.previous j n hn
  simp only [ownCell, Snapshot.cell] at hstate hactivation hbias htransfer
  simp only [Circuit.neuronRow, hstate, hactivation, hbias, htransfer, hprevious]

/-- The loops stand first. They have the numbers of their rows. -/
theorem link_loop (h : Depicts neurons rows c) (hj : j < neurons.length) :
    c.link j = (loopWire rows j).link j := by
  have hcell := congrArg Cell.loop (h.cell j _ (List.getElem?_eq_getElem hj))
  have htarget := h.consistent.sound.loop_target j (h.size ▸ hj)
  simp only [ownCell, loopOf, Snapshot.cell, h.loop j hj] at hcell htarget
  calc c.link j = (c.ownWire j).link (c.link j).target := rfl
    _ = (loopWire rows j).link j := by rw [hcell, htarget]

/-- The loops, and then the links that other rows describe. -/
theorem links_eq (h : Depicts neurons rows c) :
    c.links.toList = (List.range neurons.length).map (fun j => (loopWire rows j).link j) ++
      (rows.filter (!·.isLoop)).map ConnectionRow.link := by
  rw [links_toList, h.size_links, List.range_add, List.map_append, List.map_map]
  congr 1
  · exact List.map_congr_left fun j hj => h.link_loop (List.mem_range.mp hj)
  · refine List.ext_getElem (by simp) fun i hi hi' => ?_
    rw [List.getElem_map, List.getElem_map, List.getElem_range]
    exact h.links i _ (List.getElem?_eq_getElem _)

end Depicts

/-! ## From the rows of neurons to the whole circuit -/

theorem Depicts.of_records {d : Circuit α} (h : Depicts neurons rows c) (hd : d.Consistent)
    (hneurons : d.neurons = c.neurons) (hlinks : d.links = c.links) : Depicts neurons rows d := by
  have hlink : d.link = c.link := by
    funext l
    rw [link, hlinks, link]
  have hneuron : d.neuron = c.neuron := by
    funext u
    rw [neuron, hneurons, neuron]
  have hcell : d.ownCell = c.ownCell := by
    funext u
    simp only [ownCell, funext fun l => show d.ownWire l = c.ownWire l by simp only [ownWire, hlink],
      hneuron]
  refine ⟨hd, ?_, ?_, ?_, ?_, ?_, ?_⟩
  · exact hneurons ▸ h.size
  · exact hcell ▸ h.cell
  · exact hneuron ▸ h.previous
  · exact hneuron ▸ h.loop
  · exact hlinks ▸ h.size_links
  · exact hlink ▸ h.links

theorem neuron_addRow (c : Circuit α) (n : NeuronRow α) (u : NeuronId) :
    (addNeuron c n).neuron u =
      if u = c.neurons.size then
        { Neuron.fresh c.draw.1 c.links.size with
          state := n.state
          previous := n.previous
          activation := n.activation
          bias := n.bias
          transfer := n.transfer }
      else c.neuron u := by
  have hlt : c.neurons.size < c.addNeuron.2.neurons.size := by
    rw [Circuit.size_neurons_addNeuron]
    exact Nat.lt_succ_self _
  show (c.addNeuron.2.modifyNeuron c.neurons.size _).neuron u = _
  split
  · next hu =>
    rw [hu, neuron_modifyNeuron_self hlt, neuron_addNeuron, if_pos rfl]
  · next hu =>
    rw [neuron_modifyNeuron_ne hu, neuron_addNeuron, if_neg hu]

/-- A neuron comes with an absent loop and without inputs. -/
theorem ownCell_addNeuron (h : c.Sound) (n : NeuronRow α) (hj : j ≤ c.neurons.size) :
    (addNeuron c n).ownCell j =
      if j = c.neurons.size then Snapshot.cell [] j n else c.ownCell j := by
  have hwire : ∀ k, (addNeuron c n).ownWire k =
      if k = c.links.size then ⟨c.neurons.size, 0, 1, none⟩ else c.ownWire k := by
    intro k
    show c.addNeuron.2.ownWire k = _
    rw [ownWire, link_addNeuron]
    split <;> rfl
  rw [ownCell, neuron_addRow]
  split
  · next hnew =>
    rw [hnew]
    exact congrArg (fun w => { Snapshot.cell [] c.neurons.size n with loop := w })
      ((hwire c.links.size).trans (if_pos rfl))
  · next hnew =>
    have hj : j < c.neurons.size := Nat.lt_of_le_of_ne hj hnew
    have hold : ∀ k < c.links.size, (addNeuron c n).ownWire k = c.ownWire k := by
      intro k hk
      rw [hwire, if_neg (Nat.ne_of_lt hk)]
    have hinputs : (c.neuron j).inputs.toList.map (addNeuron c n).ownWire =
        (c.neuron j).inputs.toList.map c.ownWire :=
      List.map_congr_left fun k hk => hold k ((h.mem_inputs j hj k).mp hk).1
    rw [hinputs, hold _ (h.loop_lt j hj)]
    rfl

/-- One more neuron. -/
theorem Depicts.addNeuron (h : Depicts neurons [] c) (n : NeuronRow α) :
    Depicts (neurons ++ [n]) [] (addNeuron c n) := by
  have hlt : ∀ {j m}, (neurons ++ [n])[j]? = some m → j ≤ c.neurons.size := by
    intro j m hm
    have hlt := (List.getElem?_eq_some_iff.mp hm).1
    rw [List.length_append, ← h.size] at hlt
    exact Nat.le_of_lt_succ hlt
  -- the last neuron is the new one, and all others were there
  have hrow : ∀ {j m}, (neurons ++ [n])[j]? = some m →
      if j = c.neurons.size then m = n else neurons[j]? = some m := by
    intro j m hm
    split
    · next hj =>
      rw [hj, h.size, List.getElem?_concat_length] at hm
      exact (Option.some.inj hm).symm
    · next hj =>
      rwa [List.getElem?_append_left (h.size ▸ Nat.lt_of_le_of_ne (hlt hm) hj)] at hm
  refine ⟨consistent_addNeuron h.consistent n, ?_, fun j m hm => ?_, fun j m hm => ?_,
    fun j hj => ?_, ?_, nofun⟩
  · rw [List.length_append, ← h.size]
    exact size_neurons_addNeuron n
  · rw [ownCell_addNeuron h.consistent.sound n (hlt hm)]
    have hm := hrow hm
    split at hm
    · next hj => rw [if_pos hj, hm]
    · next hj =>
      rw [if_neg hj]
      exact h.cell j m hm
  · rw [neuron_addRow]
    have hm := hrow hm
    split at hm
    · next hj => rw [if_pos hj, hm]
    · next hj =>
      rw [if_neg hj]
      exact h.previous j m hm
  · rw [neuron_addRow, h.size, h.size_links]
    split
    · next hj => exact hj.symm
    · next hne =>
      rw [List.length_append, List.length_singleton] at hj
      exact h.loop j (Nat.lt_of_le_of_ne (Nat.le_of_lt_succ hj) hne)
  · show c.addNeuron.2.links.size = _
    rw [size_links_addNeuron, h.size_links, List.length_append]
    rfl

/-- The neurons of all rows. -/
theorem depicts_addRows (neurons : List (NeuronRow α)) (identity : Identity) (settings : Settings α) :
    Depicts neurons [] (neurons.foldl addNeuron (.empty identity settings)) := by
  induction neurons using List.reverseRecOn with
  | nil => exact ⟨consistent_empty identity settings, rfl, nofun, nofun, nofun, rfl, nofun⟩
  | append_singleton neurons n ih =>
    rw [List.foldl_append]
    exact ih.addNeuron n

theorem depicts_bare (s : Snapshot α) (identity : Identity) (settings : Settings α) :
    Depicts s.neurons [] (s.bare identity settings) := by
  have hrows := depicts_addRows s.neurons identity settings
  have hneurons : (s.bare identity settings).neurons =
      (s.neurons.foldl addNeuron (.empty identity settings)).neurons := neurons_wrapAll _
  have hlinks : (s.bare identity settings).links =
      (s.neurons.foldl addNeuron (.empty identity settings)).links := links_wrapAll _
  exact hrows.of_records (consistent_bare s identity settings) hneurons hlinks

/-- The circuit that is built from a snapshot. -/
theorem depicts_build {s : Snapshot α} (hcheck : s.check = .ok ())
    (hends : s.connections.Pairwise fun r r' => ¬r.SameEnds r') (identity : Identity)
    (settings : Settings α) :
    Depicts s.neurons s.connections (s.build identity settings).1 := by
  rw [build_fst]
  exact (depicts_bare s identity settings).addConnections (check_eq_ok_iff.mp hcheck) hends

/-- The circuit built from a snapshot has the picture that the snapshot describes. -/
theorem picture_build {s : Snapshot α} (hcheck : s.check = .ok ())
    (hends : s.connections.Pairwise fun r r' => ¬r.SameEnds r') (identity : Identity)
    (settings : Settings α) :
    (s.build identity settings).1.picture (List.range s.neurons.length) = s.picture := by
  have hdepicts := depicts_build hcheck hends identity settings
  refine List.ext_getElem? fun j => ?_
  rw [Circuit.picture, picture, List.getElem?_map, List.getElem?_mapIdx]
  cases hj : s.neurons[j]? with
  | none =>
    rw [List.getElem?_eq_none (by simpa using hj)]
    rfl
  | some n =>
    have hlt := (List.getElem?_eq_some_iff.mp hj).1
    have hcell := cell_range hdepicts.consistent.sound (hdepicts.size.symm ▸ hlt)
    rw [hdepicts.size] at hcell
    rw [List.getElem?_range hlt, Option.map_some, Option.map_some, hcell, hdepicts.cell j n hj]

end Snapshot

end GatedNetwork
