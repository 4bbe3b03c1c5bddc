import GatedNetwork.Proofs.Network.Valid
import GatedNetwork.Proofs.Snapshot.Reexport

/-!
# What imports contain

The network of a snapshot has a neuron for each row, in the order of the rows, and a link for each row of
a connection. Its layers have as many neurons as the rows say; hidden layers that no row names are not
made.

* `Network.Holds` — what a network has of a snapshot
* `Snapshot.holds_of_toNetwork` — a network has everything of the snapshot it was built from
* `Circuit.hiddenSizes_snapshot` — the layers that a snapshot of a layer set names
-/

namespace GatedNetwork

variable {α : Type} [Arithmetic α]

namespace Network

/-- The numbers of neurons in the hidden layers. -/
def hiddenSizes (n : Network α) : List Nat := n.layers.hidden.map fun e => (n.circuit.members e).length

/-- The transfer functions of the neurons in canonical order. -/
def transfers (n : Network α) : List Transfer :=
  n.placements.map fun p => (n.circuit.neuron p.neuron).transfer

/-- What a network has of a snapshot: its neurons are the rows, in order, and every row of a connection
is a link with the same ends, numbers and gater. -/
structure Holds (m : Network α) (s : Snapshot α) : Prop where
  inputSize : m.inputSize = s.rowLayers.count .input
  hiddenSizes : m.hiddenSizes = s.hiddenIndices.toList.map fun k => s.rowLayers.count (.hidden k)
  outputSize : m.outputSize = s.rowLayers.count .output
  inOrder : m.placements.map (·.neuron) = List.range s.neurons.length
  transfers : m.transfers = s.neurons.map (·.transfer)
  links : ∀ r ∈ s.connections, ∃ l < m.circuit.links.size, m.circuit.link l = r.link

end Network

namespace Snapshot

open Circuit

variable {s : Snapshot α} {c : Circuit α} {neurons : List (NeuronRow α)}
  {rows : List (ConnectionRow α)} {r : ConnectionRow α} {i o : Nat} {hidden : List Nat}

/-! ## Rows by layer -/

omit [Arithmetic α] in
/-- A layer has as many neurons as there are rows that name it. -/
theorem length_inLayer (s : Snapshot α) (layer : Layer) :
    (s.inLayer layer).length = s.rowLayers.count layer := by
  have hrows : s.rowLayers.map some = (List.range s.neurons.length).map fun j => s.rowLayers[j]? := by
    refine List.ext_getElem (by simp [rowLayers]) fun j hj hj' => ?_
    rw [List.length_map] at hj
    simp [hj]
  have hcount : s.rowLayers.count layer = (s.rowLayers.map some).countP (· == some layer) := by
    rw [List.countP_map, List.count_eq_countP]
    rfl
  rw [hcount, hrows, List.countP_map, List.countP_eq_length_filter, inLayer]
  congr 1
  refine List.filter_congr fun j _ => ?_
  rw [Function.comp_apply, rowLayers, List.getElem?_map]
  cases s.neurons[j]? <;> rfl

omit [Arithmetic α] in
theorem InOrder.count_input (h : s.InOrder i hidden o) : s.rowLayers.count .input = i := by
  have hnone : (hidden.map Layer.hidden).count .input = 0 :=
    List.count_eq_zero.mpr (by simp)
  rw [h.layers, List.count_append, List.count_append, hnone, List.count_replicate_self,
    List.count_replicate]
  rfl

omit [Arithmetic α] in
theorem InOrder.count_output (h : s.InOrder i hidden o) : s.rowLayers.count .output = o := by
  have hnone : (hidden.map Layer.hidden).count .output = 0 :=
    List.count_eq_zero.mpr (by simp)
  rw [h.layers, List.count_append, List.count_append, hnone, List.count_replicate_self,
    List.count_replicate, Nat.zero_add]
  exact Nat.zero_add o

omit [Arithmetic α] in
/-- The sizes of the layers in use are the sizes of all layers but those that are empty. -/
theorem map_count_hiddenIndices {sizes : List Nat}
    (h : ∀ k, s.rowLayers.count (.hidden k) = sizes[k]?.getD 0) :
    (s.hiddenIndices.toList.map fun k => s.rowLayers.count (.hidden k)) =
      sizes.filter (· != 0) := by
  have hsizes : sizes = (List.range sizes.length).map fun k => s.rowLayers.count (.hidden k) := by
    refine List.ext_getElem (by simp) fun k hk hk' => ?_
    simp [h, hk]
  have hindices : s.hiddenIndices.toList = (List.range sizes.length).filter
      fun k => s.rowLayers.count (.hidden k) != 0 := by
    refine IdSet.eq_of_mem_iff s.hiddenIndices.ascending (List.pairwise_lt_range.filter _) fun k => ?_
    rw [IdSet.mem_toList, mem_hiddenIndices, List.mem_filter, List.mem_range, bne_iff_ne,
      ← List.count_pos_iff, Nat.pos_iff_ne_zero]
    refine ⟨fun hpos => ⟨?_, hpos⟩, fun hk => hk.2⟩
    by_contra hout
    rw [h, List.getElem?_eq_none (Nat.le_of_not_lt hout)] at hpos
    exact hpos rfl
  rw [hindices]
  conv_rhs => rw [hsizes, List.filter_map]
  rfl

/-! ## Neurons and links of what was built -/

theorem Depicts.transfer (h : Depicts neurons rows c) {j : Nat} {n : NeuronRow α}
    (hn : neurons[j]? = some n) : (c.neuron j).transfer = n.transfer :=
  congrArg Cell.transfer (h.cell j n hn)

/-- Every row has its link. -/
theorem Depicts.link_of_mem (h : Depicts neurons rows c)
    (hrows : ∀ r ∈ rows, isInside neurons.length r = true)
    (hends : rows.Pairwise fun r r' => ¬r.SameEnds r') (hr : r ∈ rows) :
    ∃ l < c.links.size, c.link l = r.link := by
  by_cases hself : r.isLoop = true
  · -- the first link into the target is its loop
    have htarget : r.target < neurons.length := (isInside_iff.mp (hrows r hr)).2.1
    have hrow := (loopRow?_eq_some hends).mpr ⟨hr, hself, rfl⟩
    refine ⟨r.target, ?_, ?_⟩
    · rw [h.size_links]
      exact Nat.lt_of_lt_of_le htarget (Nat.le_add_right _ _)
    · unfold loopRow? at hrow
      rw [h.link_loop htarget, loopWire, hrow]
      rfl
  · have hmem : r ∈ rows.filter (!·.isLoop) := List.mem_filter.mpr ⟨hr, by simpa using hself⟩
    obtain ⟨k, hk⟩ := List.mem_iff_getElem?.mp hmem
    refine ⟨neurons.length + k, ?_, h.links k r hk⟩
    rw [h.size_links]
    exact Nat.add_lt_add_left (List.getElem?_eq_some_iff.mp hk).1 _

/-- A network has everything of the snapshot it was built from. -/
theorem holds_of_toNetwork {m : Network α} {identity : Identity} {settings : Settings α}
    (horder : s.InOrder i hidden o) (hends : s.connections.Pairwise fun r r' => ¬r.SameEnds r')
    (hm : s.toNetwork identity settings = .ok m) : m.Holds s := by
  obtain ⟨hcheck, hcreate⟩ := toNetwork_eq_ok_iff.mp hm
  obtain ⟨-, rfl⟩ := create_eq_ok hcreate
  obtain ⟨hinput, hhidden, houtput⟩ := members_build s identity settings
  have hdepicts := depicts_build hcheck hends identity settings
  have hplaced := placements_build horder identity settings
  refine
    { inputSize := (congrArg List.length hinput).trans (length_inLayer s _)
      hiddenSizes := ?_
      outputSize := (congrArg List.length houtput).trans (length_inLayer s _)
      inOrder := ?_
      transfers := ?_
      links := fun r hr => hdepicts.link_of_mem (check_eq_ok_iff.mp hcheck) hends hr }
  · have hsizes := congrArg (List.map List.length) hhidden
    rw [List.map_map, List.map_map] at hsizes
    refine hsizes.trans (List.map_congr_left fun k _ => ?_)
    exact length_inLayer s (.hidden k)
  · show ((s.build identity settings).1.placements (s.build identity settings).2).map _ = _
    rw [hplaced]
    refine List.ext_getElem (by simp) fun j hj hj' => ?_
    simp
  · show ((s.build identity settings).1.placements (s.build identity settings).2).map _ = _
    rw [hplaced]
    refine List.ext_getElem (by simp) fun j hj hj' => ?_
    rw [List.length_map] at hj'
    simp only [List.getElem_map, List.getElem_mapIdx]
    exact hdepicts.transfer (List.getElem?_eq_getElem hj')

end Snapshot

/-! ## Layers of a snapshot that was taken -/

namespace Circuit

variable (c : Circuit α)

theorem count_hiddenFrom (first k : Nat) (es : List EnsembleId) :
    (((Layers.hiddenFrom first es).flatMap fun le =>
      (c.members le.2).map fun neuron => ({ neuron, layer := le.1 } : Placement)).map
        fun p => (c.neuronRow p).layer).count (.hidden (first + k)) =
      ((es.map fun e => (c.members e).length)[k]?).getD 0 := by
  induction es generalizing first k with
  | nil => rfl
  | cons e es ih =>
    rw [Layers.hiddenFrom, List.flatMap_cons, List.map_append, rowLayers_layer, List.count_append,
      List.count_replicate, List.map_cons]
    cases k with
    | zero =>
      -- the layers behind are counted from the next index on
      obtain ⟨hidden, -, hle, -, hlayers⟩ := rowLayers_hidden c (first + 1) es
      have hbehind : (hidden.map Layer.hidden).count (.hidden first) = 0 := by
        rw [List.count_eq_zero, List.mem_map]
        rintro ⟨i, hi, he⟩
        have hfirst := hle i hi
        cases he
        exact absurd hfirst (Nat.not_succ_le_self _)
      rw [Nat.add_zero, hlayers, hbehind, beq_self_eq_true, if_pos rfl]
      rfl
    | succ k =>
      have hne : (Layer.hidden first == Layer.hidden (first + (k + 1))) = false := by
        simp
      rw [hne, if_neg Bool.false_ne_true, Nat.zero_add, List.getElem?_cons_succ,
        show first + (k + 1) = first + 1 + k by omega, ih]

/-- A snapshot names every hidden layer for each of its neurons. -/
theorem count_hidden_snapshot (layers : Layers) (k : Nat) :
    (c.snapshot (c.placements layers)).rowLayers.count (.hidden k) =
      ((layers.hidden.map fun e => (c.members e).length)[k]?).getD 0 := by
  have hhidden := count_hiddenFrom c 0 k layers.hidden
  rw [Nat.zero_add] at hhidden
  rw [Snapshot.rowLayers, snapshot, List.map_map, placements_eq, List.map_append, List.map_append,
    List.count_append, List.count_append, ← hhidden]
  have hother : ∀ layer, layer ≠ Layer.hidden k → ∀ us : List NeuronId,
      ((us.map fun neuron => ({ neuron, layer } : Placement)).map
        fun p => (c.neuronRow p).layer).count (.hidden k) = 0 := by
    intro layer hne us
    rw [rowLayers_layer, List.count_eq_zero]
    exact fun hmem => hne (List.eq_of_mem_replicate hmem).symm
  show (List.map (fun p => (c.neuronRow p).layer) _).count _ +
    ((List.map (fun p => (c.neuronRow p).layer) _).count _ +
      (List.map (fun p => (c.neuronRow p).layer) _).count _) = _
  rw [hother .input Layer.noConfusion, hother .output Layer.noConfusion, Nat.zero_add, Nat.add_zero]

end Circuit

end GatedNetwork
