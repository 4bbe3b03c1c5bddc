import GatedNetwork.Proofs.Circuit.Growth
import GatedNetwork.Proofs.Circuit.Picture
import GatedNetwork.Proofs.Snapshot.Build

/-!
# Layers of snapshots

A snapshot of a network lists inputs first, then hidden neurons by ascending layers, then outputs. The
circuit built from it wraps the neurons of each layer into an ensemble. Hidden layers without neurons
are lost, but going through the new layer set still is going through all rows in order.

* `Circuit.inOrder_snapshot` — the rows of a snapshot of a layer set are in order
* `placed_build` — the layer set of the circuit built from rows in order
-/

namespace GatedNetwork

variable {α : Type} [Arithmetic α]

namespace Snapshot

open Circuit

variable {s : Snapshot α} {c : Circuit α} {i j k o : Nat} {hidden : List Nat}

/-! ## Rows in order -/

/-- The layers of the neurons, row by row. -/
def rowLayers (s : Snapshot α) : List Layer := s.neurons.map (·.layer)

/-- The rows list `i` inputs, then hidden neurons with these ascending indices of their layers, and
then `o` outputs. -/
structure InOrder (s : Snapshot α) (i : Nat) (hidden : List Nat) (o : Nat) : Prop where
  layers : s.rowLayers =
    List.replicate i .input ++ (hidden.map .hidden ++ List.replicate o .output)
  ascending : hidden.Pairwise (· ≤ ·)

namespace InOrder

omit [Arithmetic α] in
theorem length (h : s.InOrder i hidden o) : s.neurons.length = i + (hidden.length + o) := by
  have hlen := congrArg List.length h.layers
  simpa [rowLayers] using hlen

omit [Arithmetic α] in
theorem input_iff (h : s.InOrder i hidden o) : s.rowLayers[j]? = some .input ↔ j < i := by
  rw [h.layers]
  grind

omit [Arithmetic α] in
theorem hidden_iff (h : s.InOrder i hidden o) :
    s.rowLayers[j]? = some (.hidden k) ↔ i ≤ j ∧ hidden[j - i]? = some k := by
  rw [h.layers]
  grind

omit [Arithmetic α] in
theorem output_iff (h : s.InOrder i hidden o) :
    s.rowLayers[j]? = some .output ↔ i + hidden.length ≤ j ∧ j < i + hidden.length + o := by
  rw [h.layers]
  grind

end InOrder

/-! ## Neurons by layer -/

omit [Arithmetic α] in
theorem mem_inLayer {layer : Layer} : j ∈ s.inLayer layer ↔ s.rowLayers[j]? = some layer := by
  rw [inLayer, List.mem_filter, List.mem_range, rowLayers, List.getElem?_map]
  cases hj : s.neurons[j]? with
  | none => simp
  | some n =>
    have hlt := (List.getElem?_eq_some_iff.mp hj).1
    simp [hlt]

omit [Arithmetic α] in
theorem ascending_inLayer (s : Snapshot α) (layer : Layer) :
    (s.inLayer layer).Pairwise (· < ·) :=
  List.pairwise_lt_range.filter _

/-- Takes in the index of a hidden layer. -/
def takeHidden (is : IdSet) (row : NeuronRow α) : IdSet :=
  match row.layer with
  | .hidden i => is.insert i
  | _ => is

omit [Arithmetic α] in
theorem mem_takeHidden {is : IdSet} {row : NeuronRow α} :
    k ∈ takeHidden is row ↔ k ∈ is ∨ .hidden k = row.layer := by
  unfold takeHidden
  cases row.layer with
  | input => simp
  | hidden j => simp [or_comm]
  | output => simp

omit [Arithmetic α] in
theorem mem_foldl_takeHidden {rows : List (NeuronRow α)} {is : IdSet} :
    k ∈ rows.foldl takeHidden is ↔ k ∈ is ∨ .hidden k ∈ rows.map (·.layer) := by
  induction rows generalizing is with
  | nil => simp
  | cons row rows ih =>
    rw [List.foldl_cons, ih, mem_takeHidden, List.map_cons, List.mem_cons, or_assoc]

omit [Arithmetic α] in
theorem mem_hiddenIndices : k ∈ s.hiddenIndices ↔ .hidden k ∈ s.rowLayers := by
  have hfold : s.hiddenIndices = s.neurons.foldl takeHidden ∅ := rfl
  rw [hfold, mem_foldl_takeHidden, or_iff_right (IdSet.not_mem_empty k), rowLayers]

omit [Arithmetic α] in
theorem inLayer_input (h : s.InOrder i hidden o) : s.inLayer .input = List.range' 0 i := by
  refine IdSet.eq_of_mem_iff (ascending_inLayer s _) List.pairwise_lt_range' fun j => ?_
  rw [mem_inLayer, h.input_iff, List.mem_range'_1]
  omega

omit [Arithmetic α] in
theorem inLayer_output (h : s.InOrder i hidden o) :
    s.inLayer .output = List.range' (i + hidden.length) o := by
  refine IdSet.eq_of_mem_iff (ascending_inLayer s _) List.pairwise_lt_range' fun j => ?_
  rw [mem_inLayer, h.output_iff, List.mem_range'_1]

omit [Arithmetic α] in
/-- Layers that are not empty list all hidden neurons. -/
theorem flatMap_inLayer_hidden (h : s.InOrder i hidden o) :
    s.hiddenIndices.toList.flatMap (fun k => s.inLayer (.hidden k)) =
      List.range' i hidden.length := by
  refine IdSet.eq_of_mem_iff ?_ List.pairwise_lt_range' fun j => ?_
  · rw [List.pairwise_flatMap]
    refine ⟨fun k _ => ascending_inLayer s _, s.hiddenIndices.ascending.imp ?_⟩
    intro k k' hk x hx y hy
    rw [mem_inLayer, h.hidden_iff] at hx hy
    -- a neuron that stands later is in no earlier layer
    by_contra hle
    have hle : y - i ≤ x - i := by omega
    obtain ⟨hxlt, rfl⟩ := List.getElem?_eq_some_iff.mp hx.2
    obtain ⟨hylt, rfl⟩ := List.getElem?_eq_some_iff.mp hy.2
    rcases Nat.lt_or_eq_of_le hle with hlt | heq
    · have hge := List.pairwise_iff_getElem.mp h.ascending _ _ hylt hxlt hlt
      omega
    · simp only [heq] at hk
      omega
  · rw [List.mem_flatMap, List.mem_range'_1]
    constructor
    · rintro ⟨k, -, hj⟩
      rw [mem_inLayer, h.hidden_iff] at hj
      have hlt := (List.getElem?_eq_some_iff.mp hj.2).1
      omega
    · rintro ⟨hle, hlt⟩
      obtain ⟨k, hk⟩ : ∃ k, hidden[j - i]? = some k :=
        ⟨_, List.getElem?_eq_getElem (by omega)⟩
      have hget := h.hidden_iff.mpr ⟨hle, hk⟩
      exact ⟨k, mem_hiddenIndices.mpr (List.mem_of_getElem? hget), mem_inLayer.mpr hget⟩

/-! ## Wrapped layers -/

omit [Arithmetic α] in
theorem members_wrap (c : Circuit α) (us : List NeuronId) :
    (c.wrap us).2.members (c.wrap us).1 = us := by
  simp [members, ensemble, wrap]

omit [Arithmetic α] in
theorem hasEnsemble_wrap (c : Circuit α) (us : List NeuronId) :
    (c.wrap us).2.hasEnsemble (c.wrap us).1 = true := by
  simp [wrap]

omit [Arithmetic α] in
theorem grows_wrapAll (c : Circuit α) (lists : List (List NeuronId)) :
    Grows c (wrapAll c lists).2 := by
  induction lists generalizing c with
  | nil => exact .refl c
  | cons us lists ih => exact (grows_wrap c us).trans (ih _)

omit [Arithmetic α] in
/-- The new ensembles list what was wrapped. -/
theorem members_wrapAll (c : Circuit α) (lists : List (List NeuronId)) :
    (wrapAll c lists).1.map (wrapAll c lists).2.members = lists ∧
      ∀ e ∈ (wrapAll c lists).1, (wrapAll c lists).2.hasEnsemble e = true := by
  induction lists generalizing c with
  | nil => exact ⟨rfl, fun e he => absurd he List.not_mem_nil⟩
  | cons us lists ih =>
    obtain ⟨hmembers, hensembles⟩ := ih (c.wrap us).2
    have hgrows := grows_wrapAll (c.wrap us).2 lists
    have hwrap := hasEnsemble_wrap c us
    simp only [wrapAll]
    refine ⟨?_, List.forall_mem_cons.mpr ⟨hgrows.ensembles _ hwrap, hensembles⟩⟩
    rw [List.map_cons, hmembers, hgrows.members _ hwrap, members_wrap]

omit [Arithmetic α] in
/-- Three kinds of layers wrapped one after another. -/
theorem members_wrapLayers (c : Circuit α) (us : List NeuronId) (lists : List (List NeuronId))
    (vs : List NeuronId) {d e : Circuit α} (hd : d = (wrapAll (c.wrap us).2 lists).2)
    (he : e.ensembles = (d.wrap vs).2.ensembles) :
    e.members (c.wrap us).1 = us ∧
      (wrapAll (c.wrap us).2 lists).1.map e.members = lists ∧
      e.members (d.wrap vs).1 = vs ∧
      e.hasEnsemble (c.wrap us).1 = true ∧
      (∀ x ∈ (wrapAll (c.wrap us).2 lists).1, e.hasEnsemble x = true) ∧
      e.hasEnsemble (d.wrap vs).1 = true := by
  have hmembers : ∀ x, e.members x = (d.wrap vs).2.members x := by
    intro x
    rw [members, members, ensemble, ensemble, he]
  have hensembles : ∀ x, e.hasEnsemble x = (d.wrap vs).2.hasEnsemble x := by
    intro x
    rw [hasEnsemble, hasEnsemble, he]
  simp only [hmembers, hensembles]
  subst hd
  have hinput := hasEnsemble_wrap c us
  have hgrows := (grows_wrapAll (c.wrap us).2 lists).trans (grows_wrap _ vs)
  have houtput := grows_wrap (wrapAll (c.wrap us).2 lists).2 vs
  obtain ⟨hlists, hhidden⟩ := members_wrapAll (c.wrap us).2 lists
  refine ⟨?_, ?_, members_wrap _ _, hgrows.ensembles _ hinput, ?_, hasEnsemble_wrap _ _⟩
  · rw [hgrows.members _ hinput, members_wrap]
  · refine Eq.trans (List.map_congr_left fun x hx => ?_) hlists
    exact (hmembers x).trans (houtput.members x (hhidden x hx))
  · exact fun x hx => houtput.ensembles x (hhidden x hx)

section Build

variable (s : Snapshot α) (identity : Identity) (settings : Settings α)

/-- The layer set that is built lists the neurons of the layers. -/
theorem members_build :
    (s.build identity settings).1.members (s.build identity settings).2.input = s.inLayer .input ∧
      (s.build identity settings).2.hidden.map (s.build identity settings).1.members =
        s.hiddenIndices.toList.map (fun k => s.inLayer (.hidden k)) ∧
      (s.build identity settings).1.members (s.build identity settings).2.output =
        s.inLayer .output := by
  obtain ⟨hinput, hhidden, houtput, -⟩ := members_wrapLayers
    (s.neurons.foldl addNeuron (.empty identity settings)) (s.inLayer .input)
    (s.hiddenIndices.toList.map fun k => s.inLayer (.hidden k)) (s.inLayer .output) rfl
    (ensembles_addConnections (c := s.bare identity settings) s.connections)
  exact ⟨hinput, hhidden, houtput⟩

/-- Its ensembles exist. -/
theorem hasEnsemble_build : ∀ e ∈ (s.build identity settings).2.ensembles,
    (s.build identity settings).1.hasEnsemble e = true := by
  obtain ⟨-, -, -, hinput, hhidden, houtput⟩ := members_wrapLayers
    (s.neurons.foldl addNeuron (.empty identity settings)) (s.inLayer .input)
    (s.hiddenIndices.toList.map fun k => s.inLayer (.hidden k)) (s.inLayer .output) rfl
    (ensembles_addConnections (c := s.bare identity settings) s.connections)
  rw [Layers.ensembles_eq, List.forall_mem_cons, List.forall_mem_append, List.forall_mem_singleton]
  exact ⟨hinput, hhidden, houtput⟩

end Build

/-- The circuit built from rows in order has a layer for each kind of them, and its layer set lists
all neurons in the order of the rows. -/
theorem placed_build (h : s.InOrder i hidden o) (identity : Identity) (settings : Settings α) :
    (s.build identity settings).1.members (s.build identity settings).2.input = List.range' 0 i ∧
      (s.build identity settings).1.hiddenMembers (s.build identity settings).2 =
        List.range' i hidden.length ∧
      (s.build identity settings).1.members (s.build identity settings).2.output =
        List.range' (i + hidden.length) o ∧
      (s.build identity settings).1.placed (s.build identity settings).2 =
        List.range s.neurons.length := by
  obtain ⟨hinput, hhidden, houtput⟩ := members_build s identity settings
  rw [inLayer_input h] at hinput
  rw [inLayer_output h] at houtput
  have hmembers : (s.build identity settings).1.hiddenMembers (s.build identity settings).2 =
      List.range' i hidden.length := by
    rw [hiddenMembers, List.flatMap_def, hhidden, ← List.flatMap_def, flatMap_inLayer_hidden h]
  refine ⟨hinput, hmembers, houtput, ?_⟩
  have hall : List.range' 0 i ++ List.range' (0 + i) (hidden.length + o) =
      List.range' 0 (i + (hidden.length + o)) := List.range'_append_1
  rw [placed, hinput, hmembers, houtput, List.range'_append_1, h.length, List.range_eq_range', ← hall,
    Nat.zero_add]

end Snapshot

/-! ## Snapshots are in order -/

namespace Circuit

variable (c : Circuit α)

theorem rowLayers_layer (layer : Layer) (us : List NeuronId) :
    ((us.map fun neuron => ({ neuron, layer } : Placement)).map fun p => (c.neuronRow p).layer) =
      List.replicate us.length layer := by
  rw [List.map_map]
  exact List.map_const

/-- Hidden neurons stand by ascending layers. -/
theorem rowLayers_hidden (k : Nat) (es : List EnsembleId) :
    ∃ hidden : List Nat, hidden.length = (es.flatMap c.members).length ∧
      (∀ i ∈ hidden, k ≤ i) ∧ hidden.Pairwise (· ≤ ·) ∧
        (((Layers.hiddenFrom k es).flatMap fun le =>
          (c.members le.2).map fun neuron => ({ neuron, layer := le.1 } : Placement)).map
            fun p => (c.neuronRow p).layer) = hidden.map .hidden := by
  induction es generalizing k with
  | nil => exact ⟨[], rfl, fun i hi => absurd hi List.not_mem_nil, .nil, rfl⟩
  | cons e es ih =>
    obtain ⟨hidden, hlen, hle, hascending, hlayers⟩ := ih (k + 1)
    refine ⟨List.replicate (c.members e).length k ++ hidden, ?_, ?_, ?_, ?_⟩
    · simp [hlen]
    · intro i hi
      rcases List.mem_append.mp hi with hi | hi
      · exact Nat.le_of_eq (List.eq_of_mem_replicate hi).symm
      · exact Nat.le_of_succ_le (hle i hi)
    · rw [List.pairwise_append]
      refine ⟨List.pairwise_replicate.mpr (.inr (Nat.le_refl k)), hascending, ?_⟩
      intro i hi j hj
      rw [List.eq_of_mem_replicate hi]
      exact Nat.le_of_succ_le (hle j hj)
    · rw [Layers.hiddenFrom, List.flatMap_cons, List.map_append, rowLayers_layer, hlayers,
        List.map_append, List.map_replicate]

/-- A snapshot of a layer set lists its neurons in order. -/
theorem inOrder_snapshot (layers : Layers) :
    ∃ hidden : List Nat, hidden.length = (c.hiddenMembers layers).length ∧
      (c.snapshot (c.placements layers)).InOrder (c.members layers.input).length hidden
        (c.members layers.output).length := by
  obtain ⟨hidden, hlen, -, hascending, hlayers⟩ := rowLayers_hidden c 0 layers.hidden
  refine ⟨hidden, hlen, ?_, hascending⟩
  rw [Snapshot.rowLayers, snapshot, List.map_map, placements_eq, List.map_append, List.map_append]
  congr 1
  · exact rowLayers_layer c .input _
  · congr 1
    exact rowLayers_layer c .output _

end Circuit

end GatedNetwork
