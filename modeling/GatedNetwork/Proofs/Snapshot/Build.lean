import GatedNetwork.Proofs.Circuit.Consistent
import GatedNetwork.Snapshot.Basic

/-!
# Circuits built from snapshots

A snapshot that passes its check is built into a circuit by the same primitive changes that requests
make: neurons are added, lists of neurons wrapped, and for every row a link is made, gated and given
its gain. The check makes sure that all rows name neurons that were added, so the circuit is
consistent and peopled.
-/

namespace GatedNetwork

variable {α : Type} [Arithmetic α]

namespace Snapshot

open Circuit

variable {c : Circuit α}

/-! ## Neurons -/

theorem sameWiring_addNeuron (c : Circuit α) (row : NeuronRow α) :
    SameWiring c.addNeuron.2 (addNeuron c row) :=
  sameWiring_modifyNeuron _ _ fun _ => rfl

theorem consistent_addNeuron (h : c.Consistent) (row : NeuronRow α) :
    (addNeuron c row).Consistent :=
  (Circuit.consistent_addNeuron h).of_sameWiring (sameWiring_addNeuron c row)

theorem size_neurons_addNeuron (row : NeuronRow α) :
    (addNeuron c row).neurons.size = c.neurons.size + 1 := by
  rw [(sameWiring_addNeuron c row).neurons, Circuit.size_neurons_addNeuron]

theorem peopled_addNeuron (h : c.Peopled) (row : NeuronRow α) : (addNeuron c row).Peopled := by
  refine h.of_grown rfl ?_
  rw [size_neurons_addNeuron]
  exact Nat.le_succ _

theorem consistent_addRows (h : c.Consistent) (rows : List (NeuronRow α)) :
    (rows.foldl addNeuron c).Consistent := by
  induction rows generalizing c with
  | nil => exact h
  | cons row rows ih => exact ih (consistent_addNeuron h row)

theorem peopled_addRows (h : c.Peopled) (rows : List (NeuronRow α)) :
    (rows.foldl addNeuron c).Peopled := by
  induction rows generalizing c with
  | nil => exact h
  | cons row rows ih => exact ih (peopled_addNeuron h row)

theorem size_neurons_addRows (rows : List (NeuronRow α)) :
    (rows.foldl addNeuron c).neurons.size = c.neurons.size + rows.length := by
  induction rows generalizing c with
  | nil => rfl
  | cons row rows ih =>
    rw [List.foldl_cons, ih, size_neurons_addNeuron, List.length_cons]
    lia

/-! ## Layers -/

omit [Arithmetic α] in
/-- The rows of a layer stand for neurons that are built. -/
theorem inLayer_lt (s : Snapshot α) (layer : Layer) :
    ∀ u ∈ s.inLayer layer, u < s.neurons.length := by
  intro u hu
  exact List.mem_range.mp (List.mem_filter.mp hu).1

theorem consistent_wrapAll (h : c.Consistent) (lists : List (List NeuronId)) :
    (wrapAll c lists).2.Consistent := by
  induction lists generalizing c with
  | nil => exact h
  | cons us lists ih => exact ih (consistent_wrap h us)

omit [Arithmetic α] in
@[simp] theorem neurons_wrapAll (lists : List (List NeuronId)) :
    (wrapAll c lists).2.neurons = c.neurons := by
  induction lists generalizing c with
  | nil => rfl
  | cons us lists ih => exact ih

omit [Arithmetic α] in
@[simp] theorem links_wrapAll (lists : List (List NeuronId)) :
    (wrapAll c lists).2.links = c.links := by
  induction lists generalizing c with
  | nil => rfl
  | cons us lists ih => exact ih

omit [Arithmetic α] in
theorem peopled_wrapAll (h : c.Peopled) {lists : List (List NeuronId)}
    (hlists : ∀ us ∈ lists, ∀ u ∈ us, u < c.neurons.size) : (wrapAll c lists).2.Peopled := by
  induction lists generalizing c with
  | nil => exact h
  | cons us lists ih =>
    obtain ⟨hus, hrest⟩ := List.forall_mem_cons.mp hlists
    exact ih (peopled_wrap h hus) hrest

/-! ## Connections -/

omit [Arithmetic α] in
/-- A row of a connection is inside if it names neurons only that have rows. -/
theorem isInside_iff {n : Nat} {row : ConnectionRow α} :
    isInside n row = true ↔
      row.source < n ∧ row.target < n ∧ ∀ g, row.gater = some g → g < n := by
  unfold isInside
  cases row.gater with
  | none => simp
  | some g => simp [and_assoc]

omit [Arithmetic α] in
/-- A snapshot passes the check if the rows of all connections are inside. -/
theorem check_eq_ok_iff {s : Snapshot α} {x : Unit} :
    s.check = .ok x ↔ ∀ row ∈ s.connections, isInside s.neurons.length row = true := by
  unfold check
  split
  · next i hi =>
    obtain ⟨hlt, hrow, -⟩ := List.findIdx?_eq_some_iff_getElem.mp hi
    simp only [reduceCtorEq, false_iff, Classical.not_forall]
    exact ⟨_, List.getElem_mem hlt, by simpa using hrow⟩
  · next hnone =>
    rw [List.findIdx?_eq_none_iff] at hnone
    simp only [true_iff]
    intro row hrow
    simpa using hnone row hrow

/-- What gating does for a row: the link gets the gater of the row, if it has one. -/
def gateRow (c : Circuit α) (l : LinkId) : Option NeuronId → Circuit α
  | some g => c.gateLink g l
  | none => c

/-- A row is built in three steps: connecting, gating, and setting the gain. -/
theorem addConnection_eq (c : Circuit α) (row : ConnectionRow α) :
    addConnection c row =
      (gateRow (c.connect row.source row.target (some row.weight)).2
        (c.connect row.source row.target (some row.weight)).1 row.gater).setGain
        (c.connect row.source row.target (some row.weight)).1 row.gain := by
  unfold addConnection gateRow
  cases row.gater <;> rfl

@[simp] theorem size_neurons_gateRow (l : LinkId) (g : Option NeuronId) :
    (gateRow c l g).neurons.size = c.neurons.size := by
  cases g with
  | none => rfl
  | some g => exact size_neurons_gateLink

@[simp] theorem size_links_gateRow (l : LinkId) (g : Option NeuronId) :
    (gateRow c l g).links.size = c.links.size := by
  cases g with
  | none => rfl
  | some g => exact size_links_gateLink

@[simp] theorem size_neurons_addConnection (row : ConnectionRow α) :
    (addConnection c row).neurons.size = c.neurons.size := by
  rw [addConnection_eq, (sameWiring_setGain _ _ _).neurons, size_neurons_gateRow,
    size_neurons_connect]

@[simp] theorem ensembles_addConnection (row : ConnectionRow α) :
    (addConnection c row).ensembles = c.ensembles := by
  rw [addConnection_eq, (sameWiring_setGain _ _ _).ensembles]
  cases row.gater with
  | none => exact ensembles_connect _
  | some g => exact ensembles_gateLink.trans (ensembles_connect _)

/-- The connection of a row that is inside keeps a circuit consistent. -/
theorem consistent_addConnection (h : c.Consistent) {row : ConnectionRow α}
    (hrow : isInside c.neurons.size row = true) : (addConnection c row).Consistent := by
  obtain ⟨hs, ht, hg⟩ := isInside_iff.mp hrow
  have hlink := consistent_connect h hs ht (some row.weight)
  rw [addConnection_eq]
  refine Consistent.of_sameWiring ?_ (sameWiring_setGain _ _ _)
  cases hgater : row.gater with
  | none => exact hlink
  | some g =>
    refine consistent_gateLink hlink ?_ (connect_fst_lt h.sound hs _)
    rw [size_neurons_connect]
    exact hg g hgater

theorem consistent_addConnections (h : c.Consistent) {rows : List (ConnectionRow α)}
    (hrows : ∀ row ∈ rows, isInside c.neurons.size row = true) :
    (rows.foldl addConnection c).Consistent := by
  induction rows generalizing c with
  | nil => exact h
  | cons row rows ih =>
    obtain ⟨hrow, hrest⟩ := List.forall_mem_cons.mp hrows
    refine ih (consistent_addConnection h hrow) ?_
    rw [size_neurons_addConnection]
    exact hrest

@[simp] theorem size_neurons_addConnections (rows : List (ConnectionRow α)) :
    (rows.foldl addConnection c).neurons.size = c.neurons.size := by
  induction rows generalizing c with
  | nil => rfl
  | cons row rows ih => rw [List.foldl_cons, ih, size_neurons_addConnection]

@[simp] theorem ensembles_addConnections (rows : List (ConnectionRow α)) :
    (rows.foldl addConnection c).ensembles = c.ensembles := by
  induction rows generalizing c with
  | nil => rfl
  | cons row rows ih => rw [List.foldl_cons, ih, ensembles_addConnection]

/-! ## The whole circuit -/

/-- The neurons of a snapshot with their layers wrapped, before they are connected. -/
def bare (s : Snapshot α) (identity : Identity) (settings : Settings α) : Circuit α :=
  let c := (s.neurons.foldl addNeuron (.empty identity settings)).wrap (s.inLayer .input)
  let c := wrapAll c.2 (s.hiddenIndices.toList.map fun i => s.inLayer (.hidden i))
  (c.2.wrap (s.inLayer .output)).2

/-- A snapshot is built by adding its connections to its neurons, row after row. -/
theorem build_fst (s : Snapshot α) (identity : Identity) (settings : Settings α) :
    (s.build identity settings).1 = s.connections.foldl addConnection (s.bare identity settings) :=
  rfl

theorem size_neurons_bare (s : Snapshot α) (identity : Identity) (settings : Settings α) :
    (s.bare identity settings).neurons.size = s.neurons.length := by
  show (wrapAll _ _).2.neurons.size = _
  rw [neurons_wrapAll]
  exact (size_neurons_addRows _).trans (Nat.zero_add _)

/-- As many neurons are built as there are rows. -/
theorem size_neurons_build (s : Snapshot α) (identity : Identity) (settings : Settings α) :
    (s.build identity settings).1.neurons.size = s.neurons.length := by
  rw [build_fst, size_neurons_addConnections, size_neurons_bare]

theorem consistent_bare (s : Snapshot α) (identity : Identity) (settings : Settings α) :
    (s.bare identity settings).Consistent := by
  have hrows := consistent_addRows (consistent_empty identity settings) s.neurons
  exact consistent_wrap (consistent_wrapAll (consistent_wrap hrows _) _) _

theorem peopled_bare (s : Snapshot α) (identity : Identity) (settings : Settings α) :
    (s.bare identity settings).Peopled := by
  have hsize := size_neurons_addRows (c := .empty identity settings) s.neurons
  have hlayer : ∀ layer, ∀ u ∈ s.inLayer layer,
      u < (s.neurons.foldl addNeuron (.empty identity settings)).neurons.size := by
    intro layer u hu
    rw [hsize]
    exact Nat.lt_of_lt_of_eq (inLayer_lt s layer u hu) (Nat.zero_add _).symm
  have hrows := peopled_addRows (peopled_empty identity settings) s.neurons
  have hinput := peopled_wrap hrows (hlayer .input)
  refine peopled_wrap (peopled_wrapAll hinput ?_) ?_
  · intro us hus
    obtain ⟨i, -, rfl⟩ := List.mem_map.mp hus
    exact hlayer (.hidden i)
  · rw [neurons_wrapAll]
    exact hlayer .output

/-- A snapshot that passes its check is built into a consistent circuit. -/
theorem consistent_build {s : Snapshot α} (h : s.check = .ok ()) (identity : Identity)
    (settings : Settings α) : (s.build identity settings).1.Consistent := by
  rw [build_fst]
  refine consistent_addConnections (consistent_bare s identity settings) ?_
  rw [size_neurons_bare]
  exact check_eq_ok_iff.mp h

theorem peopled_build (s : Snapshot α) (identity : Identity) (settings : Settings α) :
    (s.build identity settings).1.Peopled := by
  rw [build_fst]
  have hsize := size_neurons_addConnections (c := s.bare identity settings) s.connections
  exact (peopled_bare s identity settings).of_grown (ensembles_addConnections _)
    (Nat.le_of_eq hsize.symm)

/-- A snapshot that passes its check gives the network over what is built from it. -/
theorem toNetwork_eq_ok_iff {s : Snapshot α} {identity : Identity} {settings : Settings α}
    {n : Network α} :
    s.toNetwork identity settings = .ok n ↔
      s.check = .ok () ∧
        Network.create (s.build identity settings).1 (s.build identity settings).2 = .ok n := by
  unfold toNetwork
  rw [bind_eq_ok_iff]
  constructor
  · rintro ⟨_, hcheck, hn⟩
    exact ⟨hcheck, hn⟩
  · rintro ⟨hcheck, hn⟩
    exact ⟨(), hcheck, hn⟩

/-- The circuit of an imported network is the one that was built, and its snapshot was checked. -/
theorem toNetwork_eq_ok {s : Snapshot α} {identity : Identity} {settings : Settings α}
    {n : Network α} (h : s.toNetwork identity settings = .ok n) :
    s.check = .ok () ∧ n.circuit = (s.build identity settings).1 := by
  obtain ⟨hcheck, hn⟩ := toNetwork_eq_ok_iff.mp h
  refine ⟨hcheck, ?_⟩
  unfold Network.create at hn
  split at hn
  · cases hn
  · cases hn
    rfl

end Snapshot

end GatedNetwork
