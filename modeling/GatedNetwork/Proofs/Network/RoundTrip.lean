import GatedNetwork.Proofs.Network.Reachable
import GatedNetwork.Proofs.Snapshot.Import
import GatedNetwork.Proofs.Snapshot.Layering

/-!
# There and back by way of a snapshot

A network imported from a snapshot has its neurons and links under other ids. What it answers to inputs
is what the network would answer that the snapshot was taken of: both show the same picture, and the
answers of a network depend on its picture alone.

* `mapM_activate_ok` — a network answers as the picture of what it shows
* `toNetwork_snapshot_ok` — a snapshot can be imported, and what comes out has the picture of its
  origin
* `snapshot_toNetwork_activate` — both answer every sequence of inputs alike
-/

namespace GatedNetwork

variable {α : Type} [Arithmetic α]

namespace Network

open Circuit

variable [NeutralOne α] {layers : Layers} {n : Network α} {d : Circuit α}

/-- A network answers as the picture of what it shows. -/
theorem mapM_activate_ok (h : Shows layers n d) (hd : d.Hosts layers)
    (hc : d.Closed (d.placed layers)) {inputs : List (List α)}
    (hlen : ∀ input ∈ inputs, input.length = (d.members layers.input).length) :
    ∃ n', inputs.mapM activate n = .ok (d.answers layers inputs) n' := by
  induction inputs generalizing n d with
  | nil => exact ⟨n, by rw [List.mapM_nil]; rfl⟩
  | cons input inputs ih =>
    obtain ⟨hinput, hinputs⟩ := List.forall_mem_cons.mp hlen
    obtain ⟨outputs, n₁, hactivate, hshows, houtputs⟩ := activate_ok h hd hinput
    have hw := sameWiring_forwardPass d layers input
    have hclosed : (d.forwardPass layers input).Closed
        ((d.forwardPass layers input).placed layers) := by
      rw [hw.placed]
      exact hc.of_sameWiring hw
    obtain ⟨n₂, hrest⟩ := ih hshows (hd.of_sameWiring hw) hclosed (by rwa [hw.members])
    -- no output is listed twice, so what is answered are the last activations
    have hnodup : (d.members layers.output).Nodup :=
      (List.nodup_append.mp (List.nodup_append.mp hc.nodup).2.1).2.1
    refine ⟨n₂, ?_⟩
    rw [List.mapM_cons, Op.bind_of_ok hactivate, Op.bind_of_ok hrest, houtputs hnodup,
      answers_cons hd.runs.sound hc]
    rfl

/-- Taking a snapshot succeeds and leaves what is shown. -/
theorem snapshot_ok (h : Shows layers n d) (hd : d.Runs layers) :
    ∃ n', snapshot n = .ok (d.snapshot (d.placements layers)) n' ∧ Shows layers n' d := by
  obtain ⟨hrestore, hshows⟩ := restore_ok h
  refine ⟨_, (Op.bind_of_ok hrestore).trans (Op.read_of_ok ?_), hshows⟩
  have hplaced : d.requireNeurons ((d.placements layers).map (·.neuron)) = .ok () := by
    rw [requireNeurons_eq_ok_iff, placed_eq]
    exact hd.placed_lt
  simp only [placements, h.layers_eq, hplaced]
  rfl

omit [NeutralOne α] in
/-- A snapshot can be imported, and the circuit that comes out has the picture of its origin, with its
neurons in the same places. -/
theorem toNetwork_snapshot_ok (hd : d.Hosts layers) (hc : d.SelfContained (d.placed layers))
    (identity : Identity) (settings : Settings α) :
    ∃ m layers' d', (d.snapshot (d.placements layers)).toNetwork identity settings = .ok m ∧
      Shows layers' m d' ∧ d'.Hosts layers' ∧ d'.Closed (d'.placed layers') ∧
        (d'.members layers'.input).length = (d.members layers.input).length ∧
          ∀ inputs, d'.answers layers' inputs = d.answers layers inputs := by
  have hcheck := check_snapshot d (d.placements layers)
  have hensembles := Snapshot.hasEnsemble_build (d.snapshot (d.placements layers)) identity settings
  obtain ⟨m, hm⟩ := create_ok hensembles
  obtain ⟨hshows, hhosts⟩ := shows_create (Snapshot.consistent_build hcheck identity settings)
    ((Snapshot.peopled_build _ identity settings).inhabits _) hm
  obtain ⟨hidden, hlen, horder⟩ := inOrder_snapshot d layers
  obtain ⟨hinput, hhidden, houtput, hplaced⟩ := Snapshot.placed_build horder identity settings
  have hpicture : (d.snapshot (d.placements layers)).picture = d.picture (d.placed layers) :=
    picture_snapshot hd.runs.sound hc (placed_eq d layers) hd.runs.placed_lt
  have hbuilt := Snapshot.picture_build hcheck (pairwise_connections hd.runs.sound) identity settings
  refine ⟨m, _, _, Snapshot.toNetwork_eq_ok_iff.mpr ⟨hcheck, hm⟩, hshows, hhosts, ?_, ?_, ?_⟩
  · rw [placed_bind, hplaced, ← Snapshot.size_neurons_build _ identity settings]
    exact closed_range hhosts.runs.sound
  · rw [Layers.bind, hinput, List.length_range']
  · intro inputs
    rw [answers_bind, answers, hinput, hhidden, houtput, hplaced, hbuilt, hpicture, List.length_range',
      List.length_range', List.length_range', hlen]
    rfl

/-- A network and the one imported from its snapshot answer all inputs alike, if the neurons of the
network are self-contained. -/
theorem snapshot_toNetwork_activate (h : n.Reachable)
    (hc : n.restored.SelfContained (n.restored.placed n.layers)) (identity : Identity)
    (settings : Settings α) :
    ∃ s n', snapshot n = .ok s n' ∧ ∃ m, s.toNetwork identity settings = .ok m ∧
      ∀ inputs : List (List α), (∀ input ∈ inputs, input.length = n.inputSize) →
        ∃ outputs, (inputs.mapM activate).answer n = .ok outputs ∧
          (inputs.mapM activate).answer n' = .ok outputs ∧
          (inputs.mapM activate).answer m = .ok outputs := by
  obtain ⟨layers, d, hshows, hd⟩ := shows_of_reachable h
  rw [hshows.restored, hshows.layers_eq] at hc
  obtain ⟨n', hsnapshot, hshows'⟩ := snapshot_ok hshows hd.runs
  obtain ⟨m, layers', d', hm, hshowsm, hd', hclosed', hinput, hanswers⟩ :=
    toNetwork_snapshot_ok hd hc identity settings
  have hclosed := hc.closed hd.runs.placed_lt
  refine ⟨_, n', hsnapshot, m, hm, fun inputs hlen => ⟨d.answers layers inputs, ?_, ?_, ?_⟩⟩
  · obtain ⟨_, hn⟩ := mapM_activate_ok hshows hd hclosed (hshows.inputSize ▸ hlen)
    exact Op.answer_of_ok hn
  · obtain ⟨_, hn'⟩ := mapM_activate_ok hshows' hd hclosed (hshows.inputSize ▸ hlen)
    exact Op.answer_of_ok hn'
  · rw [hshows.inputSize, ← hinput] at hlen
    obtain ⟨_, hm⟩ := mapM_activate_ok hshowsm hd' hclosed' hlen
    rw [← hanswers]
    exact Op.answer_of_ok hm

/-- A circuit with a loop of weight zero that is gated. -/
def tangle : Circuit Int :=
  performAll (.empty 0 ⟨7, 2, 1⟩)
    [.addNeuron, .addNeuron, .addNeuron, .addNeuron, .addNeuron, .connect 3 0 (some 2),
      .connect 0 1 (some 3), .connect 2 1 (some 1), .connect 1 0 (some 1), .connect 3 2 none,
      .connect 1 4 none, .connect 0 0 (some 1), .gateLink 1 5, .gateLink 1 2, .wrap [3], .wrap [],
      .wrap [0, 2], .wrap [1]]

/-- A network over it whose layers list later neurons first, have an empty one among them and leave a
neuron out. It has taken a compiled pass. -/
def tangled : Network Int :=
  (Request.activate [5]).perform.final ⟨tangle, (Layers.unbound 0 [1, 2] 3).bind 0, .pending⟩

theorem snapshot_toNetwork_activate_tangled :
    tangled.isCompiled = true ∧ tangled.Reachable ∧
      tangled.restored.SelfContained (tangled.restored.placed tangled.layers) ∧
      ∃ s n', snapshot tangled = .ok s n' ∧ ∃ m, s.toNetwork 9 ⟨1, 3, 0⟩ = .ok m ∧
        ∀ inputs : List (List Int), (∀ input ∈ inputs, input.length = tangled.inputSize) →
          ∃ outputs, (inputs.mapM activate).answer tangled = .ok outputs ∧
            (inputs.mapM activate).answer n' = .ok outputs ∧
            (inputs.mapM activate).answer m = .ok outputs := by
  have hconsistent : tangle.Consistent := consistent_performAll (consistent_empty 0 ⟨7, 2, 1⟩) _
  have hinhabits : tangle.Inhabits (.unbound 0 [1, 2] 3) := by
    unfold Inhabits
    decide +kernel
  have hreachable : tangled.Reachable := .request _ (.create hconsistent hinhabits rfl)
  have hcontained : tangled.restored.SelfContained (tangled.restored.placed tangled.layers) := by
    decide +kernel
  exact ⟨by decide +kernel, hreachable, hcontained,
    snapshot_toNetwork_activate hreachable hcontained 9 ⟨1, 3, 0⟩⟩

end Network

end GatedNetwork
