import GatedNetwork.Proofs.Network.Valid
import GatedNetwork.Proofs.Snapshot.Reexport

/-!
# Snapshots of duplicates

Duplicating a network succeeds, and a snapshot of the duplicate is the normal form of a snapshot of the
network: hidden layers are counted without gaps, no row of a loop counts as absent, and everything
else is the same. A duplicate of a duplicate is not told apart from it by snapshots.

* `Valid.toNetwork_exported` — importing a snapshot, and taking one of what comes out
* `snapshot_duplicate` — what comes back, row by row
* `snapshot_duplicate_twice` — duplicating again changes nothing any more
-/

namespace GatedNetwork

variable {α : Type} [Arithmetic α]

namespace Network

open Circuit

variable {n : Network α}

/-- What a snapshot of a network is. -/
def exported (n : Network α) : Snapshot α := n.restored.snapshot (n.restored.placements n.layers)

omit [Arithmetic α] in
/-- Without a live program, restoring leaves a network as it is. -/
theorem withCircuit_restored (hn : n.isCompiled = false) : { n with circuit := n.restored } = n := by
  rw [restored_eq hn]

/-- A new network exports its circuit. -/
theorem exported_create {c : Circuit α} {layers : Layers} (hn : Network.create c layers = .ok n) :
    n.isCompiled = false ∧ n.exported = c.snapshot (c.placements layers) := by
  obtain ⟨-, rfl⟩ := create_eq_ok hn
  exact ⟨rfl, rfl⟩

theorem check_exported (n : Network α) : n.exported.check = .ok () := check_snapshot _ _

namespace Valid

theorem ends_exported (h : n.Valid) :
    n.exported.connections.Pairwise fun r r' => ¬r.SameEnds r' :=
  pairwise_connections h.hosts_restored.runs.sound

/-- A snapshot of a network can be imported, and a snapshot of what comes out is its normal form. -/
theorem toNetwork_exported [SoundZero α] (h : n.Valid) (identity : Identity)
    (settings : Settings α) :
    ∃ m, n.exported.toNetwork identity settings = .ok m ∧ m.Valid ∧ m.isCompiled = false ∧
      m.exported = n.exported.normalized := by
  obtain ⟨m, hm⟩ := create_ok (Snapshot.hasEnsemble_build n.exported identity settings)
  have himport : n.exported.toNetwork identity settings = .ok m :=
    Snapshot.toNetwork_eq_ok_iff.mpr ⟨n.check_exported, hm⟩
  obtain ⟨hmode, hexported⟩ := exported_create hm
  obtain ⟨hidden, -, horder⟩ := inOrder_snapshot n.restored n.layers
  rw [← exported] at horder
  rw [Snapshot.snapshot_build horder n.check_exported h.ends_exported] at hexported
  exact ⟨m, himport, valid_imported himport, hmode, hexported⟩

/-- Duplicating succeeds. -/
theorem duplicate_ok [SoundZero α] (h : n.Valid) (identity : Identity) :
    ∃ m, duplicate identity n = .ok m { n with circuit := n.restored } ∧ m.Valid ∧
      m.isCompiled = false ∧ m.exported = n.exported.normalized := by
  obtain ⟨m, himport, hm⟩ := h.toNetwork_exported identity n.restored.settings
  exact ⟨m, (Op.bind_of_ok h.snapshot_ok).trans (Op.read_of_ok himport), hm⟩

theorem snapshot_of_not_compiled (h : n.Valid) (hn : n.isCompiled = false) :
    snapshot n = .ok n.exported n :=
  h.snapshot_ok.trans (congrArg _ (withCircuit_restored hn))

end Valid

/-- A snapshot of a duplicate has the rows of the network it was made from, but hidden layers are counted
by rank, and rows of loops that count as absent are gone. -/
theorem snapshot_duplicate [SoundZero α] (h : n.Reachable) (identity : Identity) :
    ∃ s m s', snapshot n = .ok s { n with circuit := n.restored } ∧
      duplicate identity n = .ok m { n with circuit := n.restored } ∧ snapshot m = .ok s' m ∧
      s'.neurons = s.neurons.map (fun r => { r with layer := r.layer.compact s.hiddenIndices }) ∧
      s'.connections.filter (!·.isLoop) = s.connections.filter (!·.isLoop) ∧
      (s'.connections.filter (·.isLoop)).Perm
        (s.connections.filter fun r => r.isLoop && !r.isAbsent) ∧
      (s.Tidy → s' = s) := by
  have hvalid := valid_of_reachable h
  have hcheck := n.check_exported
  have hends := hvalid.ends_exported
  obtain ⟨m, hduplicate, hm, hmode, hexported⟩ := hvalid.duplicate_ok identity
  have hsnapshot := hm.snapshot_of_not_compiled hmode
  rw [hexported] at hsnapshot
  exact ⟨n.exported, m, _, hvalid.snapshot_ok, hduplicate, hsnapshot, rfl,
    Snapshot.others_normalized hcheck hends, Snapshot.loops_normalized hcheck hends,
    fun htidy => htidy.normalized_eq hcheck hends⟩

/-- A network with an empty hidden ensemble before another one. -/
def gapped : Network Int :=
  let c := performAll (.empty 0 ⟨7, 2, 1⟩)
    [.addEnsemble 1, .addEnsemble 0, .addEnsemble 1, .addEnsemble 1]
  ⟨c, (Layers.unbound 0 [1, 2] 3).bind c.identity, .pending⟩

/-- A network whose last neuron, with its loop, was added after a link between the others. -/
def extended : Network Int :=
  let c := performAll (.empty 0 ⟨7, 2, 1⟩)
    [.addEnsemble 1, .addEnsemble 1, .connect 0 1 (some 2), .addEnsemble 1, .connect 2 2 (some 3)]
  ⟨c, (Layers.unbound 0 [1] 2).bind c.identity, .pending⟩

/-- A network with a loop of weight zero that a neuron outside gates. -/
def overseen : Network Int :=
  let c := performAll (.empty 0 ⟨7, 2, 1⟩)
    [.addEnsemble 1, .addEnsemble 1, .addEnsemble 1, .gateLink 2 1]
  ⟨c, (Layers.unbound 0 [] 1).bind c.identity, .pending⟩

theorem snapshot_duplicate_extended :
    extended.Reachable ∧ ∃ s m s', snapshot extended = .ok s { extended with circuit := extended.restored } ∧
      duplicate 9 extended = .ok m { extended with circuit := extended.restored } ∧
      snapshot m = .ok s' m ∧
      s'.neurons = s.neurons.map (fun r => { r with layer := r.layer.compact s.hiddenIndices }) ∧
      s'.connections.filter (!·.isLoop) = s.connections.filter (!·.isLoop) ∧
      (s'.connections.filter (·.isLoop)).Perm
        (s.connections.filter fun r => r.isLoop && !r.isAbsent) ∧
      (s.Tidy → s' = s) :=
  have h : extended.Reachable := reachable_of_requests (by decide +kernel) (by decide +kernel)
  ⟨h, snapshot_duplicate h 9⟩

/-- The snapshot of a duplicate. -/
def reexport (n : Network α) (identity : Identity) : Except Error (Snapshot α) := do
  let m ← (duplicate identity).answer n
  snapshot.answer m

/-- Each of these networks lists every neuron once, but its duplicate has another snapshot: a gap closes
between hidden layers, a loop comes before the links that were older, and a loop is gone that only a
neuron outside had kept from counting as absent. -/
theorem not_snapshot_duplicate :
    (gapped.Reachable ∧ (gapped.placements.map (·.neuron)).Nodup ∧
      gapped.reexport 9 ≠ snapshot.answer gapped) ∧
    (extended.Reachable ∧ (extended.placements.map (·.neuron)).Nodup ∧
      extended.reexport 9 ≠ snapshot.answer extended) ∧
    (overseen.Reachable ∧ (overseen.placements.map (·.neuron)).Nodup ∧
      overseen.reexport 9 ≠ snapshot.answer overseen) := by
  refine ⟨⟨?_, by decide +kernel, by decide +kernel⟩, ⟨?_, by decide +kernel, by decide +kernel⟩,
    ?_, by decide +kernel, by decide +kernel⟩
  · exact reachable_of_requests (by decide +kernel) (by decide +kernel)
  · exact reachable_of_requests (by decide +kernel) (by decide +kernel)
  · exact reachable_of_requests (by decide +kernel) (by decide +kernel)

/-- A duplicate of a duplicate has the same snapshot as the first. -/
theorem snapshot_duplicate_twice [SoundZero α] (h : n.Reachable) (first second : Identity) :
    ∃ m m' s, duplicate first n = .ok m { n with circuit := n.restored } ∧
      duplicate second m = .ok m' m ∧ snapshot m = .ok s m ∧ snapshot m' = .ok s m' := by
  have hvalid := valid_of_reachable h
  obtain ⟨m, hduplicate, hm, hmode, hexported⟩ := hvalid.duplicate_ok first
  obtain ⟨m', hagain, hm', hmode', hexported'⟩ := hm.duplicate_ok second
  rw [withCircuit_restored hmode] at hagain
  have htidy := Snapshot.tidy_normalized n.check_exported hvalid.ends_exported
  rw [← hexported] at htidy
  rw [htidy.normalized_eq m.check_exported hm.ends_exported] at hexported'
  refine ⟨m, m', m.exported, hduplicate, hagain, hm.snapshot_of_not_compiled hmode, ?_⟩
  rw [← hexported']
  exact hm'.snapshot_of_not_compiled hmode'

end Network

end GatedNetwork
