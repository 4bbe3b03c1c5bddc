import GatedNetwork.Proofs.Network.Contents
import GatedNetwork.Proofs.Network.Duplicate
import GatedNetwork.Proofs.Snapshot.Document

/-!
# Networks written and read again

Writing a network always succeeds. Its text can be read again if all numbers in it are finite, and what
is read has the layers, the transfer functions, the links and the gaters of the network. A number that
is not finite is written as `null`, and then the text is refused. This holds in every lawful format of
numbers.

* `Network.Rebuilds` — what comes back
* `ofJson_toJson` — when it comes back
* `not_ofJson_toJson` — a sum that overflows, and the text that cannot be read
-/

namespace GatedNetwork

/-! ## Other numbers in the rows -/

namespace Snapshot

variable {α β : Type} {s : Snapshot α} {f : α → β} {i o : Nat} {hidden : List Nat}

theorem rowLayers_map : (s.map f).rowLayers = s.rowLayers := by
  rw [rowLayers, map, List.map_map]
  rfl

theorem hiddenIndices_map : (s.map f).hiddenIndices = s.hiddenIndices := by
  refine IdSet.ext fun k => ?_
  rw [mem_hiddenIndices, mem_hiddenIndices, rowLayers_map]

theorem InOrder.map (h : s.InOrder i hidden o) : (s.map f).InOrder i hidden o :=
  ⟨rowLayers_map.trans h.layers, h.ascending⟩

theorem check_map [Arithmetic α] [Arithmetic β] (h : s.check = .ok ()) :
    (s.map f).check = .ok () := by
  rw [check_eq_ok_iff] at h ⊢
  intro _ hrow
  obtain ⟨r, hr, rfl⟩ := List.mem_map.mp hrow
  have hinside := h r hr
  rw [isInside_iff] at hinside ⊢
  rwa [map, List.length_map]

theorem ends_map (h : s.connections.Pairwise fun r r' => ¬r.SameEnds r') :
    (s.map f).connections.Pairwise fun r r' => ¬r.SameEnds r' :=
  List.pairwise_map.mpr h

end Snapshot

namespace Network

open Circuit

/-- Networks of no more neurons and hidden layers than a machine word has values. -/
structure FitsWords {α : Type} [Arithmetic α] (n : Network α) : Prop where
  neurons : n.placements.length ≤ Json.Numeral.maxSignificand + 1
  hidden : n.layers.hidden.length ≤ Json.Numeral.maxSignificand + 1

/-- What the network that is read has in common with the one that was written: the layers, except hidden
ones without neurons, the transfer functions, and a link for each row of a connection, with its source,
its target and its gater. Its neurons are numbered in canonical order, and so the ends of a row are the
neurons that it names. -/
structure Rebuilds (format : Snapshot.NumberFormat) (m n : Network Double) (s : Snapshot Double) :
    Prop where
  inputSize : m.inputSize = n.inputSize
  hiddenSizes : m.hiddenSizes = n.hiddenSizes.filter (· != 0)
  outputSize : m.outputSize = n.outputSize
  inOrder : m.placements.map (·.neuron) = List.range n.placements.length
  transfers : m.transfers = n.transfers
  links : ∀ r ∈ s.connections, ∃ l < m.circuit.links.size,
    m.circuit.link l = (r.map (Snapshot.reread format)).link

namespace Valid

section Exported

variable {α : Type} [Arithmetic α] {n : Network α}

theorem length_exported (h : n.Valid) : n.exported.neurons.length = n.placements.length := by
  rw [exported, Circuit.snapshot, List.length_map, h.sameWiring_restored.placements]
  rfl

theorem count_hidden_exported (h : n.Valid) (k : Nat) :
    n.exported.rowLayers.count (.hidden k) = n.hiddenSizes[k]?.getD 0 := by
  rw [exported, count_hidden_snapshot]
  simp only [h.sameWiring_restored.members]
  rfl

theorem transfers_exported (h : n.Valid) :
    n.exported.neurons.map (·.transfer) = n.transfers := by
  rw [exported, Circuit.snapshot, List.map_map, h.sameWiring_restored.placements]
  exact List.map_congr_left fun p _ => h.transfer_restored p.neuron

/-- The rows of a network are in order, and as many for each layer as it has neurons. -/
theorem inOrder_exported (h : n.Valid) :
    ∃ hidden, n.exported.InOrder n.inputSize hidden n.outputSize := by
  obtain ⟨hidden, -, horder⟩ := inOrder_snapshot n.restored n.layers
  rw [h.sameWiring_restored.members, h.sameWiring_restored.members] at horder
  exact ⟨hidden, horder⟩

end Exported

variable {n m : Network Double} {format : Snapshot.NumberFormat}

theorem fitsWords_exported (h : n.Valid) (hwords : n.FitsWords) : n.exported.FitsWords where
  neurons := h.length_exported.trans_le hwords.neurons
  hidden := by
    intro r hr k hk
    have hpos : 0 < n.exported.rowLayers.count (.hidden k) :=
      List.count_pos_iff.mpr (List.mem_map.mpr ⟨r, hr, hk⟩)
    rw [h.count_hidden_exported] at hpos
    by_contra hlarge
    have hlen := hwords.hidden
    rw [List.getElem?_eq_none (by rw [hiddenSizes, List.length_map]; omega)] at hpos
    exact absurd hpos (Nat.lt_irrefl 0)

/-- Writing succeeds. -/
theorem toJsonBy_ok (h : n.Valid) :
    toJsonBy format n = .ok (n.exported.writeBy format) { n with circuit := n.restored } :=
  Op.bind_of_ok h.snapshot_ok

/-- A text with a `null` for a number is refused. -/
theorem ofJsonBy_error (h : n.Valid) (hformat : format.Lawful) (hwords : n.FitsWords)
    (hinfinite : n.exported.isFinite = false) (identity : Identity) (settings : Settings Double) :
    ofJsonBy format (n.exported.writeBy format) identity settings =
      .error (.snapshot .unreadable) := by
  rw [ofJsonBy, Snapshot.readBy_writeBy hformat (h.fitsWords_exported hwords) n.check_exported,
    hinfinite]
  rfl

/-- A network is built from the text of finite numbers. -/
theorem ofJsonBy_ok (h : n.Valid) (hformat : format.Lawful) (hwords : n.FitsWords)
    (hfinite : n.exported.isFinite = true) (identity : Identity) (settings : Settings Double) :
    ∃ m, ofJsonBy format (n.exported.writeBy format) identity settings = .ok m ∧
      m.Holds (n.exported.map (Snapshot.reread format)) := by
  obtain ⟨m, hm⟩ := create_ok
    (Snapshot.hasEnsemble_build (n.exported.map (Snapshot.reread format)) identity settings)
  have himport : (n.exported.map (Snapshot.reread format)).toNetwork identity settings = .ok m :=
    Snapshot.toNetwork_eq_ok_iff.mpr ⟨Snapshot.check_map n.check_exported, hm⟩
  obtain ⟨hidden, horder⟩ := h.inOrder_exported
  refine ⟨m, ?_, Snapshot.holds_of_toNetwork horder.map (Snapshot.ends_map h.ends_exported) himport⟩
  rw [ofJsonBy, Snapshot.readBy_writeBy hformat (h.fitsWords_exported hwords) n.check_exported,
    hfinite]
  exact himport

/-- A network that has everything of the rows is like the one they come from. -/
theorem rebuilds (h : n.Valid) (hm : m.Holds (n.exported.map (Snapshot.reread format))) :
    Rebuilds format m n n.exported := by
  obtain ⟨hidden, horder⟩ := h.inOrder_exported
  refine ⟨?_, ?_, ?_, ?_, ?_, fun r hr => ?_⟩
  · rw [hm.inputSize, Snapshot.rowLayers_map, horder.count_input]
  · rw [hm.hiddenSizes, Snapshot.rowLayers_map, Snapshot.hiddenIndices_map]
    exact Snapshot.map_count_hiddenIndices h.count_hidden_exported
  · rw [hm.outputSize, Snapshot.rowLayers_map, horder.count_output]
  · rw [hm.inOrder, Snapshot.map, List.length_map, h.length_exported]
  · rw [hm.transfers, Snapshot.map, List.map_map, ← h.transfers_exported]
    rfl
  · exact hm.links _ (List.mem_map_of_mem hr)

end Valid

/-- A network can be written at any time, in any lawful format of numbers. The text can be read if all
numbers of its snapshot are finite, whatever the settings are, and then it gives the same layers, transfer
functions, links and gaters. If some number is not finite, the text is refused. -/
theorem ofJson_toJson {format : Snapshot.NumberFormat} (hformat : format.Lawful)
    {n : Network Double} (h : n.Reachable) (hwords : n.FitsWords) :
    ∃ s, snapshot n = .ok s { n with circuit := n.restored } ∧
      toJsonBy format n = .ok (s.writeBy format) { n with circuit := n.restored } ∧
      (s.isFinite = true → ∀ identity settings,
        ∃ m, ofJsonBy format (s.writeBy format) identity settings = .ok m ∧
          Rebuilds format m n s) ∧
      (s.isFinite = false → ∀ identity settings,
        ofJsonBy format (s.writeBy format) identity settings = .error (.snapshot .unreadable)) := by
  have hvalid := valid_of_reachable h
  refine ⟨n.exported, hvalid.snapshot_ok, hvalid.toJsonBy_ok, fun hfinite identity settings => ?_,
    fun hinfinite => hvalid.ofJsonBy_error hformat hwords hinfinite⟩
  obtain ⟨m, hm, hholds⟩ := hvalid.ofJsonBy_ok hformat hwords hfinite identity settings
  exact ⟨m, hm, hvalid.rebuilds hholds⟩

/-- Two to the power 664. Its square is beyond all doubles. -/
def immense : Double := ⟨0x6970000000000000⟩

/-- Two linked neurons, the second of which passes on its sum, and an empty ensemble between them. -/
def amplifier : Network Double :=
  let c := performAll (.empty 0 ⟨7, .tenth, .tenth⟩)
    [.addEnsemble 1, .addEnsemble 0, .addEnsemble 1, .configure 2 (some .identity) none,
      .connect 0 1 (some immense)]
  ⟨c, (Layers.unbound 0 [1] 2).bind c.identity, .pending⟩

theorem reachable_amplifier : amplifier.Reachable :=
  reachable_of_requests (by decide +kernel) (by decide +kernel)

theorem ofJson_toJson_amplifier :
    Snapshot.NumberFormat.standard.Lawful ∧ amplifier.Reachable ∧ amplifier.FitsWords ∧
      amplifier.exported.isFinite = true ∧
      ∃ s, snapshot amplifier = .ok s { amplifier with circuit := amplifier.restored } ∧
        toJson amplifier = .ok s.write { amplifier with circuit := amplifier.restored } ∧
        (s.isFinite = true → ∀ identity settings,
          ∃ m, ofJson s.write identity settings = .ok m ∧ Rebuilds .standard m amplifier s) ∧
        (s.isFinite = false → ∀ identity settings,
          ofJson s.write identity settings = .error (.snapshot .unreadable)) :=
  have hwords : amplifier.FitsWords := ⟨by decide +kernel, by decide +kernel⟩
  ⟨Snapshot.lawful_standard, reachable_amplifier, hwords, by decide +kernel,
    ofJson_toJson Snapshot.lawful_standard reachable_amplifier hwords⟩

/-- The network after a pass that overflows. -/
def overflowing : Network Double := (Request.activate [immense]).perform.final amplifier

/-- Weight and input are finite, but their product is not: the network is written all the same, and its
text cannot be read. -/
theorem not_ofJson_toJson :
    overflowing.Reachable ∧ immense.isFinite = true ∧ overflowing.exported.isFinite = false ∧
      ∃ text, toJson overflowing = .ok text { overflowing with circuit := overflowing.restored } ∧
        ∀ identity settings, ofJson text identity settings = .error (.snapshot .unreadable) := by
  have hreachable : overflowing.Reachable := .request _ reachable_amplifier
  have hvalid := valid_of_reachable hreachable
  have hinfinite : overflowing.exported.isFinite = false := by decide +kernel
  have hwords : overflowing.FitsWords := ⟨by decide +kernel, by decide +kernel⟩
  exact ⟨hreachable, by decide, hinfinite, _, hvalid.toJsonBy_ok,
    hvalid.ofJsonBy_error Snapshot.lawful_standard hwords hinfinite⟩

end Network

end GatedNetwork
