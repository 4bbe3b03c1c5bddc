import Mathlib.Data.List.Pairwise
import GatedNetwork.Proofs.Arithmetic
import GatedNetwork.Proofs.Snapshot.Import
import GatedNetwork.Proofs.Snapshot.Layering

/-!
# Snapshots of imports

A snapshot that is built into a circuit and taken again comes back in a normal form. Hidden layers are
counted anew, without gaps. Loops were made together with their neurons, so their rows come first, in
the order of the neurons, and the row of a loop that counts as absent is gone. All other rows come back
as they were, in the same order.

* `snapshot_build` — the snapshot of what was built is the normal form
* `others_normalized`, `loops_normalized` — which rows the normal form keeps
* `Tidy.normalized_eq`, `tidy_normalized` — normal forms come back exactly
-/

namespace GatedNetwork

variable {α : Type} [Arithmetic α]

/-! ## The normal form -/

/-- A layer with its index counted among the indices in use. -/
def Layer.compact (used : IdSet) : Layer → Layer
  | .input => .input
  | .hidden i => .hidden (used.toList.idxOf i)
  | .output => .output

namespace ConnectionRow

/-- Would a loop with the numbers of this row count as absent? Rows of loops that are gated from outside
only can be like this. -/
def isAbsent (r : ConnectionRow α) : Bool := r.isLoop && Arithmetic.isZero r.weight && r.gater.isNone

theorem isAbsent_iff {r : ConnectionRow α} : r.isAbsent = true ↔ Circuit.Absent r.link := by
  simp [isAbsent, isLoop, Circuit.Absent, link, and_assoc]

end ConnectionRow

namespace Snapshot

/-- The row of the loop of the neuron at position `j`, if it has one. -/
def loopRow? (rows : List (ConnectionRow α)) (j : Nat) : Option (ConnectionRow α) :=
  rows.find? fun r => r.target == j && r.source == j

/-- What comes back of a snapshot. -/
def normalized (s : Snapshot α) : Snapshot α where
  neurons := s.neurons.map fun n => { n with layer := n.layer.compact s.hiddenIndices }
  connections :=
    (List.range s.neurons.length).filterMap
        (fun j => (loopRow? s.connections j).filter (!·.isAbsent)) ++
      s.connections.filter (!·.isLoop)

open Circuit

variable {s : Snapshot α} {c : Circuit α} {ps : List Placement} {rows : List (ConnectionRow α)}
  {r : ConnectionRow α} {i j k n o : Nat} {hidden : List Nat}

/-! ## Placements of what was built -/

omit [Arithmetic α] in
/-- A hidden layer set has its index from the list of its ensembles. -/
theorem mem_hiddenFrom {first : Nat} {es : List EnsembleId} {layer : Layer} {e : EnsembleId}
    (h : (layer, e) ∈ Layers.hiddenFrom first es) :
    ∃ i, layer = .hidden (first + i) ∧ es[i]? = some e := by
  induction es generalizing first with
  | nil => cases h
  | cons x es ih =>
    rcases List.mem_cons.mp h with he | h
    · cases he
      exact ⟨0, rfl, rfl⟩
    · obtain ⟨i, rfl, hi⟩ := ih h
      exact ⟨i + 1, by rw [Nat.add_assoc, Nat.add_comm 1], hi⟩

/-- Every neuron is placed in the layer of its row, by the index that this layer got. -/
theorem layer_of_mem_placements (s : Snapshot α) (identity : Identity) (settings : Settings α)
    {p : Placement}
    (hp : p ∈ (s.build identity settings).1.placements (s.build identity settings).2) :
    ∃ layer, s.rowLayers[p.neuron]? = some layer ∧ p.layer = layer.compact s.hiddenIndices := by
  obtain ⟨hinput, hhidden, houtput⟩ := members_build s identity settings
  rw [placements_eq, hinput, houtput, List.mem_append, List.mem_append, List.mem_map,
    List.mem_map] at hp
  rcases hp with ⟨u, hu, rfl⟩ | hp | ⟨u, hu, rfl⟩
  · exact ⟨.input, mem_inLayer.mp hu, rfl⟩
  · obtain ⟨⟨layer, e⟩, he, hp⟩ := List.mem_flatMap.mp hp
    obtain ⟨u, hu, rfl⟩ := List.mem_map.mp hp
    obtain ⟨i, rfl, hi⟩ := mem_hiddenFrom he
    -- the ensemble was wrapped for the hidden index at the same place
    have hmembers := congrArg (·[i]?) hhidden
    simp only [List.getElem?_map, hi, Option.map_some] at hmembers
    obtain ⟨k, hk, hmembers⟩ := Option.map_eq_some_iff.mp hmembers.symm
    refine ⟨.hidden k, mem_inLayer.mp (hmembers ▸ hu), ?_⟩
    obtain ⟨hlt, rfl⟩ := List.getElem?_eq_some_iff.mp hk
    rw [Layer.compact, s.hiddenIndices.nodup.idxOf_getElem i hlt, Nat.zero_add]
  · exact ⟨.output, mem_inLayer.mp hu, rfl⟩

/-- Neurons are placed in the order of their rows. -/
theorem placements_build (h : s.InOrder i hidden o) (identity : Identity)
    (settings : Settings α) :
    (s.build identity settings).1.placements (s.build identity settings).2 =
      s.neurons.mapIdx fun j n => ⟨j, n.layer.compact s.hiddenIndices⟩ := by
  obtain ⟨-, -, -, hplaced⟩ := placed_build h identity settings
  rw [← placed_eq] at hplaced
  refine List.ext_getElem? fun j => ?_
  have hneuron := congrArg (·[j]?) hplaced
  simp only [List.getElem?_map] at hneuron
  rw [List.getElem?_mapIdx]
  cases hp : ((s.build identity settings).1.placements (s.build identity settings).2)[j]? with
  | none =>
    rw [hp, Option.map_none, eq_comm, List.getElem?_eq_none_iff, List.length_range] at hneuron
    rw [List.getElem?_eq_none hneuron, Option.map_none]
  | some p =>
    rw [hp, Option.map_some, eq_comm, List.getElem?_eq_some_iff] at hneuron
    obtain ⟨hlt, hj⟩ := hneuron
    rw [List.getElem_range] at hj
    obtain ⟨layer, hlayer, hcompact⟩ :=
      layer_of_mem_placements s identity settings (List.mem_of_getElem? hp)
    rw [← hj, rowLayers, List.getElem?_map] at hlayer
    obtain ⟨n, hn, rfl⟩ := Option.map_eq_some_iff.mp hlayer
    rw [hn, Option.map_some, ← hcompact]
    obtain ⟨_, _⟩ := p
    cases hj
    rfl

/-! ## Rows of what was built -/

/-- The row of a link that a row describes is that row. -/
theorem connectionRow?_link (hps : ps.map (·.neuron) = List.range n)
    (hr : isInside n r = true) :
    connectionRow? ps r.link = if r.isAbsent then none else some r := by
  have hposition : ∀ u < n, position? ps u = some u := by
    intro u hu
    rw [position?_eq_some hps List.nodup_range (List.mem_range.mpr hu), idxOf_range hu]
  obtain ⟨hs, ht, hg⟩ := isInside_iff.mp hr
  have hgater : r.gater.bind (position? ps) = r.gater := by
    cases hgater : r.gater with
    | none => rfl
    | some g => exact hposition g (hg g hgater)
  by_cases habsent : r.isAbsent = true
  · rw [if_pos habsent, connectionRow?_of_absent (ConnectionRow.isAbsent_iff.mp habsent)]
  · rw [if_neg habsent]
    rw [ConnectionRow.isAbsent_iff, Absent] at habsent
    simp only [connectionRow?, ConnectionRow.link, hposition _ hs, hposition _ ht, hgater, bind,
      Option.bind_some] at habsent ⊢
    rw [if_neg habsent]

/-- The row of a loop that has the numbers of its row, or of a new one. -/
theorem connectionRow?_loopWire [SoundZero α] (hps : ps.map (·.neuron) = List.range n)
    (hrows : ∀ r ∈ rows, isInside n r = true) (j : Nat) :
    connectionRow? ps ((loopWire rows j).link j) =
      (loopRow? rows j).filter (!·.isAbsent) := by
  unfold loopWire
  rw [← loopRow?]
  cases hr : loopRow? rows j with
  | none => exact connectionRow?_of_absent ⟨rfl, SoundZero.isZero_zero, rfl⟩
  | some r =>
    have hends := List.find?_some hr
    rw [Bool.and_eq_true, beq_iff_eq] at hends
    show connectionRow? ps (r.wire.link j) = _
    rw [← hends.1]
    show connectionRow? ps r.link = _
    rw [connectionRow?_link hps (hrows r (List.mem_of_find?_eq_some hr)), Option.filter]
    cases r.isAbsent <;> rfl

/-- The snapshot of a circuit built from rows in order is their normal form. -/
theorem snapshot_build [SoundZero α] (horder : s.InOrder i hidden o) (hcheck : s.check = .ok ())
    (hends : s.connections.Pairwise fun r r' => ¬r.SameEnds r') (identity : Identity)
    (settings : Settings α) :
    (s.build identity settings).1.snapshot
      ((s.build identity settings).1.placements (s.build identity settings).2) =
        s.normalized := by
  have hdepicts := depicts_build hcheck hends identity settings
  have hplaced := (placed_build horder identity settings).2.2.2
  rw [← placed_eq] at hplaced
  rw [placements_build horder] at hplaced ⊢
  rw [Circuit.snapshot, normalized]
  congr 1
  · refine List.ext_getElem? fun j => ?_
    rw [List.getElem?_map, List.getElem?_mapIdx, List.getElem?_map]
    cases hn : s.neurons[j]? with
    | none => rfl
    | some n =>
      rw [Option.map_some, Option.map_some, hdepicts.neuronRow hn]
      rfl
  · rw [hdepicts.links_eq, List.filterMap_append, List.filterMap_map, List.filterMap_map]
    congr 1
    · exact List.filterMap_congr fun j _ =>
        connectionRow?_loopWire hplaced (check_eq_ok_iff.mp hcheck) j
    · refine (List.filterMap_congr fun r hr => ?_).trans List.filterMap_some
      obtain ⟨hmem, hother⟩ := List.mem_filter.mp hr
      rw [Bool.not_eq_true', ConnectionRow.isLoop] at hother
      rw [Function.comp_apply, connectionRow?_link hplaced (check_eq_ok_iff.mp hcheck r hmem),
        if_neg (by simp [ConnectionRow.isAbsent, ConnectionRow.isLoop, hother])]

/-! ## What the normal form keeps -/

omit [Arithmetic α] in
theorem loopRow?_eq_some (hends : rows.Pairwise fun r r' => ¬r.SameEnds r') :
    loopRow? rows j = some r ↔ r ∈ rows ∧ r.isLoop = true ∧ r.target = j := by
  unfold loopRow?
  constructor
  · intro hr
    have hj := List.find?_some hr
    rw [Bool.and_eq_true, beq_iff_eq, beq_iff_eq] at hj
    exact ⟨List.mem_of_find?_eq_some hr, by simp [ConnectionRow.isLoop, hj], hj.1⟩
  · rintro ⟨hr, hself, rfl⟩
    rw [ConnectionRow.isLoop, beq_iff_eq] at hself
    cases hfind : rows.find? fun x => x.target == r.target && x.source == r.target with
    | none =>
      rw [List.find?_eq_none] at hfind
      exact absurd (by simp [hself]) (hfind r hr)
    | some x =>
      have hx := List.find?_some hfind
      rw [Bool.and_eq_true, beq_iff_eq, beq_iff_eq] at hx
      -- two rows of one loop would have the same ends
      rw [Option.some.injEq]
      by_contra hne
      have : Std.Symm fun r r' : ConnectionRow α => ¬r.SameEnds r' :=
        ⟨fun _ _ h he => h ⟨he.1.symm, he.2.symm⟩⟩
      exact hends.forall (List.mem_of_find?_eq_some hfind) hr hne ⟨hx.2.trans hself.symm, hx.1⟩

/-- The rows of loops in a normal form. -/
theorem mem_loopRows (hcheck : s.check = .ok ())
    (hends : s.connections.Pairwise fun r r' => ¬r.SameEnds r') :
    (r ∈ (List.range s.neurons.length).filterMap
        fun j => (loopRow? s.connections j).filter (!·.isAbsent)) ↔
      r ∈ s.connections ∧ r.isLoop = true ∧ r.isAbsent = false := by
  simp only [List.mem_filterMap, List.mem_range, Option.filter_eq_some_iff,
    loopRow?_eq_some hends, Bool.not_eq_true']
  constructor
  · rintro ⟨j, -, ⟨hr, hself, -⟩, hpresent⟩
    exact ⟨hr, hself, hpresent⟩
  · rintro ⟨hr, hself, hpresent⟩
    exact ⟨r.target, (isInside_iff.mp (check_eq_ok_iff.mp hcheck r hr)).2.1, ⟨hr, hself, rfl⟩,
      hpresent⟩

/-- They stand in the order of the neurons. -/
theorem ascending_loopRows (s : Snapshot α) :
    ((List.range s.neurons.length).filterMap
        fun j => (loopRow? s.connections j).filter (!·.isAbsent)).Pairwise
      (·.target < ·.target) := by
  have htarget : ∀ {j r}, (loopRow? s.connections j).filter (!·.isAbsent) = some r →
      r.target = j := by
    intro j r hr
    have hj := List.find?_some (Option.filter_eq_some_iff.mp hr).1
    rw [Bool.and_eq_true, beq_iff_eq] at hj
    exact hj.1
  rw [List.pairwise_filterMap]
  refine List.pairwise_lt_range.imp fun {j k} hjk r hr r' hr' => ?_
  rw [htarget hr, htarget hr']
  exact hjk

/-- The rows of all links but loops come back in the same order. -/
theorem others_normalized (hcheck : s.check = .ok ())
    (hends : s.connections.Pairwise fun r r' => ¬r.SameEnds r') :
    s.normalized.connections.filter (!·.isLoop) = s.connections.filter (!·.isLoop) := by
  rw [normalized, List.filter_append, List.filter_filter, List.filter_eq_nil_iff.mpr,
    List.nil_append]
  · simp
  · intro r hr
    simp [((mem_loopRows hcheck hends).mp hr).2.1]

theorem loops_normalized_eq (hcheck : s.check = .ok ())
    (hends : s.connections.Pairwise fun r r' => ¬r.SameEnds r') :
    s.normalized.connections.filter (·.isLoop) =
      (List.range s.neurons.length).filterMap
        fun j => (loopRow? s.connections j).filter (!·.isAbsent) := by
  rw [normalized, List.filter_append, List.filter_filter, List.filter_eq_self.mpr,
    List.filter_eq_nil_iff.mpr, List.append_nil]
  · simp
  · exact fun r hr => ((mem_loopRows hcheck hends).mp hr).2.1

omit [Arithmetic α] in
theorem nodup_of_ascending (h : rows.Pairwise (·.target < ·.target)) : rows.Nodup :=
  h.imp fun hlt he => Nat.ne_of_lt hlt (congrArg _ he)

/-- The rows of loops come back, save those that count as absent. -/
theorem loops_normalized (hcheck : s.check = .ok ())
    (hends : s.connections.Pairwise fun r r' => ¬r.SameEnds r') :
    (s.normalized.connections.filter (·.isLoop)).Perm
      (s.connections.filter fun r => r.isLoop && !r.isAbsent) := by
  rw [loops_normalized_eq hcheck hends]
  refine (List.perm_ext_iff_of_nodup ?_ ?_).mpr fun r => ?_
  · exact nodup_of_ascending (ascending_loopRows s)
  · exact (hends.imp fun {a b} hne (he : a = b) => hne (he ▸ ⟨rfl, rfl⟩)).filter _
  · rw [mem_loopRows hcheck hends, List.mem_filter, Bool.and_eq_true, Bool.not_eq_true']

/-! ## Normal forms -/

/-- A snapshot in normal form: hidden layers are counted without gaps, the rows of loops come first and
in the order of the neurons, and none counts as absent. -/
structure Tidy (s : Snapshot α) : Prop where
  hidden : s.hiddenIndices.toList = List.range s.hiddenIndices.toList.length
  loopsFirst : s.connections = s.connections.filter (·.isLoop) ++ s.connections.filter (!·.isLoop)
  loopsAscending : (s.connections.filter (·.isLoop)).Pairwise (·.target < ·.target)
  present : ∀ r ∈ s.connections, r.isAbsent = false

theorem Tidy.normalized_eq (h : s.Tidy) (hcheck : s.check = .ok ())
    (hends : s.connections.Pairwise fun r r' => ¬r.SameEnds r') : s.normalized = s := by
  have hneurons : s.neurons.map (fun n => { n with layer := n.layer.compact s.hiddenIndices }) =
      s.neurons := by
    refine (List.map_congr_left fun n hn => ?_).trans (List.map_id _)
    have hlayer : n.layer.compact s.hiddenIndices = n.layer := by
      cases hl : n.layer with
      | input => rfl
      | output => rfl
      | hidden k =>
        have hk : k ∈ s.hiddenIndices.toList :=
          mem_hiddenIndices.mpr (List.mem_map.mpr ⟨n, hn, hl⟩)
        rw [Layer.compact]
        rw [h.hidden] at hk ⊢
        rw [idxOf_range (List.mem_range.mp hk)]
    rw [hlayer]
    rfl
  have hloops : (List.range s.neurons.length).filterMap
      (fun j => (loopRow? s.connections j).filter (!·.isAbsent)) =
        s.connections.filter (·.isLoop) := by
    refine List.Perm.eq_of_pairwise (fun r r' _ _ hlt hgt => absurd hlt (Nat.lt_asymm hgt))
      (ascending_loopRows s) h.loopsAscending ?_
    refine (List.perm_ext_iff_of_nodup ?_ ?_).mpr fun r => ?_
    · exact nodup_of_ascending (ascending_loopRows s)
    · exact nodup_of_ascending h.loopsAscending
    · rw [mem_loopRows hcheck hends, List.mem_filter]
      exact ⟨fun hr => ⟨hr.1, hr.2.1⟩, fun hr => ⟨hr.1, hr.2, h.present r hr.1⟩⟩
  have hconnections := h.loopsFirst
  obtain ⟨neurons, connections⟩ := s
  rw [normalized, hneurons, hloops, ← hconnections]

omit [Arithmetic α] in
theorem Layer.compact_eq_hidden_iff {used : IdSet} {layer : Layer} :
    layer.compact used = .hidden i ↔ ∃ k, layer = .hidden k ∧ used.toList.idxOf k = i := by
  cases layer <;> simp [Layer.compact]

theorem toList_hiddenIndices_normalized (s : Snapshot α) :
    s.normalized.hiddenIndices.toList = List.range s.hiddenIndices.toList.length := by
  have hlayers : s.normalized.rowLayers = s.rowLayers.map (·.compact s.hiddenIndices) := by
    simp [rowLayers, normalized]
  refine IdSet.eq_of_mem_iff s.normalized.hiddenIndices.ascending List.pairwise_lt_range fun i => ?_
  rw [IdSet.mem_toList, mem_hiddenIndices, hlayers, List.mem_map, List.mem_range]
  constructor
  · rintro ⟨layer, hlayer, he⟩
    obtain ⟨k, rfl, rfl⟩ := Layer.compact_eq_hidden_iff.mp he
    exact List.idxOf_lt_length_of_mem (mem_hiddenIndices.mpr hlayer)
  · intro hi
    refine ⟨_, mem_hiddenIndices.mp (List.getElem_mem hi), ?_⟩
    rw [Layer.compact, s.hiddenIndices.nodup.idxOf_getElem i hi]

theorem tidy_normalized (hcheck : s.check = .ok ())
    (hends : s.connections.Pairwise fun r r' => ¬r.SameEnds r') : s.normalized.Tidy where
  hidden := by
    rw [toList_hiddenIndices_normalized, List.length_range]
  loopsFirst := by
    rw [others_normalized hcheck hends, loops_normalized_eq hcheck hends]
    rfl
  loopsAscending := by
    rw [loops_normalized_eq hcheck hends]
    exact ascending_loopRows s
  present := by
    intro r hr
    rcases List.mem_append.mp hr with hr | hr
    · exact ((mem_loopRows hcheck hends).mp hr).2.2
    · have hother := (List.mem_filter.mp hr).2
      rw [Bool.not_eq_true'] at hother
      rw [ConnectionRow.isAbsent, hother, Bool.false_and, Bool.false_and]

end Snapshot

end GatedNetwork
