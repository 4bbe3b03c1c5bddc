import GatedNetwork.Proofs.Circuit.Picture
import GatedNetwork.Proofs.Snapshot.Build

/-!
# Snapshots keep the picture

A snapshot names neurons by position, as a picture does. If the placed neurons are self-contained, the
rows of a snapshot hold all that the picture of its circuit does, in the same order.

* `Snapshot.picture` — the picture that the rows of a snapshot describe
* `Circuit.check_snapshot`, `Circuit.pairwise_connections` — the rows of a circuit can be imported, and
  no two of them have the same ends
* `Circuit.picture_snapshot` — the rows of a circuit describe its picture
-/

namespace GatedNetwork

variable {α : Type} [Arithmetic α]

/-! ## The picture of a snapshot -/

/-- A connection as its target sees it. -/
def ConnectionRow.wire (r : ConnectionRow α) : Wire α where
  source := r.source
  weight := r.weight
  gain := r.gain
  gater := r.gater

/-- The link into a neuron that sees it as this wire. -/
def Wire.link (w : Wire α) (target : NeuronId) : Link α where
  source := w.source
  target := target
  weight := w.weight
  gain := w.gain
  gater := w.gater

/-- The link of a connection whose neurons are named by position. -/
def ConnectionRow.link (r : ConnectionRow α) : Link α where
  source := r.source
  target := r.target
  weight := r.weight
  gain := r.gain
  gater := r.gater

/-- Does a row connect a neuron with itself? -/
def ConnectionRow.isLoop (r : ConnectionRow α) : Bool := r.source == r.target

/-- Do two rows have the same ends? -/
def ConnectionRow.SameEnds (r r' : ConnectionRow α) : Prop :=
  r.source = r'.source ∧ r.target = r'.target

namespace Snapshot

/-- The rows of the connections into the neuron at position `j`, its loop excepted. -/
def inputRows (rows : List (ConnectionRow α)) (j : Nat) : List (ConnectionRow α) :=
  rows.filter fun r => r.target == j && r.source != j

/-- The loop of the neuron at position `j`. One that has no row is absent. -/
def loopWire (rows : List (ConnectionRow α)) (j : Nat) : Wire α :=
  match rows.find? fun r => r.target == j && r.source == j with
  | some r => r.wire
  | none => ⟨j, 0, 1, none⟩

/-- The cell that a row describes, together with the rows of the connections. -/
def cell (rows : List (ConnectionRow α)) (j : Nat) (row : NeuronRow α) : Cell α where
  state := row.state
  activation := row.activation
  bias := row.bias
  transfer := row.transfer
  loop := loopWire rows j
  inputs := (inputRows rows j).map ConnectionRow.wire

/-- The picture that a snapshot describes. -/
def picture (s : Snapshot α) : Picture α := s.neurons.mapIdx (cell s.connections)

end Snapshot

namespace Circuit

variable {c : Circuit α} {ps : List Placement} {us : List NeuronId} {u : NeuronId} {l : LinkId}
  {j : Nat}

/-! ## Positions -/

omit [Arithmetic α] in
theorem position?_eq_some (hus : ps.map (·.neuron) = us) (hnodup : us.Nodup) (hu : u ∈ us) :
    position? ps u = some (us.idxOf u) := by
  have hlen : us.length = ps.length := by rw [← hus, List.length_map]
  have hlt := List.idxOf_lt_length_of_mem hu
  have hget : ∀ (i : Nat) (hi : i < ps.length), us[i]? = some ps[i].neuron := by
    intro i hi
    rw [← hus, List.getElem?_map, List.getElem?_eq_getElem hi, Option.map_some]
  have hself : us[us.idxOf u]? = some u := by
    rw [List.getElem?_eq_getElem hlt, List.getElem_idxOf]
  have hlast : ps.length - 1 - (ps.length - 1 - us.idxOf u) = us.idxOf u := by omega
  have hfind : ps.reverse.findIdx? (fun p => p.neuron == u) =
      some (ps.length - 1 - us.idxOf u) := by
    rw [List.findIdx?_eq_some_iff_getElem]
    refine ⟨by rw [List.length_reverse]; omega, ?_, fun k hk => ?_⟩
    · rw [List.getElem_reverse, beq_iff_eq, ← Option.some.injEq, ← hget, hlast, hself]
    · rw [List.getElem_reverse, beq_iff_eq]
      intro he
      -- the neuron would stand at two positions
      have hother := hget (ps.length - 1 - k) (by omega)
      rw [he] at hother
      have hidx := (idxOf_eq_iff hnodup hu hother).mpr rfl
      omega
  rw [position?, hfind, Option.map_some, hlast]

omit [Arithmetic α] in
theorem position?_eq_none (hus : ps.map (·.neuron) = us) (hu : u ∉ us) :
    position? ps u = none := by
  rw [position?, Option.map_eq_none_iff, List.findIdx?_eq_none_iff]
  intro p hp
  rw [beq_eq_false_iff_ne]
  rintro rfl
  rw [List.mem_reverse] at hp
  exact hu (hus ▸ List.mem_map_of_mem hp)

omit [Arithmetic α] in
/-- A position is one of the neuron. -/
theorem getElem?_of_position? (h : position? ps u = some j) : ps[j]?.map (·.neuron) = some u := by
  obtain ⟨i, hi, rfl⟩ := Option.map_eq_some_iff.mp h
  obtain ⟨hlt, he, -⟩ := List.findIdx?_eq_some_iff_getElem.mp hi
  rw [List.length_reverse] at hlt
  rw [beq_iff_eq, List.getElem_reverse] at he
  rw [List.getElem?_eq_getElem (by omega), Option.map_some, he]

/-! ## Rows of connections -/

/-- Neurons a snapshot can be taken of without loss: no one is listed twice, none has a link or a gate
of a link from outside, and a loop that counts as absent is as good as new. -/
structure SelfContained (c : Circuit α) (us : List NeuronId) : Prop where
  nodup : us.Nodup
  source_mem : ∀ l < c.links.size, (c.link l).target ∈ us → (c.link l).source ∈ us
  gater_mem : ∀ l < c.links.size, (c.link l).target ∈ us →
    ∀ g, (c.link l).gater = some g → g ∈ us
  absent : ∀ u ∈ us, (c.loopOf u).gater = none → Arithmetic.isZero (c.loopOf u).weight = true →
    (c.loopOf u).weight = 0 ∧ (c.loopOf u).gain = 1

theorem SelfContained.closed (h : c.SelfContained us)
    (hlt : ∀ u ∈ us, u < c.neurons.size) : c.Closed us :=
  ⟨h.nodup, hlt, h.source_mem, h.gater_mem⟩

instance [DecidableEq α] (c : Circuit α) (us : List NeuronId) : Decidable (c.SelfContained us) :=
  decidable_of_iff
    (us.Nodup ∧
      (∀ l < c.links.size, (c.link l).target ∈ us →
        (c.link l).source ∈ us ∧ ∀ g ∈ (c.link l).gater, g ∈ us) ∧
      ∀ u ∈ us, (c.loopOf u).gater = none → Arithmetic.isZero (c.loopOf u).weight = true →
        (c.loopOf u).weight = 0 ∧ (c.loopOf u).gain = 1)
    ⟨fun h => ⟨h.1, fun l hl ht => (h.2.1 l hl ht).1, fun l hl ht => (h.2.1 l hl ht).2, h.2.2⟩,
      fun h => ⟨h.nodup, fun l hl ht => ⟨h.source_mem l hl ht, h.gater_mem l hl ht⟩, h.absent⟩⟩

/-- A link of which no row is written. -/
def Absent (k : Link α) : Prop :=
  k.source = k.target ∧ Arithmetic.isZero k.weight = true ∧ k.gater = none

section Rows

variable (hc : c.SelfContained us) (hus : ps.map (·.neuron) = us)

include hc hus

/-- The row of a link into a placed neuron. -/
theorem connectionRow?_of_mem (hl : l < c.links.size) (ht : (c.link l).target ∈ us)
    (hpresent : ¬Absent (c.link l)) :
    connectionRow? ps (c.link l) = some
      { source := us.idxOf (c.link l).source
        target := us.idxOf (c.link l).target
        weight := (c.link l).weight
        gain := (c.link l).gain
        gater := (c.link l).gater.map us.idxOf } := by
  have hs := position?_eq_some hus hc.nodup (hc.source_mem l hl ht)
  have ht' := position?_eq_some hus hc.nodup ht
  have hg : (c.link l).gater.bind (position? ps) = (c.link l).gater.map us.idxOf := by
    cases hgater : (c.link l).gater with
    | none => rfl
    | some g => exact position?_eq_some hus hc.nodup (hc.gater_mem l hl ht g hgater)
  unfold Absent at hpresent
  simp only [connectionRow?, hs, ht', hg, bind, Option.bind_some, if_neg hpresent]

omit hc in
theorem connectionRow?_of_not_mem (ht : (c.link l).target ∉ us) :
    connectionRow? ps (c.link l) = none := by
  simp only [connectionRow?, position?_eq_none hus ht, bind, Option.bind_none,
    Option.bind_fun_none]

omit hc hus in
theorem connectionRow?_of_absent {k : Link α} (h : Absent k) : connectionRow? ps k = none := by
  unfold Absent at h
  simp only [connectionRow?, if_pos h, bind, Option.bind_fun_none]

end Rows

/-- A row names the positions of what its link joins. -/
theorem of_connectionRow? {k : Link α} {r : ConnectionRow α} (h : connectionRow? ps k = some r) :
    position? ps k.source = some r.source ∧ position? ps k.target = some r.target ∧
      r.gater = k.gater.bind (position? ps) := by
  obtain ⟨s, hs, h⟩ := Option.bind_eq_some_iff.mp h
  obtain ⟨t, ht, h⟩ := Option.bind_eq_some_iff.mp h
  split at h
  · cases h
  · cases h
    exact ⟨hs, ht, rfl⟩

/-- Every snapshot of a circuit passes the check of those that are imported. -/
theorem check_snapshot (c : Circuit α) (ps : List Placement) : (c.snapshot ps).check = .ok () := by
  rw [Snapshot.check_eq_ok_iff]
  intro r hr
  obtain ⟨k, -, hk⟩ := List.mem_filterMap.mp hr
  obtain ⟨hs, ht, hg⟩ := of_connectionRow? hk
  have hlt : ∀ {u i}, position? ps u = some i → i < (c.snapshot ps).neurons.length := by
    intro u i hi
    obtain ⟨p, hp, -⟩ := Option.map_eq_some_iff.mp (getElem?_of_position? hi)
    rw [snapshot, List.length_map]
    exact (List.getElem?_eq_some_iff.mp hp).1
  rw [Snapshot.isInside_iff]
  refine ⟨hlt hs, hlt ht, fun g hgater => ?_⟩
  rw [hg] at hgater
  obtain ⟨v, -, hv⟩ := Option.bind_eq_some_iff.mp hgater
  exact hlt hv

/-! ## The picture of the rows -/

theorem links_toList (c : Circuit α) : c.links.toList = (List.range c.links.size).map c.link := by
  refine List.ext_getElem (by simp) fun l hl _ => ?_
  simp only [Array.length_toList] at hl
  simp [link, hl]

theorem mem_connections {r : ConnectionRow α} :
    r ∈ (c.snapshot ps).connections ↔
      ∃ l < c.links.size, connectionRow? ps (c.link l) = some r := by
  rw [snapshot, links_toList, List.filterMap_map, List.mem_filterMap]
  simp only [List.mem_range, Function.comp_apply]

/-- No two rows of a circuit have the same ends. -/
theorem pairwise_connections (h : c.Sound) :
    (c.snapshot ps).connections.Pairwise fun r r' => ¬r.SameEnds r' := by
  rw [snapshot, links_toList, List.filterMap_map, List.pairwise_filterMap]
  refine List.nodup_range.imp_of_mem fun {k l} hk hl hne r hr r' hr' he => hne ?_
  obtain ⟨hs, ht, -⟩ := of_connectionRow? hr
  obtain ⟨hs', ht', -⟩ := of_connectionRow? hr'
  refine h.eq_of_ends k (List.mem_range.mp hk) l (List.mem_range.mp hl) ?_ ?_
  · have hsource := getElem?_of_position? hs
    rw [he.1, getElem?_of_position? hs'] at hsource
    exact (Option.some.inj hsource).symm
  · have htarget := getElem?_of_position? ht
    rw [he.2, getElem?_of_position? ht'] at htarget
    exact (Option.some.inj htarget).symm

/-- The links into a neuron in the order of their creation. -/
theorem inputs_toList (h : c.Sound) (hu : u < c.neurons.size) :
    (c.neuron u).inputs.toList =
      (List.range c.links.size).filter fun l => (c.link l).target == u && (c.link l).source != u := by
  refine IdSet.eq_of_mem_iff (c.neuron u).inputs.ascending ?_ fun l => ?_
  · exact List.pairwise_lt_range.filter _
  · rw [IdSet.mem_toList, h.mem_inputs u hu l, List.mem_filter, List.mem_range]
    simp

omit [Arithmetic α] in
theorem beq_idxOf {v : NeuronId} (hnodup : us.Nodup) (hv : v ∈ us) (hj : us[j]? = some u) :
    (us.idxOf v == j) = (v == u) := by
  rw [Bool.eq_iff_iff, beq_iff_eq, beq_iff_eq, idxOf_eq_iff hnodup hv hj]

section Picture

variable (h : c.Sound) (hc : c.SelfContained us) (hus : ps.map (·.neuron) = us)
  (hlt : ∀ u ∈ us, u < c.neurons.size)

include h hc hus hlt

theorem inputRows_snapshot (hj : us[j]? = some u) :
    (Snapshot.inputRows (c.snapshot ps).connections j).map ConnectionRow.wire =
      (c.neuron u).inputs.toList.map (c.wire us) := by
  have hu := List.mem_of_getElem? hj
  rw [inputs_toList h (hlt u hu), Snapshot.inputRows, snapshot, links_toList, List.filterMap_map,
    List.filter_filterMap, List.map_filterMap, ← List.filterMap_eq_map, List.filterMap_filter]
  refine List.filterMap_congr fun l hl => ?_
  have hl := List.mem_range.mp hl
  simp only [Function.comp_apply]
  by_cases ht : (c.link l).target ∈ us
  · have hs := hc.source_mem l hl ht
    by_cases habsent : Absent (c.link l)
    · rw [connectionRow?_of_absent habsent]
      have hself := habsent.1
      by_cases hut : (c.link l).target = u
      · simp [hut, hself]
      · simp [hut]
    · rw [connectionRow?_of_mem hc hus hl ht habsent]
      have htarget := beq_idxOf hc.nodup ht hj
      have hsource := beq_idxOf hc.nodup hs hj
      simp only [Option.filter, bne, htarget, hsource]
      split <;> rfl
  · rw [connectionRow?_of_not_mem hus ht]
    have hut : (c.link l).target ≠ u := fun he => ht (he ▸ hu)
    simp [hut]

theorem loopWire_snapshot (hj : us[j]? = some u) :
    Snapshot.loopWire (c.snapshot ps).connections j = c.wire us (c.neuron u).loop := by
  have hu := List.mem_of_getElem? hj
  have hloop := h.loop_lt u (hlt u hu)
  have hsource := h.loop_source u (hlt u hu)
  have htarget := h.loop_target u (hlt u hu)
  rw [loopOf] at hsource htarget
  have hidx : us.idxOf u = j := (idxOf_eq_iff hc.nodup hu hj).mpr rfl
  have hmem : (c.link (c.neuron u).loop).target ∈ us := by rwa [htarget]
  unfold Snapshot.loopWire
  split
  · next r hfind =>
    -- a row with both ends here can only be that of the loop
    obtain ⟨l, hl, hrow⟩ := mem_connections.mp (List.mem_of_find?_eq_some hfind)
    have hends := List.find?_some hfind
    have ht : (c.link l).target ∈ us := by
      by_contra ht
      rw [connectionRow?_of_not_mem hus ht] at hrow
      cases hrow
    have hpresent : ¬Absent (c.link l) := by
      intro habsent
      rw [connectionRow?_of_absent habsent] at hrow
      cases hrow
    rw [connectionRow?_of_mem hc hus hl ht hpresent] at hrow
    cases hrow
    have hs := hc.source_mem l hl ht
    simp only [Bool.and_eq_true, beq_idxOf hc.nodup ht hj, beq_idxOf hc.nodup hs hj,
      beq_iff_eq] at hends
    obtain rfl : l = (c.neuron u).loop := by
      refine h.eq_of_ends l hl _ hloop ?_ ?_
      · rw [hends.2, hsource]
      · rw [hends.1, htarget]
    rfl
  · next hnone =>
    have habsent : Absent (c.link (c.neuron u).loop) := by
      by_contra hpresent
      have hrow := connectionRow?_of_mem hc hus hloop hmem hpresent
      rw [hsource, htarget, hidx] at hrow
      rw [List.find?_eq_none] at hnone
      exact hnone _ (mem_connections.mpr ⟨_, hloop, hrow⟩) (by simp)
    obtain ⟨hweight, hgain⟩ := hc.absent u hu habsent.2.2 habsent.2.1
    rw [loopOf] at hweight hgain
    simp only [wire, hsource, hidx, hweight, hgain, habsent.2.2, Option.map_none]

/-- The rows of a circuit describe its picture. -/
theorem picture_snapshot : (c.snapshot ps).picture = c.picture us := by
  refine List.ext_getElem? fun j => ?_
  rw [Snapshot.picture, List.getElem?_mapIdx, picture, List.getElem?_map, snapshot,
    List.getElem?_map, ← hus, List.getElem?_map, hus]
  cases hp : ps[j]? with
  | none => rfl
  | some p =>
    have hj : us[j]? = some p.neuron := by rw [← hus, List.getElem?_map, hp]; rfl
    have hinputs := inputRows_snapshot h hc hus hlt hj
    have hloop := loopWire_snapshot h hc hus hlt hj
    simp only [Option.map_some, Snapshot.cell, cell, ← hinputs, ← hloop]
    rfl

end Picture

end Circuit

end GatedNetwork
