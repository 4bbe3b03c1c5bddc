import GatedNetwork.Proofs.Circuit.Charted

/-!
# Gating a projection

Gating a projection by an ensemble gives each of its links a gater: the member of the ensemble at the
place of the link. The place is that of the end of the link among the neurons on the gated side, or that
of the link itself in the list of the projection. A link may have had another gater, which loses it, and
loses its traces for the gated neuron with the last link into that neuron.

* `Charted.exists_gatePlace`, `GatePlace.unique` — a link of a projection has one place
* `link_gateAll` — carrying a plan out changes the gaters of the links in the plan, and nothing else
* `find?_extended_gateAll` — a neuron that is no gater of the plan keeps each of its traces or loses it
* `gate_assigns` — all that gating a projection does
-/

namespace GatedNetwork

variable {α : Type} [Arithmetic α]

namespace Circuit

variable {c d : Circuit α} {u v : NeuronId} {l : LinkId}

/-! ## Places -/

/-- Where no neuron and no link is listed twice, a link has one place. -/
theorem GatePlace.unique {p : Projection} {side : GateSide} {i j : Nat}
    (hs : (c.members p.source).Nodup) (ht : (c.members p.target).Nodup) (hl : p.links.Nodup)
    (hi : c.GatePlace p side l i) (hj : c.GatePlace p side l j) : i = j := by
  cases side with
  | targets => exact (List.getElem?_inj (List.getElem?_eq_some_iff.mp hi).1 ht).mp (hi.trans hj.symm)
  | sources => exact (List.getElem?_inj (List.getElem?_eq_some_iff.mp hi).1 hs).mp (hi.trans hj.symm)
  | links => exact (List.getElem?_inj (List.getElem?_eq_some_iff.mp hi).1 hl).mp (hi.trans hj.symm)

/-- Every link of a projection has a place, for it is the link of a pair of members. -/
theorem Charted.exists_gatePlace (h : c.Charted) {p : ProjectionId} (hp : p < c.projections.size)
    (side : GateSide) (hl : l ∈ (c.projection p).links) :
    ∃ i, c.GatePlace (c.projection p) side l i := by
  have hpair : c.ends l ∈ c.pairsOf (c.projection p) := by
    rw [← h p hp]
    exact List.mem_map_of_mem hl
  obtain ⟨hsource, htarget⟩ := Topology.mem_of_mem_pairs hpair
  cases side with
  | targets => exact List.mem_iff_getElem?.mp htarget
  | sources => exact List.mem_iff_getElem?.mp hsource
  | links => exact List.mem_iff_getElem?.mp hl

/-! ## Carrying it out -/

/-- A link keeps all but its gater: that is the one of an entry for the link, or the old one if there is
no entry. -/
theorem link_gateAll {plan : List (NeuronId × LinkId)} (hplan : ∀ q ∈ plan, q.2 < c.links.size)
    (k : LinkId) : ∃ gater, (c.gateAll plan).link k = { c.link k with gater } ∧
      ((∀ q ∈ plan, q.2 ≠ k) ∧ gater = (c.link k).gater ∨ ∃ u, (u, k) ∈ plan ∧ gater = some u) := by
  induction plan generalizing c with
  | nil => exact ⟨(c.link k).gater, rfl, .inl ⟨fun q hq => absurd hq List.not_mem_nil, rfl⟩⟩
  | cons q plan ih =>
    obtain ⟨hq, hrest⟩ := List.forall_mem_cons.mp hplan
    have hstep := link_gateLink (u := q.1) hq k
    obtain ⟨gater, hlink, hgater⟩ := ih (c := c.gateLink q.1 q.2) (by simpa using hrest)
    refine ⟨gater, ?_, ?_⟩
    · show ((c.gateLink q.1 q.2).gateAll plan).link k = _
      rw [hlink, hstep]
      split
      · next hk => rw [hk]
      · rfl
    · rcases hgater with ⟨hnone, hgater⟩ | ⟨u, hu, hgater⟩
      · by_cases hk : k = q.2
        · rw [hstep, if_pos hk] at hgater
          exact .inr ⟨q.1, hk ▸ List.mem_cons_self, hgater⟩
        · rw [hstep, if_neg hk] at hgater
          exact .inl ⟨List.forall_mem_cons.mpr ⟨fun he => hk he.symm, hnone⟩, hgater⟩
      · exact .inr ⟨u, List.mem_cons_of_mem _ hu, hgater⟩

theorem regated_gateAll (c : Circuit α) (plan : List (NeuronId × LinkId)) (v : NeuronId) :
    Regated (c.neuron v) ((c.gateAll plan).neuron v) := by
  induction plan generalizing c with
  | nil => exact ⟨_, _, _, rfl⟩
  | cons q plan ih => exact (regated_gateLink c q.1 q.2 v).trans (ih (c.gateLink q.1 q.2))

/-! ## What is left with former gaters -/

/-- A neuron that does not become the gater keeps its traces for a neuron as they are, or loses them. -/
theorem find?_extended_gateLink (h : c.Sound) (hl : l < c.links.size) (hv : v ≠ u) (g : NeuronId) :
    ((c.gateLink u l).neuron v).trace.extended.find? g = (c.neuron v).trace.extended.find? g ∨
      ((c.gateLink u l).neuron v).trace.extended.find? g = none := by
  unfold gateLink
  split
  · rw [neuron_addGater_ne hv]
    exact .inl rfl
  · next w hw =>
    split
    · exact .inl rfl
    · rw [neuron_addGater_ne hv]
      by_cases hvw : v = w
      · subst hvw
        have hself := neuron_ungate_self h hl hw
        by_cases honly : c.gatesOnly v l
        · have hextended : ((c.ungate v l).neuron v).trace.extended =
              (c.neuron v).trace.extended.erase (c.link l).target := by
            rw [hself, if_pos honly]
          rw [hextended, IdMap.find?_erase]
          split
          · exact .inr rfl
          · exact .inl rfl
        · have hextended : ((c.ungate v l).neuron v).trace.extended =
              (c.neuron v).trace.extended := by
            rw [hself, if_neg honly]
          rw [hextended]
          exact .inl rfl
      · rw [neuron_ungate_ne hvw]
        exact .inl rfl

theorem find?_extended_gateAll {plan : List (NeuronId × LinkId)} (h : c.Sound)
    (hplan : ∀ q ∈ plan, q.1 < c.neurons.size ∧ q.2 < c.links.size) (hv : ∀ q ∈ plan, v ≠ q.1)
    (g : NeuronId) :
    ((c.gateAll plan).neuron v).trace.extended.find? g = (c.neuron v).trace.extended.find? g ∨
      ((c.gateAll plan).neuron v).trace.extended.find? g = none := by
  induction plan generalizing c with
  | nil => exact .inl rfl
  | cons q plan ih =>
    obtain ⟨hq, hrest⟩ := List.forall_mem_cons.mp hplan
    obtain ⟨hvq, hvrest⟩ := List.forall_mem_cons.mp hv
    have hstep := find?_extended_gateLink h hq.2 hvq g
    have hlater := ih (sound_gateLink h hq.1 hq.2) (by simpa using hrest) hvrest
    rcases hlater with hlater | hlater
    · rcases hstep with hstep | hstep
      · exact .inl (hlater.trans hstep)
      · exact .inr (hlater.trans hstep)
    · exact .inr hlater

/-- Does `u` gate a link into `g`? -/
def GatesInto (c : Circuit α) (u g : NeuronId) : Prop :=
  ∃ l < c.links.size, (c.link l).gater = some u ∧ (c.link l).target = g

theorem Sound.exists_extended_iff (h : c.Sound) (hu : u < c.neurons.size) (g : NeuronId) :
    (∃ xs, (c.neuron u).trace.extended.find? g = some xs) ↔ c.GatesInto u g := by
  rw [← IdMap.mem_keys_iff, h.mem_extended u hu]
  rfl

theorem Sound.find?_influences_eq_none (h : c.Sound) (hu : u < c.neurons.size) {g : NeuronId}
    (hg : ¬ c.GatesInto u g) : (c.neuron u).trace.influences.find? g = none := by
  have hkeys : g ∉ (c.neuron u).trace.influences.keys := by
    rw [h.influences_keys u hu, h.mem_extended u hu]
    exact hg
  rw [IdMap.mem_keys_iff] at hkeys
  exact Option.eq_none_iff_forall_ne_some.mpr (not_exists.mp hkeys)

/-! ## All of it -/

/-- What gating the projection `p` of `c` by an ensemble makes of the circuit. -/
structure Assigned (c d : Circuit α) (gater : EnsembleId) (p : ProjectionId) (side : GateSide) :
    Prop where
  place : ∀ l ∈ (c.projection p).links, ∃ i, c.GatePlace (c.projection p) side l i
  /-- A link of the projection gets the gater at its place and keeps its weight and its gain. -/
  assigned : ∀ l ∈ (c.projection p).links, ∀ i, c.GatePlace (c.projection p) side l i →
    ∃ u, (c.members gater)[i]? = some u ∧ d.link l = { c.link l with gater := some u }
  others : ∀ l ∉ (c.projection p).links, d.link l = c.link l
  /-- Neurons change in what they gate and in the traces for gated neurons only. -/
  neuron : ∀ u, Regated (c.neuron u) (d.neuron u)
  /-- A former gater that is not in the ensemble has traces for a neuron. They stay as they are if it
  gates another link into that neuron; otherwise they go. -/
  former : ∀ v g, c.GatesInto v g → v ∉ c.members gater →
    ∃ xs, (c.neuron v).trace.extended.find? g = some xs ∧
      ((d.neuron v).trace.extended.find? g = some xs ↔ d.GatesInto v g) ∧
      (¬ d.GatesInto v g → (d.neuron v).trace.extended.find? g = none ∧
        (d.neuron v).trace.influences.find? g = none)
  /-- The gating is recorded with the projection. -/
  recorded : d.projection p =
    { c.projection p with gatings := (c.projection p).gatings ++ [{ gater, side }] }
  unrecorded : ∀ q ≠ p, d.projection q = c.projection q
  sizes : d.neurons.size = c.neurons.size ∧ d.links.size = c.links.size ∧
    d.projections.size = c.projections.size
  rest : ∃ neurons links projections, d = { c with neurons, links, projections }

theorem gateLink_eq (c : Circuit α) (u : NeuronId) (l : LinkId) :
    ∃ neurons links, c.gateLink u l = { c with neurons, links } := by
  unfold gateLink
  split
  · exact ⟨_, _, rfl⟩
  · split
    · exact ⟨_, _, rfl⟩
    · exact ⟨_, _, rfl⟩

theorem gateAll_eq (c : Circuit α) (plan : List (NeuronId × LinkId)) :
    ∃ neurons links, c.gateAll plan = { c with neurons, links } := by
  induction plan generalizing c with
  | nil => exact ⟨_, _, rfl⟩
  | cons q plan ih =>
    obtain ⟨_, _, hstep⟩ := gateLink_eq c q.1 q.2
    obtain ⟨neurons, links, hrest⟩ := ih (c.gateLink q.1 q.2)
    rw [hstep] at hrest
    exact ⟨neurons, links, (congrArg (gateAll · plan) hstep).trans hrest⟩

section Plan

variable {gater : EnsembleId} {p : ProjectionId} {side : GateSide}
  {plan : List (NeuronId × LinkId)}

/-- The entries for a link all name the gater at its place, so that gater it gets. -/
theorem link_gateAll_of_gatePlace (hplan : ∀ q ∈ plan, q.2 < c.links.size)
    (hgate : c.gatePlan (c.members gater) (c.projection p) side = .ok plan)
    (hs : (c.members (c.projection p).source).Nodup) (ht : (c.members (c.projection p).target).Nodup)
    (hlinks : (c.projection p).links.Nodup) (hl : l ∈ (c.projection p).links) {i : Nat}
    (hi : c.GatePlace (c.projection p) side l i) :
    ∃ u, (c.members gater)[i]? = some u ∧
      (c.gateAll plan).link l = { c.link l with gater := some u } := by
  obtain ⟨u, hu⟩ := exists_gater hgate hi
  refine ⟨u, hu, ?_⟩
  obtain ⟨gater', hlink, ⟨hnone, -⟩ | ⟨w, hw, rfl⟩⟩ := link_gateAll hplan l
  · have hentry : (u, l) ∈ plan := (mem_gatePlan_iff hgate).mpr ⟨hl, i, hi, hu⟩
    exact absurd rfl (hnone _ hentry)
  · obtain ⟨-, j, hj, hgater⟩ := (mem_gatePlan_iff hgate).mp hw
    rw [← GatePlace.unique hs ht hlinks hi hj, hu] at hgater
    cases hgater
    exact hlink

theorem link_gateAll_of_not_mem (hplan : ∀ q ∈ plan, q.2 < c.links.size)
    (hgate : c.gatePlan (c.members gater) (c.projection p) side = .ok plan)
    (hl : l ∉ (c.projection p).links) : (c.gateAll plan).link l = c.link l := by
  obtain ⟨gater', hlink, ⟨-, rfl⟩ | ⟨w, hw, -⟩⟩ := link_gateAll hplan l
  · exact hlink
  · exact absurd ((mem_gatePlan_iff hgate).mp hw).1 hl

/-- Soundness before and after decides between the two things that can happen to the traces of a
former gater. -/
theorem former_gateAll (h : c.Sound) (hplan : ∀ q ∈ plan, q.1 < c.neurons.size ∧ q.2 < c.links.size)
    (hv : ∀ q ∈ plan, v ≠ q.1) {g : NeuronId} (hg : c.GatesInto v g) :
    ∃ xs, (c.neuron v).trace.extended.find? g = some xs ∧
      (((c.gateAll plan).neuron v).trace.extended.find? g = some xs ↔ (c.gateAll plan).GatesInto v g) ∧
      (¬ (c.gateAll plan).GatesInto v g →
        ((c.gateAll plan).neuron v).trace.extended.find? g = none ∧
          ((c.gateAll plan).neuron v).trace.influences.find? g = none) := by
  have hsound := sound_gateAll h hplan
  have hlt : v < c.neurons.size := by
    obtain ⟨l, hl, hgater, -⟩ := hg
    exact h.gater_lt l hl v hgater
  have hlt' : v < (c.gateAll plan).neurons.size := by rwa [size_neurons_gateAll]
  obtain ⟨xs, hxs⟩ := (h.exists_extended_iff hlt g).mpr hg
  have hkept := find?_extended_gateAll h hplan hv g
  rw [hxs] at hkept
  have hstill := hsound.exists_extended_iff hlt' g
  refine ⟨xs, hxs, ⟨fun hsome => hstill.mp ⟨xs, hsome⟩, fun hgates => ?_⟩, fun hgone => ?_⟩
  · obtain ⟨ys, hys⟩ := hstill.mpr hgates
    rcases hkept with hkept | hkept
    · exact hkept
    · rw [hkept] at hys
      cases hys
  · refine ⟨?_, hsound.find?_influences_eq_none hlt' hgone⟩
    rcases hkept with hkept | hkept
    · exact absurd (hstill.mp ⟨xs, hkept⟩) hgone
    · exact hkept

end Plan

/-- Gating a projection, whose ensembles list no neuron twice, gives each of its links the member of the
gating ensemble at the place of the link, and changes nothing else but what former gaters remember. -/
theorem gate_assigns (h : c.Reachable) {gater : EnsembleId} {p : ProjectionId} {side : GateSide}
    (hs : (c.members (c.projection p).source).Nodup) (ht : (c.members (c.projection p).target).Nodup)
    (hok : Edit.gate gater p side c = .ok () d) : Assigned c d gater p side := by
  obtain ⟨plan, hplan, hdone⟩ := Op.checked_eq_ok hok
  cases hdone
  have hsound := sound_of_reachable h
  have hcharted := charted_of_reachable h
  have hlt := lt_of_planGating (consistent_of_reachable h) hplan
  have hlinks : ∀ q ∈ plan, q.2 < c.links.size := fun q hq => (hlt q hq).2
  obtain ⟨-, hp, hgate, -⟩ := planGating_eq_ok hplan
  rw [hasProjection_iff] at hp
  have hnodup := hcharted.nodup_links hp hs ht
  have hp' : p < (c.gateAll plan).projections.size := by rwa [projections_gateAll]
  have hprojection : ∀ q, (c.gateAll plan).projection q = c.projection q := fun q => by
    simp only [projection, projections_gateAll]
  exact
    { place := fun l hl => hcharted.exists_gatePlace hp side hl
      assigned := fun l hl i hi => link_gateAll_of_gatePlace hlinks hgate hs ht hnodup hl hi
      others := fun l hl => link_gateAll_of_not_mem hlinks hgate hl
      neuron := regated_gateAll c plan
      former := by
        intro v g hg hv
        refine former_gateAll hsound hlt (fun q hq => ?_) hg
        obtain ⟨-, i, -, hgater⟩ := (mem_gatePlan_iff hgate).mp hq
        rintro rfl
        exact hv (List.mem_of_getElem? hgater)
      recorded := by
        rw [projection_recordGating hp', if_pos rfl, hprojection]
      unrecorded := by
        intro q hq
        rw [projection_recordGating hp', if_neg hq, hprojection]
      sizes := by
        refine ⟨size_neurons_gateAll plan, size_links_gateAll plan, ?_⟩
        simp [recordGating]
      rest := by
        obtain ⟨neurons, links, heq⟩ := gateAll_eq c plan
        rw [heq]
        exact ⟨neurons, links, _, rfl⟩ }

/-- Two ensembles wired to each other, an ensemble to gate the links between them, and a neuron that
gates two of them and one more link into a neuron that one of the two leads to. It has run once. -/
def contested : Circuit Int := performAll (.empty 0 ⟨7, 2, 1⟩)
  [.addEnsemble 2, .addEnsemble 2, .addEnsemble 2, .addNeuron,
    .project 0 (.ensemble 1) none (some 3), .gateLink 6 7, .gateLink 6 10, .connect 4 2 (some 1),
    .gateLink 6 11, .connect 0 6 (some 2), .activateEnsemble 0 (some [5, 1]), .activateNeuron 6 none]

theorem gate_assigns_contested :
    ∃ d, contested.Reachable ∧ (contested.members (contested.projection 0).source).Nodup ∧
      (contested.members (contested.projection 0).target).Nodup ∧
      Edit.gate 2 0 .targets contested = .ok () d ∧ Assigned contested d 2 0 .targets ∧
      (contested.projection 0).links.map (fun l => (contested.link l).gater) =
        [some 6, none, none, some 6] ∧
      (contested.projection 0).links.map (fun l => (d.link l).gater) =
        [some 4, some 5, some 4, some 5] ∧
      (contested.neuron 6).trace.extended.keys.toList = [2, 3] ∧
      (d.neuron 6).trace.extended.keys.toList = [2] := by
  have h : contested.Reachable :=
    reachable_performAll (.new 0 ⟨7, 2, 1⟩) (by simp [Request.Grounded])
  have hs : (contested.members (contested.projection 0).source).Nodup := by decide +kernel
  have ht : (contested.members (contested.projection 0).target).Nodup := by decide +kernel
  have hanswer : (Edit.gate 2 0 .targets).answer contested = .ok () := by decide +kernel
  have hok := Op.ok_of_answer hanswer
  exact ⟨_, h, hs, ht, hok, gate_assigns h hs ht hok, by decide +kernel, by decide +kernel,
    by decide +kernel, by decide +kernel⟩

end Circuit

end GatedNetwork
