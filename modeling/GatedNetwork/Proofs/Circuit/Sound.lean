import GatedNetwork.Proofs.Circuit.SameWiring

/-!
# Sound circuits

A link is registered in up to six places besides its own record: with its two ends, with its gater,
and as a key of three kinds of traces. `Circuit.Sound` says that all of them tell the same story as
the table of links.

* `Sound.of_sameWiring` — no change of numbers can harm it
* `Sound.of_sameLinks` — a change of gaters has to respect `GatesSound` only
* `sound_addNeuron`, `sound_addLink`, `sound_ungate`, `sound_addGater` — the four primitive changes of
  the wiring keep it
* `sound_connect`, `sound_gateLink` and their lists are compositions of those
-/

namespace GatedNetwork

variable {α : Type} [Arithmetic α]

namespace Circuit

/-- Every index of the arena mirrors the table of links. -/
structure Sound (c : Circuit α) : Prop where
  /-- Links join neurons that exist. -/
  ends_lt : ∀ l < c.links.size,
    (c.link l).source < c.neurons.size ∧ (c.link l).target < c.neurons.size
  gater_lt : ∀ l < c.links.size, ∀ u, (c.link l).gater = some u → u < c.neurons.size
  /-- The loop of a neuron is a link from it to itself. -/
  loop_lt : ∀ u < c.neurons.size, (c.neuron u).loop < c.links.size
  loop_source : ∀ u < c.neurons.size, (c.loopOf u).source = u
  loop_target : ∀ u < c.neurons.size, (c.loopOf u).target = u
  /-- There is at most one link from one neuron to another, and the loop is the only link from a
  neuron to itself. -/
  eq_of_ends : ∀ k < c.links.size, ∀ l < c.links.size, (c.link k).source = (c.link l).source →
    (c.link k).target = (c.link l).target → k = l
  mem_inputs : ∀ u < c.neurons.size, ∀ l, l ∈ (c.neuron u).inputs ↔
    l < c.links.size ∧ (c.link l).target = u ∧ (c.link l).source ≠ u
  mem_projected : ∀ u < c.neurons.size, ∀ l, l ∈ (c.neuron u).projected ↔
    l < c.links.size ∧ (c.link l).source = u ∧ (c.link l).target ≠ u
  mem_gated : ∀ u < c.neurons.size, ∀ l, l ∈ (c.neuron u).gated ↔
    l < c.links.size ∧ (c.link l).gater = some u
  /-- Every trace has an entry for every incoming link and no other. -/
  eligibility_keys : ∀ u < c.neurons.size,
    (c.neuron u).trace.eligibility.keys = (c.neuron u).inputs
  extended_keys : ∀ u < c.neurons.size, ∀ g xs,
    (c.neuron u).trace.extended.find? g = some xs → xs.keys = (c.neuron u).inputs
  /-- A neuron keeps traces for exactly the neurons into which it gates a link; a loop counts. -/
  mem_extended : ∀ u < c.neurons.size, ∀ g, g ∈ (c.neuron u).trace.extended.keys ↔
    ∃ l < c.links.size, (c.link l).gater = some u ∧ (c.link l).target = g
  influences_keys : ∀ u < c.neurons.size,
    (c.neuron u).trace.influences.keys = (c.neuron u).trace.extended.keys
  /-- The influences list the gated links into a neuron, its loop excepted. -/
  mem_influences : ∀ u < c.neurons.size, ∀ g l, l ∈ (c.neuron u).trace.influencesOn g ↔
    l < c.links.size ∧ (c.link l).gater = some u ∧ (c.link l).target = g ∧ (c.link l).source ≠ g

/-- What soundness says about gaters. -/
structure GatesSound (c : Circuit α) : Prop where
  gater_lt : ∀ l < c.links.size, ∀ u, (c.link l).gater = some u → u < c.neurons.size
  mem_gated : ∀ u < c.neurons.size, ∀ l, l ∈ (c.neuron u).gated ↔
    l < c.links.size ∧ (c.link l).gater = some u
  extended_keys : ∀ u < c.neurons.size, ∀ g xs,
    (c.neuron u).trace.extended.find? g = some xs → xs.keys = (c.neuron u).inputs
  mem_extended : ∀ u < c.neurons.size, ∀ g, g ∈ (c.neuron u).trace.extended.keys ↔
    ∃ l < c.links.size, (c.link l).gater = some u ∧ (c.link l).target = g
  influences_keys : ∀ u < c.neurons.size,
    (c.neuron u).trace.influences.keys = (c.neuron u).trace.extended.keys
  mem_influences : ∀ u < c.neurons.size, ∀ g l, l ∈ (c.neuron u).trace.influencesOn g ↔
    l < c.links.size ∧ (c.link l).gater = some u ∧ (c.link l).target = g ∧ (c.link l).source ≠ g

/-- Two circuits that have the same neurons and links, and list the same links with their ends. -/
structure SameLinks (c d : Circuit α) : Prop where
  neurons : d.neurons.size = c.neurons.size
  links : d.links.size = c.links.size
  source : ∀ l, (d.link l).source = (c.link l).source
  target : ∀ l, (d.link l).target = (c.link l).target
  loop : ∀ u, (d.neuron u).loop = (c.neuron u).loop
  inputs : ∀ u, (d.neuron u).inputs = (c.neuron u).inputs
  projected : ∀ u, (d.neuron u).projected = (c.neuron u).projected
  eligibility_keys : ∀ u,
    (d.neuron u).trace.eligibility.keys = (c.neuron u).trace.eligibility.keys

namespace SameLinks

variable {c d : Circuit α}

/-- Gaters may differ, and what is gated. -/
theorem of_regated (hneurons : d.neurons.size = c.neurons.size)
    (hlinks : d.links.size = c.links.size)
    (hlink : ∀ l, (d.link l).source = (c.link l).source ∧ (d.link l).target = (c.link l).target)
    (hneuron : ∀ u, Regated (c.neuron u) (d.neuron u)) : SameLinks c d where
  neurons := hneurons
  links := hlinks
  source := fun l => (hlink l).1
  target := fun l => (hlink l).2
  loop := by
    intro u
    obtain ⟨_, _, _, he⟩ := hneuron u
    rw [he]
  inputs := by
    intro u
    obtain ⟨_, _, _, he⟩ := hneuron u
    rw [he]
  projected := by
    intro u
    obtain ⟨_, _, _, he⟩ := hneuron u
    rw [he]
  eligibility_keys := by
    intro u
    obtain ⟨_, _, _, he⟩ := hneuron u
    rw [he]

end SameLinks

theorem SameWiring.sameLinks {c d : Circuit α} (hw : SameWiring c d) : SameLinks c d where
  neurons := hw.neurons
  links := hw.links
  source := hw.source
  target := hw.target
  loop := hw.loop
  inputs := hw.inputs
  projected := hw.projected
  eligibility_keys := hw.eligibility_keys

namespace Sound

variable {c d : Circuit α}

/-- A link from a neuron to itself is its loop. -/
theorem eq_loop (h : c.Sound) {l : LinkId} (hl : l < c.links.size)
    (hself : (c.link l).source = (c.link l).target) : l = (c.neuron (c.link l).target).loop := by
  have ht := (h.ends_lt l hl).2
  refine h.eq_of_ends l hl _ (h.loop_lt _ ht) ?_ ?_
  · rw [hself]; exact (h.loop_source _ ht).symm
  · exact (h.loop_target _ ht).symm

/-- The loops are the links from a neuron to itself. -/
theorem isLoop_iff (h : c.Sound) {l : LinkId} (hl : l < c.links.size) :
    c.isLoop l = true ↔ (c.link l).source = (c.link l).target := by
  have ht := (h.ends_lt l hl).2
  simp only [isLoop, beq_iff_eq]
  constructor
  · intro he
    have hs := h.loop_source _ ht
    rw [loopOf, he] at hs
    exact hs
  · intro hself
    exact (h.eq_loop hl hself).symm

/-- Links that keep their ends keep all that soundness says about these. -/
theorem of_sameLinks (h : c.Sound) (hs : SameLinks c d) (hg : d.GatesSound) : d.Sound where
  ends_lt := by
    intro l hl
    rw [hs.source, hs.target, hs.neurons]
    exact h.ends_lt l (hs.links ▸ hl)
  gater_lt := hg.gater_lt
  loop_lt := by
    intro u hu
    rw [hs.loop, hs.links]
    exact h.loop_lt u (hs.neurons ▸ hu)
  loop_source := by
    intro u hu
    rw [loopOf, hs.loop, hs.source]
    exact h.loop_source u (hs.neurons ▸ hu)
  loop_target := by
    intro u hu
    rw [loopOf, hs.loop, hs.target]
    exact h.loop_target u (hs.neurons ▸ hu)
  eq_of_ends := by
    intro k hk l hl hsource htarget
    rw [hs.source, hs.source] at hsource
    rw [hs.target, hs.target] at htarget
    exact h.eq_of_ends k (hs.links ▸ hk) l (hs.links ▸ hl) hsource htarget
  mem_inputs := by
    intro u hu l
    rw [hs.inputs, hs.links, hs.target, hs.source]
    exact h.mem_inputs u (hs.neurons ▸ hu) l
  mem_projected := by
    intro u hu l
    rw [hs.projected, hs.links, hs.target, hs.source]
    exact h.mem_projected u (hs.neurons ▸ hu) l
  mem_gated := hg.mem_gated
  eligibility_keys := by
    intro u hu
    rw [hs.eligibility_keys, hs.inputs]
    exact h.eligibility_keys u (hs.neurons ▸ hu)
  extended_keys := hg.extended_keys
  mem_extended := hg.mem_extended
  influences_keys := hg.influences_keys
  mem_influences := hg.mem_influences

theorem gatesSound_of_sameWiring (h : c.Sound) (hw : SameWiring c d) : d.GatesSound where
  gater_lt := by
    intro l hl u hu
    rw [hw.neurons]
    exact h.gater_lt l (hw.links ▸ hl) u (hw.gater l ▸ hu)
  mem_gated := by
    intro u hu l
    rw [hw.gated, hw.links, hw.gater]
    exact h.mem_gated u (hw.neurons ▸ hu) l
  extended_keys := by
    intro u hu g xs hxs
    have hk := hw.extended_find?_keys u g
    rw [hxs, Option.map_some] at hk
    obtain ⟨ys, hys, hkeys⟩ := Option.map_eq_some_iff.mp hk.symm
    rw [← hkeys, hw.inputs]
    exact h.extended_keys u (hw.neurons ▸ hu) g ys hys
  mem_extended := by
    intro u hu g
    rw [hw.extended_keys, hw.links]
    simp only [hw.gater, hw.target]
    exact h.mem_extended u (hw.neurons ▸ hu) g
  influences_keys := by
    intro u hu
    rw [hw.influences, hw.extended_keys]
    exact h.influences_keys u (hw.neurons ▸ hu)
  mem_influences := by
    intro u hu g l
    rw [hw.influencesOn, hw.links, hw.gater, hw.target, hw.source]
    exact h.mem_influences u (hw.neurons ▸ hu) g l

/-- Only numbers, transfer functions and the like may differ, and none of them matters. -/
theorem of_sameWiring (h : c.Sound) (hw : SameWiring c d) : d.Sound :=
  h.of_sameLinks hw.sameLinks (h.gatesSound_of_sameWiring hw)

end Sound

/-- A circuit without neurons has nothing to get wrong. -/
theorem sound_empty (identity : Identity) (settings : Settings α) :
    (empty identity settings).Sound where
  ends_lt := fun _ hl => absurd hl (Nat.not_lt_zero _)
  gater_lt := fun _ hl => absurd hl (Nat.not_lt_zero _)
  loop_lt := fun _ hu => absurd hu (Nat.not_lt_zero _)
  loop_source := fun _ hu => absurd hu (Nat.not_lt_zero _)
  loop_target := fun _ hu => absurd hu (Nat.not_lt_zero _)
  eq_of_ends := fun _ hk => absurd hk (Nat.not_lt_zero _)
  mem_inputs := fun _ hu => absurd hu (Nat.not_lt_zero _)
  mem_projected := fun _ hu => absurd hu (Nat.not_lt_zero _)
  mem_gated := fun _ hu => absurd hu (Nat.not_lt_zero _)
  eligibility_keys := fun _ hu => absurd hu (Nat.not_lt_zero _)
  extended_keys := fun _ hu => absurd hu (Nat.not_lt_zero _)
  mem_extended := fun _ hu => absurd hu (Nat.not_lt_zero _)
  influences_keys := fun _ hu => absurd hu (Nat.not_lt_zero _)
  mem_influences := fun _ hu => absurd hu (Nat.not_lt_zero _)

/-! ## A new neuron -/

variable {c : Circuit α} {a b u v : NeuronId} {l : LinkId}

/-- A new neuron gates nothing, and nobody gates its loop. -/
theorem gatesSound_addNeuron (h : c.Sound) : c.addNeuron.2.GatesSound where
  gater_lt := by
    intro l hl u hu
    rw [size_links_addNeuron] at hl
    rw [link_addNeuron] at hu
    rw [size_neurons_addNeuron]
    split at hu
    · exact absurd hu (by simp [Link.plain])
    · have hg := h.gater_lt l (by lia) u hu
      lia
  mem_gated := by
    intro u hu l
    rw [size_neurons_addNeuron] at hu
    rw [neuron_addNeuron, link_addNeuron, size_links_addNeuron]
    have hi := h.mem_gated u
    have hls := h.gater_lt l
    grind [Link.plain, Neuron.fresh, IdSet.not_mem_empty]
  extended_keys := by
    intro u hu g xs
    rw [size_neurons_addNeuron] at hu
    rw [neuron_addNeuron]
    split
    · intro hxs
      exact absurd hxs (by simp [Neuron.fresh, Traces.none])
    · exact h.extended_keys u (by lia) g xs
  mem_extended := by
    intro u hu g
    rw [size_neurons_addNeuron] at hu
    rw [neuron_addNeuron, size_links_addNeuron]
    simp only [link_addNeuron]
    have hi := h.mem_extended u
    have hg := h.gater_lt
    grind [Link.plain, Neuron.fresh, Traces.none, IdMap.keys_empty, IdSet.not_mem_empty]
  influences_keys := by
    intro u hu
    rw [size_neurons_addNeuron] at hu
    rw [neuron_addNeuron]
    split
    · rfl
    · exact h.influences_keys u (by lia)
  mem_influences := by
    intro u hu g l
    rw [size_neurons_addNeuron] at hu
    rw [neuron_addNeuron, link_addNeuron, size_links_addNeuron]
    have hi := h.mem_influences u
    have hg := h.gater_lt l
    grind [Link.plain, Neuron.fresh, Traces.none, Traces.influencesOn, IdMap.find?_empty,
      IdSet.not_mem_empty]

/-- The loop of a neuron, be it the new one. -/
theorem loopOf_addNeuron (h : c.Sound) {u : NeuronId} (hu : u < c.neurons.size + 1) :
    c.addNeuron.2.loopOf u = if u = c.neurons.size then .plain u u 0 else c.loopOf u := by
  rw [loopOf, neuron_addNeuron, link_addNeuron]
  split
  · next he => simp [Neuron.fresh, he]
  · have hl := h.loop_lt u (by lia)
    rw [if_neg (by lia), loopOf]

/-- A new neuron comes with its loop and without any other link. -/
theorem sound_addNeuron (h : c.Sound) : c.addNeuron.2.Sound where
  ends_lt := by
    intro l hl
    rw [size_links_addNeuron] at hl
    rw [link_addNeuron, size_neurons_addNeuron]
    split
    · exact ⟨Nat.lt_succ_self _, Nat.lt_succ_self _⟩
    · have he := h.ends_lt l (by lia)
      lia
  gater_lt := (gatesSound_addNeuron h).gater_lt
  loop_lt := by
    intro u hu
    rw [size_neurons_addNeuron] at hu
    rw [neuron_addNeuron, size_links_addNeuron]
    split
    · exact Nat.lt_succ_self _
    · have hl := h.loop_lt u (by lia)
      lia
  loop_source := by
    intro u hu
    rw [size_neurons_addNeuron] at hu
    rw [loopOf_addNeuron h hu]
    split
    · rfl
    · exact h.loop_source u (by lia)
  loop_target := by
    intro u hu
    rw [size_neurons_addNeuron] at hu
    rw [loopOf_addNeuron h hu]
    split
    · rfl
    · exact h.loop_target u (by lia)
  -- no old link has an end at the new neuron
  eq_of_ends := by
    intro k hk l hl
    rw [size_links_addNeuron] at hk hl
    rw [link_addNeuron, link_addNeuron]
    have hkl := h.eq_of_ends k
    have hks := h.ends_lt k
    have hls := h.ends_lt l
    grind [Link.plain]
  mem_inputs := by
    intro u hu l
    rw [size_neurons_addNeuron] at hu
    rw [neuron_addNeuron, link_addNeuron, size_links_addNeuron]
    have hi := h.mem_inputs u
    have hls := h.ends_lt l
    grind [Link.plain, Neuron.fresh, IdSet.not_mem_empty]
  mem_projected := by
    intro u hu l
    rw [size_neurons_addNeuron] at hu
    rw [neuron_addNeuron, link_addNeuron, size_links_addNeuron]
    have hi := h.mem_projected u
    have hls := h.ends_lt l
    grind [Link.plain, Neuron.fresh, IdSet.not_mem_empty]
  mem_gated := (gatesSound_addNeuron h).mem_gated
  eligibility_keys := by
    intro u hu
    rw [size_neurons_addNeuron] at hu
    rw [neuron_addNeuron]
    split
    · rfl
    · exact h.eligibility_keys u (by lia)
  extended_keys := (gatesSound_addNeuron h).extended_keys
  mem_extended := (gatesSound_addNeuron h).mem_extended
  influences_keys := (gatesSound_addNeuron h).influences_keys
  mem_influences := (gatesSound_addNeuron h).mem_influences

/-! ## A new link -/

theorem find?_extended_watch (t : Traces α) (l : LinkId) (g : NeuronId) :
    (t.watch l).extended.find? g = (t.extended.find? g).map fun xs => xs.insert l 0 := by
  simp [Traces.watch]

/-- Nobody gates a new link, but its target follows it in all traces that it keeps. -/
theorem gatesSound_addLink (h : c.Sound) (hne : a ≠ b) (ha : a < c.neurons.size)
    (hb : b < c.neurons.size) (w : α) : (c.addLink a b w).2.GatesSound where
  gater_lt := by
    intro l hl u
    rw [size_links_addLink] at hl
    rw [link_addLink, size_neurons_addLink]
    have hls := h.gater_lt l
    grind [Link.plain]
  mem_gated := by
    intro u hu l
    rw [size_neurons_addLink] at hu
    rw [neuron_addLink hne ha hb, link_addLink, size_links_addLink]
    have hi := h.mem_gated u hu l
    grind [Link.plain]
  extended_keys := by
    intro u hu g xs
    rw [size_neurons_addLink] at hu
    rw [neuron_addLink hne ha hb]
    have hk := h.extended_keys u hu g
    split
    · next hub =>
      subst hub
      rw [find?_extended_watch, Option.map_eq_some_iff]
      rintro ⟨ys, hys, rfl⟩
      rw [IdMap.keys_insert, hk ys hys]
    · split
      · next hua =>
        subst hua
        exact hk xs
      · exact hk xs
  mem_extended := by
    intro u hu g
    rw [size_neurons_addLink] at hu
    rw [neuron_addLink hne ha hb, size_links_addLink]
    simp only [link_addLink]
    have hi := h.mem_extended u hu g
    grind [Link.plain, Traces.watch, IdMap.keys_map]
  influences_keys := by
    intro u hu
    rw [size_neurons_addLink] at hu
    rw [neuron_addLink hne ha hb]
    have hi := h.influences_keys u hu
    grind [Traces.watch, IdMap.keys_map]
  mem_influences := by
    intro u hu g l
    rw [size_neurons_addLink] at hu
    rw [neuron_addLink hne ha hb, link_addLink, size_links_addLink]
    have hi := h.mem_influences u hu g l
    grind [Link.plain, Traces.watch, Traces.influencesOn]

/-- A link between two neurons that had none is registered with both of them. -/
theorem sound_addLink (h : c.Sound) (hne : a ≠ b) (ha : a < c.neurons.size)
    (hb : b < c.neurons.size)
    (hnew : ∀ l < c.links.size, (c.link l).source = a → (c.link l).target ≠ b) (w : α) :
    (c.addLink a b w).2.Sound where
  ends_lt := by
    intro l hl
    rw [size_links_addLink] at hl
    rw [link_addLink, size_neurons_addLink]
    have hls := h.ends_lt l
    grind [Link.plain]
  gater_lt := (gatesSound_addLink h hne ha hb w).gater_lt
  loop_lt := by
    intro u hu
    rw [size_neurons_addLink] at hu
    rw [neuron_addLink hne ha hb, size_links_addLink]
    have hl := h.loop_lt u hu
    grind
  loop_source := by
    intro u hu
    rw [size_neurons_addLink] at hu
    have hl := h.loop_lt u hu
    have hs := h.loop_source u hu
    rw [loopOf] at hs ⊢
    rw [neuron_addLink hne ha hb, link_addLink]
    grind
  loop_target := by
    intro u hu
    rw [size_neurons_addLink] at hu
    have hl := h.loop_lt u hu
    have ht := h.loop_target u hu
    rw [loopOf] at ht ⊢
    rw [neuron_addLink hne ha hb, link_addLink]
    grind
  eq_of_ends := by
    intro k hk l hl
    rw [size_links_addLink] at hk hl
    rw [link_addLink, link_addLink]
    have hkl := h.eq_of_ends k
    grind [Link.plain]
  mem_inputs := by
    intro u hu l
    rw [size_neurons_addLink] at hu
    rw [neuron_addLink hne ha hb, link_addLink, size_links_addLink]
    have hi := h.mem_inputs u hu l
    grind [Link.plain, IdSet.mem_insert]
  mem_projected := by
    intro u hu l
    rw [size_neurons_addLink] at hu
    rw [neuron_addLink hne ha hb, link_addLink, size_links_addLink]
    have hi := h.mem_projected u hu l
    grind [Link.plain, IdSet.mem_insert]
  mem_gated := (gatesSound_addLink h hne ha hb w).mem_gated
  eligibility_keys := by
    intro u hu
    rw [size_neurons_addLink] at hu
    rw [neuron_addLink hne ha hb]
    have hk := h.eligibility_keys u hu
    grind [Traces.watch, IdMap.keys_insert]
  extended_keys := (gatesSound_addLink h hne ha hb w).extended_keys
  mem_extended := (gatesSound_addLink h hne ha hb w).mem_extended
  influences_keys := (gatesSound_addLink h hne ha hb w).influences_keys
  mem_influences := (gatesSound_addLink h hne ha hb w).mem_influences

/-! ## Taking a gater away -/

/-- Does `u` gate no link but `l` into the neuron `l` leads to? Then its traces for that neuron go. -/
def gatesOnly (c : Circuit α) (u : NeuronId) (l : LinkId) : Prop :=
  ∀ k < c.links.size, k ≠ l → (c.link k).gater = some u → (c.link k).target ≠ (c.link l).target

instance (c : Circuit α) (u : NeuronId) (l : LinkId) : Decidable (c.gatesOnly u l) :=
  inferInstanceAs (Decidable (∀ k < c.links.size, k ≠ l → (c.link k).gater = some u →
    (c.link k).target ≠ (c.link l).target))

/-- The test by which `ungate` decides whether traces go is exact. -/
theorem gatesOnly_iff (h : c.Sound) (hl : l < c.links.size) (hg : (c.link l).gater = some u) :
    (((c.neuron u).trace.influencesOn (c.link l).target).erase l).isEmpty = true ∧
      (((c.modifyLink l fun k => { k with gater := none }).loopOf (c.link l).target).gater
        == some u) = false ↔ c.gatesOnly u l := by
  have hu := h.gater_lt l hl u hg
  have ht := (h.ends_lt l hl).2
  have hloop : ∀ k, k = (c.neuron (c.link l).target).loop → k ≠ l →
      (c.modifyLink l fun k => { k with gater := none }).loopOf (c.link l).target = c.link k := by
    intro k hk hkl
    rw [loopOf, neuron_modifyLink, ← hk, link_modifyLink_ne hkl]
  rw [IdSet.isEmpty_iff, beq_eq_false_iff_ne]
  constructor
  -- influences leave the loop of the gated neuron out, so the test asks for it separately
  · rintro ⟨hrest, hkeep⟩ k hk hkl hgk htk
    by_cases hs : (c.link k).source = (c.link l).target
    · have he : k = (c.neuron (c.link l).target).loop := by
        rw [← htk]
        exact h.eq_loop hk (hs.trans htk.symm)
      rw [hloop k he hkl] at hkeep
      exact hkeep hgk
    · refine hrest k ?_
      rw [IdSet.mem_erase, h.mem_influences u hu]
      exact ⟨⟨hk, hgk, htk, hs⟩, hkl⟩
  · intro honly
    constructor
    · intro k hk
      rw [IdSet.mem_erase, h.mem_influences u hu] at hk
      exact honly k hk.1.1 hk.2 hk.1.2.1 hk.1.2.2.1
    -- `l` may be that loop itself, which has lost its gater by now
    · by_cases hkl : (c.neuron (c.link l).target).loop = l
      · rw [loopOf, neuron_modifyLink, hkl, link_modifyLink_self hl]
        exact fun he => absurd he (by simp)
      · rw [hloop _ rfl hkl]
        exact fun he => honly _ (h.loop_lt _ ht) hkl he (h.loop_target _ ht)

/-- What is left with a former gater. -/
theorem neuron_ungate_self (h : c.Sound) (hl : l < c.links.size)
    (hg : (c.link l).gater = some u) :
    (c.ungate u l).neuron u =
      { c.neuron u with
        gated := (c.neuron u).gated.erase l
        trace :=
          if c.gatesOnly u l then
            { (c.neuron u).trace with
              influences := (c.neuron u).trace.influences.erase (c.link l).target
              extended := (c.neuron u).trace.extended.erase (c.link l).target }
          else
            { (c.neuron u).trace with
              influences := (c.neuron u).trace.influences.modify (c.link l).target fun _ =>
                ((c.neuron u).trace.influencesOn (c.link l).target).erase l } } := by
  have hu := h.gater_lt l hl u hg
  simp only [ungate]
  rw [neuron_modifyNeuron_self (by simpa using hu), neuron_modifyLink]
  simp only [Bool.and_eq_true, Bool.not_eq_true', gatesOnly_iff h hl hg]

theorem sameLinks_ungate (u : NeuronId) (hl : l < c.links.size) : SameLinks c (c.ungate u l) := by
  refine .of_regated size_neurons_ungate size_links_ungate (fun k => ?_) (regated_ungate c u l)
  rw [link_ungate hl]
  split
  · next hk =>
    rw [hk]
    exact ⟨rfl, rfl⟩
  · exact ⟨rfl, rfl⟩

theorem gatesSound_ungate (h : c.Sound) (hl : l < c.links.size) (hg : (c.link l).gater = some u) :
    (c.ungate u l).GatesSound where
  gater_lt := by
    intro k hk v
    rw [size_links_ungate] at hk
    rw [link_ungate hl, size_neurons_ungate]
    have hks := h.gater_lt k hk v
    grind
  mem_gated := by
    intro v hv k
    rw [size_neurons_ungate] at hv
    rw [link_ungate hl, size_links_ungate]
    have hi := h.mem_gated v hv k
    have hself := neuron_ungate_self h hl hg
    have hother := @neuron_ungate_ne _ _ c u v l
    grind [IdSet.mem_erase]
  extended_keys := by
    intro v hv g xs
    rw [size_neurons_ungate] at hv
    have hk := h.extended_keys v hv g xs
    have hself := neuron_ungate_self h hl hg
    have hother := @neuron_ungate_ne _ _ c u v l
    grind [IdMap.find?_erase]
  mem_extended := by
    intro v hv g
    rw [size_neurons_ungate] at hv
    rw [size_links_ungate]
    simp only [link_ungate hl]
    have hi := h.mem_extended v hv g
    by_cases hvu : v = u
    · subst hvu
      rw [neuron_ungate_self h hl hg]
      by_cases honly : c.gatesOnly v l
      · simp only [honly, if_true, IdMap.mem_keys_erase, hi]
        unfold gatesOnly at honly
        grind
      · simp only [honly, if_false, hi]
        unfold gatesOnly at honly
        grind
    · rw [neuron_ungate_ne hvu, hi]
      grind
  influences_keys := by
    intro v hv
    rw [size_neurons_ungate] at hv
    have hk := h.influences_keys v hv
    have hself := neuron_ungate_self h hl hg
    have hother := @neuron_ungate_ne _ _ c u v l
    grind [IdMap.keys_erase, IdMap.keys_modify]
  mem_influences := by
    intro v hv g k
    rw [size_neurons_ungate] at hv
    rw [link_ungate hl, size_links_ungate]
    have hi := h.mem_influences v hv g k
    have hkeys := h.influences_keys v hv
    by_cases hvu : v = u
    · subst hvu
      rw [neuron_ungate_self h hl hg]
      by_cases honly : c.gatesOnly v l
      · simp only [honly, if_true, Traces.influencesOn, IdMap.find?_erase]
        unfold gatesOnly at honly
        grind [Traces.influencesOn, IdSet.not_mem_empty]
      · simp only [honly, if_false, Traces.influencesOn, IdMap.find?_modify]
        have hin := h.mem_extended v hv g
        rw [← hkeys, IdMap.mem_keys_iff] at hin
        grind [Traces.influencesOn, IdSet.not_mem_empty, IdSet.mem_erase]
    · rw [neuron_ungate_ne hvu, hi]
      grind

/-- Without its gater, a link is registered as an ungated one. -/
theorem sound_ungate (h : c.Sound) (hl : l < c.links.size) (hg : (c.link l).gater = some u) :
    (c.ungate u l).Sound :=
  h.of_sameLinks (sameLinks_ungate u hl) (gatesSound_ungate h hl hg)

/-! ## Setting a gater -/

theorem neuron_addGater_self (hu : u < c.neurons.size) :
    (c.addGater u l).neuron u =
      { c.neuron u with
        gated := (c.neuron u).gated.insert l
        trace :=
          { (c.neuron u).trace with
            extended :=
              if (c.neuron u).trace.extended.contains (c.link l).target then
                (c.neuron u).trace.extended
              else
                (c.neuron u).trace.extended.insert (c.link l).target
                  (.ofKeys (c.neuron u).trace.eligibility.keys 0)
            influences :=
              (c.neuron u).trace.influences.insert (c.link l).target
                (if c.isLoop l then (c.neuron u).trace.influencesOn (c.link l).target
                else ((c.neuron u).trace.influencesOn (c.link l).target).insert l) } } := by
  simp only [addGater, neuron_modifyLink]
  rw [neuron_modifyNeuron_self hu]

/-- The gated neuron is among those the new gater keeps traces for. -/
theorem keys_extended_addGater (hu : u < c.neurons.size) :
    ((c.addGater u l).neuron u).trace.extended.keys =
      (c.neuron u).trace.extended.keys.insert (c.link l).target := by
  rw [neuron_addGater_self hu]
  ext g
  simp only [IdSet.mem_insert]
  split
  · next hc =>
    have hmem := IdMap.mem_keys.mpr hc
    constructor
    · exact Or.inr
    · rintro (rfl | hg)
      · exact hmem
      · exact hg
  · rw [IdMap.mem_keys_insert]

theorem sameLinks_addGater (u : NeuronId) (hl : l < c.links.size) :
    SameLinks c (c.addGater u l) := by
  refine .of_regated size_neurons_addGater size_links_addGater (fun k => ?_) (regated_addGater c u l)
  rw [link_addGater hl]
  split
  · next hk =>
    rw [hk]
    exact ⟨rfl, rfl⟩
  · exact ⟨rfl, rfl⟩

theorem gatesSound_addGater (h : c.Sound) (hl : l < c.links.size) (hu : u < c.neurons.size)
    (hg : (c.link l).gater = none) : (c.addGater u l).GatesSound where
  gater_lt := by
    intro k hk v
    rw [size_links_addGater] at hk
    rw [link_addGater hl, size_neurons_addGater]
    have hks := h.gater_lt k hk v
    grind
  mem_gated := by
    intro v hv k
    rw [size_neurons_addGater] at hv
    rw [link_addGater hl, size_links_addGater]
    have hi := h.mem_gated v hv k
    have hself := neuron_addGater_self (l := l) hu
    have hother := @neuron_addGater_ne _ _ c u v l
    grind [IdSet.mem_insert]
  extended_keys := by
    intro v hv g xs
    rw [size_neurons_addGater] at hv
    have hk := h.extended_keys v hv g xs
    have he := h.eligibility_keys v hv
    have hself := neuron_addGater_self (l := l) hu
    have hother := @neuron_addGater_ne _ _ c u v l
    grind [IdMap.find?_insert, IdMap.keys_ofKeys]
  mem_extended := by
    intro v hv g
    rw [size_neurons_addGater] at hv
    rw [size_links_addGater]
    simp only [link_addGater hl]
    have hi := h.mem_extended v hv g
    by_cases hvu : v = u
    · subst hvu
      rw [keys_extended_addGater hu, IdSet.mem_insert, hi]
      grind
    · rw [neuron_addGater_ne hvu, hi]
      grind
  influences_keys := by
    intro v hv
    rw [size_neurons_addGater] at hv
    have hk := h.influences_keys v hv
    by_cases hvu : v = u
    · subst hvu
      rw [keys_extended_addGater hu, neuron_addGater_self hu, IdMap.keys_insert, hk]
    · rw [neuron_addGater_ne hvu, hk]
  mem_influences := by
    intro v hv g k
    rw [size_neurons_addGater] at hv
    rw [link_addGater hl, size_links_addGater]
    have hi := h.mem_influences v hv g k
    have hloop := h.isLoop_iff hl
    by_cases hvu : v = u
    · subst hvu
      rw [neuron_addGater_self hu]
      simp only [Traces.influencesOn, IdMap.find?_insert]
      grind [Traces.influencesOn, IdSet.mem_insert]
    · rw [neuron_addGater_ne hvu, hi]
      grind

/-- A link without a gater can be given to any neuron. -/
theorem sound_addGater (h : c.Sound) (hl : l < c.links.size) (hu : u < c.neurons.size)
    (hg : (c.link l).gater = none) : (c.addGater u l).Sound :=
  h.of_sameLinks (sameLinks_addGater u hl) (gatesSound_addGater h hl hu hg)

/-- A gated link goes from one gater to another by way of none. -/
theorem sound_gateLink (h : c.Sound) (hu : u < c.neurons.size) (hl : l < c.links.size) :
    (c.gateLink u l).Sound := by
  unfold gateLink
  cases hg : (c.link l).gater with
  | none => exact sound_addGater h hl hu hg
  | some v =>
    simp only
    split
    · exact h
    · have hfree : ((c.ungate v l).link l).gater = none := by
        rw [link_ungate hl, if_pos rfl]
      exact sound_addGater (sound_ungate h hl hg) (by simpa using hl) (by simpa using hu) hfree

@[simp] theorem size_neurons_gateLink :
    (c.gateLink u l).neurons.size = c.neurons.size := by
  unfold gateLink
  cases (c.link l).gater with
  | none => simp
  | some v =>
    simp only
    split <;> simp

@[simp] theorem size_links_gateLink : (c.gateLink u l).links.size = c.links.size := by
  unfold gateLink
  cases (c.link l).gater with
  | none => simp
  | some v =>
    simp only
    split <;> simp

/-- Each step of a plan finds its link and its gater, for gating adds no record. -/
theorem sound_gateAll {plan : List (NeuronId × LinkId)} (h : c.Sound)
    (hplan : ∀ p ∈ plan, p.1 < c.neurons.size ∧ p.2 < c.links.size) :
    (c.gateAll plan).Sound := by
  induction plan generalizing c with
  | nil => exact h
  | cons p plan ih =>
    have hp := hplan p List.mem_cons_self
    refine ih (sound_gateLink h hp.1 hp.2) fun q hq => ?_
    simpa using hplan q (List.mem_cons_of_mem _ hq)

/-! ## Connecting -/

/-- Different neurons without a registered link have none in the table. -/
theorem Sound.ne_of_linkBetween? (h : c.Sound) (hne : a ≠ b) (ha : a < c.neurons.size)
    (hnone : c.linkBetween? a b = none) :
    ∀ l < c.links.size, (c.link l).source = a → (c.link l).target ≠ b := by
  intro l hl hs ht
  rw [linkBetween?, if_neg hne, List.find?_eq_none] at hnone
  have hmem : l ∈ (c.neuron a).projected := by
    rw [h.mem_projected a ha]
    exact ⟨hl, hs, fun he => hne (he.symm.trans ht)⟩
  exact hnone l hmem (by simp [ht])

theorem sound_draw (h : c.Sound) : c.draw.2.Sound := h.of_sameWiring (sameWiring_draw c)

theorem sound_connect (h : c.Sound) (ha : a < c.neurons.size) (hb : b < c.neurons.size)
    (weight : Option α) : (c.connect a b weight).2.Sound := by
  unfold connect
  split
  · exact h.of_sameWiring (sameWiring_setWeight c _ _)
  · next hne =>
    split
    · exact h.of_sameWiring (sameWiring_setWeight c _ _)
    · exact h
    · next hnone => exact sound_addLink h hne ha hb (h.ne_of_linkBetween? hne ha hnone) _
    · next hnone =>
      have hnew := h.ne_of_linkBetween? hne ha hnone
      exact sound_addLink (sound_draw h) hne ha hb hnew _

@[simp] theorem size_neurons_connect (weight : Option α) :
    (c.connect a b weight).2.neurons.size = c.neurons.size := by
  unfold connect
  split
  · rfl
  · split
    · rfl
    · rfl
    · simp
    · simp

theorem sound_connectAll {pairs : List (NeuronId × NeuronId)} (h : c.Sound)
    (hpairs : ∀ p ∈ pairs, p.1 < c.neurons.size ∧ p.2 < c.neurons.size) (weight : Option α) :
    (c.connectAll weight pairs).2.Sound := by
  induction pairs generalizing c with
  | nil => exact h
  | cons p pairs ih =>
    have hp := hpairs p List.mem_cons_self
    simp only [connectAll]
    refine ih (sound_connect h hp.1 hp.2 weight) fun q hq => ?_
    simpa using hpairs q (List.mem_cons_of_mem _ hq)

/-! ## Adding neurons and ensembles -/

theorem sound_addNeurons (h : c.Sound) (size : Nat) : (c.addNeurons size).2.Sound := by
  induction size generalizing c with
  | zero => exact h
  | succ size ih => exact ih (sound_addNeuron h)

/-- Soundness is about neurons and links alone. -/
theorem Sound.of_records {d : Circuit α} (h : c.Sound) (hneurons : d.neurons = c.neurons)
    (hlinks : d.links = c.links) : d.Sound := by
  obtain ⟨_, _, _, _, _, _, _⟩ := d
  subst hneurons hlinks
  exact ⟨h.ends_lt, h.gater_lt, h.loop_lt, h.loop_source, h.loop_target, h.eq_of_ends,
    h.mem_inputs, h.mem_projected, h.mem_gated, h.eligibility_keys, h.extended_keys,
    h.mem_extended, h.influences_keys, h.mem_influences⟩

end Circuit

end GatedNetwork
