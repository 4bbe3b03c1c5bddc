import GatedNetwork.Circuit.Wiring

/-!
# Reading a circuit after writing to it

What `Circuit.neuron` and `Circuit.link` answer after each primitive write. All later proofs read
circuits through these two accessors, so nothing outside this module looks at the arrays.

* one lemma per pair of a write and an accessor, tagged for `simp` where it is unconditional
* a write to one record leaves all other records alone
-/

namespace GatedNetwork

variable {α : Type} [Arithmetic α]

namespace Circuit

variable {c : Circuit α} {u v : NeuronId} {l k : LinkId}

/-! ## Which ids name something -/

omit [Arithmetic α] in
@[simp] theorem hasNeuron_iff : c.hasNeuron u = true ↔ u < c.neurons.size := by
  simp [hasNeuron]

omit [Arithmetic α] in
@[simp] theorem hasLink_iff : c.hasLink l = true ↔ l < c.links.size := by
  simp [hasLink]

omit [Arithmetic α] in
@[simp] theorem hasEnsemble_iff {e : EnsembleId} :
    c.hasEnsemble e = true ↔ e < c.ensembles.size := by
  simp [hasEnsemble]

omit [Arithmetic α] in
@[simp] theorem hasProjection_iff {p : ProjectionId} :
    c.hasProjection p = true ↔ p < c.projections.size := by
  simp [hasProjection]

/-- An id beyond the neurons reads as a fresh one. -/
theorem neuron_of_le (h : c.neurons.size ≤ u) : c.neuron u = .fresh 0 0 := by
  simp [neuron, Array.getElem?_eq_none h]
  rfl

/-- An id beyond the links reads as a plain one. -/
theorem link_of_le (h : c.links.size ≤ l) : c.link l = .plain 0 0 0 := by
  simp [link, Array.getElem?_eq_none h]
  rfl

/-! ## After `modifyNeuron` -/

omit [Arithmetic α] in
@[simp] theorem size_neurons_modifyNeuron {f : Neuron α → Neuron α} :
    (c.modifyNeuron u f).neurons.size = c.neurons.size := by
  simp [modifyNeuron]

omit [Arithmetic α] in
@[simp] theorem links_modifyNeuron {f : Neuron α → Neuron α} :
    (c.modifyNeuron u f).links = c.links := rfl

@[simp] theorem link_modifyNeuron {f : Neuron α → Neuron α} :
    (c.modifyNeuron u f).link l = c.link l := rfl

theorem neuron_modifyNeuron_self {f : Neuron α → Neuron α} (h : u < c.neurons.size) :
    (c.modifyNeuron u f).neuron u = f (c.neuron u) := by
  simp [neuron, modifyNeuron, h, Array.getElem_modify_self]

theorem neuron_modifyNeuron_ne {f : Neuron α → Neuron α} (h : v ≠ u) :
    (c.modifyNeuron u f).neuron v = c.neuron v := by
  simp [neuron, modifyNeuron, Array.getElem?_modify, h.symm]

/-- A record after a write is the old one, or the written one at the id written to. -/
theorem neuron_modifyNeuron_cases (c : Circuit α) (u : NeuronId) (f : Neuron α → Neuron α)
    (v : NeuronId) :
    (c.modifyNeuron u f).neuron v = c.neuron v ∨
      v = u ∧ u < c.neurons.size ∧ (c.modifyNeuron u f).neuron v = f (c.neuron v) := by
  by_cases hv : v = u
  · subst hv
    by_cases hu : v < c.neurons.size
    · exact Or.inr ⟨rfl, hu, neuron_modifyNeuron_self hu⟩
    · refine Or.inl ?_
      rw [neuron_of_le (Nat.le_of_not_lt hu), neuron_of_le (by simpa using hu)]
  · exact Or.inl (neuron_modifyNeuron_ne hv)

/-! ## After `modifyLink` -/

omit [Arithmetic α] in
@[simp] theorem size_links_modifyLink {f : Link α → Link α} :
    (c.modifyLink l f).links.size = c.links.size := by
  simp [modifyLink]

omit [Arithmetic α] in
@[simp] theorem neurons_modifyLink {f : Link α → Link α} :
    (c.modifyLink l f).neurons = c.neurons := rfl

@[simp] theorem neuron_modifyLink {f : Link α → Link α} :
    (c.modifyLink l f).neuron u = c.neuron u := rfl

theorem link_modifyLink_self {f : Link α → Link α} (h : l < c.links.size) :
    (c.modifyLink l f).link l = f (c.link l) := by
  simp [link, modifyLink, h, Array.getElem_modify_self]

theorem link_modifyLink_ne {f : Link α → Link α} (h : k ≠ l) :
    (c.modifyLink l f).link k = c.link k := by
  simp [link, modifyLink, Array.getElem?_modify, h.symm]

/-- After a link was changed, a link is as it was, or it is the changed one. -/
theorem link_modifyLink_cases (c : Circuit α) (l : LinkId) (f : Link α → Link α) (k : LinkId) :
    (c.modifyLink l f).link k = c.link k ∨
      k = l ∧ l < c.links.size ∧ (c.modifyLink l f).link k = f (c.link k) := by
  by_cases hk : k = l
  · subst hk
    by_cases hl : k < c.links.size
    · exact Or.inr ⟨rfl, hl, link_modifyLink_self hl⟩
    · refine Or.inl ?_
      rw [link_of_le (Nat.le_of_not_lt hl), link_of_le (by simpa using hl)]
  · exact Or.inl (link_modifyLink_ne hk)

/-! ## After a draw -/

@[simp] theorem neurons_draw : c.draw.2.neurons = c.neurons := rfl

@[simp] theorem links_draw : c.draw.2.links = c.links := rfl

@[simp] theorem ensembles_draw : c.draw.2.ensembles = c.ensembles := rfl

@[simp] theorem neuron_draw : c.draw.2.neuron u = c.neuron u := rfl

@[simp] theorem link_draw : c.draw.2.link l = c.link l := rfl

/-! ## After adding a neuron -/

@[simp] theorem size_neurons_addNeuron : c.addNeuron.2.neurons.size = c.neurons.size + 1 := by
  simp [addNeuron]

@[simp] theorem size_links_addNeuron : c.addNeuron.2.links.size = c.links.size + 1 := by
  simp [addNeuron]

@[simp] theorem addNeuron_fst : c.addNeuron.1 = c.neurons.size := rfl

/-- A new neuron is fresh, with the number drawn for it as its bias and the next link as its loop. -/
theorem neuron_addNeuron :
    c.addNeuron.2.neuron u =
      if u = c.neurons.size then .fresh c.draw.1 c.links.size else c.neuron u := by
  simp only [neuron, addNeuron, neurons_draw, links_draw, Array.getD_eq_getD_getElem?,
    Array.getElem?_push]
  split <;> rfl

/-- The loop of a new neuron leads from it to itself and has weight zero. -/
theorem link_addNeuron :
    c.addNeuron.2.link l =
      if l = c.links.size then .plain c.neurons.size c.neurons.size 0 else c.link l := by
  simp only [link, addNeuron, links_draw, Array.getD_eq_getD_getElem?, Array.getElem?_push]
  split <;> rfl

/-! ## After adding a link -/

@[simp] theorem size_neurons_addLink {w : α} :
    (c.addLink u v w).2.neurons.size = c.neurons.size := by
  simp [addLink, modifyNeuron]

@[simp] theorem size_links_addLink {w : α} :
    (c.addLink u v w).2.links.size = c.links.size + 1 := by
  simp [addLink]

@[simp] theorem addLink_fst {w : α} : (c.addLink u v w).1 = c.links.size := rfl

/-- A new link is plain and gets the next id. -/
theorem link_addLink {w : α} :
    (c.addLink u v w).2.link l = if l = c.links.size then .plain u v w else c.link l := by
  simp only [link, addLink, links_modifyNeuron, Array.getD_eq_getD_getElem?, Array.getElem?_push]
  split <;> rfl

/-- The target of a new link lists and watches it, and the source lists it. -/
theorem neuron_addLink {w : α} (hne : u ≠ v) (hu : u < c.neurons.size) (hv : v < c.neurons.size)
    (x : NeuronId) :
    (c.addLink u v w).2.neuron x =
      if x = v then
        { c.neuron v with
          inputs := (c.neuron v).inputs.insert c.links.size
          trace := (c.neuron v).trace.watch c.links.size }
      else if x = u then
        { c.neuron u with projected := (c.neuron u).projected.insert c.links.size }
      else c.neuron x := by
  simp only [addLink]
  split
  · next hx =>
    subst hx
    rw [neuron_modifyNeuron_self (by simpa using hv), neuron_modifyNeuron_ne (Ne.symm hne)]
    rfl
  · next hx =>
    rw [neuron_modifyNeuron_ne hx]
    split
    · next hxu =>
      subst hxu
      rw [neuron_modifyNeuron_self (by simpa using hu)]
      rfl
    · next hxu =>
      rw [neuron_modifyNeuron_ne hxu]
      rfl

/-! ## After a change of gater -/

/-- Taking a gater off changes that link only, and nothing in it but the gater. -/
theorem link_ungate (hl : l < c.links.size) (k : LinkId) :
    (c.ungate u l).link k = if k = l then { c.link l with gater := none } else c.link k := by
  simp only [ungate, link_modifyNeuron]
  split
  · next hk => rw [hk, link_modifyLink_self hl]
  · next hk => rw [link_modifyLink_ne hk]

@[simp] theorem size_neurons_ungate :
    (c.ungate u l).neurons.size = c.neurons.size := by
  simp [ungate]

@[simp] theorem size_links_ungate : (c.ungate u l).links.size = c.links.size := by
  simp [ungate]

theorem neuron_ungate_ne (hv : v ≠ u) : (c.ungate u l).neuron v = c.neuron v := by
  simp only [ungate]
  rw [neuron_modifyNeuron_ne hv, neuron_modifyLink]

/-- Setting a gater changes that link only, and nothing in it but the gater. -/
theorem link_addGater (hl : l < c.links.size) (k : LinkId) :
    (c.addGater u l).link k = if k = l then { c.link l with gater := some u } else c.link k := by
  simp only [addGater]
  by_cases hk : k = l
  · rw [if_pos hk, hk, link_modifyLink_self (by simpa using hl)]
    rfl
  · rw [if_neg hk, link_modifyLink_ne hk]
    rfl

@[simp] theorem size_neurons_addGater :
    (c.addGater u l).neurons.size = c.neurons.size := by
  simp [addGater]

@[simp] theorem size_links_addGater : (c.addGater u l).links.size = c.links.size := by
  simp [addGater]

theorem neuron_addGater_ne (hv : v ≠ u) : (c.addGater u l).neuron v = c.neuron v := by
  simp only [addGater, neuron_modifyLink]
  rw [neuron_modifyNeuron_ne hv]

/-- A link takes its new gater, whether it had one before or not. -/
theorem link_gateLink (hl : l < c.links.size) (k : LinkId) :
    (c.gateLink u l).link k = if k = l then { c.link l with gater := some u } else c.link k := by
  unfold gateLink
  split
  · exact link_addGater hl k
  · next v hv =>
    by_cases hvu : v = u
    · rw [if_pos hvu]
      split
      · next hk => rw [hk, ← hvu, ← hv]
      · rfl
    · have hl' : l < (c.ungate v l).links.size := by rwa [size_links_ungate]
      rw [if_neg hvu, link_addGater hl', link_ungate hl]
      split
      · rw [if_pos rfl]
      · next hk => rw [link_ungate hl, if_neg hk]

/-- Two records of a neuron that differ at most in what is gated: the gated links, and the traces for
gated neurons. -/
def Regated (m n : Neuron α) : Prop :=
  ∃ (gated : IdSet) (extended : IdMap (IdMap α)) (influences : IdMap IdSet),
    n = { m with gated, trace := { m.trace with extended, influences } }

omit [Arithmetic α] in
theorem Regated.trans {m n o : Neuron α} (h : Regated m n) (h' : Regated n o) : Regated m o := by
  obtain ⟨_, _, _, rfl⟩ := h
  obtain ⟨_, _, _, rfl⟩ := h'
  exact ⟨_, _, _, rfl⟩

theorem regated_modifyNeuron (c : Circuit α) (u v : NeuronId) {f : Neuron α → Neuron α}
    (hf : ∀ n, Regated n (f n)) : Regated (c.neuron v) ((c.modifyNeuron u f).neuron v) := by
  rcases neuron_modifyNeuron_cases c u f v with he | ⟨-, -, he⟩
  · exact ⟨_, _, _, he⟩
  · rw [he]
    exact hf _

theorem regated_ungate (c : Circuit α) (u : NeuronId) (l : LinkId) (v : NeuronId) :
    Regated (c.neuron v) ((c.ungate u l).neuron v) := by
  refine regated_modifyNeuron (c.modifyLink l _) u v fun n => ?_
  dsimp only
  split
  · exact ⟨_, _, _, rfl⟩
  · exact ⟨_, _, _, rfl⟩

theorem regated_addGater (c : Circuit α) (u : NeuronId) (l : LinkId) (v : NeuronId) :
    Regated (c.neuron v) ((c.addGater u l).neuron v) :=
  regated_modifyNeuron c u v fun _ => ⟨_, _, _, rfl⟩

theorem regated_gateLink (c : Circuit α) (u : NeuronId) (l : LinkId) (v : NeuronId) :
    Regated (c.neuron v) ((c.gateLink u l).neuron v) := by
  unfold gateLink
  split
  · exact regated_addGater c u l v
  · next w _ =>
    split
    · exact ⟨_, _, _, rfl⟩
    · exact (regated_ungate c w l v).trans (regated_addGater (c.ungate w l) u l v)

/-! ## Connecting with a weight -/

/-- To connect a neuron with itself is to set the weight of its loop. -/
theorem connect_loop (c : Circuit α) (u : NeuronId) (w : α) :
    c.connect u u (some w) = ((c.neuron u).loop, c.setWeight (c.neuron u).loop w) := by
  unfold connect
  rw [if_pos rfl]
  rfl

/-- To connect neurons without a link between them is to add one. -/
theorem connect_new (hne : u ≠ v) (hnone : c.linkBetween? u v = none) (w : α) :
    c.connect u v (some w) = c.addLink u v w := by
  unfold connect
  rw [if_neg hne, hnone]

end Circuit

end GatedNetwork
