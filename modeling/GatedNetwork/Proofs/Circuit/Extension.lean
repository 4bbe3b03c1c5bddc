import GatedNetwork.Proofs.Circuit.Growth

/-!
# What is never taken back

A link keeps its two ends for ever, and a projection its ends, its topology and its links; only gatings
are added to it. `Circuit.Extends` says so of a circuit and what it was before, as `Circuit.Grows` does
for neurons and ensembles. Neither needs the circuit to be sound.

* `extends_perform`, `extends_performAll` — every request extends a circuit, and so do several
* `ends_addProjection`, `projection_addProjection`, `projection_recordGating` — reading what is recorded
-/

namespace GatedNetwork

variable {α : Type} [Arithmetic α]

namespace Circuit

/-- The neurons at which a link starts and ends. -/
def ends (c : Circuit α) (l : LinkId) : NeuronId × NeuronId := ((c.link l).source, (c.link l).target)

/-- The second circuit has all links and projections of the first, with their ends and their lists. -/
structure Extends (c d : Circuit α) : Prop where
  links : c.links.size ≤ d.links.size
  ends : ∀ l < c.links.size, d.ends l = c.ends l
  projections : c.projections.size ≤ d.projections.size
  projection : ∀ p < c.projections.size, ∃ gatings, d.projection p = { c.projection p with gatings }

namespace Extends

variable {c d e : Circuit α}

theorem refl (c : Circuit α) : Extends c c :=
  ⟨Nat.le_refl _, fun _ _ => rfl, Nat.le_refl _, fun _ _ => ⟨_, rfl⟩⟩

theorem trans (h : Extends c d) (h' : Extends d e) : Extends c e where
  links := Nat.le_trans h.links h'.links
  ends := by
    intro l hl
    rw [h'.ends l (Nat.lt_of_lt_of_le hl h.links), h.ends l hl]
  projections := Nat.le_trans h.projections h'.projections
  projection := by
    intro p hp
    obtain ⟨gatings, hd⟩ := h.projection p hp
    obtain ⟨gatings', he⟩ := h'.projection p (Nat.lt_of_lt_of_le hp h.projections)
    exact ⟨gatings', by rw [he, hd]⟩

/-- No projection is made or changed. -/
theorem of_projections (hp : d.projections = c.projections) (hlinks : c.links.size ≤ d.links.size)
    (hends : ∀ l < c.links.size, d.ends l = c.ends l) : Extends c d where
  links := hlinks
  ends := hends
  projections := Nat.le_of_eq (congrArg Array.size hp.symm)
  projection := by
    intro p _
    refine ⟨(c.projection p).gatings, ?_⟩
    simp only [Circuit.projection, hp]

/-- A circuit with the same wiring extends the other one. -/
theorem of_sameWiring (h : SameWiring c d) : Extends c d := by
  refine of_projections h.projections (Nat.le_of_eq h.links.symm) fun l _ => ?_
  rw [Circuit.ends, h.source, h.target]
  rfl

end Extends

variable {c : Circuit α} {u : NeuronId} {l : LinkId}

/-! ## Links and gaters -/

theorem extends_addLink (c : Circuit α) (a b : NeuronId) (w : α) :
    Extends c (c.addLink a b w).2 := by
  refine .of_projections rfl (by simp) fun l hl => ?_
  rw [ends, link_addLink, if_neg (Nat.ne_of_lt hl)]
  rfl

/-- Connecting takes no link away, and moves no end of one. -/
theorem extends_connect (c : Circuit α) (a b : NeuronId) (weight : Option α) :
    Extends c (c.connect a b weight).2 := by
  unfold connect
  split
  · exact .of_sameWiring (sameWiring_setWeight c _ _)
  · split
    · exact .of_sameWiring (sameWiring_setWeight c _ _)
    · exact .refl c
    · exact extends_addLink c _ _ _
    · exact (Extends.of_sameWiring (sameWiring_draw c)).trans (extends_addLink _ _ _ _)

theorem extends_connectAll (c : Circuit α) (weight : Option α) (pairs : List (NeuronId × NeuronId)) :
    Extends c (c.connectAll weight pairs).2 := by
  induction pairs generalizing c with
  | nil => exact .refl c
  | cons p pairs ih => exact (extends_connect c p.1 p.2 weight).trans (ih _)

theorem ends_modifyLink (c : Circuit α) (l : LinkId) {f : Link α → Link α}
    (hs : ∀ k, (f k).source = k.source) (ht : ∀ k, (f k).target = k.target) (k : LinkId) :
    (c.modifyLink l f).ends k = c.ends k := by
  rcases link_modifyLink_cases c l f k with h | ⟨-, -, h⟩
  · rw [ends, h, ends]
  · rw [ends, h, hs, ht, ends]

theorem ends_ungate (c : Circuit α) (u : NeuronId) (l k : LinkId) :
    (c.ungate u l).ends k = c.ends k :=
  ends_modifyLink (f := fun j => { j with gater := none }) c l (fun _ => rfl) (fun _ => rfl) k

theorem ends_addGater (c : Circuit α) (u : NeuronId) (l k : LinkId) :
    (c.addGater u l).ends k = c.ends k :=
  ends_modifyLink (f := fun j => { j with gater := some u }) (c.modifyNeuron u _) l
    (fun _ => rfl) (fun _ => rfl) k

/-- Gating moves no end of a link. -/
theorem ends_gateLink (c : Circuit α) (u : NeuronId) (l k : LinkId) :
    (c.gateLink u l).ends k = c.ends k := by
  unfold gateLink
  split
  · exact ends_addGater c u l k
  · split
    · rfl
    · rw [ends_addGater, ends_ungate]

theorem ends_gateAll (c : Circuit α) (plan : List (NeuronId × LinkId)) (k : LinkId) :
    (c.gateAll plan).ends k = c.ends k := by
  induction plan generalizing c with
  | nil => rfl
  | cons q plan ih => exact (ih _).trans (ends_gateLink c q.1 q.2 k)

theorem extends_gateLink (c : Circuit α) (u : NeuronId) (l : LinkId) : Extends c (c.gateLink u l) :=
  .of_projections projections_gateLink (Nat.le_of_eq size_links_gateLink.symm)
    fun k _ => ends_gateLink c u l k

theorem extends_gateAll (c : Circuit α) (plan : List (NeuronId × LinkId)) :
    Extends c (c.gateAll plan) :=
  .of_projections (projections_gateAll plan) (Nat.le_of_eq (size_links_gateAll plan).symm)
    fun k _ => ends_gateAll c plan k

/-! ## Neurons -/

/-- A new neuron comes with a link, its loop. -/
theorem extends_addNeuron (c : Circuit α) : Extends c c.addNeuron.2 := by
  refine .of_projections rfl (by simp) fun l hl => ?_
  rw [ends, link_addNeuron, if_neg (Nat.ne_of_lt hl)]
  rfl

theorem extends_addNeurons (c : Circuit α) (size : Nat) : Extends c (c.addNeurons size).2 := by
  induction size generalizing c with
  | zero => exact .refl c
  | succ size ih => exact (extends_addNeuron c).trans (ih _)

/-! ## Records of projections -/

@[simp] theorem ends_addProjection (c : Circuit α) (p : Projection) (l : LinkId) :
    (c.addProjection p).2.ends l = c.ends l := rfl

omit [Arithmetic α] in
/-- A new projection gets the next id. -/
theorem projection_addProjection (c : Circuit α) (p : Projection) (q : ProjectionId) :
    (c.addProjection p).2.projection q =
      if q = c.projections.size then p else c.projection q := by
  simp only [projection, addProjection, Array.getD_eq_getD_getElem?, Array.getElem?_push]
  split <;> rfl

theorem extends_addProjection (c : Circuit α) (p : Projection) :
    Extends c (c.addProjection p).2 where
  links := Nat.le_refl _
  ends := fun _ _ => rfl
  projections := by simp [addProjection]
  projection := by
    intro q hq
    rw [projection_addProjection, if_neg (Nat.ne_of_lt hq)]
    exact ⟨_, rfl⟩

omit [Arithmetic α] in
/-- A gating is recorded at the end of its projection. -/
theorem projection_recordGating {p : ProjectionId} (hp : p < c.projections.size) (r : GateRecord)
    (q : ProjectionId) :
    (c.recordGating p r).projection q =
      if q = p then { c.projection p with gatings := (c.projection p).gatings ++ [r] }
      else c.projection q := by
  simp only [projection, recordGating, Array.getD_eq_getD_getElem?, Array.getElem?_modify]
  by_cases hq : q = p
  · subst hq
    simp [hp]
  · simp [hq, Ne.symm hq]

theorem extends_recordGating (c : Circuit α) (p : ProjectionId) (r : GateRecord) :
    Extends c (c.recordGating p r) where
  links := Nat.le_refl _
  ends := fun _ _ => rfl
  projections := by simp [recordGating]
  projection := by
    intro q hq
    by_cases hp : p < c.projections.size
    · rw [projection_recordGating hp]
      split
      · next h => exact ⟨_, by rw [h]⟩
      · exact ⟨_, rfl⟩
    · have hqp : p ≠ q := fun h => hp (h ▸ hq)
      refine ⟨(c.projection q).gatings, ?_⟩
      simp only [projection, recordGating, Array.getD_eq_getD_getElem?, Array.getElem?_modify,
        if_neg hqp]

/-- Projecting takes nothing away. -/
theorem extends_performProjection (c : Circuit α) (weight : Option α) (plan : ProjectionPlan) :
    Extends c (c.performProjection weight plan).2 := by
  cases plan with
  | existing p => exact .refl c
  | new source target topology =>
    exact (extends_connectAll c weight _).trans (extends_addProjection _ _)

/-! ## Every request -/

/-- A request takes no link and no projection back, whether it succeeds or fails. -/
theorem extends_perform (c : Circuit α) (r : Request α) : Extends c (r.perform.final c) := by
  cases r with
  | addNeuron => exact extends_addNeuron c
  | connect a b weight =>
    simp only [Request.perform, Op.final_map]
    exact Op.checked_final (.refl c) fun _ _ => extends_connect c a b weight
  | connectGiven source target weight =>
    simp only [Request.perform, Op.final_map]
    exact Op.checked_final (.refl c) fun pair _ => extends_connect c pair.1 pair.2 weight
  | gateLink u l =>
    simp only [Request.perform, Op.final_map]
    exact Op.checked_final (.refl c) fun _ _ => extends_gateLink c u l
  | addEnsemble size =>
    exact (extends_addNeurons c size).trans (.of_projections rfl (Nat.le_refl _) fun _ _ => rfl)
  | wrap us => exact .of_projections rfl (Nat.le_refl _) fun _ _ => rfl
  | project source destination topology weight =>
    simp only [Request.perform, Op.final_map]
    exact Op.checked_final (.refl c) fun plan _ => extends_performProjection c weight plan
  | gate gater projection side =>
    simp only [Request.perform, Op.final_map]
    refine Op.checked_final (.refl c) fun plan _ => ?_
    exact (extends_gateAll c plan).trans (extends_recordGating _ _ _)
  | _ => exact .of_sameWiring (sameWiring_perform c rfl)

/-- No number of requests takes anything away. -/
theorem extends_performAll (c : Circuit α) (rs : List (Request α)) : Extends c (c.performAll rs) := by
  induction rs generalizing c with
  | nil => exact .refl c
  | cons r rs ih => exact (extends_perform c r).trans (ih _)

theorem grows_performAll (c : Circuit α) (rs : List (Request α)) : Grows c (c.performAll rs) := by
  induction rs generalizing c with
  | nil => exact .refl c
  | cons r rs ih => exact (grows_perform c r).trans (ih _)

end Circuit

end GatedNetwork
