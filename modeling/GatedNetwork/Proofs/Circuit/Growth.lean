import GatedNetwork.Proofs.Circuit.Consistent

/-!
# Circuits only grow

No request takes a neuron or an ensemble away, and none changes which neurons an ensemble lists. So
whatever refers to ensembles by their ids goes on meaning the same neurons.
-/

namespace GatedNetwork

variable {α : Type} [Arithmetic α]

namespace Circuit

/-- The second circuit has all neurons and ensembles of the first. -/
structure Grows (c d : Circuit α) : Prop where
  neurons : c.neurons.size ≤ d.neurons.size
  ensembles : ∀ e, c.hasEnsemble e = true → d.hasEnsemble e = true
  members : ∀ e, c.hasEnsemble e = true → d.members e = c.members e

namespace Grows

variable {c d e : Circuit α}

omit [Arithmetic α] in
theorem refl (c : Circuit α) : Grows c c :=
  ⟨Nat.le_refl _, fun _ h => h, fun _ _ => rfl⟩

omit [Arithmetic α] in
theorem trans (h : Grows c d) (h' : Grows d e) : Grows c e where
  neurons := Nat.le_trans h.neurons h'.neurons
  ensembles := fun x hx => h'.ensembles x (h.ensembles x hx)
  members := fun x hx => (h'.members x (h.ensembles x hx)).trans (h.members x hx)

omit [Arithmetic α] in
/-- No ensemble is made or changed and no neuron is lost. -/
theorem of_ensembles (he : d.ensembles = c.ensembles) (hn : c.neurons.size ≤ d.neurons.size) :
    Grows c d where
  neurons := hn
  ensembles := by
    intro x hx
    unfold hasEnsemble at hx ⊢
    rwa [he]
  members := by
    intro x _
    unfold Circuit.members ensemble
    rw [he]

theorem of_sameWiring (h : SameWiring c d) : Grows c d :=
  of_ensembles h.ensembles (Nat.le_of_eq h.neurons.symm)

end Grows

variable {c : Circuit α}

omit [Arithmetic α] in
/-- A new ensemble leaves the others alone. -/
theorem grows_wrap (c : Circuit α) (us : List NeuronId) : Grows c (c.wrap us).2 where
  neurons := Nat.le_refl _
  ensembles := by
    intro x hx
    rw [hasEnsemble_iff] at hx ⊢
    simp only [wrap, Array.size_push]
    lia
  members := by
    intro x hx
    rw [hasEnsemble_iff] at hx
    have hne : x ≠ c.ensembles.size := Nat.ne_of_lt hx
    simp [members, ensemble, wrap, Array.getElem?_push, hne]

omit [Arithmetic α] in
/-- What is added to the source of a projection is the projection, not a member. -/
theorem grows_addProjection (c : Circuit α) (p : Projection) : Grows c (c.addProjection p).2 where
  neurons := Nat.le_refl _
  ensembles := by
    intro x hx
    rw [hasEnsemble_iff] at hx ⊢
    simpa [addProjection] using hx
  members := by
    intro x _
    simp only [members, ensemble, addProjection, Array.getD_eq_getD_getElem?,
      Array.getElem?_modify]
    split
    · cases c.ensembles[x]? <;> rfl
    · rfl

theorem grows_performProjection (c : Circuit α) (weight : Option α) (plan : ProjectionPlan) :
    Grows c (c.performProjection weight plan).2 := by
  cases plan with
  | existing p => exact .refl c
  | new source target topology =>
    have hconnect : Grows c
        (c.connectAll weight (topology.pairs (c.members source) (c.members target))).2 :=
      .of_ensembles (ensembles_connectAll weight _) (Nat.le_of_eq (size_neurons_connectAll _ _).symm)
    exact hconnect.trans (grows_addProjection _ _)

/-- A request takes nothing away, whether it succeeds or fails. -/
theorem grows_perform (c : Circuit α) (r : Request α) : Grows c (r.perform.final c) := by
  cases r with
  | addNeuron =>
    show Grows c c.addNeuron.2
    exact .of_ensembles rfl (by simp)
  | connect a b weight =>
    simp only [Request.perform, Op.final_map]
    refine Op.checked_final (.refl c) fun _ _ => ?_
    exact .of_ensembles (ensembles_connect weight) (Nat.le_of_eq (size_neurons_connect weight).symm)
  | connectGiven source target weight =>
    simp only [Request.perform, Op.final_map]
    refine Op.checked_final (.refl c) fun _ _ => ?_
    exact .of_ensembles (ensembles_connect weight) (Nat.le_of_eq (size_neurons_connect weight).symm)
  | gateLink u l =>
    simp only [Request.perform, Op.final_map]
    refine Op.checked_final (.refl c) fun _ _ => ?_
    exact .of_ensembles ensembles_gateLink (Nat.le_of_eq size_neurons_gateLink.symm)
  | addEnsemble size =>
    have hadd : Grows c (c.addNeurons size).2 := by
      refine .of_ensembles (ensembles_addNeurons size) ?_
      rw [size_neurons_addNeurons]
      exact Nat.le_add_right _ _
    exact hadd.trans (grows_wrap _ _)
  | wrap us => exact grows_wrap c us
  | project source destination topology weight =>
    simp only [Request.perform, Op.final_map]
    exact Op.checked_final (.refl c) fun plan _ => grows_performProjection c weight plan
  | gate gater projection side =>
    simp only [Request.perform, Op.final_map]
    refine Op.checked_final (.refl c) fun plan _ => ?_
    exact .of_ensembles (ensembles_gateAll plan) (Nat.le_of_eq (size_neurons_gateAll plan).symm)
  | _ => exact .of_sameWiring (sameWiring_perform c rfl)

end Circuit

end GatedNetwork
