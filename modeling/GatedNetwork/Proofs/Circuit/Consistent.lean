import GatedNetwork.Proofs.Circuit.Request

/-!
# Requests keep a circuit consistent

`consistent_perform` says it for every request, whether it succeeds or fails. A request that changes
numbers only keeps the wiring; one that links or gates acts on ids its checks have found good, or on
the links of a projection, which are good because the circuit was consistent before.

`peopled_perform` adds that ensembles go on listing neurons that exist, if those wrapped by hand do.
-/

namespace GatedNetwork

variable {α : Type} [Arithmetic α]

namespace Circuit

variable {c d : Circuit α} {a b u : NeuronId} {l : LinkId}

/-! ## Ensembles and projections under changes of links -/

@[simp] theorem projections_connect (weight : Option α) :
    (c.connect a b weight).2.projections = c.projections := by
  unfold connect
  split
  · rfl
  · split <;> rfl

@[simp] theorem ensembles_connect (weight : Option α) :
    (c.connect a b weight).2.ensembles = c.ensembles := by
  unfold connect
  split
  · rfl
  · split <;> rfl

@[simp] theorem projections_gateLink : (c.gateLink u l).projections = c.projections := by
  unfold gateLink
  split
  · rfl
  · split <;> rfl

@[simp] theorem ensembles_gateLink : (c.gateLink u l).ensembles = c.ensembles := by
  unfold gateLink
  split
  · rfl
  · split <;> rfl

/-- Connecting never loses a link. -/
theorem size_links_le_connect (a b : NeuronId) (weight : Option α) :
    c.links.size ≤ (c.connect a b weight).2.links.size := by
  unfold connect
  split
  · simp [setWeight]
  · split
    · simp [setWeight]
    · exact Nat.le_refl _
    · simp
    · simp

/-- The link that connecting answers exists. -/
theorem connect_fst_lt (h : c.Sound) (ha : a < c.neurons.size) (weight : Option α) :
    (c.connect a b weight).1 < (c.connect a b weight).2.links.size := by
  unfold connect
  split
  · simpa [setWeight] using h.loop_lt a ha
  · next hne =>
    have hfound : ∀ l, c.linkBetween? a b = some l → l < c.links.size := by
      intro l hl
      rw [linkBetween?, if_neg hne] at hl
      exact ((h.mem_projected a ha l).mp (List.mem_of_find?_eq_some hl)).1
    split
    · next l w hl => simpa [setWeight] using hfound l hl
    · next l hl => exact hfound l hl
    · simp
    · simp

@[simp] theorem projections_connectAll (weight : Option α) (pairs : List (NeuronId × NeuronId)) :
    (c.connectAll weight pairs).2.projections = c.projections := by
  induction pairs generalizing c with
  | nil => rfl
  | cons p pairs ih =>
    simp only [connectAll]
    rw [ih, projections_connect]

@[simp] theorem ensembles_connectAll (weight : Option α) (pairs : List (NeuronId × NeuronId)) :
    (c.connectAll weight pairs).2.ensembles = c.ensembles := by
  induction pairs generalizing c with
  | nil => rfl
  | cons p pairs ih =>
    simp only [connectAll]
    rw [ih, ensembles_connect]

@[simp] theorem size_neurons_connectAll (weight : Option α)
    (pairs : List (NeuronId × NeuronId)) :
    (c.connectAll weight pairs).2.neurons.size = c.neurons.size := by
  induction pairs generalizing c with
  | nil => rfl
  | cons p pairs ih =>
    simp only [connectAll]
    rw [ih, size_neurons_connect]

theorem size_links_le_connectAll (weight : Option α) (pairs : List (NeuronId × NeuronId)) :
    c.links.size ≤ (c.connectAll weight pairs).2.links.size := by
  induction pairs generalizing c with
  | nil => exact Nat.le_refl _
  | cons p pairs ih =>
    simp only [connectAll]
    exact Nat.le_trans (size_links_le_connect _ _ _) ih

/-- Connecting pairs of neurons answers links that exist. -/
theorem connectAll_fst_lt {pairs : List (NeuronId × NeuronId)} (h : c.Sound)
    (hpairs : ∀ p ∈ pairs, p.1 < c.neurons.size ∧ p.2 < c.neurons.size) (weight : Option α) :
    ∀ l ∈ (c.connectAll weight pairs).1, l < (c.connectAll weight pairs).2.links.size := by
  induction pairs generalizing c with
  | nil => exact fun l hl => absurd hl List.not_mem_nil
  | cons p pairs ih =>
    have hp := hpairs p List.mem_cons_self
    have hrest : ∀ q ∈ pairs, q.1 < (c.connect p.1 p.2 weight).2.neurons.size ∧
        q.2 < (c.connect p.1 p.2 weight).2.neurons.size := by
      intro q hq
      simpa using hpairs q (List.mem_cons_of_mem _ hq)
    intro l hl
    simp only [connectAll, List.mem_cons] at hl ⊢
    rcases hl with rfl | hl
    · exact Nat.lt_of_lt_of_le (connect_fst_lt h hp.1 weight) (size_links_le_connectAll _ _)
    · exact ih (sound_connect h hp.1 hp.2 weight) hrest l hl

@[simp] theorem size_neurons_gateAll (plan : List (NeuronId × LinkId)) :
    (c.gateAll plan).neurons.size = c.neurons.size := by
  induction plan generalizing c with
  | nil => rfl
  | cons p plan ih => exact ih.trans size_neurons_gateLink

@[simp] theorem size_links_gateAll (plan : List (NeuronId × LinkId)) :
    (c.gateAll plan).links.size = c.links.size := by
  induction plan generalizing c with
  | nil => rfl
  | cons p plan ih => exact ih.trans size_links_gateLink

@[simp] theorem projections_gateAll (plan : List (NeuronId × LinkId)) :
    (c.gateAll plan).projections = c.projections := by
  induction plan generalizing c with
  | nil => rfl
  | cons p plan ih => exact ih.trans projections_gateLink

@[simp] theorem ensembles_gateAll (plan : List (NeuronId × LinkId)) :
    (c.gateAll plan).ensembles = c.ensembles := by
  induction plan generalizing c with
  | nil => rfl
  | cons p plan ih => exact ih.trans ensembles_gateLink

@[simp] theorem projections_addNeurons (size : Nat) :
    (c.addNeurons size).2.projections = c.projections := by
  induction size generalizing c with
  | zero => rfl
  | succ size ih => exact ih

@[simp] theorem ensembles_addNeurons (size : Nat) :
    (c.addNeurons size).2.ensembles = c.ensembles := by
  induction size generalizing c with
  | zero => rfl
  | succ size ih => exact ih

@[simp] theorem size_neurons_addNeurons (size : Nat) :
    (c.addNeurons size).2.neurons.size = c.neurons.size + size := by
  induction size generalizing c with
  | zero => rfl
  | succ size ih =>
    simp only [addNeurons]
    rw [ih, size_neurons_addNeuron]
    lia

theorem size_links_addNeurons (size : Nat) :
    (c.addNeurons size).2.links.size = c.links.size + size := by
  induction size generalizing c with
  | zero => rfl
  | succ size ih =>
    simp only [addNeurons]
    rw [ih, size_links_addNeuron]
    lia

/-- Adding neurons answers neurons that exist. -/
theorem addNeurons_fst_lt (size : Nat) :
    ∀ u ∈ (c.addNeurons size).1, u < (c.addNeurons size).2.neurons.size := by
  induction size generalizing c with
  | zero => exact fun u hu => absurd hu List.not_mem_nil
  | succ size ih =>
    intro u hu
    simp only [addNeurons, List.mem_cons] at hu ⊢
    rcases hu with rfl | hu
    · rw [size_neurons_addNeurons, size_neurons_addNeuron, addNeuron_fst]
      lia
    · exact ih u hu

/-! ## Consistency -/

/-- A circuit without neurons is consistent. -/
theorem consistent_empty (identity : Identity) (settings : Settings α) :
    (empty identity settings).Consistent where
  sound := sound_empty identity settings
  listed := fun p hp => absurd hp (Array.not_mem_empty p)

namespace Consistent

/-- Being consistent is a matter of wiring. -/
theorem of_sameWiring (h : c.Consistent) (hw : SameWiring c d) : d.Consistent where
  sound := h.sound.of_sameWiring hw
  listed := by
    intro p hp l hl
    rw [hw.links]
    exact h.listed p (hw.projections ▸ hp) l hl

/-- No link is lost and no projection is made or changed: then nothing needs to be listed anew. -/
theorem of_sound (h : c.Consistent) (hd : d.Sound) (hp : d.projections = c.projections)
    (hl : c.links.size ≤ d.links.size) : d.Consistent where
  sound := hd
  listed := fun p hmem l hlp => Nat.lt_of_lt_of_le (h.listed p (hp ▸ hmem) l hlp) hl

/-- A projection lists links that exist. -/
theorem links_lt (h : c.Consistent) (p : ProjectionId) :
    ∀ l ∈ (c.projection p).links, l < c.links.size := by
  intro l hl
  by_cases hp : p < c.projections.size
  · refine h.listed _ ?_ l hl
    simp [projection, hp]
  · simp only [projection, Array.getD_eq_getD_getElem?, Array.getElem?_eq_none (Nat.le_of_not_lt hp)]
      at hl
    exact absurd hl List.not_mem_nil

end Consistent

theorem consistent_wrap (h : c.Consistent) (us : List NeuronId) : (c.wrap us).2.Consistent :=
  h.of_sound (h.sound.of_records rfl rfl) rfl (Nat.le_refl _)

theorem consistent_addNeuron (h : c.Consistent) : c.addNeuron.2.Consistent :=
  h.of_sound (sound_addNeuron h.sound) rfl (by simp)

theorem consistent_addEnsemble (h : c.Consistent) (size : Nat) :
    (c.addEnsemble size).2.Consistent := by
  refine consistent_wrap (h.of_sound (sound_addNeurons h.sound size) ?_ ?_) _
  · exact projections_addNeurons size
  · rw [size_links_addNeurons]
    exact Nat.le_add_right _ _

theorem consistent_connect (h : c.Consistent) (ha : a < c.neurons.size) (hb : b < c.neurons.size)
    (weight : Option α) : (c.connect a b weight).2.Consistent :=
  h.of_sound (sound_connect h.sound ha hb weight) (projections_connect weight)
    (size_links_le_connect a b weight)

theorem consistent_gateLink (h : c.Consistent) (hu : u < c.neurons.size) (hl : l < c.links.size) :
    (c.gateLink u l).Consistent :=
  h.of_sound (sound_gateLink h.sound hu hl) projections_gateLink (by simp)

/-- A new projection lists the links that were made for it. -/
theorem consistent_performProjection (h : c.Consistent) {source target : EnsembleId}
    {topology : Topology}
    (hpairs : ∀ p ∈ topology.pairs (c.members source) (c.members target),
      p.1 < c.neurons.size ∧ p.2 < c.neurons.size) (weight : Option α) :
    (c.performProjection weight (.new source target topology)).2.Consistent := by
  simp only [performProjection, addProjection]
  constructor
  · exact (sound_connectAll h.sound hpairs weight).of_records rfl rfl
  · intro p hp l hl
    rw [Array.mem_push, projections_connectAll] at hp
    rcases hp with hp | rfl
    · exact Nat.lt_of_lt_of_le (h.listed p hp l hl) (size_links_le_connectAll weight _)
    · exact connectAll_fst_lt h.sound hpairs weight l hl

/-- A plan to gate a projection of a consistent circuit names neurons and links that exist. -/
theorem lt_of_planGating (h : c.Consistent) {gater : EnsembleId} {p : ProjectionId}
    {side : GateSide} {plan : List (NeuronId × LinkId)}
    (hplan : c.planGating gater p side = .ok plan) :
    ∀ q ∈ plan, q.1 < c.neurons.size ∧ q.2 < c.links.size := by
  obtain ⟨-, -, hgate, hgaters⟩ := planGating_eq_ok hplan
  exact fun q hq => ⟨hgaters q hq, h.links_lt p _ (mem_of_gatePlan hgate q hq).2⟩

/-- Gating what exists, and recording it, keeps a circuit consistent. -/
theorem consistent_gate (h : c.Consistent) {plan : List (NeuronId × LinkId)}
    (hplan : ∀ q ∈ plan, q.1 < c.neurons.size ∧ q.2 < c.links.size) (p : ProjectionId)
    (record : GateRecord) : ((c.gateAll plan).recordGating p record).Consistent where
  sound := (sound_gateAll h.sound hplan).of_records rfl rfl
  listed := by
    intro q hq l hl
    show l < (c.gateAll plan).links.size
    rw [size_links_gateAll]
    simp only [recordGating, projections_gateAll] at hq
    obtain ⟨i, hi, rfl⟩ := Array.mem_iff_getElem.mp hq
    rw [Array.getElem_modify] at hl
    split at hl
    · exact h.listed _ (Array.getElem_mem _) l hl
    · exact h.listed _ (Array.getElem_mem _) l hl

/-! ## Every request -/

/-- A request keeps a circuit consistent, whether it succeeds or fails. -/
theorem consistent_perform (h : c.Consistent) (r : Request α) : (r.perform.final c).Consistent := by
  cases r with
  | addNeuron => exact consistent_addNeuron h
  | connect a b weight =>
    simp only [Request.perform, Op.final_map]
    refine Op.checked_final h fun _ hok => ?_
    obtain ⟨_, ha, hb⟩ := bind_eq_ok_iff.mp hok
    exact consistent_connect h (requireNeuron_eq_ok_iff.mp ha) (requireNeuron_eq_ok_iff.mp hb) weight
  | connectGiven source target weight =>
    simp only [Request.perform, Op.final_map]
    refine Op.checked_final h fun pair hok => ?_
    split at hok
    · next a b ha hb =>
      cases hok
      have ha' := (Option.filter_eq_some_iff.mp ha).2
      have hb' := (Option.filter_eq_some_iff.mp hb).2
      exact consistent_connect h (hasNeuron_iff.mp ha') (hasNeuron_iff.mp hb') weight
    · cases hok
  | gateLink u l =>
    simp only [Request.perform, Op.final_map]
    refine Op.checked_final h fun _ hok => ?_
    obtain ⟨_, hl, hu⟩ := bind_eq_ok_iff.mp hok
    exact consistent_gateLink h (requireNeuron_eq_ok_iff.mp hu) (requireLink_eq_ok_iff.mp hl)
  | addEnsemble size => exact consistent_addEnsemble h size
  | wrap us => exact consistent_wrap h us
  | project source destination topology weight =>
    simp only [Request.perform, Op.final_map]
    refine Op.checked_final h fun plan hok => ?_
    cases plan with
    | existing p => exact h
    | new s t top =>
      obtain ⟨-, target, -, hbetween⟩ := planProjection_eq_ok hok
      exact consistent_performProjection h (pairs_lt_of_planBetween hbetween).2.2 weight
  | gate gater projection side =>
    simp only [Request.perform, Op.final_map]
    exact Op.checked_final h fun plan hok => consistent_gate h (lt_of_planGating h hok) _ _
  | _ => exact h.of_sameWiring (sameWiring_perform c rfl)

/-- Any number of requests keeps a circuit consistent. -/
theorem consistent_performAll (h : c.Consistent) (rs : List (Request α)) :
    (c.performAll rs).Consistent := by
  induction rs generalizing c with
  | nil => exact h
  | cons r rs ih => exact ih (consistent_perform h r)

/-! ## Ensembles list neurons that exist -/

omit [Arithmetic α] in
theorem peopled_empty (identity : Identity) (settings : Settings α) :
    (empty identity settings).Peopled :=
  fun e he => absurd he (Array.not_mem_empty e)

namespace Peopled

omit [Arithmetic α] in
/-- No ensemble is made or changed and no neuron is lost. -/
theorem of_grown (h : c.Peopled) (he : d.ensembles = c.ensembles)
    (hn : c.neurons.size ≤ d.neurons.size) : d.Peopled :=
  fun e hmem u hu => Nat.lt_of_lt_of_le (h e (he ▸ hmem) u hu) hn

theorem of_sameWiring (h : c.Peopled) (hw : SameWiring c d) : d.Peopled :=
  h.of_grown hw.ensembles (Nat.le_of_eq hw.neurons.symm)

omit [Arithmetic α] in
/-- Whatever an id names, its members exist. -/
theorem members_lt (h : c.Peopled) (e : EnsembleId) : ∀ u ∈ c.members e, u < c.neurons.size := by
  intro u hu
  by_cases he : e < c.ensembles.size
  · refine h (c.ensemble e) ?_ u hu
    simp [ensemble, he]
  · simp only [members, ensemble, Array.getD_eq_getD_getElem?,
      Array.getElem?_eq_none (Nat.le_of_not_lt he)] at hu
    exact absurd hu List.not_mem_nil

end Peopled

omit [Arithmetic α] in
/-- An ensemble of neurons that exist can be added. -/
theorem peopled_wrap (h : c.Peopled) {us : List NeuronId} (hus : ∀ u ∈ us, u < c.neurons.size) :
    (c.wrap us).2.Peopled := by
  intro e he
  rcases Array.mem_push.mp he with he | rfl
  · exact h e he
  · exact hus

theorem peopled_performProjection (h : c.Peopled) (weight : Option α) (plan : ProjectionPlan) :
    (c.performProjection weight plan).2.Peopled := by
  cases plan with
  | existing p => exact h
  | new source target topology =>
    intro e he u hu
    simp only [performProjection, addProjection, ensembles_connectAll] at he
    show u < (c.connectAll weight _).2.neurons.size
    rw [size_neurons_connectAll]
    obtain ⟨i, hi, rfl⟩ := Array.mem_iff_getElem.mp he
    rw [Array.getElem_modify] at hu
    split at hu
    · exact h _ (Array.getElem_mem _) u hu
    · exact h _ (Array.getElem_mem _) u hu

/-- A grounded request keeps a circuit peopled, whether it succeeds or fails. -/
theorem peopled_perform (h : c.Peopled) {r : Request α} (hr : r.Grounded c) :
    (r.perform.final c).Peopled := by
  cases r with
  | addNeuron =>
    show c.addNeuron.2.Peopled
    exact h.of_grown rfl (by simp)
  | connect a b weight =>
    simp only [Request.perform, Op.final_map]
    refine Op.checked_final h fun _ _ => ?_
    exact h.of_grown (ensembles_connect weight) (Nat.le_of_eq (size_neurons_connect weight).symm)
  | connectGiven source target weight =>
    simp only [Request.perform, Op.final_map]
    refine Op.checked_final h fun _ _ => ?_
    exact h.of_grown (ensembles_connect weight) (Nat.le_of_eq (size_neurons_connect weight).symm)
  | gateLink u l =>
    simp only [Request.perform, Op.final_map]
    refine Op.checked_final h fun _ _ => ?_
    exact h.of_grown ensembles_gateLink (Nat.le_of_eq size_neurons_gateLink.symm)
  | addEnsemble size =>
    refine peopled_wrap (h.of_grown (ensembles_addNeurons size) ?_) (addNeurons_fst_lt size)
    rw [size_neurons_addNeurons]
    exact Nat.le_add_right _ _
  | wrap us => exact peopled_wrap h hr
  | project source destination topology weight =>
    simp only [Request.perform, Op.final_map]
    exact Op.checked_final h fun plan _ => peopled_performProjection h weight plan
  | gate gater projection side =>
    simp only [Request.perform, Op.final_map]
    refine Op.checked_final h fun plan _ => ?_
    exact h.of_grown (ensembles_gateAll plan) (Nat.le_of_eq (size_neurons_gateAll plan).symm)
  | _ => exact h.of_sameWiring (sameWiring_perform c rfl)

end Circuit

end GatedNetwork
