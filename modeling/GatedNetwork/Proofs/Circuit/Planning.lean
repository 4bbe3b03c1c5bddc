import GatedNetwork.Proofs.Circuit.Charted
import GatedNetwork.Proofs.Circuit.Copy

/-!
# What a request for a projection amounts to

A request to project is decided before anything is done, and there are three ways out: a projection of
the topology asked for, any projection between the two ensembles if all links asked for are there, or a
new one. `Circuit.Planned` names them.

* `planned_of_planBetween`, `exists_planBetween` — the decision is one of the three, and is reached
* `findProjection?_of_extends`, `Asks.later` — what is found and what is asked for stay the same
* `project_eq_ok` — which projection answers a request that succeeds
-/

namespace GatedNetwork

variable {α : Type} [Arithmetic α]

namespace Circuit

variable {c d : Circuit α} {source target : EnsembleId} {destination : Destination}
  {given : Option Topology} {topology : Topology} {g : ProjectionId}

/-! ## Finding a projection -/

omit [Arithmetic α] in
/-- The first of the projections that qualify is found. -/
theorem findProjection?_eq_some_iff {q : Projection → Bool} {p : ProjectionId} :
    c.findProjection? source target q = some p ↔
      (p < c.projections.size ∧ ((c.projection p).source = source ∧
        (c.projection p).target = target ∧ q (c.projection p) = true)) ∧
      ∀ i < p, ¬ ((c.projection i).source = source ∧ (c.projection i).target = target ∧
        q (c.projection i) = true) := by
  have hread : ∀ i (hi : i < c.projections.size), c.projections[i] = c.projection i :=
    fun i hi => by simp [projection, hi]
  rw [findProjection?, Array.findIdx?_eq_some_iff_getElem]
  constructor
  · rintro ⟨hp, hq, hfirst⟩
    rw [hread p hp] at hq
    simp only [Bool.and_eq_true, beq_iff_eq, and_assoc] at hq
    refine ⟨⟨hp, hq⟩, fun i hi => ?_⟩
    have hearlier := hfirst i hi
    rw [hread i (Nat.lt_trans hi hp)] at hearlier
    simpa only [Bool.and_eq_true, beq_iff_eq, and_assoc] using hearlier
  · rintro ⟨⟨hp, hq⟩, hfirst⟩
    refine ⟨hp, ?_, fun i hi => ?_⟩
    · rw [hread p hp]
      simpa only [Bool.and_eq_true, beq_iff_eq, and_assoc] using hq
    · rw [hread i (Nat.lt_trans hi hp)]
      simpa only [Bool.and_eq_true, beq_iff_eq, and_assoc] using hfirst i hi

/-- Later projections come after those that are there, and gatings do not count: the projection that is
found stays the one that is found. -/
theorem findProjection?_of_extends (h : Extends c d) {q : Projection → Bool}
    (hq : ∀ p gatings, q { p with gatings } = q p) {p : ProjectionId}
    (hp : c.findProjection? source target q = some p) :
    d.findProjection? source target q = some p := by
  rw [findProjection?_eq_some_iff] at hp ⊢
  obtain ⟨⟨hlt, hqual⟩, hfirst⟩ := hp
  refine ⟨⟨Nat.lt_of_lt_of_le hlt h.projections, ?_⟩, fun i hi => ?_⟩
  · obtain ⟨gatings, he⟩ := h.projection p hlt
    rw [he, hq]
    exact hqual
  · obtain ⟨gatings, he⟩ := h.projection i (Nat.lt_trans hi hlt)
    rw [he, hq]
    exact hfirst i hi

omit [Arithmetic α] in
/-- A new projection is found if none was before. -/
theorem findProjection?_addProjection {q : Projection → Bool} {p : Projection}
    (hnone : c.findProjection? p.source p.target q = none) (hq : q p = true) :
    (c.addProjection p).2.findProjection? p.source p.target q = some c.projections.size := by
  simp only [findProjection?] at hnone
  simp [findProjection?, addProjection, Array.findIdx?_push, hnone, hq]

/-! ## Three ways out -/

/-- The three outcomes of a request for a projection. -/
inductive Planned (c : Circuit α) (source target : EnsembleId) (topology : Topology) :
    ProjectionPlan → Prop where
  /-- There is a projection of this topology. -/
  | same {p : ProjectionId} (h : c.findProjection? source target (·.topology == topology) = some p) :
      Planned c source target topology (.existing p)
  /-- There is only a projection of another topology, and all links asked for exist. -/
  | covered {p : ProjectionId}
      (hnone : c.findProjection? source target (·.topology == topology) = none)
      (hcovers : covers (c.wiring? (c.members source) (c.members target)) topology = true)
      (h : c.findProjection? source target (fun _ => true) = some p) :
      Planned c source target topology (.existing p)
  | new (hnone : c.findProjection? source target (·.topology == topology) = none) :
      Planned c source target topology (.new source target topology)

theorem planned_of_planBetween {plan : ProjectionPlan}
    (h : c.planBetween source target topology = .ok plan) :
    c.Planned source target topology plan := by
  unfold planBetween at h
  split at h
  · next p hp =>
    cases h
    exact .same hp
  · next hnone =>
    obtain ⟨_, -, h⟩ := bind_eq_ok_iff.mp h
    simp only at h
    split at h
    · next p hp =>
      cases h
      split at hp
      · next hcovers => exact .covered hnone hcovers hp
      · cases hp
    · obtain ⟨_, -, h⟩ := bind_eq_ok_iff.mp h
      obtain ⟨_, -, h⟩ := bind_eq_ok_iff.mp h
      cases h
      exact .new hnone

theorem planBetween_of_find {p : ProjectionId}
    (h : c.findProjection? source target (·.topology == topology) = some p) :
    c.planBetween source target topology = .ok (.existing p) := by
  unfold planBetween
  rw [h]
  rfl

omit [Arithmetic α] in
/-- A survey of neurons that exist passes its check. -/
theorem requireSurvey_ok {here : List NeuronId} (hhere : ∀ u ∈ here, u < c.neurons.size)
    (there : List NeuronId) : c.requireSurvey here there = .ok () := by
  unfold requireSurvey
  split
  · rfl
  · exact requireNeurons_eq_ok_iff.mpr hhere

/-- Between ensembles whose members exist, the decision is reached. -/
theorem exists_planBetween (hs : ∀ u ∈ c.members source, u < c.neurons.size)
    (ht : ∀ u ∈ c.members target, u < c.neurons.size) (topology : Topology) :
    ∃ plan, c.planBetween source target topology = .ok plan := by
  have hsurvey := requireSurvey_ok hs (c.members target)
  have hfirst : c.requireNeurons
      ((topology.pairs (c.members source) (c.members target)).map (·.1)) = .ok () := by
    refine requireNeurons_eq_ok_iff.mpr fun u hu => ?_
    obtain ⟨p, hp, rfl⟩ := List.mem_map.mp hu
    exact hs _ (Topology.mem_of_mem_pairs hp).1
  have hsecond : c.requireNeurons
      ((topology.pairs (c.members source) (c.members target)).map (·.2)) = .ok () := by
    refine requireNeurons_eq_ok_iff.mpr fun u hu => ?_
    obtain ⟨p, hp, rfl⟩ := List.mem_map.mp hu
    exact ht _ (Topology.mem_of_mem_pairs hp).2
  unfold planBetween
  split
  · exact ⟨_, rfl⟩
  · simp only [hsurvey, hfirst, hsecond, bind, Except.bind]
    split
    · exact ⟨_, rfl⟩
    · exact ⟨_, rfl⟩

/-! ## What is asked for stays the same -/

omit [Arithmetic α] in
theorem entrance_of_identity (h : d.identity = c.identity) (destination : Destination) :
    d.entrance destination = c.entrance destination := by
  cases destination with
  | ensemble e => rfl
  | layers layers => simp only [entrance, h]

omit [Arithmetic α] in
theorem Asks.later (h : c.Asks source destination given target topology)
    (hid : d.identity = c.identity) (hg : Grows c d) :
    d.Asks source destination given target topology where
  hasSource := hg.ensembles source h.hasSource
  resolved := by
    obtain ⟨hentrance, htarget⟩ := resolve_eq_ok_iff.mp h.resolved
    refine resolve_eq_ok_iff.mpr ⟨?_, hg.ensembles target htarget⟩
    rwa [entrance_of_identity hid]
  chosen := h.chosen
  sizes := by
    intro hone
    obtain ⟨-, htarget⟩ := resolve_eq_ok_iff.mp h.resolved
    rw [hg.members source h.hasSource, hg.members target htarget]
    exact h.sizes hone

/-! ## What is covered -/

/-- If all links asked for are counted, each pair has one. -/
theorem allLinked_of_covers {here there : List NeuronId}
    (h : covers (c.wiring? here there) topology = true) :
    c.allLinked (topology.pairs here there) = true := by
  unfold wiring? at h
  split at h
  · next hall =>
    refine List.all_eq_true.mpr fun p hp => ?_
    exact List.all_eq_true.mp hall p (Topology.mem_pairs_allToAll.mpr (Topology.mem_of_mem_pairs hp))
  · split at h
    · next hone =>
      -- one link each is all there is to ask for only if no more is asked for
      cases topology with
      | oneToOne => exact (Bool.and_eq_true_iff.mp hone).2
      | allToAll => cases h
      | allToElse => cases h
    · cases topology <;> cases h

theorem joined_of_allLinked (h : c.Sound) (hs : ∀ u ∈ c.members source, u < c.neurons.size)
    (hall : c.allLinked (topology.pairs (c.members source) (c.members target)) = true) :
    ∀ p ∈ topology.pairs (c.members source) (c.members target), c.Joined p := by
  intro p hp
  have hlt := hs _ (Topology.mem_of_mem_pairs hp).1
  exact joined_of_linkBetween? h hlt (List.all_eq_true.mp hall p hp)

/-! ## Requests that succeed -/

/-- What is planned is done. -/
theorem project_of_plan {plan : ProjectionPlan}
    (h : c.planProjection source destination given = .ok plan) (weight : Option α) :
    Edit.project source destination given weight c =
      .ok (c.performProjection weight plan).1 (c.performProjection weight plan).2 :=
  Op.checked_of_ok plan h

/-- A new projection is the one that is found from then on. -/
theorem findProjection?_performProjection
    (hnone : c.findProjection? source target (·.topology == topology) = none) (weight : Option α) :
    (c.performProjection weight (.new source target topology)).2.findProjection? source target
        (·.topology == topology) =
      some (c.performProjection weight (.new source target topology)).1 := by
  refine findProjection?_addProjection ?_ (beq_self_eq_true topology)
  rw [findProjection?, projections_connectAll]
  exact hnone

/-- What a successful request leaves is what the request makes of the circuit. -/
theorem final_project {weight : Option α}
    (h : Edit.project source destination given weight c = .ok g d) :
    (Request.project source destination given weight).perform.final c = d := by
  simp only [Request.perform, Op.final_map, Op.final_of_ok h]

/-- The projection that answers a request is the first one of the topology asked for, as things are
then; or else there is none, and nothing has changed because all links asked for were there. -/
theorem project_eq_ok {weight : Option α}
    (h : Edit.project source destination given weight c = .ok g d) :
    ∃ target topology, c.Asks source destination given target topology ∧
      d.Asks source destination given target topology ∧
      (d.findProjection? source target (·.topology == topology) = some g ∨
        d = c ∧ c.planProjection source destination given = .ok (.existing g) ∧
          c.findProjection? source target (·.topology == topology) = none ∧
          c.allLinked (topology.pairs (c.members source) (c.members target)) = true ∧
          c.findProjection? source target (fun _ => true) = some g) := by
  obtain ⟨plan, hplan, hdone⟩ := Op.checked_eq_ok h
  obtain ⟨target, topology, hasks, hbetween⟩ := planProjection_eq_ok_iff.mp hplan
  refine ⟨target, topology, hasks, ?_⟩
  cases planned_of_planBetween hbetween with
  | same hp =>
    cases hdone
    exact ⟨hasks, .inl hp⟩
  | covered hnone hcovers hp =>
    cases hdone
    exact ⟨hasks, .inr ⟨rfl, hplan, hnone, allLinked_of_covers hcovers, hp⟩⟩
  | new hnone =>
    have hfound := findProjection?_performProjection hnone weight
    rw [hdone] at hfound
    rw [← final_project h] at hfound ⊢
    exact ⟨hasks.later (identity_perform _ c) (grows_perform c _), .inl hfound⟩

end Circuit

end GatedNetwork
