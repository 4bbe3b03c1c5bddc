import GatedNetwork.Proofs.Circuit.Planning

/-!
# Projecting again

A request to project that has succeeded once succeeds again, at once and after whatever else is done to
the circuit. At once it answers the same projection and changes nothing. Later it may have to make a
projection, if it was answered before by one of another topology and loops have been switched off since;
but it makes no link.

* `project_later` — a projection of the topology asked for is answered for ever
* `project_again` — all repetitions of a request
-/

namespace GatedNetwork

variable {α : Type} [Arithmetic α]

namespace Circuit

variable {c d : Circuit α} {source target : EnsembleId} {destination : Destination}
  {given : Option Topology} {topology : Topology}

/-- A projection of the topology asked for is answered for ever. -/
theorem project_later (h : c.Asks source destination given target topology) {p : ProjectionId}
    (hp : c.findProjection? source target (·.topology == topology) = some p)
    (hid : d.identity = c.identity) (hg : Grows c d) (he : Extends c d) (weight : Option α) :
    Edit.project source destination given weight d = .ok p d := by
  have hfound := findProjection?_of_extends he (fun _ _ => rfl) hp
  have hplan : d.planProjection source destination given = .ok (.existing p) :=
    planProjection_eq_ok_iff.mpr ⟨target, topology, h.later hid hg, planBetween_of_find hfound⟩
  exact project_of_plan hplan weight

/-! ## No link is made twice -/

theorem size_links_performProjection_of_joined (h : c.Sound)
    (hpairs : ∀ p ∈ topology.pairs (c.members source) (c.members target),
      p.1 < c.neurons.size ∧ p.2 < c.neurons.size)
    (hj : ∀ p ∈ topology.pairs (c.members source) (c.members target), c.Joined p)
    (weight : Option α) {plan : ProjectionPlan} (hplan : c.Planned source target topology plan) :
    (c.performProjection weight plan).2.links.size = c.links.size := by
  cases hplan with
  | same _ => rfl
  | covered _ _ _ => rfl
  | new _ => exact size_links_connectAll_of_joined h hpairs hj weight

/-- Once all pairs asked for are joined, a request succeeds and makes no link, whatever else is done
first. -/
theorem exists_project_of_joined (h : c.Whole)
    (hasks : c.Asks source destination given target topology)
    (hj : ∀ p ∈ topology.pairs (c.members source) (c.members target), c.Joined p)
    (rs : List (Request α)) (weight : Option α) :
    ∃ g e, Edit.project source destination given weight (c.performAll rs) = .ok g e ∧
      e.links.size = (c.performAll rs).links.size := by
  have hg := grows_performAll c rs
  have hsource := hg.members source hasks.hasSource
  have htarget := hg.members target (resolve_eq_ok_iff.mp hasks.resolved).2
  have hs : ∀ u ∈ c.members source, u < (c.performAll rs).neurons.size :=
    fun u hu => Nat.lt_of_lt_of_le (h.peopled.members_lt source u hu) hg.neurons
  have ht : ∀ u ∈ c.members target, u < (c.performAll rs).neurons.size :=
    fun u hu => Nat.lt_of_lt_of_le (h.peopled.members_lt target u hu) hg.neurons
  rw [← hsource] at hs
  rw [← htarget] at ht
  rw [← hsource, ← htarget] at hj
  obtain ⟨plan, hplan⟩ := exists_planBetween hs ht topology
  have hlater := hasks.later (identity_performAll rs c) hg
  have hok := project_of_plan (planProjection_eq_ok_iff.mpr ⟨_, _, hlater, hplan⟩) weight
  refine ⟨_, _, hok, ?_⟩
  refine size_links_performProjection_of_joined (consistent_performAll h.consistent rs).sound ?_ ?_
    weight (planned_of_planBetween hplan)
  · intro p hp
    obtain ⟨h₁, h₂⟩ := Topology.mem_of_mem_pairs hp
    exact ⟨hs _ h₁, ht _ h₂⟩
  · exact fun p hp => (hj p hp).of_extends (extends_performAll c rs)

/-! ## Repetitions -/

/-- A request to project that has succeeded answers the same projection and changes nothing if it is
repeated at once, with any weight. Repeated after any other requests, it succeeds and makes no link; and
a projection that was new the first time is answered again and nothing changes. -/
theorem project_again (h : c.Reachable) {weight : Option α} {g : ProjectionId}
    (hok : Edit.project source destination given weight c = .ok g d) :
    (∀ weight', Edit.project source destination given weight' d = .ok g d) ∧
      ∀ (rs : List (Request α)) (weight' : Option α), ∃ g' e,
        Edit.project source destination given weight' (d.performAll rs) = .ok g' e ∧
          e.links.size = (d.performAll rs).links.size ∧
          (c.hasProjection g = false → g' = g ∧ e = d.performAll rs) := by
  obtain ⟨target, topology, hasks, hasks', hfound | ⟨rfl, hplan, -, hall, hp⟩⟩ := project_eq_ok hok
  -- whatever comes later finds the projection of the topology asked for
  · have hlater : ∀ rs weight', Edit.project source destination given weight' (d.performAll rs) =
        .ok g (d.performAll rs) :=
      fun rs => project_later hasks' hfound (identity_performAll rs d) (grows_performAll d rs)
        (extends_performAll d rs)
    exact ⟨hlater [], fun rs weight' => ⟨_, _, hlater rs weight', rfl, fun _ => ⟨rfl, rfl⟩⟩⟩
  · have hwhole := whole_of_reachable h
    have hjoined := joined_of_allLinked hwhole.consistent.sound (hwhole.peopled.members_lt source) hall
    refine ⟨project_of_plan hplan, fun rs weight' => ?_⟩
    obtain ⟨g', e, hok', hsize⟩ := exists_project_of_joined hwhole hasks hjoined rs weight'
    refine ⟨g', e, hok', hsize, fun hnew => ?_⟩
    have hold := hasProjection_iff.mpr (findProjection?_eq_some_iff.mp hp).1.1
    exact absurd hold (Bool.eq_false_iff.mp hnew)

/-- Two neurons that are linked to each other by a projection, and to themselves by hand. -/
def knotted : Circuit Int := performAll (.empty 0 ⟨7, 2, 1⟩)
  [.addEnsemble 2, .project 0 (.ensemble 0) (some .allToElse) none, .connect 0 0 none,
    .connect 1 1 none]

/-- A request for all links is answered by the projection that lists two of them. With a loop switched
off, it is answered by a new projection, and there are four links still. -/
theorem project_again_knotted :
    knotted.Reachable ∧
      (∀ weight, Edit.project 0 (.ensemble 0) (some .allToAll) weight knotted = .ok 0 knotted) ∧
      ∃ e, Edit.project 0 (.ensemble 0) (some .allToAll) none
          (knotted.performAll [.setNumber (.weight 0) 0]) = .ok 1 e ∧
        knotted.links.size = 4 ∧ e.links.size = 4 := by
  have h : knotted.Reachable :=
    reachable_performAll (.new 0 ⟨7, 2, 1⟩) (by simp [Request.Grounded])
  have hanswer : (Edit.project 0 (.ensemble 0) (some .allToAll) none).answer knotted = .ok 0 := by
    decide +kernel
  have hkept : (Edit.project 0 (.ensemble 0) (some .allToAll) none).final knotted = knotted := by
    decide +kernel
  have hok := Op.ok_of_answer hanswer
  rw [hkept] at hok
  obtain ⟨hagain, hlater⟩ := project_again h hok
  obtain ⟨g, e, hlast, hsize, -⟩ := hlater [.setNumber (.weight 0) 0] none
  have hnew : (Edit.project 0 (.ensemble 0) (some .allToAll) none).answer
      (knotted.performAll [.setNumber (.weight 0) 0]) = .ok 1 := by decide +kernel
  rw [Op.answer_of_ok hlast] at hnew
  cases hnew
  exact ⟨h, hagain, e, hlast, by decide +kernel, hsize.trans (by decide +kernel)⟩

end Circuit

end GatedNetwork
