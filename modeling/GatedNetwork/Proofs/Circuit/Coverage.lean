import GatedNetwork.Proofs.Circuit.Planning

/-!
# What the projection that answers a request lists

A request to project makes sure that all links asked for exist. The projection that answers it lists the
links of its own topology, pair by pair. That is the topology asked for, unless the links were counted and
found to be there already: then any projection between the two ensembles is taken, and it may list fewer.

* `Answers` — what is promised of the projection that answers a request
* `project_answers` — requests keep that promise
* `not_project_lists_all` — that all links asked for are listed cannot be promised
-/

namespace GatedNetwork

variable {α : Type} [Arithmetic α]

namespace Circuit

variable {c d : Circuit α} {source target : EnsembleId} {destination : Destination}
  {given : Option Topology} {topology : Topology} {g : ProjectionId}

/-- What can be said of the projection `g` of `d`, if it answers a request to wire two ensembles of `c`
by a topology and the request has made `d` of `c`. -/
structure Answers (c d : Circuit α) (source target : EnsembleId) (topology : Topology)
    (g : ProjectionId) : Prop where
  lt : g < d.projections.size
  ends : (d.projection g).source = source ∧ (d.projection g).target = target
  /-- Every link asked for exists. -/
  joined : ∀ p ∈ topology.pairs (c.members source) (c.members target), d.Joined p
  /-- One link is listed for each pair of the topology that the projection has, in row-major order. -/
  links : (d.projection g).links.map d.ends =
    (d.projection g).topology.pairs (c.members source) (c.members target)
  nodup : (c.members source).Nodup → (c.members target).Nodup → (d.projection g).links.Nodup
  /-- If that is the topology asked for, or holds all pairs, every link asked for is listed. -/
  listed : (d.projection g).topology = topology ∨ (d.projection g).topology = .allToAll →
    ∀ p ∈ topology.pairs (c.members source) (c.members target),
      ∃ l ∈ (d.projection g).links, d.ends l = p
  /-- A new projection has the topology asked for. -/
  new : c.hasProjection g = false → (d.projection g).topology = topology
  /-- Another topology is accepted only from the first projection between the two ensembles, if none has
  the topology asked for and each link asked for exists already. -/
  substitute : (d.projection g).topology ≠ topology →
    d = c ∧ c.findProjection? source target (·.topology == topology) = none ∧
      c.allLinked (topology.pairs (c.members source) (c.members target)) = true ∧
      c.findProjection? source target (fun _ => true) = some g

theorem members_of_project {weight : Option α} (hasks : c.Asks source destination given target topology)
    (hok : Edit.project source destination given weight c = .ok g d) :
    d.members source = c.members source ∧ d.members target = c.members target := by
  have hg := grows_perform c (.project source destination given weight)
  rw [final_project hok] at hg
  exact ⟨hg.members source hasks.hasSource,
    hg.members target (resolve_eq_ok_iff.mp hasks.resolved).2⟩

theorem reachable_project (h : c.Reachable) {weight : Option α}
    (hok : Edit.project source destination given weight c = .ok g d) : d.Reachable := by
  rw [← final_project hok]
  exact h.perform (.project source destination given weight) trivial

/-- A pair of the topology that a projection has is a pair of a link that it lists. -/
theorem exists_listed {ls : List LinkId} {pairs : List (NeuronId × NeuronId)}
    (h : ls.map d.ends = pairs) : ∀ p ∈ pairs, ∃ l ∈ ls, d.ends l = p := by
  rw [← h]
  exact fun p hp => List.mem_map.mp hp

/-- A request to project that succeeds is answered with a projection of the topology asked for, which
lists all links asked for; or with one of another topology, whose links need not be all. -/
theorem project_answers (h : c.Reachable) {weight : Option α}
    (hok : Edit.project source destination given weight c = .ok g d) :
    ∃ target topology, c.Asks source destination given target topology ∧
      Answers c d source target topology g := by
  obtain ⟨target, topology, hasks, -, houtcome⟩ := project_eq_ok hok
  refine ⟨target, topology, hasks, ?_⟩
  have hd := reachable_project h hok
  obtain ⟨hms, hmt⟩ := members_of_project hasks hok
  have hfound : ∃ q, d.findProjection? source target q = some g := by
    rcases houtcome with hfound | ⟨rfl, -, -, -, hfound⟩
    · exact ⟨_, hfound⟩
    · exact ⟨_, hfound⟩
  obtain ⟨q, hq⟩ := hfound
  obtain ⟨⟨hlt, hsource, htarget, -⟩, -⟩ := findProjection?_eq_some_iff.mp hq
  have hlinks : (d.projection g).links.map d.ends =
      (d.projection g).topology.pairs (c.members source) (c.members target) := by
    rw [charted_of_reachable hd g hlt, pairsOf, hsource, htarget, hms, hmt]
  have hlisted : (d.projection g).topology = topology ∨ (d.projection g).topology = .allToAll →
      ∀ p ∈ topology.pairs (c.members source) (c.members target),
        ∃ l ∈ (d.projection g).links, d.ends l = p := by
    rintro (hsame | hall) p hp
    · exact exists_listed hlinks p (hsame ▸ hp)
    · refine exists_listed hlinks p ?_
      rw [hall]
      exact Topology.mem_pairs_allToAll.mpr (Topology.mem_of_mem_pairs hp)
  have hnodup : (c.members source).Nodup → (c.members target).Nodup →
      (d.projection g).links.Nodup := by
    intro hs ht
    refine (charted_of_reachable hd).nodup_links hlt ?_ ?_
    · rwa [hsource, hms]
    · rwa [htarget, hmt]
  rcases houtcome with hfound | ⟨rfl, -, hnone, hall, hfound⟩
  · have htopology := eq_of_beq (findProjection?_eq_some_iff.mp hfound).1.2.2.2
    exact
      { lt := hlt
        ends := ⟨hsource, htarget⟩
        joined := fun p hp => by
          obtain ⟨l, hl, hp⟩ := hlisted (.inl htopology) p hp
          exact ⟨l, (consistent_of_reachable hd).links_lt g l hl, hp⟩
        links := hlinks
        nodup := hnodup
        listed := hlisted
        new := fun _ => htopology
        substitute := fun hne => absurd htopology hne }
  · exact
      { lt := hlt
        ends := ⟨hsource, htarget⟩
        joined := joined_of_allLinked (sound_of_reachable h)
          ((peopled_of_reachable h).members_lt source) hall
        links := hlinks
        nodup := hnodup
        listed := hlisted
        new := fun hnew => absurd (hasProjection_iff.mpr hlt) (Bool.eq_false_iff.mp hnew)
        substitute := fun _ => ⟨rfl, hnone, hall, hfound⟩ }

/-- Two pairs of neurons, wired one to one, and the two links across made by hand. -/
def crossed : Circuit Int := performAll (.empty 0 ⟨7, 2, 1⟩)
  [.addEnsemble 2, .addEnsemble 2, .project 0 (.ensemble 1) (some .oneToOne) none, .connect 0 3 none,
    .connect 1 2 none]

theorem reachable_crossed : crossed.Reachable :=
  reachable_performAll (.new 0 ⟨7, 2, 1⟩) (by simp [Request.Grounded])

theorem asks_crossed : crossed.Asks 0 (.ensemble 1) none 1 .allToAll where
  hasSource := by decide +kernel
  resolved := resolve_eq_ok_iff.mpr ⟨rfl, by decide +kernel⟩
  chosen := rfl
  sizes := nofun

/-- A request for all links finds them all, and is answered with the projection that lists two. -/
theorem project_crossed : Edit.project 0 (.ensemble 1) none none crossed = .ok 0 crossed := by
  have hanswer : (Edit.project 0 (.ensemble 1) none none).answer crossed = .ok 0 := by decide +kernel
  have hkept : (Edit.project 0 (.ensemble 1) none none).final crossed = crossed := by decide +kernel
  have hok := Op.ok_of_answer hanswer
  rwa [hkept] at hok

theorem project_answers_crossed :
    crossed.Reachable ∧ Edit.project 0 (.ensemble 1) none none crossed = .ok 0 crossed ∧
      ∃ target topology, crossed.Asks 0 (.ensemble 1) none target topology ∧
        Answers crossed crossed 0 target topology 0 :=
  ⟨reachable_crossed, project_crossed, project_answers reachable_crossed project_crossed⟩

/-- Not every link asked for is listed by the projection that answers. -/
theorem not_project_lists_all :
    ¬ ∀ (c d : Circuit Int) (source target : EnsembleId) (destination : Destination)
        (given : Option Topology) (topology : Topology) (weight : Option Int) (g : ProjectionId),
      c.Reachable → (c.members source).Nodup → (c.members target).Nodup →
      c.Asks source destination given target topology →
      Edit.project source destination given weight c = .ok g d →
      ∀ p ∈ topology.pairs (c.members source) (c.members target),
        ∃ l ∈ (d.projection g).links, d.ends l = p := by
  intro h
  have hlisted := h crossed crossed 0 1 (.ensemble 1) none .allToAll none 0 reachable_crossed
    (by decide +kernel) (by decide +kernel) asks_crossed project_crossed (0, 3) (by decide +kernel)
  have hmissed : ¬ ∃ l ∈ (crossed.projection 0).links, crossed.ends l = (0, 3) := by decide +kernel
  exact hmissed hlisted

end Circuit

end GatedNetwork
