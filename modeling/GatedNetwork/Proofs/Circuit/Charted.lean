import Mathlib.Data.List.Nodup
import GatedNetwork.Proofs.Circuit.Extension
import GatedNetwork.Proofs.Circuit.Reachable
import GatedNetwork.Proofs.Circuit.Whole

/-!
# Projections list the links of their pairs

A projection lists one link for each pair that its topology selects, in the order of the pairs. That is
how it is made, and neither the ends of links nor the members of ensembles change later, so it stays
true: `Circuit.Charted`.

* `ends_connectAll` — connecting pairs answers a link for each of them
* `size_links_connectAll_of_joined` — and makes none for pairs that have one already
* `charted_perform`, `charted_of_reachable` — the lists of projections are right in every circuit
-/

namespace GatedNetwork

theorem nodup_zip {β γ : Type} {xs : List β} (h : xs.Nodup) (ys : List γ) : (xs.zip ys).Nodup := by
  induction xs generalizing ys with
  | nil => exact List.nodup_nil
  | cons x xs ih =>
    obtain ⟨hx, hxs⟩ := List.nodup_cons.mp h
    cases ys with
    | nil => exact List.nodup_nil
    | cons y ys => exact List.nodup_cons.mpr ⟨fun hmem => hx (List.of_mem_zip hmem).1, ih hxs ys⟩

/-- Lists without repetitions have no pair twice. -/
theorem Topology.nodup_pairs {here there : List NeuronId} (hh : here.Nodup) (ht : there.Nodup)
    (t : Topology) : (t.pairs here there).Nodup := by
  cases t with
  | allToAll => exact hh.product ht
  | oneToOne => exact nodup_zip hh there
  | allToElse => exact (hh.product ht).filter _

variable {α : Type} [Arithmetic α]

namespace Circuit

variable {c d : Circuit α} {a b : NeuronId}

/-! ## The link that connecting answers -/

theorem lt_and_ends_of_linkBetween? (h : c.Sound) (ha : a < c.neurons.size) {l : LinkId}
    (hl : c.linkBetween? a b = some l) : l < c.links.size ∧ c.ends l = (a, b) := by
  unfold linkBetween? at hl
  split at hl
  · next hab =>
    subst hab
    split at hl
    · cases hl
      exact ⟨h.loop_lt a ha, Prod.ext (h.loop_source a ha) (h.loop_target a ha)⟩
    · cases hl
  · obtain ⟨hlt, hs, -⟩ := (h.mem_projected a ha l).mp (List.mem_of_find?_eq_some hl)
    exact ⟨hlt, Prod.ext hs (eq_of_beq (List.find?_some (p := fun l => (c.link l).target == b) hl))⟩

theorem ends_connect (h : c.Sound) (ha : a < c.neurons.size) (weight : Option α) :
    (c.connect a b weight).2.ends (c.connect a b weight).1 = (a, b) := by
  unfold connect
  split
  · next hab =>
    subst hab
    have hkept := (Extends.of_sameWiring (sameWiring_setWeight c (c.neuron a).loop
      (weight.getD 1))).ends _ (h.loop_lt a ha)
    exact hkept.trans (Prod.ext (h.loop_source a ha) (h.loop_target a ha))
  · split
    · next l w hl =>
      obtain ⟨hlt, hends⟩ := lt_and_ends_of_linkBetween? h ha hl
      exact ((Extends.of_sameWiring (sameWiring_setWeight c l w)).ends l hlt).trans hends
    · next l hl => exact (lt_and_ends_of_linkBetween? h ha hl).2
    · rw [ends, link_addLink, if_pos (addLink_fst)]
      rfl
    · rw [ends, link_addLink, if_pos (addLink_fst)]
      rfl

/-- The ends of links that exist are read alike before and after. -/
theorem Extends.map_ends (h : Extends c d) {ls : List LinkId} (hls : ∀ l ∈ ls, l < c.links.size) :
    ls.map d.ends = ls.map c.ends :=
  List.map_congr_left fun l hl => h.ends l (hls l hl)

/-- Connecting pairs answers a link for each of them, in the same order. -/
theorem ends_connectAll {pairs : List (NeuronId × NeuronId)} (h : c.Sound)
    (hpairs : ∀ p ∈ pairs, p.1 < c.neurons.size ∧ p.2 < c.neurons.size) (weight : Option α) :
    (c.connectAll weight pairs).1.map (c.connectAll weight pairs).2.ends = pairs := by
  induction pairs generalizing c with
  | nil => rfl
  | cons p pairs ih =>
    obtain ⟨hp, hrest⟩ := List.forall_mem_cons.mp hpairs
    have hsound := sound_connect h hp.1 hp.2 weight
    have hlt := connect_fst_lt h hp.1 (b := p.2) weight
    simp only [connectAll, List.map_cons]
    rw [ih hsound (by simpa using hrest),
      (extends_connectAll _ weight pairs).ends _ hlt, ends_connect h hp.1 weight]

/-! ## Pairs that are joined already -/

/-- Is there a link from one neuron to the other? A loop counts whatever its weight is. -/
def Joined (c : Circuit α) (p : NeuronId × NeuronId) : Prop := ∃ l < c.links.size, c.ends l = p

theorem Joined.of_extends {p : NeuronId × NeuronId} (h : c.Joined p) (hd : Extends c d) :
    d.Joined p := by
  obtain ⟨l, hl, hp⟩ := h
  exact ⟨l, Nat.lt_of_lt_of_le hl hd.links, (hd.ends l hl).trans hp⟩

theorem joined_of_linkBetween? (h : c.Sound) (ha : a < c.neurons.size)
    (hl : (c.linkBetween? a b).isSome = true) : c.Joined (a, b) := by
  obtain ⟨l, hl⟩ := Option.isSome_iff_exists.mp hl
  exact ⟨l, lt_and_ends_of_linkBetween? h ha hl⟩

theorem size_links_connect_of_joined (h : c.Sound) (ha : a < c.neurons.size)
    (hj : c.Joined (a, b)) (weight : Option α) :
    (c.connect a b weight).2.links.size = c.links.size := by
  unfold connect
  split
  · exact (sameWiring_setWeight c _ _).links
  · next hne =>
    obtain ⟨k, hk, hends⟩ := hj
    -- a link between different neurons is registered, so it is found
    have hfound : c.linkBetween? a b ≠ none := by
      intro hnone
      exact h.ne_of_linkBetween? hne ha hnone k hk (congrArg Prod.fst hends)
        (congrArg Prod.snd hends)
    split
    · exact (sameWiring_setWeight c _ _).links
    · rfl
    · next hnone => exact absurd hnone hfound
    · next hnone => exact absurd hnone hfound

theorem size_links_connectAll_of_joined {pairs : List (NeuronId × NeuronId)} (h : c.Sound)
    (hpairs : ∀ p ∈ pairs, p.1 < c.neurons.size ∧ p.2 < c.neurons.size)
    (hj : ∀ p ∈ pairs, c.Joined p) (weight : Option α) :
    (c.connectAll weight pairs).2.links.size = c.links.size := by
  induction pairs generalizing c with
  | nil => rfl
  | cons p pairs ih =>
    obtain ⟨hp, hrest⟩ := List.forall_mem_cons.mp hpairs
    obtain ⟨hjp, hjrest⟩ := List.forall_mem_cons.mp hj
    have hkept : ∀ q ∈ pairs, (c.connect p.1 p.2 weight).2.Joined q :=
      fun q hq => (hjrest q hq).of_extends (extends_connect c p.1 p.2 weight)
    simp only [connectAll]
    rw [ih (sound_connect h hp.1 hp.2 weight) (by simpa using hrest) hkept,
      size_links_connect_of_joined h hp.1 hjp weight]

/-! ## The lists of projections -/

/-- The pairs of neurons that a projection stands for. -/
def pairsOf (c : Circuit α) (p : Projection) : List (NeuronId × NeuronId) :=
  p.topology.pairs (c.members p.source) (c.members p.target)

/-- Every projection lists the links of its pairs, in their order. -/
def Charted (c : Circuit α) : Prop :=
  ∀ p < c.projections.size, (c.projection p).links.map c.ends = c.pairsOf (c.projection p)

omit [Arithmetic α] in
theorem pairsOf_grows (h : Grows c d) {p : Projection} (hs : p.source < c.ensembles.size)
    (ht : p.target < c.ensembles.size) : d.pairsOf p = c.pairsOf p := by
  rw [pairsOf, pairsOf, h.members _ (hasEnsemble_iff.mpr hs), h.members _ (hasEnsemble_iff.mpr ht)]

omit [Arithmetic α] in
theorem Indexed.ends_lt (h : c.Indexed) {p : ProjectionId} (hp : p < c.projections.size) :
    (c.projection p).source < c.ensembles.size ∧ (c.projection p).target < c.ensembles.size := by
  refine h.ends _ ?_
  simp [projection, hp]

theorem Charted.nodup_links (h : c.Charted) {p : ProjectionId} (hp : p < c.projections.size)
    (hs : (c.members (c.projection p).source).Nodup) (ht : (c.members (c.projection p).target).Nodup) :
    (c.projection p).links.Nodup := by
  refine List.Nodup.of_map c.ends ?_
  rw [h p hp]
  exact Topology.nodup_pairs hs ht _

/-- Projections that were there before list the right links still. -/
theorem Charted.kept (h : c.Charted) (hc : c.Consistent) (hi : c.Indexed) (he : Extends c d)
    (hg : Grows c d) {p : ProjectionId} (hp : p < c.projections.size) :
    (d.projection p).links.map d.ends = d.pairsOf (d.projection p) := by
  obtain ⟨gatings, hd⟩ := he.projection p hp
  obtain ⟨hs, ht⟩ := hi.ends_lt hp
  rw [hd]
  show (c.projection p).links.map d.ends = d.pairsOf (c.projection p)
  rw [he.map_ends (hc.links_lt p), pairsOf_grows hg hs ht]
  exact h p hp

theorem charted_of_size (h : c.Charted) (hc : c.Consistent) (hi : c.Indexed) (he : Extends c d)
    (hg : Grows c d) (hsize : d.projections.size = c.projections.size) : d.Charted :=
  fun _ hp => h.kept hc hi he hg (hsize ▸ hp)

/-- A new projection lists the links that were made for its pairs. -/
theorem charted_performProjection (h : c.Charted) (hc : c.Consistent) (hi : c.Indexed)
    {source target : EnsembleId} {topology : Topology}
    (hpairs : ∀ p ∈ topology.pairs (c.members source) (c.members target),
      p.1 < c.neurons.size ∧ p.2 < c.neurons.size)
    (hs : source < c.ensembles.size) (ht : target < c.ensembles.size) (weight : Option α) :
    (c.performProjection weight (.new source target topology)).2.Charted := by
  intro p hp
  have he := extends_performProjection c weight (.new source target topology)
  have hg := grows_performProjection c weight (.new source target topology)
  by_cases hold : p < c.projections.size
  · exact h.kept hc hi he hg hold
  · have hnew : p = c.projections.size := by
      simp only [performProjection, addProjection, projections_connectAll, Array.size_push] at hp
      lia
    have hlinks := ends_connectAll hc.sound hpairs weight
    simp only [performProjection] at hg ⊢
    rw [projection_addProjection, projections_connectAll, if_pos hnew, pairsOf_grows hg hs ht]
    exact hlinks

/-- Only a request to project can make a projection. -/
theorem size_projections_perform (c : Circuit α) {r : Request α}
    (hr : ∀ source destination topology weight, r ≠ .project source destination topology weight) :
    (r.perform.final c).projections.size = c.projections.size := by
  cases r with
  | addNeuron => rfl
  | connect a b weight =>
    simp only [Request.perform, Op.final_map]
    refine Op.checked_final (P := fun d : Circuit α => d.projections.size = _) rfl fun _ _ => ?_
    exact congrArg Array.size (projections_connect weight)
  | connectGiven source target weight =>
    simp only [Request.perform, Op.final_map]
    refine Op.checked_final (P := fun d : Circuit α => d.projections.size = _) rfl fun _ _ => ?_
    exact congrArg Array.size (projections_connect weight)
  | gateLink u l =>
    simp only [Request.perform, Op.final_map]
    refine Op.checked_final (P := fun d : Circuit α => d.projections.size = _) rfl fun _ _ => ?_
    exact congrArg Array.size projections_gateLink
  | addEnsemble size => exact congrArg Array.size (projections_addNeurons size)
  | wrap us => rfl
  | project source destination topology weight => exact absurd rfl (hr _ _ _ _)
  | gate gater projection side =>
    simp only [Request.perform, Op.final_map]
    refine Op.checked_final (P := fun d : Circuit α => d.projections.size = _) rfl
      fun plan _ => ?_
    simp [recordGating]
  | _ => exact congrArg Array.size (sameWiring_perform c rfl).projections

/-- A request keeps the lists of projections right, whether it succeeds or fails. -/
theorem charted_perform (h : c.Charted) (hc : c.Consistent) (hi : c.Indexed) (r : Request α) :
    (r.perform.final c).Charted := by
  have hkept := charted_of_size h hc hi (extends_perform c r) (grows_perform c r)
  cases r with
  | project source destination topology weight =>
    clear hkept
    simp only [Request.perform, Op.final_map]
    refine Op.checked_final h fun plan hok => ?_
    cases plan with
    | existing p => exact h
    | new s t top =>
      obtain ⟨hs, target, ht, hbetween⟩ := planProjection_eq_ok hok
      obtain ⟨rfl, rfl, hpairs⟩ := pairs_lt_of_planBetween hbetween
      exact charted_performProjection h hc hi hpairs (hasEnsemble_iff.mp hs)
        (hasEnsemble_iff.mp (resolve_eq_ok_iff.mp ht).2) weight
  | _ => exact hkept (size_projections_perform c (by simp))

end Circuit

/-! ## Circuits within reach -/

namespace Snapshot

open Circuit

theorem projections_addRows (c : Circuit α) (rows : List (NeuronRow α)) :
    (rows.foldl addNeuron c).projections = c.projections := by
  induction rows generalizing c with
  | nil => rfl
  | cons row rows ih => exact ih (addNeuron c row)

omit [Arithmetic α] in
theorem projections_wrapAll (c : Circuit α) (lists : List (List NeuronId)) :
    (wrapAll c lists).2.projections = c.projections := by
  induction lists generalizing c with
  | nil => rfl
  | cons us lists ih => exact ih (c.wrap us).2

theorem projections_addConnections (c : Circuit α) (rows : List (ConnectionRow α)) :
    (rows.foldl addConnection c).projections = c.projections := by
  induction rows generalizing c with
  | nil => rfl
  | cons row rows ih => exact (ih _).trans (projections_addConnection c row)

/-- Snapshots do not tell of projections, so the circuit built from one has none. -/
theorem projections_build (s : Snapshot α) (identity : Identity) (settings : Settings α) :
    (s.build identity settings).1.projections = #[] := by
  rw [build_fst, projections_addConnections]
  show (wrapAll _ _).2.projections = #[]
  rw [projections_wrapAll]
  exact projections_addRows _ _

end Snapshot

namespace Circuit

variable {c : Circuit α}

theorem whole_of_reachable (h : c.Reachable) : c.Whole where
  consistent := consistent_of_reachable h
  peopled := peopled_of_reachable h
  indexed := by
    induction h with
    | new identity settings => exact indexed_empty identity settings
    | perform r _ _ ih => exact indexed_perform ih r
    | copy identity _ ih => exact ih.of_sameWiring (sameWiring_copy _ identity)
    | imported hn =>
      obtain ⟨hcheck, heq⟩ := Snapshot.toNetwork_eq_ok hn
      rw [heq]
      exact (Snapshot.whole_build hcheck _ _).indexed

/-- In every circuit within reach, each projection lists the links of its pairs, in their order. -/
theorem charted_of_reachable (h : c.Reachable) : c.Charted := by
  induction h with
  | new identity settings => exact fun p hp => absurd hp (Nat.not_lt_zero p)
  | perform r hc _ ih =>
    exact charted_perform ih (consistent_of_reachable hc) (whole_of_reachable hc).indexed r
  | copy identity _ ih => exact ih
  | imported hn =>
    intro p hp
    rw [(Snapshot.toNetwork_eq_ok hn).2] at hp
    change p < (Snapshot.build _ _ _).1.projections.size at hp
    rw [Snapshot.projections_build] at hp
    exact absurd hp (Nat.not_lt_zero p)

end Circuit

end GatedNetwork
