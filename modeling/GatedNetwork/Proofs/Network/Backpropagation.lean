import GatedNetwork.Proofs.Circuit.Plain
import GatedNetwork.Proofs.Network.Reachable
import GatedNetwork.Proofs.Network.Turns

/-!
# Backpropagation

In a network without gates and loops, whose links all lead forward in canonical order, a forward pass
and a backward pass after it are one step of backpropagation, with one peculiarity: the errors that
come back through a link are weighted by the weight it has after it was corrected. What the traces, the
states and the errors were before does not matter.

* `Circuit.FeedForward` — such a circuit
* `Circuit.FiringTurn`, `Circuit.LearningTurn` — a neuron has its turn, forward and backward
* `Circuit.Learns` — the equations of backpropagation
* `Network.backpropagation` — they hold for every network within reach that is feed-forward
-/

namespace GatedNetwork

variable {α : Type}

namespace Circuit

/-- No neuron is listed twice, and all links lead to hidden neurons or outputs from neurons that come
before them in canonical order. -/
structure FeedForward [Arithmetic α] (layers : Layers) (c : Circuit α) : Prop where
  plain : c.Plain
  nodup : (c.placed layers).Nodup
  target : ∀ l < c.links.size, (c.link l).source ≠ (c.link l).target →
    (c.link l).target ∈ c.firing layers
  order : ∀ l < c.links.size, (c.link l).source ≠ (c.link l).target →
    (c.placed layers).idxOf (c.link l).source < (c.placed layers).idxOf (c.link l).target

variable [ExactArithmetic α]

/-- What a forward pass and then a backward pass make of the first circuit. Activations, derivatives
and responsibilities are those that the second circuit has. -/
structure Learns (layers : Layers) (input target : List α) (rate : α) (c d : Circuit α) : Prop where
  /-- Inputs hold what they are given. -/
  input : ∀ p ∈ (c.members layers.input).zip input,
    (d.neuron p.1).activation = p.2 ∧ (d.neuron p.1).bias = 0
  /-- All others squash their bias and the weighted activations of their sources. -/
  fired : ∀ u ∈ c.firing layers,
    ((d.neuron u).activation, (d.neuron u).derivative) =
      Arithmetic.squash (c.neuron u).transfer ((c.neuron u).bias +
        ∑ l ∈ c.incoming u, (d.neuron (c.link l).source).activation * (c.link l).weight)
  /-- Outputs answer for what they lack. -/
  output : ∀ p ∈ (c.members layers.output).zip target,
    (d.neuron p.1).error.responsibility = p.2 - (d.neuron p.1).activation
  /-- Hidden neurons answer for their share in what comes after them, by the corrected weights. -/
  hidden : ∀ u ∈ c.hiddenMembers layers,
    (d.neuron u).error.responsibility = (d.neuron u).derivative *
      ∑ l ∈ c.outgoing u,
        (d.neuron (c.link l).target).error.responsibility * (d.link l).weight
  weight : ∀ l < c.links.size, (c.link l).source ≠ (c.link l).target →
    (d.link l).weight = (c.link l).weight +
      rate * (d.neuron (c.link l).target).error.responsibility *
        (d.neuron (c.link l).source).activation
  bias : ∀ u ∈ c.firing layers,
    (d.neuron u).bias = (c.neuron u).bias + rate * (d.neuron u).error.responsibility

variable {c d : Circuit α} {layers : Layers} {u v : NeuronId} {l : LinkId}

/-! ## Order -/

section Order

variable {us vs : List NeuronId}

/-- What comes before an element in a list. -/
theorem mem_of_idxOf_lt {xs ys : List NeuronId} (hu : u ∉ xs)
    (hlt : (xs ++ u :: ys).idxOf v < (xs ++ u :: ys).idxOf u) : v ∈ xs := by
  rw [List.idxOf_append_of_notMem hu, List.idxOf_cons_self] at hlt
  by_contra hv
  rw [List.idxOf_append_of_notMem hv] at hlt
  lia

theorem mem_of_lt_idxOf {xs ys : List NeuronId} (hu : u ∉ xs) (hv : v ∈ xs ++ u :: ys)
    (hlt : (xs ++ u :: ys).idxOf u < (xs ++ u :: ys).idxOf v) : v ∈ ys := by
  rw [List.idxOf_append_of_notMem hu, List.idxOf_cons_self] at hlt
  rcases List.mem_append.mp hv with hv | hv
  · rw [List.idxOf_append_of_mem hv] at hlt
    have hbound := List.idxOf_lt_length_of_mem hv
    lia
  · refine (List.mem_cons.mp hv).resolve_left ?_
    rintro rfl
    rw [List.idxOf_append_of_notMem hu, List.idxOf_cons_self] at hlt
    lia

namespace FeedForward

/-- A neuron that fires, the neurons that come before it and those that come after it. -/
theorem placed_split (hff : c.FeedForward layers) (hsplit : c.firing layers = us ++ u :: vs) :
    c.placed layers = (c.members layers.input ++ us) ++ u :: vs ∧
      u ∉ c.members layers.input ++ us ∧
      ∀ v ∈ c.members layers.input ++ us, v ∉ u :: vs := by
  have hplaced : c.placed layers = (c.members layers.input ++ us) ++ u :: vs := by
    rw [placed_eq_append, hsplit, List.append_assoc]
  have hnodup := List.nodup_append.mp (hplaced ▸ hff.nodup)
  exact ⟨hplaced, fun hu => hnodup.2.2 u hu u List.mem_cons_self rfl,
    fun v hv hv' => hnodup.2.2 v hv v hv' rfl⟩

theorem firing_nodup (hff : c.FeedForward layers) : (c.firing layers).Nodup :=
  (List.nodup_append.mp (placed_eq_append c layers ▸ hff.nodup)).2.1

/-- Inputs do not fire. -/
theorem not_mem_firing (hff : c.FeedForward layers) (hu : u ∈ c.members layers.input) :
    u ∉ c.firing layers := fun hmem =>
  (List.nodup_append.mp (placed_eq_append c layers ▸ hff.nodup)).2.2 u hu u hmem rfl

/-- When a neuron fires, its sources have had their turns. -/
theorem source_earlier (hff : c.FeedForward layers) (hsplit : c.firing layers = us ++ u :: vs)
    (hl : l ∈ c.incoming u) : (c.link l).source ∉ u :: vs := by
  obtain ⟨hlt, rfl, hne⟩ := mem_incoming.mp hl
  obtain ⟨hplaced, hu, hearlier⟩ := hff.placed_split hsplit
  exact hearlier _ (mem_of_idxOf_lt hu (hplaced ▸ hff.order l hlt hne))

/-- The neurons its links lead to come after it. -/
theorem target_later (hff : c.FeedForward layers) (hsplit : c.firing layers = us ++ u :: vs)
    (hl : l ∈ c.outgoing u) : (c.link l).target ∈ vs := by
  obtain ⟨hlt, rfl, hne⟩ := mem_outgoing.mp hl
  obtain ⟨hplaced, hu, -⟩ := hff.placed_split hsplit
  have hmem : (c.link l).target ∈ c.placed layers := by
    rw [placed_eq_append]
    exact List.mem_append_right _ (hff.target l hlt hne.symm)
  exact mem_of_lt_idxOf hu (hplaced ▸ hmem) (hplaced ▸ hff.order l hlt hne.symm)

theorem of_sameWiring (hff : c.FeedForward layers) (hw : SameWiring c d) (hd : d.Plain) :
    d.FeedForward layers where
  plain := hd
  nodup := hw.placed layers ▸ hff.nodup
  target := by
    intro l hl
    rw [hw.source, hw.target, hw.firing]
    exact hff.target l (hw.links ▸ hl)
  order := by
    intro l hl
    rw [hw.source, hw.target, hw.placed]
    exact hff.order l (hw.links ▸ hl)

end FeedForward

end Order

/-! ## A forward pass -/

/-- A neuron `u` fires in the circuit `e` in a pass from `c` to `d`. -/
structure FiringTurn (u : NeuronId) (c e d : Circuit α) : Prop where
  plain : e.Plain
  sound : e.Sound
  wiring : SameWiring c e
  lt : u < e.neurons.size
  link : ∀ l, e.link l = c.link l
  before : e.neuron u = c.neuron u
  after : d.neuron u = (e.step u).neuron u
  source : ∀ l ∈ c.incoming u, e.sourceActivation l = (d.neuron (c.link l).source).activation

namespace FiringTurn

variable {e : Circuit α}

theorem fired (h : FiringTurn u c e d) :
    ((d.neuron u).activation, (d.neuron u).derivative) =
      Arithmetic.squash (c.neuron u).transfer ((c.neuron u).bias +
        ∑ l ∈ c.incoming u, (d.neuron (c.link l).source).activation * (c.link l).weight) := by
  obtain ⟨trace, hstep⟩ := neuron_step_self h.lt
  have hsum : ∑ l ∈ c.incoming u, e.sourceActivation l * (e.link l).weight =
      ∑ l ∈ c.incoming u, (d.neuron (c.link l).source).activation * (c.link l).weight :=
    Finset.sum_congr rfl fun l hl => by rw [h.source l hl, h.link]
  rw [h.after, hstep, h.plain.nextState_eq h.sound h.lt, h.before, h.wiring.incoming, hsum]

theorem bias (h : FiringTurn u c e d) : (d.neuron u).bias = (c.neuron u).bias := by
  obtain ⟨trace, hstep⟩ := neuron_step_self h.lt
  rw [h.after, hstep, h.before]

theorem eligibility (h : FiringTurn u c e d) (hl : l ∈ c.incoming u) :
    (d.neuron u).trace.eligibility.find? l = some (d.neuron (c.link l).source).activation := by
  rw [h.after, h.plain.find?_eligibility h.sound h.lt (h.wiring.incoming u ▸ hl), h.source l hl]

end FiringTurn

namespace FeedForward

variable {input : List α}

/-- The input of a pass is set before any neuron fires. -/
theorem clampAll (hff : c.FeedForward layers) (input : List α) :
    (c.clampAll ((c.members layers.input).zip input)).Plain ∧
      ∀ u ∈ c.firing layers,
        (c.clampAll ((c.members layers.input).zip input)).neuron u = c.neuron u := by
  refine ⟨hff.plain.of_links (sameWiring_clampAll c _).links fun l =>
    ⟨_, link_clampAll c _ l, fun _ => rfl⟩, fun u hu => neuron_clampAll_of_not_mem c fun hmem => ?_⟩
  obtain ⟨p, hp, rfl⟩ := List.mem_map.mp hmem
  exact hff.not_mem_firing (List.of_mem_zip hp).1 hu

theorem link_forwardPass (hff : c.FeedForward layers) (h : c.Runs layers) (input : List α)
    (l : LinkId) : (c.forwardPass layers input).link l = c.link l := by
  have hw := sameWiring_clampAll c ((c.members layers.input).zip input)
  rw [forwardPass_eq, (hff.clampAll input).1.link_stepAll (h.sound.of_sameWiring hw)
    (hw.neurons ▸ h.firing_lt), link_clampAll]

/-- A forward pass changes nothing about the links. -/
theorem forwardPass (hff : c.FeedForward layers) (h : c.Runs layers) (input : List α) :
    (c.forwardPass layers input).FeedForward layers := by
  have hw := sameWiring_forwardPass c layers input
  exact hff.of_sameWiring hw (hff.plain.of_links hw.links fun l =>
    ⟨_, hff.link_forwardPass h input l, fun _ => rfl⟩)

/-- A backward pass changes nothing but weights, and loops stay away. -/
theorem backwardPass (hff : c.FeedForward layers) (h : c.Runs layers) (rate : α) {target : List α}
    (hlen : target.length = (c.members layers.output).length) :
    (c.backwardPass layers rate target).FeedForward layers := by
  have hw := sameWiring_backwardPass c layers rate target
  rw [backwardPass_eq] at hw ⊢
  exact hff.of_sameWiring hw (hff.plain.of_links hw.links
    (link_propagateAll h.sound (h.goals_lt hlen)))

/-- Every neuron that fires has its turn. -/
theorem exists_firingTurn (hff : c.FeedForward layers) (h : c.Runs layers) (input : List α)
    (hu : u ∈ c.firing layers) : ∃ e, FiringTurn u c e (c.forwardPass layers input) := by
  obtain ⟨us, vs, hsplit⟩ := List.append_of_mem hu
  obtain ⟨hplain, hothers⟩ := hff.clampAll input
  have hw := sameWiring_clampAll c ((c.members layers.input).zip input)
  have hlink : ∀ l, _ = c.link l := link_clampAll c ((c.members layers.input).zip input)
  rw [forwardPass_eq]
  generalize c.clampAll ((c.members layers.input).zip input) = b at hplain hothers hw hlink ⊢
  have hsound := h.sound.of_sameWiring hw
  have hlt : ∀ v ∈ us ++ u :: vs, v < b.neurons.size := hw.neurons ▸ hsplit ▸ h.firing_lt
  have hus : ∀ v ∈ us, v < b.neurons.size := (List.forall_mem_append.mp hlt).1
  have hnodup : (us ++ u :: vs).Nodup := hsplit ▸ hff.firing_nodup
  have hwb := sameWiring_stepAll b us
  refine ⟨b.stepAll us, ?_, hsound.of_sameWiring hwb, hw.trans hwb, ?_, fun l => ?_, ?_, ?_,
    fun l hl => ?_⟩
  · exact hplain.of_links hwb.links fun l => ⟨_, hplain.link_stepAll hsound hus l, fun _ => rfl⟩
  · exact hwb.neurons ▸ hlt u (by simp)
  · exact (hplain.link_stepAll hsound hus l).trans (hlink l)
  · exact (neuron_stepAll_before b hnodup).trans (hothers u hu)
  · rw [hsplit]
    exact neuron_stepAll_turn b hnodup
  · rw [hsplit, neuron_stepAll_earlier b (hff.source_earlier hsplit hl), sourceActivation,
      hplain.link_stepAll hsound hus, hlink]

theorem input_forwardPass (hff : c.FeedForward layers) (h : c.Runs layers)
    (hlen : input.length = (c.members layers.input).length) {p : NeuronId × α}
    (hp : p ∈ (c.members layers.input).zip input) :
    ((c.forwardPass layers input).neuron p.1).activation = p.2 ∧
      ((c.forwardPass layers input).neuron p.1).bias = 0 := by
  have hnodup := List.nodup_append.mp (placed_eq_append c layers ▸ hff.nodup)
  have hfst : ((c.members layers.input).zip input).map (·.1) = c.members layers.input :=
    List.map_fst_zip (Nat.le_of_eq hlen.symm)
  have hset := neuron_clampAll (fun q hq => h.inhabits.input_lt q.1 (List.of_mem_zip hq).1)
    (hfst.symm ▸ hnodup.1) hp
  have hfiring : p.1 ∉ c.firing layers := hff.not_mem_firing (List.of_mem_zip hp).1
  rw [forwardPass_eq, neuron_stepAll_of_not_mem _ hfiring, hset]
  exact ⟨rfl, rfl⟩

end FeedForward

/-! ## A backward pass -/

/-- A neuron `u` with the target `t`, if it has one, learns in the circuit `e` in a pass from `c` to
`d`. -/
structure LearningTurn (r : α) (u : NeuronId) (t : Option α) (c e d : Circuit α) : Prop where
  plain : e.Plain
  sound : e.Sound
  wiring : SameWiring c e
  lt : u < e.neurons.size
  before : e.neuron u = c.neuron u
  after : d.neuron u = (e.propagateNeuron u (some r) t).neuron u
  incoming : ∀ l ∈ c.incoming u,
    e.link l = c.link l ∧ d.link l = (e.propagateNeuron u (some r) t).link l
  outgoing : ∀ l ∈ c.outgoing u,
    d.neuron (c.link l).target = e.neuron (c.link l).target ∧ d.link l = e.link l

namespace LearningTurn

variable {e : Circuit α} {r : α} {t : Option α}

theorem error_eq (h : LearningTurn r u t c e d) :
    (d.neuron u).error = ((e.assignError u t).neuron u).error := by
  rw [h.after, neuron_propagateNeuron_self h.lt]

theorem output {x : α} (h : LearningTurn r u (some x) c e d) :
    (d.neuron u).error.responsibility = x - (c.neuron u).activation := by
  rw [h.error_eq, (h.plain.assignError_eq h.sound h.lt _).1, h.before]

theorem hidden (h : LearningTurn r u none c e d) :
    (d.neuron u).error.responsibility = (c.neuron u).derivative *
      ∑ l ∈ c.outgoing u, (d.neuron (c.link l).target).error.responsibility * (d.link l).weight := by
  have hsum : ∑ l ∈ c.outgoing u,
        (e.neuron (e.link l).target).error.responsibility * (e.link l).weight =
      ∑ l ∈ c.outgoing u,
        (d.neuron (c.link l).target).error.responsibility * (d.link l).weight := by
    refine Finset.sum_congr rfl fun l hl => ?_
    obtain ⟨hneuron, hlink⟩ := h.outgoing l hl
    rw [hneuron, hlink, h.wiring.target]
  rw [h.error_eq, (h.plain.assignError_eq h.sound h.lt none).1, h.before,
    h.plain.projectedError_eq h.sound h.lt, h.wiring.outgoing, hsum]

theorem bias (h : LearningTurn r u t c e d) :
    (d.neuron u).bias = (c.neuron u).bias + r * (d.neuron u).error.responsibility := by
  rw [h.error_eq, h.after, neuron_propagateNeuron_self h.lt, h.before]

theorem weight (h : LearningTurn r u t c e d) (hl : l ∈ c.incoming u) {x : α}
    (hx : (c.neuron u).trace.eligibility.find? l = some x) :
    (d.link l).weight = (c.link l).weight + r * (d.neuron u).error.responsibility * x := by
  obtain ⟨hbefore, hafter⟩ := h.incoming l hl
  rw [h.error_eq, hafter, h.plain.weight_propagateNeuron h.sound h.lt r t
    (h.wiring.incoming u ▸ hl) (h.before ▸ hx), hbefore]

end LearningTurn

/-- Every neuron that fires has its turn to learn. -/
theorem FeedForward.exists_learningTurn (hff : c.FeedForward layers) (h : c.Runs layers) (r : α)
    {target : List α} (hlen : target.length = (c.members layers.output).length) {t : Option α}
    (hut : (u, t) ∈ c.goals layers target) :
    ∃ e, LearningTurn r u t c e (c.backwardPass layers r target) := by
  obtain ⟨ps, qs, hgoals⟩ := List.append_of_mem hut
  have hsplit : c.firing layers = ps.map (·.1) ++ u :: qs.map (·.1) := by
    rw [← map_fst_goals hlen, hgoals, List.map_append, List.map_cons]
  have hreverse : (c.goals layers target).reverse = qs.reverse ++ (u, t) :: ps.reverse := by
    rw [hgoals, List.reverse_append, List.reverse_cons, List.append_assoc, List.singleton_append]
  have hnodup : ((qs.reverse ++ (u, t) :: ps.reverse).map (·.1)).Nodup := by
    rw [← hreverse, List.map_reverse, map_fst_goals hlen]
    exact List.nodup_reverse.mpr hff.firing_nodup
  have hlt : ∀ p ∈ qs.reverse ++ (u, t) :: ps.reverse, p.1 < c.neurons.size :=
    hreverse ▸ h.goals_lt hlen
  have hw := sameWiring_propagateAll c (some r) qs.reverse
  have hlinks := link_propagateAll (r := r) h.sound (List.forall_mem_append.mp hlt).1
  rw [backwardPass_eq, hreverse]
  refine ⟨c.propagateAll (some r) qs.reverse, hff.plain.of_links hw.links hlinks,
    h.sound.of_sameWiring hw, hw, hw.neurons ▸ hlt (u, t) (by simp),
    neuron_propagateAll_before c (some r) hnodup, neuron_propagateAll_turn c (some r) hnodup,
    fun l hl => ?_, fun l hl => ?_⟩
  · exact link_propagateAll_turn h.sound hlt hnodup (mem_incoming.mp hl).2.1
  · -- what comes later in canonical order has had its turn
    have hlater : (c.link l).target ∈ qs.reverse.map (·.1) := by
      rw [List.map_reverse, List.mem_reverse]
      exact hff.target_later hsplit hl
    rw [List.map_append] at hnodup
    obtain ⟨hneuron, hlink⟩ := propagateAll_earlier (r := r) h.sound hlt fun hmem =>
      (List.nodup_append.mp hnodup).2.2 _ hlater _ hmem rfl
    exact ⟨hneuron, hlink l rfl⟩

/-- A forward pass and a backward pass after it are a step of backpropagation. -/
theorem FeedForward.learns (hff : c.FeedForward layers) (h : c.Runs layers) (rate : α)
    {input target : List α} (hin : input.length = (c.members layers.input).length)
    (hout : target.length = (c.members layers.output).length) :
    Learns layers input target rate c ((c.forwardPass layers input).backwardPass layers rate target) := by
  -- the circuit between the passes
  obtain ⟨e, he⟩ : ∃ e, e = c.forwardPass layers input := ⟨_, rfl⟩
  have hw : SameWiring c e := he ▸ sameWiring_forwardPass c layers input
  have hlink : ∀ l, e.link l = c.link l := fun l => he ▸ hff.link_forwardPass h input l
  have hffe : e.FeedForward layers := he ▸ hff.forwardPass h input
  have hrun := h.of_sameWiring hw
  have houte : target.length = (e.members layers.output).length := by rwa [hw.members]
  obtain ⟨d, hd⟩ : ∃ d, d = e.backwardPass layers rate target := ⟨_, rfl⟩
  have hneuron : ∀ v, ∃ error bias, d.neuron v = { e.neuron v with error, bias } :=
    hd ▸ neuron_backwardPass hrun rate houte
  have hactivation : ∀ v, (d.neuron v).activation = (e.neuron v).activation := fun v => by
    obtain ⟨error, bias, hv⟩ := hneuron v
    rw [hv]
  have hderivative : ∀ v, (d.neuron v).derivative = (e.neuron v).derivative := fun v => by
    obtain ⟨error, bias, hv⟩ := hneuron v
    rw [hv]
  have hforward : ∀ u ∈ c.firing layers, ∃ b, FiringTurn u c b e := fun u hu =>
    he ▸ hff.exists_firingTurn h input hu
  have hbackward : ∀ u t, (u, t) ∈ e.goals layers target →
      ∃ b, LearningTurn rate u t e b d := fun u t hut =>
    hd ▸ hffe.exists_learningTurn hrun rate houte hut
  have hfiring := hw.firing layers
  rw [← he, ← hd]
  refine ⟨fun p hp => ?_, fun u hu => ?_, fun p hp => ?_, fun u hu => ?_, fun l hl hne => ?_,
    fun u hu => ?_⟩
  · obtain ⟨hset, hbias⟩ := he ▸ hff.input_forwardPass h hin hp
    refine ⟨(hactivation p.1).trans hset, ?_⟩
    rw [hd, backwardPass_eq, neuron_propagateAll_of_not_mem, hbias]
    rw [List.map_reverse, List.mem_reverse, map_fst_goals houte, hfiring]
    exact hff.not_mem_firing (List.of_mem_zip hp).1
  · obtain ⟨b, hturn⟩ := hforward u hu
    simp only [hactivation, hderivative]
    exact hturn.fired
  · obtain ⟨b, hturn⟩ := hbackward _ _ (goals_output ((hw.members layers.output).symm ▸ hp))
    rw [hactivation]
    exact hturn.output
  · obtain ⟨b, hturn⟩ := hbackward _ _ (goals_hidden ((hw.hiddenMembers layers).symm ▸ hu) target)
    rw [hderivative, hturn.hidden, hw.outgoing]
    simp only [hw.target]
  · have hu := hff.target l hl hne
    obtain ⟨b, hfires⟩ := hforward _ hu
    obtain ⟨t, hut⟩ := exists_goal houte (hfiring.symm ▸ hu)
    obtain ⟨b', hturn⟩ := hbackward _ t hut
    have hmem : l ∈ c.incoming (c.link l).target := mem_incoming.mpr ⟨hl, rfl, hne⟩
    rw [hturn.weight (hw.incoming _ ▸ hmem) (hfires.eligibility hmem), hlink, hactivation]
  · obtain ⟨b, hfires⟩ := hforward u hu
    obtain ⟨t, hut⟩ := exists_goal houte (hfiring.symm ▸ hu)
    obtain ⟨b', hturn⟩ := hbackward u t hut
    rw [hturn.bias, hfires.bias]

end Circuit

namespace Network

open Circuit

variable [ExactArithmetic α] {n : Network α}

/-- For every feed-forward network within reach, in whatever mode and whatever it did before: a forward
pass and a backward pass after it succeed with the right numbers of values and are one step of
backpropagation. The network is still feed-forward after that. -/
theorem backpropagation (h : n.Reachable) (hff : n.restored.FeedForward n.layers) (rate : α)
    {input target : List α} (hin : n.inputSize = input.length)
    (hout : n.outputSize = target.length) :
    ∃ n₁ n₂,
      activate input n = .ok ((n.restored.members n.layers.output).map fun u =>
        (n₂.restored.neuron u).activation) n₁ ∧
      propagate rate target n₁ = .ok () n₂ ∧
      Learns n.layers input target rate n.restored n₂.restored ∧
      n₂.layers = n.layers ∧ n₂.restored.FeedForward n₂.layers := by
  obtain ⟨layers, c, hshows, hhosts⟩ := shows_of_reachable h
  rw [hshows.inputSize] at hin
  rw [hshows.outputSize] at hout
  rw [hshows.restored, hshows.layers_eq] at hff ⊢
  obtain ⟨outputs, n₁, hactivate, hshows₁, houtputs⟩ := activate_ok hshows hhosts hin.symm
  have hw := sameWiring_forwardPass c layers input
  have hhosts₁ := hhosts.of_sameWiring hw
  have hout₁ : target.length = ((c.forwardPass layers input).members layers.output).length := by
    rw [hw.members, hout]
  obtain ⟨n₂, hpropagate, hshows₂⟩ := propagate_ok hshows₁ hhosts₁ rate hout₁
  have hnodup : (c.members layers.output).Nodup := (List.nodup_append.mp hff.firing_nodup).2.1
  refine ⟨n₁, n₂, ?_, hpropagate, ?_, hshows₂.layers_eq, ?_⟩
  · have hkept : ∀ v, (n₂.restored.neuron v).activation =
        ((c.forwardPass layers input).neuron v).activation := by
      intro v
      obtain ⟨error, bias, hv⟩ := neuron_backwardPass hhosts₁.runs rate hout₁ v
      rw [hshows₂.restored, hv]
    simp only [hkept]
    rw [hactivate, houtputs hnodup]
  · rw [hshows₂.restored]
    exact hff.learns hhosts.runs rate hin.symm hout.symm
  · rw [hshows₂.restored, hshows₂.layers_eq]
    exact (hff.forwardPass hhosts.runs input).backwardPass hhosts₁.runs rate hout₁

/-- Two inputs, two hidden neurons and two outputs, with links within the layers and past a layer. They
have learned one step before. -/
def skipping : Circuit Int := performAll (.empty 0 ⟨7, 2, 1⟩)
  [.addEnsemble 2, .addEnsemble 2, .addEnsemble 2, .configure 1 (some .relu) none,
    .connect 0 2 (some 2), .connect 1 2 (some (-1)), .connect 1 3 (some 3), .connect 2 3 (some 1),
    .connect 2 4 (some 1), .connect 3 4 (some 2), .connect 3 5 (some 1), .connect 0 5 (some 4),
    .connect 4 5 (some (-2)), .activateEnsemble 0 (some [3, 1]), .activateEnsemble 1 none,
    .activateEnsemble 2 none, .propagateEnsemble 2 none (some [5, 6]), .propagateEnsemble 1 none none]

theorem backpropagation_skipping :
    ∃ n : Network Int, Network.create skipping (.unbound 0 [1] 2) = .ok n ∧ n.Reachable ∧
      n.restored.FeedForward n.layers ∧ (n.restored.neuron 2).error.responsibility = 114 ∧
      ∃ n₁ n₂,
        activate [2, -1] n = .ok ((n.restored.members n.layers.output).map fun u =>
          (n₂.restored.neuron u).activation) n₁ ∧
        propagate 2 [7, 3] n₁ = .ok () n₂ ∧
        Learns n.layers [2, -1] [7, 3] 2 n.restored n₂.restored := by
  have hensembles : ∀ e ∈ (Layers.unbound 0 [1] 2).ensembles, skipping.hasEnsemble e = true := by
    decide +kernel
  have hinhabits : skipping.Inhabits (.unbound 0 [1] 2) := by
    unfold Inhabits
    decide +kernel
  obtain ⟨n, hn⟩ := create_ok hensembles
  have hconsistent : skipping.Consistent := consistent_performAll (consistent_empty 0 ⟨7, 2, 1⟩) _
  have hreachable : n.Reachable := .create hconsistent hinhabits hn
  have hrestored : n.restored = skipping := (shows_create hconsistent hinhabits hn).1.restored
  obtain ⟨-, heq⟩ := create_eq_ok hn
  have hlayers : n.layers = (Layers.unbound 0 [1] 2).bind skipping.identity := by rw [heq]
  have hff : n.restored.FeedForward n.layers := by
    rw [hrestored, hlayers]
    exact
      { plain := ⟨by decide +kernel, by decide +kernel, by decide +kernel⟩
        nodup := by decide +kernel
        target := by decide +kernel
        order := by decide +kernel }
  have hin : n.inputSize = ([2, -1] : List Int).length := by rw [heq]; decide +kernel
  have hout : n.outputSize = ([7, 3] : List Int).length := by rw [heq]; decide +kernel
  have hstale : (n.restored.neuron 2).error.responsibility = 114 := by rw [hrestored]; decide +kernel
  obtain ⟨n₁, n₂, hactivate, hpropagate, hlearns, -⟩ := backpropagation hreachable hff 2 hin hout
  exact ⟨n, hn, hreachable, hff, hstale, n₁, n₂, hactivate, hpropagate, hlearns⟩

end Network

end GatedNetwork
