import GatedNetwork.Proofs.Network.Lowered
import GatedNetwork.Proofs.Network.Turns

/-!
# Error terms after a backward pass

A backward step gives its neuron new error terms. An output is responsible for what is missing to its
target, and a neuron without a target for what came back through its links and through the neurons it
gates. Steps of other neurons read these terms, and move weights that they were made from, but write no
terms of their neighbours. So in the end the terms of each neuron are those of its own turn.

* `Settled` — how responsibility and its shares are related after a pass
* `balanced_propagateAll`, `balanced_codes` — the turns of a pass, in the circuit and in a program
* `settled_propagate` — all networks within reach, in both modes; no law of arithmetic is needed
-/

namespace GatedNetwork

variable {α : Type} [Arithmetic α]

open Environment

namespace Circuit

variable {c d : Circuit α} {layers : Layers} {σ τ : Environment α} {u v : NeuronId}

/-- The error terms of a neuron belong together: its responsibility is what is missing to its target, or
the sum of what came back, if it has none. -/
def Balanced (σ : Environment α) (u : NeuronId) : Option α → Prop
  | some t =>
    σ (.neuron u .responsibility) = t - σ (.neuron u .activation) ∧
      σ (.neuron u .projected) = t - σ (.neuron u .activation)
  | none => σ (.neuron u .responsibility) = σ (.neuron u .projected) + σ (.neuron u .gated)

theorem Balanced.of_agree {t : Option α} (h : Balanced σ u t)
    (ha : ∀ a, τ (.neuron u a) = σ (.neuron u a)) : Balanced τ u t := by
  cases t <;> simpa only [Balanced, ha] using h

/-- What a backward pass leaves of the error terms: the i-th output misses the i-th target, and the
responsibility of a hidden neuron is the sum of its shares. -/
structure Settled (layers : Layers) (target : List α) (c : Circuit α) : Prop where
  output : ∀ (i : Nat) (u : NeuronId) (t : α),
    (c.members layers.output)[i]? = some u → target[i]? = some t →
      (c.neuron u).error.responsibility = t - (c.neuron u).activation ∧
        (c.neuron u).error.projected = t - (c.neuron u).activation
  hidden : ∀ u ∈ c.hiddenMembers layers,
    (c.neuron u).error.responsibility = (c.neuron u).error.projected + (c.neuron u).error.gated

/-- It is enough that the terms are balanced for each neuron with its target. -/
theorem settled_of_balanced {target : List α}
    (h : ∀ p ∈ c.goals layers target, Balanced c.load p.1 p.2) : Settled layers target c where
  output := by
    intro i u t hu ht
    refine h (u, some t) (goals_output (p := (u, t)) ?_)
    exact List.mem_iff_getElem?.mpr ⟨i, List.getElem?_zip_eq_some.mpr ⟨hu, ht⟩⟩
  hidden := fun u hu => h (u, none) (goals_hidden hu target)

/-! ## In the circuit -/

theorem balanced_propagateNeuron (hu : u < c.neurons.size) (r : α) (t : Option α) :
    Balanced (c.propagateNeuron u (some r) t).load u t := by
  have hself := neuron_propagateNeuron_self hu r t
  cases t with
  | some t =>
    rw [assignError, neuron_modifyNeuron_self hu] at hself
    simp only [Balanced, load, Attribute.get, hself, and_self]
  | none =>
    rw [assignError, neuron_modifyNeuron_self hu] at hself
    simp only [Balanced, load, Attribute.get, hself]

/-- No turn after its own changes the terms of a neuron. -/
theorem balanced_propagateAll {r : α} {ps : List (NeuronId × Option α)} {p : NeuronId × Option α}
    (hps : ∀ p ∈ ps, p.1 < c.neurons.size) (hnodup : (ps.map (·.1)).Nodup) (hp : p ∈ ps) :
    Balanced (c.propagateAll (some r) ps).load p.1 p.2 := by
  obtain ⟨before, after, rfl⟩ := List.append_of_mem hp
  have hw := sameWiring_propagateAll c (some r) before
  refine (balanced_propagateNeuron (hw.neurons ▸ hps p hp) r p.2).of_agree fun a => ?_
  exact congrArg a.get (neuron_propagateAll_turn c (some r) hnodup)

theorem settled_backwardPass (h : c.Runs layers) (hnodup : (c.firing layers).Nodup) (rate : α)
    {target : List α} (hlen : target.length = (c.members layers.output).length) :
    Settled layers target (c.backwardPass layers rate target) := by
  have hw := sameWiring_backwardPass c layers rate target
  refine settled_of_balanced fun p hp => ?_
  rw [goals, hw.hiddenMembers, hw.members, ← goals] at hp
  rw [backwardPass_eq]
  refine balanced_propagateAll (h.goals_lt hlen) ?_ (List.mem_reverse.mpr hp)
  rwa [List.map_reverse, List.nodup_reverse, map_fst_goals hlen]

/-! ## In the code of a program -/

/-- Code for other neurons leaves the numbers of a neuron alone. -/
theorem run_propagationCodes_of_not_mem {ps : List (NeuronId × Option Nat)}
    (hu : u ∉ ps.map (·.1)) (σ : Environment α) (a : Attribute) :
    run σ (ps.flatMap fun p => c.propagationCode p.1 p.2) (.neuron u a) = σ (.neuron u a) := by
  refine run_of_not_mem_writes fun i hi hw => ?_
  obtain ⟨p, hp, hi⟩ := List.mem_flatMap.mp hi
  rcases writes_propagationCode hi hw with ⟨b, hb⟩ | ⟨l, -, hl⟩ | ⟨s, hs⟩
  · exact hu ((by simpa using hb : u = p.1 ∧ a = b).1 ▸ List.mem_map_of_mem hp)
  · cases hl
  · cases hs

/-- The corrections that follow the error terms in the code leave all numbers of neurons alone but the
bias. -/
theorem run_correctionCode (σ : Environment α) {s : Symbol} (hbias : s ≠ .neuron u .bias)
    (hweight : ∀ l, s ≠ .weight l) (hscratch : ∀ p, s ≠ .scratch p) :
    run σ ((c.neuron u).inputs.toList.flatMap (c.correctLinkCode u) ++
      [.accumulate (.neuron u .bias) [.rate, .neuron u .responsibility]]) s = σ s := by
  refine run_of_not_mem_writes fun i hi => ?_
  simp only [correctLinkCode, List.mem_append, List.mem_flatMap, List.mem_cons, List.mem_map,
    List.not_mem_nil, or_false] at hi
  rcases hi with ⟨l, -, (rfl | ⟨g, -, rfl⟩) | rfl⟩ | rfl
  · simp [Instr.writes, hscratch]
  · simp [Instr.writes, hscratch]
  · simp [Instr.writes, hweight]
  · simp [Instr.writes, hbias]

theorem balanced_targetErrorCode (σ : Environment α) (u : NeuronId) (t : Nat) :
    Balanced (run σ (targetErrorCode u t)) u (some (σ (.target t))) := by
  simp [Balanced, targetErrorCode, exec]

/-- The last instruction adds the two shares up. -/
theorem balanced_innerErrorCode (c : Circuit α) (σ : Environment α) (u : NeuronId) :
    Balanced (run σ (c.innerErrorCode u)) u none := by
  rw [innerErrorCode, run_append]
  simp [Balanced, exec]

theorem balanced_propagationCode (c : Circuit α) (σ : Environment α) (u : NeuronId)
    (t : Option Nat) :
    Balanced (run σ (c.propagationCode u t)) u (t.map fun i => σ (.target i)) := by
  unfold propagationCode
  rw [List.append_assoc, run_append]
  generalize hτ : run σ _ = τ
  have hterms : Balanced τ u (t.map fun i => σ (.target i)) := by
    rw [← hτ]
    cases t with
    | some t => exact balanced_targetErrorCode σ u t
    | none => exact balanced_innerErrorCode c σ u
  have hkept : ∀ a, a ≠ .bias → run τ ((c.neuron u).inputs.toList.flatMap (c.correctLinkCode u) ++
      [.accumulate (.neuron u .bias) [.rate, .neuron u .responsibility]]) (.neuron u a) =
        τ (.neuron u a) := by
    intro a ha
    exact run_correctionCode τ (by simpa using ha) (by simp) (by simp)
  cases t with
  | some t => simpa [Balanced, hkept] using hterms
  | none => simpa [Balanced, hkept] using hterms

/-- No code after its own changes the terms of a neuron. -/
theorem balanced_codes {ps : List (NeuronId × Option Nat)} {p : NeuronId × Option Nat}
    (hnodup : (ps.map (·.1)).Nodup) (hp : p ∈ ps) (σ : Environment α) :
    Balanced (run σ (ps.flatMap fun p => c.propagationCode p.1 p.2)) p.1
      (p.2.map fun i => σ (.target i)) := by
  induction ps generalizing σ with
  | nil => cases hp
  | cons q ps ih =>
    rw [List.map_cons, List.nodup_cons] at hnodup
    obtain ⟨hq, hps⟩ := hnodup
    rw [List.flatMap_cons, run_append]
    rcases List.mem_cons.mp hp with rfl | hp
    · exact (balanced_propagationCode c σ p.1 p.2).of_agree
        (run_propagationCodes_of_not_mem hq _)
    · have htargets : ∀ i, run σ (c.propagationCode q.1 q.2) (.target i) = σ (.target i) :=
        fun i => run_propagationCode_of_ne (by simp) (by simp) (by simp)
      have hrest := ih hps hp (run σ (c.propagationCode q.1 q.2))
      simpa only [htargets] using hrest

omit [Arithmetic α] in
theorem map_fst_learners (c : Circuit α) (layers : Layers) :
    (c.learners layers).map (·.1) = (c.firing layers).reverse := by
  rw [learners, firing, List.map_append, List.reverse_append, List.map_reverse, List.map_reverse,
    List.map_map, List.map_map]
  congr 2
  · exact List.zipIdx_map_fst 0 _
  · exact List.map_id _

/-- The code of a backward pass, run where the targets are put. -/
theorem settled_backwardCode (h : c.Runs layers) (hw : SameWiring c d)
    (hnodup : (c.firing layers).Nodup) {target : List α}
    (htarget : ∀ i (hi : i < target.length), σ (.target i) = target[i]) :
    Settled layers target (d.fill (run σ ((c.tasks layers).reverse.flatMap c.backwardCode))) := by
  rw [backward_tasks]
  generalize hτ : run σ _ = τ
  have hwiring : SameWiring c (d.fill τ) := hw.trans (sameWiring_fill d τ)
  have hlearners : ((c.learners layers).map (·.1)).Nodup := by
    rwa [map_fst_learners, List.nodup_reverse]
  have hbalanced : ∀ p ∈ c.learners layers,
      Balanced (d.fill τ).load p.1 (p.2.map fun i => σ (.target i)) := by
    intro p hp
    have hlt : p.1 < d.neurons.size := hw.neurons ▸ h.inhabits.learners_lt p hp
    have hcodes := balanced_codes (c := c) hlearners hp σ
    rw [hτ] at hcodes
    refine hcodes.of_agree fun a => ?_
    show a.get ((d.fill τ).neuron p.1) = _
    rw [neuron_fill hlt]
    cases a <;> rfl
  constructor
  · intro i u t hu ht
    rw [hwiring.members] at hu
    obtain ⟨hi, rfl⟩ := List.getElem?_eq_some_iff.mp ht
    have hmem : (u, some i) ∈ c.learners layers := by
      refine List.mem_append_left _ (List.mem_reverse.mpr (List.mem_map.mpr ⟨(u, i), ?_, rfl⟩))
      exact List.mem_zipIdx_iff_getElem?.mpr hu
    have hterms := hbalanced _ hmem
    rw [Option.map_some, htarget i hi] at hterms
    exact hterms
  · intro u hu
    rw [hwiring.hiddenMembers] at hu
    refine hbalanced (u, none) (List.mem_append_right _ ?_)
    exact List.mem_reverse.mpr (List.mem_map_of_mem hu)

end Circuit

namespace Network

open Circuit

variable {n : Network α} {b c : Circuit α} {layers : Layers} {m : Memory α}

/-- A backward pass of a live program leaves settled terms. -/
theorem settled_live (hw : SameWiring b c) (hb : b.Runs layers)
    (hm : m.size = (b.program layers).symbols.length) (hnodup : (b.firing layers).Nodup) (rate : α)
    {target : List α} (hlen : target.length = (b.members layers.output).length) :
    ∃ n₁, propagate rate target ⟨c, layers, .compiled { b.program layers with memory := m }⟩ =
        .ok () n₁ ∧ Settled layers target n₁.restored := by
  obtain ⟨m', hpropagate, hm', hview⟩ := propagate_live hw hm c.load rate hlen
  refine ⟨_, hpropagate, ?_⟩
  rw [restored_live hw hb hm', hview]
  exact settled_backwardCode hb hw hnodup (putEach_targets _ hlen).1

/-- For every network within reach, in whatever mode, whose layers list no neuron twice: learning
succeeds with every target of the right length and is refused with any other. When it is restored after
that, responsibility and projected share of the i-th output are what its activation misses to the i-th
target, and the responsibility of every hidden neuron is the sum of its projected and its gated share,
whatever links and gates there are. -/
theorem settled_propagate (h : n.Reachable) (hnodup : (n.restored.placed n.layers).Nodup) (rate : α)
    (target : List α) :
    (n.outputSize ≠ target.length ∧
      propagate rate target n = .error (.sizeMismatch .target n.outputSize target.length) n) ∨
    ∃ n₁ n₂, propagate rate target n = .ok () n₁ ∧ restore n₁ = .ok () n₂ ∧
      n₂.layers = n.layers ∧ Settled n.layers target n₂.circuit := by
  have hvalid := valid_of_reachable h
  by_cases hlen : n.outputSize = target.length
  · have hfiring : (n.circuit.firing n.layers).Nodup := by
      rw [placed_eq_append, hvalid.sameWiring_restored.firing] at hnodup
      exact (List.nodup_append.mp hnodup).2.1
    obtain ⟨n₁, hpropagate, hvalid₁, hlayers, -⟩ := hvalid.propagate_ok rate hlen
    refine .inr ⟨n₁, _, hpropagate, hvalid₁.restore_ok.1, hlayers, ?_⟩
    cases lowered_of_reachable h with
    | interpreted c layers =>
      cases hpropagate.symm.trans (propagate_interpreted hvalid.hosts rate hlen.symm)
      exact settled_backwardPass hvalid.hosts.runs hfiring rate hlen.symm
    | pending c layers =>
      obtain ⟨n', hlive, hsettled⟩ := settled_live (.refl c) hvalid.hosts.runs
        (size_memory_program c layers) hfiring rate hlen.symm
      cases hpropagate.symm.trans ((propagate_pending hvalid.hosts rate hlen.symm).trans hlive)
      exact hsettled
    | @live b c layers m hw hb hm =>
      obtain ⟨n', hlive, hsettled⟩ := settled_live hw hb hm (hw.firing layers ▸ hfiring) rate
        (hlen.symm.trans (congrArg List.length (hw.members _)))
      cases hpropagate.symm.trans hlive
      exact hsettled
  · exact .inl ⟨hlen, propagate_error rate hlen⟩

/-- Two hidden neurons and an output. The first hidden one gates its own input and the output's, the
second one a link into the first, whose turn comes later. -/
def crossed : Circuit Int := performAll (.empty 0 ⟨7, 2, 1⟩)
  [.addEnsemble 1, .addEnsemble 2, .addEnsemble 1, .connect 0 1 (some 2), .connect 0 2 (some 1),
    .connect 1 3 (some 3), .connect 2 3 (some 1), .connect 2 1 (some 2), .gateLink 1 4,
    .gateLink 1 7, .gateLink 2 8]

theorem settled_propagate_crossed :
    ∃ n : Network Int, n.Reachable ∧ (n.restored.placed n.layers).Nodup ∧
      ∃ n₁ n₂, propagate 1 [9] n = .ok () n₁ ∧ restore n₁ = .ok () n₂ ∧
        Settled n.layers [9] n₂.circuit ∧ (n₂.circuit.neuron 2).error.gated ≠ 0 := by
  have hcreated : Reachable
      ⟨crossed, (Layers.unbound 0 [1] 2).bind crossed.identity, .pending⟩ :=
    reachable_of_requests (by unfold Inhabits; decide +kernel) (by decide +kernel)
  have hreachable :=
    ((hcreated.request (.activate [2])).request (.propagate 1 [3])).request (.activate [1])
  obtain ⟨n, hreachable, hnodup, hsize, hgated⟩ : ∃ n : Network Int, n.Reachable ∧
      (n.restored.placed n.layers).Nodup ∧ n.outputSize = 1 ∧
      (((restore.final ((propagate 1 [9]).final n)).circuit.neuron 2).error.gated ≠ 0) :=
    ⟨_, hreachable, by decide +kernel⟩
  refine ⟨n, hreachable, hnodup, ?_⟩
  rcases settled_propagate hreachable hnodup 1 [9] with
    ⟨hlen, -⟩ | ⟨n₁, n₂, hpropagate, hrestore, -, hsettled⟩
  · exact absurd hsize hlen
  · rw [Op.final_of_ok hpropagate, Op.final_of_ok hrestore] at hgated
    exact ⟨n₁, n₂, hpropagate, hrestore, hsettled, hgated⟩

end Network

end GatedNetwork
