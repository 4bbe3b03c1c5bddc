import GatedNetwork.Proofs.Network.Reset
import GatedNetwork.Proofs.Network.Volatile
import GatedNetwork.Proofs.Program.Reads

/-!
# What a reset forgets

A reset overwrites all that passes can change but for derivatives and driven gains. The first forward
pass after it writes these too, and it reads no derivative before. So networks that differ in what they
have gone through are one and the same after that pass, unless it reads a gain whose gater has still to
fire: what such a gain has kept from before the reset can be seen.

* `ReadEarly` — the gains that are read before they are written
* `DiffersIn.stepAll`, `run_codes_eq` — steps make up for stale numbers, in the circuit and in code
* `reset_forgets` — the answers after a reset do not depend on the passes before
-/

namespace GatedNetwork

variable {α : Type} [Arithmetic α]

open Environment

namespace Circuit

variable {c d e : Circuit α} {layers : Layers} {σ τ : Environment α} {us vs : List NeuronId}
  {u : NeuronId} {l : LinkId} {s : Symbol} {W : Symbol → Prop}

/-! ## Numbers from before -/

/-- Is the gain of a link read when some neurons fire in turn, before its gater, one of them, has
fired? -/
def ReadEarly (c : Circuit α) (l : LinkId) : List NeuronId → Prop
  | [] => False
  | u :: us =>
    (c.ReadsGain u l ∧ ∃ v ∈ u :: us, (c.link l).gater = some v) ∨
      ((c.link l).gater ≠ some u ∧ c.ReadEarly l us)

instance decidableReadEarly (c : Circuit α) (l : LinkId) : ∀ us, Decidable (c.ReadEarly l us)
  | [] => inferInstanceAs (Decidable False)
  | u :: us =>
    have := decidableReadEarly c l us
    inferInstanceAs (Decidable ((c.ReadsGain u l ∧ ∃ v ∈ u :: us, (c.link l).gater = some v) ∨
      ((c.link l).gater ≠ some u ∧ c.ReadEarly l us)))

/-- Only gated links are read early. -/
theorem ReadEarly.lt_size (h : c.ReadEarly l us) : l < c.links.size := by
  induction us with
  | nil => exact h.elim
  | cons u us ih =>
    rcases h with ⟨-, v, -, hgater⟩ | ⟨-, h⟩
    · exact lt_of_gated hgater
    · exact ih h

/-- The numbers that steps of some neurons write without reading them first. -/
def Stale (c : Circuit α) (us : List NeuronId) : Symbol → Prop
  | .neuron u .derivative => u ∈ us
  | .gain l => (∃ u ∈ us, (c.link l).gater = some u) ∧ ¬ c.ReadEarly l us
  | _ => False

theorem not_stale_nil (c : Circuit α) (s : Symbol) : ¬ c.Stale [] s := by
  unfold Stale
  split <;> simp

/-- What is stale and not written by the first step is stale after it. -/
theorem Stale.tail (h : c.Stale (u :: us) s) (hderivative : s ≠ .neuron u .derivative)
    (hgain : ∀ l, s = .gain l → (c.link l).gater ≠ some u) : c.Stale us s := by
  unfold Stale at h ⊢
  split at h
  · exact (List.mem_cons.mp h).resolve_left fun hu => hderivative (hu ▸ rfl)
  · next l =>
    obtain ⟨⟨v, hv, hgater⟩, hearly⟩ := h
    have hne := hgain l rfl
    refine ⟨⟨v, (List.mem_cons.mp hv).resolve_left ?_, hgater⟩, fun hr => hearly (.inr ⟨hne, hr⟩)⟩
    rintro rfl
    exact hne hgater
  · exact h.elim

/-- What is stale is not read by the first step. -/
theorem readAlike_of_agree (h : ∀ s, ¬ c.Stale (u :: us) s → τ s = σ s) : c.ReadAlike u σ τ where
  number := by
    intro s hderivative hgain
    refine h s ?_
    unfold Stale
    split
    · exact absurd rfl (hderivative _)
    · exact absurd rfl (hgain _)
    · exact id
  gain := fun l hl => h _ fun ⟨hgater, hearly⟩ => hearly (.inl ⟨hl, hgater⟩)

section

variable (hw : SameWiring c d)

include hw

theorem SameWiring.readsGain : d.ReadsGain u l ↔ c.ReadsGain u l := by
  simp only [ReadsGain, hw.inputs, hw.loop, hw.extended_keys]

theorem SameWiring.readEarly (us : List NeuronId) : d.ReadEarly l us ↔ c.ReadEarly l us := by
  induction us with
  | nil => rfl
  | cons u us ih => simp only [ReadEarly, hw.readsGain, hw.gater, ih]

theorem SameWiring.stale (us : List NeuronId) : d.Stale us = c.Stale us := by
  funext s
  unfold Stale
  simp only [hw.gater, hw.readEarly]

end

/-! ## Inputs -/

/-- Setting neurons from outside makes up for a difference in their derivatives. -/
theorem clampedAll_agree {vs : List (NeuronId × α)}
    (h : τ s = σ s ∨ ∃ v ∈ vs, s = .neuron v.1 .derivative) :
    vs.foldl (fun σ v => clamped v.1 v.2 σ) τ s = vs.foldl (fun σ v => clamped v.1 v.2 σ) σ s := by
  induction vs generalizing σ τ with
  | nil => simpa using h
  | cons v vs ih =>
    refine ih ?_
    rw [List.exists_mem_cons_iff, ← or_assoc] at h
    refine h.imp_left fun h => ?_
    simp only [clamped, Function.update_apply]
    rcases h with h | rfl
    · rw [h]
    · simp

theorem DiffersIn.clampAll (h : DiffersIn W d e) {vs : List (NeuronId × α)} :
    DiffersIn (fun s => W s ∧ ¬ ∃ v ∈ vs, s = .neuron v.1 .derivative) (d.clampAll vs)
      (e.clampAll vs) := by
  refine h.map (f := (·.clampAll vs)) (clampAll_fill d vs) fun hload s _ hs => clampedAll_agree ?_
  by_cases hW : W s
  · exact .inr (by_contra fun hne => hs ⟨hW, hne⟩)
  · exact .inl (hload s hW)

/-! ## Steps in the circuit -/

theorem DiffersIn.step_stale (hd : DiffersIn (c.Stale (u :: us)) d e) (h : c.Sound)
    (hw : SameWiring c d) (hu : u < c.neurons.size) :
    DiffersIn (c.Stale us) (d.step u) (e.step u) := by
  have hsound := h.of_sameWiring hw
  have hlt : u < d.neurons.size := hw.neurons ▸ hu
  rw [← hw.stale] at hd
  refine (hd.step hsound hlt (readAlike_of_agree hd.load)).mono fun s ⟨hs, hderivative, hgain⟩ => ?_
  rw [← hw.stale]
  refine hs.tail hderivative fun l hl hgater => hgain l ?_ hl
  exact (hsound.mem_gated u hlt l).mpr ⟨lt_of_gated hgater, hgater⟩

/-- Steps make up for what they have in store. -/
theorem DiffersIn.stepAll (hd : DiffersIn (c.Stale (us ++ vs)) d e) (h : c.Sound)
    (hw : SameWiring c d) (hus : ∀ u ∈ us, u < c.neurons.size) :
    DiffersIn (c.Stale vs) (d.stepAll us) (e.stepAll us) := by
  induction us generalizing d e with
  | nil => exact hd
  | cons u us ih =>
    obtain ⟨hu, hus⟩ := List.forall_mem_cons.mp hus
    exact ih (hd.step_stale h hw hu) (hw.trans (sameWiring_step d u)) hus

/-- The activations given out on the way are alike. -/
theorem DiffersIn.activateAll_fst (hd : DiffersIn (c.Stale us) d e) (h : c.Sound)
    (hw : SameWiring c d) (hus : ∀ u ∈ us, u < c.neurons.size) :
    (e.activateAll (us.map (·, none))).1 = (d.activateAll (us.map (·, none))).1 := by
  induction us generalizing d e with
  | nil => rfl
  | cons u us ih =>
    obtain ⟨hu, hus⟩ := List.forall_mem_cons.mp hus
    have hstep := hd.step_stale h hw hu
    show ((e.step u).neuron u).activation :: ((e.step u).activateAll _).1 =
      ((d.step u).neuron u).activation :: ((d.step u).activateAll _).1
    rw [ih hstep (hw.trans (sameWiring_step d u)) hus]
    exact congrArg (· :: _) (hstep.load (.neuron u .activation) id)

/-! ## Steps in the code of a program -/

theorem run_codes_eq (h : c.Sound) (hus : ∀ u ∈ us, u < c.neurons.size)
    (hagree : ∀ s, ¬ c.Stale us s → τ s = σ s) :
    run τ (us.flatMap fun u => c.fireCode u ++ c.traceCode u) =
      run σ (us.flatMap fun u => c.fireCode u ++ c.traceCode u) := by
  -- along the neurons that have still to fire: each of them leaves less stale for the others
  induction us generalizing σ τ with
  | nil => exact funext fun s => hagree s (not_stale_nil c s)
  | cons u us ih =>
    obtain ⟨hu, hus⟩ := List.forall_mem_cons.mp hus
    rw [List.flatMap_cons, run_append (σ := σ), run_append (σ := τ)]
    refine ih hus fun s hs => (readAlike_of_agree hagree).run_step ?_
    by_contra hne
    obtain ⟨hne, hderivative, hgain⟩ : τ s ≠ σ s ∧ s ≠ .neuron u .derivative ∧
        ¬ ∃ l ∈ (c.neuron u).gated, s = .gain l := by
      simpa only [not_or] using hne
    have hstale : c.Stale (u :: us) s := by_contra fun hs => hne (hagree s hs)
    refine hs (hstale.tail hderivative fun l hl hgater => hgain ⟨l, ?_, hl⟩)
    exact (h.mem_gated u hu l).mpr ⟨lt_of_gated hgater, hgater⟩

/-! ## The first forward pass -/

/-- The numbers that passes write and a reset does not: derivatives, and gains that are not read early.
-/
def Leftover (c : Circuit α) (layers : Layers) (s : Symbol) : Prop :=
  (∃ u ∈ c.members layers.input, s = .neuron u .derivative) ∨ c.Stale (c.firing layers) s

theorem SameWiring.leftover (hw : SameWiring c d) (layers : Layers) :
    d.Leftover layers = c.Leftover layers := by
  funext s
  simp only [Leftover, hw.members, hw.firing, hw.stale]

theorem DiffersIn.reset (hd : DiffersIn (c.Volatile layers) c d) (h : c.Runs layers)
    (hgains : ∀ l, c.ReadEarly l (c.firing layers) → (d.link l).gain = (c.link l).gain) :
    DiffersIn (c.Leftover layers) (c.resetAll (c.placed layers)) (d.resetAll (c.placed layers)) := by
  have hearly : DiffersIn (fun s => c.Volatile layers s ∧
      ∀ l, s = .gain l → ¬ c.ReadEarly l (c.firing layers)) c d := by
    refine { hd with load := fun s hs => ?_ }
    by_cases hv : c.Volatile layers s
    · obtain ⟨l, rfl, hl⟩ : ∃ l, s = .gain l ∧ c.ReadEarly l (c.firing layers) := by
        by_contra hnone
        exact hs ⟨hv, fun l he hl => hnone ⟨l, he, hl⟩⟩
      exact hgains l hl
    · exact hd.load s hv
  refine (hearly.resetAll (c.placed layers)).mono fun s ⟨⟨hv, hl⟩, hkept⟩ => ?_
  cases s with
  | neuron u a =>
    have ha : a = .derivative := by_contra fun ha => hkept ⟨u, hv, rfl, ha⟩
    subst ha
    rcases List.mem_append.mp hv with hu | hu
    · exact .inl ⟨u, hu, rfl⟩
    · exact .inr hu
  | weight l =>
    obtain ⟨u, hu, hl⟩ := hv
    have hlt := h.firing_lt u hu
    obtain ⟨hl, htarget, hne⟩ := (h.sound.mem_inputs u hlt l).mp hl
    refine (hkept ⟨u, mem_placed_of_firing hu, (h.sound.mem_incident_iff hlt).mpr ?_⟩).elim
    exact ⟨hl, htarget.symm ▸ hne, .inr (.inl htarget)⟩
  | gain l => exact .inr ⟨hv, hl l rfl⟩
  | eligibility u l => exact (hkept ⟨u, hv, rfl⟩).elim
  | extended u g l => exact (hkept ⟨u, hv, rfl⟩).elim
  | _ => exact hv.elim

/-- Setting the inputs makes up for the leftovers that are not stale. -/
theorem leftover_clamped {input : List α} (hlen : input.length = (c.members layers.input).length)
    (hs : ¬ c.Stale (c.firing layers) s) :
    ¬ c.Leftover layers s ∨
      ∃ v ∈ (c.members layers.input).zip input, s = .neuron v.1 .derivative := by
  by_cases hleft : c.Leftover layers s
  · obtain ⟨u, hu, rfl⟩ := hleft.resolve_right hs
    rw [← List.map_fst_zip (Nat.le_of_eq hlen.symm)] at hu
    obtain ⟨v, hv, rfl⟩ := List.mem_map.mp hu
    exact .inr ⟨v, hv, rfl⟩
  · exact .inl hleft

theorem DiffersIn.forwardPass (hd : DiffersIn (c.Leftover layers) c d) (h : c.Runs layers)
    {input : List α} (hlen : input.length = (c.members layers.input).length) :
    (((d.clampAll ((c.members layers.input).zip input)).stepAll
        (c.hiddenMembers layers)).activateAll ((c.members layers.output).map (·, none))).1 =
      (((c.clampAll ((c.members layers.input).zip input)).stepAll
        (c.hiddenMembers layers)).activateAll ((c.members layers.output).map (·, none))).1 ∧
      d.forwardPass layers input = c.forwardPass layers input := by
  have hclamped := sameWiring_clampAll c ((c.members layers.input).zip input)
  have hhidden := hclamped.trans (sameWiring_stepAll _ (c.hiddenMembers layers))
  have hset : DiffersIn (c.Stale (c.firing layers))
      (c.clampAll ((c.members layers.input).zip input))
      (d.clampAll ((c.members layers.input).zip input)) := by
    refine hd.clampAll.mono fun s ⟨hleft, hderivative⟩ => ?_
    by_contra hs
    exact (leftover_clamped hlen hs).elim (· hleft) hderivative
  have hfired := hset.stepAll h.sound hclamped h.inhabits.hidden_lt
  refine ⟨hfired.activateAll_fst h.sound hhidden h.inhabits.output_lt, ?_⟩
  rw [← List.append_nil (c.members layers.output)] at hfired
  rw [Circuit.forwardPass, Circuit.forwardPass, hd.wiring.members, hd.wiring.members,
    hd.wiring.hiddenMembers]
  exact (hfired.stepAll h.sound hhidden h.inhabits.output_lt).eq (not_stale_nil c)

theorem run_forwardCode_eq (h : c.Runs layers) {input : List α}
    (hlen : input.length = (c.members layers.input).length)
    (hagree : ∀ s, ¬ c.Leftover layers s → τ s = σ s) :
    run (Memory.putEach τ (((c.members layers.input).map fun u => .neuron u .activation).zip input))
        ((c.tasks layers).flatMap c.forwardCode) =
      run (Memory.putEach σ (((c.members layers.input).map fun u => .neuron u .activation).zip input))
        ((c.tasks layers).flatMap c.forwardCode) := by
  rw [forward_tasks, ← List.flatMap_append, run_append, run_append, run_clampCodes _ _ hlen,
    run_clampCodes _ _ hlen]
  exact run_codes_eq h.sound h.firing_lt fun s hs =>
    clampedAll_agree ((leftover_clamped hlen hs).imp_left (hagree s))

/-- A gain that nobody drives is no leftover. -/
theorem DiffersIn.sameLayout (hd : DiffersIn (c.Leftover layers) c d) : SameLayout c d := by
  rw [hd.eq_fill]
  refine Steady.sameLayout_fill fun l hl => congrArg Arithmetic.isOne (hd.load (.gain l) ?_)
  rintro (⟨_, _, he⟩ | ⟨⟨u, -, hg⟩, -⟩)
  · cases he
  · rw [hl] at hg
    cases hg

end Circuit

namespace Network

open Circuit

variable {n : Network α} {c d : Circuit α} {layers : Layers}

/-! ## Answers -/

/-- Passes are taken or refused, and the rest is answered either way. -/
theorem run_passes_ok (n : Network α) (qs : List (Pass α)) :
    ∃ answers n', run (qs.map fun q => .request q.request) n = .ok answers n' := by
  induction qs generalizing n with
  | nil => exact ⟨[], n, rfl⟩
  | cons q qs ih =>
    have hobserve : Op.observe q.request.perform n =
        .ok (q.request.perform.answer n) (q.request.perform.final n) := rfl
    obtain ⟨answers, n', hrun⟩ := ih (q.request.perform.final n)
    exact ⟨_, n', (Op.bind_of_ok hobserve).trans (Op.bind_of_ok hrun)⟩

/-- After an activation that succeeds, the other passes are answered by what it leaves. -/
theorem passAnswers_forward {n n' : Network α} {input xs : List α}
    (hactivate : activate input n = .ok xs n') (qs : List (Pass α)) :
    ∃ answers, n'.passAnswers qs = .ok answers ∧
      n.passAnswers (.forward input :: qs) = .ok (.ok (.outputs xs) :: answers) := by
  obtain ⟨answers, n'', hrun⟩ := run_passes_ok n' qs
  have hperform : (Pass.forward input).request.perform n = .ok (.outputs xs) n' :=
    Op.map_of_ok hactivate
  have hobserve : Op.observe (Pass.forward input).request.perform n = .ok (.ok (.outputs xs)) n' := by
    rw [Op.observe, Op.answer_of_ok hperform, Op.final_of_ok hperform]
  exact ⟨answers, Op.answer_of_ok hrun,
    Op.answer_of_ok ((Op.bind_of_ok hobserve).trans (Op.bind_of_ok hrun))⟩

/-- Networks answer passes alike from an activation on after which they do. -/
theorem passAnswers_forward_eq {n₁ n₂ n₁' n₂' : Network α} {input xs : List α} {qs : List (Pass α)}
    (h₁ : activate input n₁ = .ok xs n₁') (h₂ : activate input n₂ = .ok xs n₂')
    (hrest : n₂'.passAnswers qs = n₁'.passAnswers qs) :
    ∃ xs answers, n₁.passAnswers (.forward input :: qs) = .ok (.ok (.outputs xs) :: answers) ∧
      n₂.passAnswers (.forward input :: qs) = .ok (.ok (.outputs xs) :: answers) := by
  obtain ⟨answers, hrest₁, hanswers₁⟩ := passAnswers_forward h₁ qs
  obtain ⟨answers₂, hrest₂, hanswers₂⟩ := passAnswers_forward h₂ qs
  obtain rfl : answers₂ = answers := Except.ok.inj (hrest₂.symm.trans (hrest.trans hrest₁))
  exact ⟨xs, answers₂, hanswers₁, hanswers₂⟩

/-- Two networks that differ in leftovers are compiled to programs that differ in memory, and are twins
once they have taken an input. -/
theorem activate_pending_twins (hd : DiffersIn (c.Leftover layers) c d) (hc : c.Hosts layers)
    {input : List α} (hlen : input.length = (c.members layers.input).length) :
    ∃ xs n n', activate input ⟨c, layers, .pending⟩ = .ok xs n ∧
      activate input ⟨d, layers, .pending⟩ = .ok xs n' ∧ Twins n n' := by
  have hruns := hc.runs
  have hprogram : d.program layers =
      { c.program layers with memory := (d.program layers).memory } := by
    rw [program, program, hd.wiring.placements]
    exact hd.sameLayout.lower _
  have hsymbols : (d.program layers).symbols = (c.program layers).symbols :=
    congrArg (·.symbols) hprogram
  have hsize : (d.program layers).memory.size = (c.program layers).symbols.length :=
    hsymbols ▸ size_memory_program d layers
  obtain ⟨m, hactivate, hm, hview⟩ := activate_fresh hc hlen
  obtain ⟨m', hactivate', hm', hview'⟩ := activate_live hd.wiring hsize d.load hlen
  have hload : (d.program layers).memory.view (c.program layers).symbols d.load = d.load :=
    hsymbols ▸ view_program d layers
  have hviews : m'.view (c.program layers).symbols d.load =
      m.view (c.program layers).symbols c.load := by
    rw [hview, hview', hload]
    exact run_forwardCode_eq hruns hlen hd.load
  have hmemory : m' = m :=
    Memory.eq_of_view (nodup_symbolsOf c _) hm' hm fun s _ => congrFun hviews s
  rw [← hprogram, hviews, hmemory] at hactivate'
  have hlen' : input.length = (d.members layers.input).length :=
    hlen.trans (congrArg List.length (hd.wiring.members _)).symm
  exact ⟨_, _, _, hactivate,
    (activate_pending (hc.of_sameWiring hd.wiring) hlen').trans hactivate',
    ⟨⟨_, rfl, rfl⟩, congrArg List.length (hd.wiring.members _).symm,
      congrArg List.length (hd.wiring.members _).symm⟩⟩

/-- Such networks give the same answers to an input and to all passes after it, with a program and
without one. -/
theorem passAnswers_leftover (hd : DiffersIn (c.Leftover layers) c d) (hc : c.Hosts layers)
    (mode : Mode α) {input : List α} (hlen : input.length = (c.members layers.input).length)
    (rest : List (Pass α)) :
    ∃ xs answers,
      passAnswers ⟨c, layers, mode.dropped⟩ (.forward input :: rest) =
        .ok (.ok (.outputs xs) :: answers) ∧
      passAnswers ⟨d, layers, mode.dropped⟩ (.forward input :: rest) =
        .ok (.ok (.outputs xs) :: answers) := by
  obtain ⟨xs, n, n', hactivate, hactivate', htwins⟩ := activate_pending_twins hd hc hlen
  have hpending := passAnswers_forward_eq hactivate hactivate' (htwins.passAnswers_eq rest).symm
  cases mode with
  | pending => exact hpending
  | compiled p => exact hpending
  | interpreted =>
    obtain ⟨houtputs, hpass⟩ := hd.forwardPass hc.runs hlen
    have hlen' : input.length = (d.members layers.input).length :=
      hlen.trans (congrArg List.length (hd.wiring.members _)).symm
    have hstepped := activate_interpreted (hc.of_sameWiring hd.wiring) hlen'
    rw [hd.wiring.members, hd.wiring.members, hd.wiring.hiddenMembers, houtputs, hpass] at hstepped
    exact passAnswers_forward_eq (activate_interpreted hc hlen) hstepped rfl

/-- Two runs of passes from one network within reach, each followed by a reset. Both resets succeed, and
then an input of the right length and any passes after it get the same answers, unless a gain that the
first of these passes reads before its gater fires has been left different by the two runs. -/
theorem reset_forgets (h : n.Reachable) (ps qs : List (Pass α))
    (hgains : ∀ l, n.circuit.ReadEarly l (n.circuit.firing n.layers) →
      ((n.after qs).restored.link l).gain = ((n.after ps).restored.link l).gain)
    {input : List α} (hlen : input.length = n.inputSize) (rest : List (Pass α)) :
    ∃ n₁ n₂ xs answers,
      reset (n.after ps) = .ok () n₁ ∧ reset (n.after qs) = .ok () n₂ ∧
      n₁.passAnswers (.forward input :: rest) = .ok (.ok (.outputs xs) :: answers) ∧
      n₂.passAnswers (.forward input :: rest) = .ok (.ok (.outputs xs) :: answers) := by
  have hpassed := passed_after h ps
  have hpassed' := passed_after h qs
  have hvalid := valid_of_reachable (reachable_after h ps)
  have hreset := hvalid.reset_ok
  have hreset' := (valid_of_reachable (reachable_after h qs)).reset_ok
  have hhosts := hvalid.hosts_restored
  have hdiffers := hpassed.circuit.symm.trans hpassed'.circuit
  rw [← hpassed.circuit.wiring.volatile] at hdiffers
  rw [hpassed.layers, hpassed.dropped] at hreset
  rw [hpassed'.layers, hpassed'.dropped, hdiffers.wiring.placed] at hreset'
  rw [hpassed.layers] at hhosts
  have hw : SameWiring n.circuit (n.after ps).restored :=
    (valid_of_reachable h).sameWiring_restored.trans hpassed.circuit.wiring
  -- what the two runs have left different is a leftover once it is reset
  have hleft := hdiffers.reset hhosts.runs fun l hl => hgains l (by rwa [hw.readEarly, hw.firing] at hl)
  have hwiring := sameWiring_resetAll (n.after ps).restored ((n.after ps).restored.placed n.layers)
  rw [← hwiring.leftover] at hleft
  have hmembers := congrArg List.length ((hw.trans hwiring).members n.layers.input)
  obtain ⟨xs, answers, hanswers, hanswers'⟩ := passAnswers_leftover hleft
    (hhosts.of_sameWiring hwiring) n.mode (hlen.trans hmembers.symm) rest
  exact ⟨_, _, xs, answers, hreset, hreset', hanswers, hanswers'⟩

/-- A hidden neuron gates the link into one output, which fires after it. The other output gates the
link into itself, so the gain of this link is read before it is written. -/
def foresighted : Circuit Int := performAll (.empty 0 ⟨7, 2, 1⟩)
  [.addEnsemble 1, .addEnsemble 1, .addEnsemble 2, .configure 2 (some .hardLimit) none,
    .connect 0 1 (some 2), .connect 1 2 (some 1), .connect 0 2 (some 3), .connect 0 3 (some 5),
    .gateLink 1 6, .gateLink 3 7]

/-- Two runs that close the link that is read early, and leave the other one with different gains. -/
theorem reset_forgets_foresighted :
    ∃ (n : Network Int) (ps qs : List (Pass Int)), n.Reachable ∧
      (∀ l, n.circuit.ReadEarly l (n.circuit.firing n.layers) →
        ((n.after qs).restored.link l).gain = ((n.after ps).restored.link l).gain) ∧
      [1].length = n.inputSize ∧
      n.circuit.ReadEarly 7 (n.circuit.firing n.layers) ∧
      ((n.after ps).restored.link 7).gain ≠ (n.circuit.link 7).gain ∧
      ((n.after qs).restored.link 6).gain ≠ ((n.after ps).restored.link 6).gain ∧
      ∃ n₁ n₂ xs answers,
        reset (n.after ps) = .ok () n₁ ∧ reset (n.after qs) = .ok () n₂ ∧
        n₁.passAnswers [.forward [1], .backward 1 [0, 1], .forward [2]] =
          .ok (.ok (.outputs xs) :: answers) ∧
        n₂.passAnswers [.forward [1], .backward 1 [0, 1], .forward [2]] =
          .ok (.ok (.outputs xs) :: answers) := by
  have hreachable : Reachable
      ⟨foresighted, (Layers.unbound 0 [1] 2).bind foresighted.identity, .pending⟩ :=
    reachable_of_requests (by unfold Inhabits; decide +kernel) (by decide +kernel)
  obtain ⟨n, hn, hreachable⟩ : ∃ n : Network Int, n = _ ∧ n.Reachable := ⟨_, rfl, hreachable⟩
  have hsize : ([1] : List Int).length = n.inputSize := by
    rw [hn]
    decide +kernel
  have hequal : ∀ l < n.circuit.links.size, n.circuit.ReadEarly l (n.circuit.firing n.layers) →
      ((n.after [.forward [3], .backward 1 [0, 1], .forward [-2]]).restored.link l).gain =
        ((n.after [.forward [-5]]).restored.link l).gain := by
    rw [hn]
    decide +kernel
  have hgains := fun l hl => hequal l hl.lt_size hl
  refine ⟨n, _, _, hreachable, hgains, hsize, ?_, ?_, ?_,
    reset_forgets hreachable _ _ hgains hsize [.backward 1 [0, 1], .forward [2]]⟩
  all_goals
    rw [hn]
    decide +kernel

/-- An output that gates the link into it. -/
def selfDriven : Circuit Int := performAll (.empty 0 ⟨7, 2, 1⟩)
  [.addEnsemble 1, .addEnsemble 1, .connect 0 1 (some 2), .gateLink 1 2]

/-- Its answer after a reset tells whether it has taken an input before. -/
theorem reset_remembers_selfDriven :
    ∃ (n n₁ n₂ : Network Int), n.Reachable ∧ n.inputSize = 1 ∧
      reset (n.after []) = .ok () n₁ ∧ reset (n.after [.forward [1]]) = .ok () n₂ ∧
      n₁.passAnswers [.forward [1]] = .ok [.ok (.outputs [0])] ∧
      n₂.passAnswers [.forward [1]] = .ok [.ok (.outputs [4])] := by
  have hreachable : Reachable
      ⟨selfDriven, (Layers.unbound 0 [] 1).bind selfDriven.identity, .pending⟩ :=
    reachable_of_requests (by unfold Inhabits; decide +kernel) (by decide +kernel)
  obtain ⟨n, hreachable, hsize, hanswers, hanswers'⟩ : ∃ n : Network Int, n.Reachable ∧
      n.inputSize = 1 ∧
      (reset.final (n.after [])).passAnswers [.forward [1]] = .ok [.ok (.outputs [0])] ∧
      (reset.final (n.after [.forward [1]])).passAnswers [.forward [1]] =
        .ok [.ok (.outputs [4])] :=
    ⟨_, hreachable, by decide +kernel⟩
  have hreset := (valid_of_reachable (reachable_after hreachable [])).reset_ok
  have hreset' := (valid_of_reachable (reachable_after hreachable [.forward [1]])).reset_ok
  rw [Op.final_of_ok hreset] at hanswers
  rw [Op.final_of_ok hreset'] at hanswers'
  exact ⟨n, _, _, hreachable, hsize, hreset, hreset', hanswers, hanswers'⟩

end Network

end GatedNetwork
