import GatedNetwork.Proofs.Circuit.Difference
import GatedNetwork.Proofs.Network.Gains

/-!
# What a forward step reads

Before a forward step writes them, it reads no derivative, and the gains of a few links only. So if two
runs differ in derivatives and in other gains, they go through the step alike, and after it they no
longer differ in what it writes. This holds of the step in the circuit and of its code.

* `ReadsGain` — the links whose gains matter
* `DiffersIn.step` — a step of two circuits
* `ReadAlike.run_step` — the code over two environments
-/

namespace GatedNetwork

variable {α : Type} [Arithmetic α]

open Environment

/-! ## Code -/

namespace Instr

/-- The places an instruction reads. -/
def reads {σ : Type} : Instr σ α → List σ
  | const _ _ => []
  | copy _ s => [s]
  | product _ fs => fs
  | accumulate t fs => t :: fs
  | sum _ l r => [l, r]
  | difference _ l r => [l, r]
  | transfer _ s _ _ => [s]

end Instr

namespace Environment

variable {σ τ : Environment α} {s : Symbol} {i : Instr Symbol α} {code : List (Instr Symbol α)}

/-- Environments that agree on what an instruction reads agree on what it writes. -/
theorem exec_agree (hreads : ∀ s ∈ i.reads, τ s = σ s) (hs : τ s = σ s ∨ s ∈ i.writes) :
    exec τ i s = exec σ i s := by
  have hmap : ∀ fs : List Symbol, (∀ s ∈ fs, τ s = σ s) → fs.map τ = fs.map σ :=
    fun fs hfs => List.map_congr_left hfs
  cases i <;> simp only [Instr.reads, Instr.writes] at hreads hs <;>
    simp only [exec, Function.update_apply] <;> grind

/-- Environments that agree on all that some code reads agree on all that it writes. -/
theorem run_agree (hreads : ∀ i ∈ code, ∀ s ∈ i.reads, τ s = σ s)
    (hs : τ s = σ s ∨ ∃ i ∈ code, s ∈ i.writes) : run τ code s = run σ code s := by
  induction code generalizing σ τ with
  | nil => simpa using hs
  | cons i code ih =>
    obtain ⟨hi, hcode⟩ := List.forall_mem_cons.mp hreads
    rw [run_cons, run_cons]
    refine ih (fun j hj s hs => exec_agree hi (.inl (hcode j hj s hs))) ?_
    rw [List.exists_mem_cons_iff, ← or_assoc] at hs
    exact hs.imp_left (exec_agree hi)

end Environment

namespace Circuit

variable {c d : Circuit α} {σ τ : Environment α} {u : NeuronId} {l : LinkId} {W : Symbol → Prop}

/-- Does a forward step of `u` read the gain of a link? It does so for the links into it, for its loop and
for the loops of the neurons that it gates. -/
def ReadsGain (c : Circuit α) (u : NeuronId) (l : LinkId) : Prop :=
  l ∈ (c.neuron u).inputs ∨ l = (c.neuron u).loop ∨
    ∃ g ∈ (c.neuron u).trace.extended.keys, l = (c.neuron g).loop

instance (c : Circuit α) (u : NeuronId) (l : LinkId) : Decidable (c.ReadsGain u l) :=
  inferInstanceAs (Decidable (_ ∨ _ ∨ ∃ g ∈ (c.neuron u).trace.extended.keys.toList, _))

/-- Are two environments the same in all that a forward step of `u` reads before it writes it? -/
structure ReadAlike (c : Circuit α) (u : NeuronId) (σ τ : Environment α) : Prop where
  number : ∀ s, (∀ v, s ≠ .neuron v .derivative) → (∀ l, s ≠ .gain l) → τ s = σ s
  gain : ∀ l, c.ReadsGain u l → τ (.gain l) = σ (.gain l)

/-! ## In the circuit -/

namespace ReadAlike

section

variable (h : c.Sound) (hu : u < c.neurons.size) (hr : c.ReadAlike u σ τ)

include h hu hr

theorem nextState : (c.fill τ).nextState u = (c.fill σ).nextState u := by
  rw [nextState_fill h hu, nextState_fill h hu, hr.gain _ (.inr (.inl rfl)),
    hr.number _ (by simp) (by simp), hr.number _ (by simp) (by simp), hr.number _ (by simp) (by simp)]
  refine List.foldl_ext _ _ _ fun sum l hl => ?_
  rw [hr.gain l (.inl hl), hr.number (.weight l) (by simp) (by simp),
    hr.number (c.sourceSymbol l) (by simp [sourceSymbol]) (by simp [sourceSymbol])]

/-- What differed before the step still does, the derivative of the neuron apart. -/
theorem fired {s : Symbol} (hs : s = .neuron u .derivative ∨ τ s = σ s) :
    c.fired u τ s = c.fired u σ s := by
  have hstate : τ (.neuron u .state) = σ (.neuron u .state) := hr.number _ (by simp) (by simp)
  unfold Circuit.fired
  rw [hr.nextState h hu, hstate]
  simp only [Function.update_apply]
  rcases hs with rfl | hs
  · simp
  · rw [hs]

theorem influence {g : NeuronId} (hg : g < c.neurons.size) :
    (c.fill τ).influence u g = (c.fill σ).influence u g := by
  rw [influence_fill h hu hg, influence_fill h hu hg, hr.number (.neuron g .previous) (by simp) (by simp)]
  refine List.foldl_ext _ _ _ fun sum l _ => ?_
  rw [hr.number (.weight l) (by simp) (by simp),
    hr.number (c.sourceSymbol l) (by simp [sourceSymbol]) (by simp [sourceSymbol])]

theorem nextEligibility (hl : l ∈ (c.neuron u).inputs) (x : α) :
    (c.fill τ).nextEligibility u l x = (c.fill σ).nextEligibility u l x := by
  rw [nextEligibility_fill h hu hl, nextEligibility_fill h hu hl, hr.gain _ (.inr (.inl rfl)),
    hr.gain l (.inl hl), hr.number (.weight _) (by simp) (by simp),
    hr.number (c.sourceSymbol l) (by simp [sourceSymbol]) (by simp [sourceSymbol])]

/-- The traces are made of what is alike, once the neuron has fired. -/
theorem retraced (hderivative : τ (.neuron u .derivative) = σ (.neuron u .derivative)) {s : Symbol}
    (hk : c.Keeps s) (hs : τ s = σ s) : c.retraced u τ s = c.retraced u σ s := by
  cases s with
  | eligibility v l =>
    by_cases hv : v = u
    · subst hv
      have hl : l ∈ (c.neuron v).inputs := h.eligibility_keys v hu ▸ hk.2
      rw [Circuit.retraced, Circuit.retraced, if_pos rfl, if_pos rfl, hs,
        hr.nextEligibility h hu hl]
    · rw [Circuit.retraced, Circuit.retraced, if_neg hv, if_neg hv, hs]
  | extended v g l =>
    by_cases hv : v = u
    · subst hv
      obtain ⟨-, xs, hg, hl⟩ := hk
      rw [h.extended_keys v hu g xs hg] at hl
      have hg : g ∈ (c.neuron v).trace.extended.keys := IdMap.mem_keys_iff.mpr ⟨xs, hg⟩
      have hlt := h.extended_lt hu hg
      rw [Circuit.retraced, Circuit.retraced, if_pos rfl, if_pos rfl, hs, hderivative,
        hr.nextEligibility h hu hl, hr.influence h hu hlt,
        hr.number (.eligibility v l) (by simp) (by simp), recurrence_fill h hlt,
        recurrence_fill h hlt, hr.gain _ (.inr (.inr ⟨g, hg, rfl⟩)),
        hr.number (.weight _) (by simp) (by simp)]
    · rw [Circuit.retraced, Circuit.retraced, if_neg hv, if_neg hv, hs]
  | _ => exact hs

end

end ReadAlike

/-- A forward step of two circuits that are alike in what it reads makes up for a difference in the
derivative of its neuron and in the gains that this one drives. -/
theorem DiffersIn.step (hd : DiffersIn W c d) (h : c.Sound) (hu : u < c.neurons.size)
    (hr : c.ReadAlike u c.load d.load) :
    DiffersIn (fun s => W s ∧ s ≠ .neuron u .derivative ∧ ∀ l ∈ (c.neuron u).gated, s ≠ .gain l)
      (c.step u) (d.step u) := by
  have hstep : ∀ σ : Environment α, (c.fill σ).step u =
      c.fill (Environment.run (c.retraced u (c.fired u σ)) ((c.neuron u).gated.toList.map fun l =>
        .copy (.gain l) (.neuron u .activation))) := by
    intro σ
    rw [Circuit.step, fire_fill, retrace_fill h hu, driveGains_fill hu]
  refine hd.map (f := (·.step u)) hstep fun hload s hk hs => ?_
  have hfired : ∀ s, s = .neuron u .derivative ∨ ¬ W s →
      c.fired u d.load s = c.fired u c.load s :=
    fun s hs => hr.fired h hu (hs.imp_right (hload s))
  have hafter : c.ReadAlike u (c.fired u c.load) (c.fired u d.load) :=
    ⟨fun s hn hg => hr.fired h hu (.inr (hr.number s hn hg)),
      fun l hl => hr.fired h hu (.inr (hr.gain l hl))⟩
  have hretraced : ∀ s, c.Keeps s → s = .neuron u .derivative ∨ ¬ W s →
      c.retraced u (c.fired u d.load) s = c.retraced u (c.fired u c.load) s :=
    fun s hk hs => hafter.retraced h hu (hfired _ (.inl rfl)) hk (hfired s hs)
  by_cases hdriven : ∃ l ∈ (c.neuron u).gated, s = .gain l
  · -- the activation that is handed on is alike, whatever the gain was
    obtain ⟨l, hl, rfl⟩ := hdriven
    rw [(run_driveCode u _ _).2 l hl, (run_driveCode u _ _).2 l hl]
    exact hafter.number _ (by simp) (by simp)
  · have hkept : ∀ i ∈ (c.neuron u).gated.toList.map fun l =>
        (.copy (.gain l) (.neuron u .activation) : Instr Symbol α), s ∉ i.writes := by
      intro i hi hw
      obtain ⟨l, hl, rfl⟩ := List.mem_map.mp hi
      exact hdriven ⟨l, hl, List.mem_singleton.mp hw⟩
    rw [Environment.run_of_not_mem_writes hkept, Environment.run_of_not_mem_writes hkept]
    refine hretraced s hk ?_
    by_cases hW : W s
    · refine .inl ?_
      by_contra hne
      exact hs ⟨hW, hne, fun l hl he => hdriven ⟨l, hl, he⟩⟩
    · exact .inr hW

/-! ## In the code of a program -/

namespace ReadAlike

variable (hr : c.ReadAlike u σ τ)

include hr

theorem gainFactor {s : Symbol} (hl : c.ReadsGain u l) (hs : s ∈ c.gainFactor l) : τ s = σ s := by
  rw [eq_of_mem_gainFactor hs]
  exact hr.gain l hl

theorem recurrenceFactors {s : Symbol} {g : NeuronId} (hl : c.ReadsGain u (c.neuron g).loop)
    (hs : s ∈ c.recurrenceFactors g) : τ s = σ s := by
  rcases eq_of_mem_recurrenceFactors hs with rfl | rfl
  · exact hr.gain _ hl
  · exact hr.number _ (by simp) (by simp)

theorem source (l : LinkId) : τ (c.sourceSymbol l) = σ (c.sourceSymbol l) :=
  hr.number _ (by simp [sourceSymbol]) (by simp [sourceSymbol])

theorem reads_fireCode : ∀ i ∈ c.fireCode u, ∀ s ∈ i.reads, τ s = σ s := by
  have hstate : τ (.neuron u .state) = σ (.neuron u .state) := hr.number _ (by simp) (by simp)
  have hprevious : τ (.neuron u .previous) = σ (.neuron u .previous) :=
    hr.number _ (by simp) (by simp)
  have hbias : τ (.neuron u .bias) = σ (.neuron u .bias) := hr.number _ (by simp) (by simp)
  intro i hi s hs
  simp only [fireCode, List.mem_append, List.mem_cons, List.not_mem_nil, or_false,
    List.mem_map] at hi
  rcases hi with ((rfl | rfl | rfl) | ⟨l, hl, rfl⟩) | rfl <;>
    simp only [Instr.reads, List.mem_append, List.mem_cons, List.not_mem_nil, or_false] at hs
  · rwa [hs]
  · rcases hs with hs | rfl
    · exact hr.recurrenceFactors (.inr (.inl rfl)) hs
    · exact hprevious
  · rcases hs with rfl | rfl
    · exact hstate
    · exact hbias
  · rcases hs with rfl | (rfl | rfl) | hs
    · exact hstate
    · exact hr.source l
    · exact hr.number _ (by simp) (by simp)
    · exact hr.gainFactor (.inl hl) hs
  · rwa [hs]

theorem reads_influenceCode {g : NeuronId} {p : Symbol} (hp : τ p = σ p) :
    ∀ i ∈ c.influenceCode u g p, ∀ s ∈ i.reads, τ s = σ s := by
  intro i hi s hs
  rw [influenceCode, List.mem_cons, List.mem_map] at hi
  rcases hi with rfl | ⟨l, -, rfl⟩
  · split at hs
    · rw [List.mem_singleton.mp hs]
      exact hr.number _ (by simp) (by simp)
    · exact absurd hs List.not_mem_nil
  · simp only [Instr.reads, List.mem_cons, List.not_mem_nil, or_false] at hs
    rcases hs with rfl | rfl | rfl
    · exact hp
    · exact hr.number _ (by simp) (by simp)
    · exact hr.source l

theorem reads_traceLinkCode (hderivative : τ (.neuron u .derivative) = σ (.neuron u .derivative))
    (hl : l ∈ (c.neuron u).inputs) :
    ∀ i ∈ c.traceLinkCode u (c.neuron u).trace.extended.keys.toList l, ∀ s ∈ i.reads,
      τ s = σ s := by
  have htrace : τ (.eligibility u l) = σ (.eligibility u l) := hr.number _ (by simp) (by simp)
  have hextended : ∀ g, τ (.extended u g l) = σ (.extended u g l) :=
    fun g => hr.number _ (by simp) (by simp)
  intro i hi s hs
  simp only [traceLinkCode, List.mem_append, List.mem_cons, List.not_mem_nil, or_false,
    List.mem_flatMap] at hi
  rcases hi with (rfl | rfl) | ⟨g, hg, rfl | rfl⟩ <;>
    simp only [Instr.reads, List.mem_append, List.mem_cons, List.not_mem_nil, or_false] at hs
  · rcases hs with hs | rfl
    · exact hr.recurrenceFactors (.inr (.inl rfl)) hs
    · exact htrace
  · rcases hs with rfl | hs | rfl
    · exact htrace
    · exact hr.gainFactor (.inl hl) hs
    · exact hr.source l
  · rcases hs with hs | rfl
    · exact hr.recurrenceFactors (.inr (.inr ⟨g, hg, rfl⟩)) hs
    · exact hextended g
  · rcases hs with rfl | rfl | rfl | rfl
    · exact hextended g
    · exact hderivative
    · exact htrace
    · exact hr.number _ (by simp) (by simp)

theorem reads_traceCode (hderivative : τ (.neuron u .derivative) = σ (.neuron u .derivative)) :
    ∀ i ∈ c.traceCode u, ∀ s ∈ i.reads, τ s = σ s := by
  intro i hi s hs
  simp only [traceCode, List.mem_append, List.mem_flatMap, List.mem_map] at hi
  rcases hi with (⟨g, -, hi⟩ | ⟨l, hl, hi⟩) | ⟨l, -, rfl⟩
  · exact hr.reads_influenceCode (hr.number _ (by simp) (by simp)) i hi s hs
  · exact hr.reads_traceLinkCode hderivative hl i hi s hs
  · rw [List.mem_singleton.mp hs]
    exact hr.number _ (by simp) (by simp)

/-- The code of a forward step makes up for a difference in the derivative of its neuron and in the gains
that this one drives. -/
theorem run_step {s : Symbol} (hs : τ s = σ s ∨ s = .neuron u .derivative ∨
      ∃ l ∈ (c.neuron u).gated, s = .gain l) :
    run τ (c.fireCode u ++ c.traceCode u) s = run σ (c.fireCode u ++ c.traceCode u) s := by
  have hfired : ∀ {s}, τ s = σ s ∨ s = .neuron u .derivative →
      run τ (c.fireCode u) s = run σ (c.fireCode u) s := by
    intro s hs
    refine run_agree hr.reads_fireCode (hs.imp_right ?_)
    rintro rfl
    exact ⟨_, List.mem_append_right _ List.mem_cons_self, by simp [Instr.writes]⟩
  have hafter : c.ReadAlike u (run σ (c.fireCode u)) (run τ (c.fireCode u)) :=
    ⟨fun s hn hg => hfired (.inl (hr.number s hn hg)), fun l hl => hfired (.inl (hr.gain l hl))⟩
  rw [run_append, run_append]
  refine run_agree (hafter.reads_traceCode (hfired (.inr rfl))) ?_
  rw [← or_assoc] at hs
  refine hs.imp hfired ?_
  rintro ⟨l, hl, rfl⟩
  exact ⟨_, List.mem_append_right _ (List.mem_map_of_mem hl), by simp [Instr.writes]⟩

end ReadAlike

end Circuit

end GatedNetwork
