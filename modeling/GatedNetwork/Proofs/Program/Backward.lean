import GatedNetwork.Proofs.Program.Forward

/-!
# Backward code does what backward steps do

The counterpart of the forward direction: a circuit filled with an environment takes a backward step
to the circuit filled with what the backward code makes of that environment. The code passes
intermediate sums through scratch places, which no circuit has a field for.

* `assignError_fill` — the error terms
* `correctWeights_fill`, `correctBias_fill` — the corrections
* `propagateNeuron_fill` — the whole step
-/

namespace GatedNetwork

variable {α : Type} [Arithmetic α]

open Environment

namespace Circuit

variable {c : Circuit α} {σ τ : Environment α} {u g : NeuronId} {l : LinkId}

/-- Scratch places are no fields. -/
@[simp] theorem fill_update_scratch (c : Circuit α) (σ : Environment α) (p : Scratch) (x : α) :
    c.fill (Function.update σ (.scratch p) x) = c.fill σ :=
  (store_fill c σ (.scratch p) x).symm

/-! ## Quantities of a filled circuit -/

theorem projectedError_fill (h : c.Sound) (hu : u < c.neurons.size) :
    (c.fill σ).projectedError u = (c.neuron u).projected.toList.foldl
      (fun sum l => sum + σ (.neuron (c.link l).target .responsibility) * σ (.gain l) *
        σ (.weight l)) 0 := by
  rw [projectedError, neuron_fill hu]
  refine List.foldl_ext _ _ _ fun sum l hl => ?_
  have hlt := ((h.mem_projected u hu l).mp hl).1
  rw [(sameWiring_fill c σ).target, neuron_fill (h.ends_lt l hlt).2, link_fill hlt]
  rfl

theorem gatedError_fill (h : c.Sound) (hu : u < c.neurons.size) :
    (c.fill σ).gatedError u = (c.neuron u).trace.extended.keys.toList.foldl
      (fun sum g => sum + σ (.neuron g .responsibility) * (c.fill σ).influence u g) 0 := by
  rw [gatedError, (sameWiring_fill c σ).extended_keys]
  refine List.foldl_ext _ _ _ fun sum g hg => ?_
  rw [neuron_fill (h.extended_lt hu hg)]
  rfl

theorem gradient_fill (h : c.Sound) (hu : u < c.neurons.size) (hl : l ∈ (c.neuron u).inputs) :
    (c.fill σ).gradient u l = (c.neuron u).trace.extended.keys.toList.foldl
      (fun sum g => sum + σ (.neuron g .responsibility) * σ (.extended u g l))
      (σ (.neuron u .projected) * σ (.eligibility u l)) := by
  have hstart : ((c.neuron u).trace.eligibility.find? l).isSome = true := by
    rw [← IdMap.contains, ← IdMap.mem_keys, h.eligibility_keys u hu]
    exact hl
  obtain ⟨e, he⟩ := Option.isSome_iff_exists.mp hstart
  rw [gradient, neuron_fill hu]
  simp only [Neuron.filled]
  rw [IdMap.find?_mapWithKey, he, IdMap.foldl_entries_mapWithKey, IdMap.toList_keys, List.foldl_map]
  refine List.foldl_ext _ _ _ fun sum entry hentry => ?_
  have hfind := IdMap.find?_of_mem_entries hentry
  have hg : entry.1 ∈ (c.neuron u).trace.extended.keys := IdMap.mem_keys_iff.mpr ⟨_, hfind⟩
  have hmem : l ∈ entry.2.keys := by
    rw [h.extended_keys u hu entry.1 entry.2 hfind]
    exact hl
  obtain ⟨x, hx⟩ := IdMap.mem_keys_iff.mp hmem
  rw [neuron_fill (h.extended_lt hu hg), IdMap.find?_mapWithKey, hx]
  rfl

/-! ## Error terms -/

/-- The error terms of a neuron with a target. -/
theorem assignTarget_fill (c : Circuit α) (u : NeuronId) (t : Nat) (σ : Environment α) :
    (c.fill σ).assignError u (some (σ (.target t))) = c.fill (run σ (targetErrorCode u t)) := by
  refine modifyNeuron_fill (fun _ => ?_) (fun v hv => ?_) fun l => ?_
  · simp [Neuron.filled, targetErrorCode, exec]
  · simp [Neuron.filled, targetErrorCode, exec, hv]
  · simp [Link.filled, targetErrorCode, exec]

/-- The error that comes back through gated neurons, summed up in a scratch place. -/
theorem run_gatedErrors (h : c.Sound) (hu : u < c.neurons.size) (gs : List NeuronId)
    (hgs : ∀ g ∈ gs, g < c.neurons.size) (σ : Environment α) :
    ∃ y, run σ (gs.flatMap fun g => c.influenceCode u g (.scratch .influence) ++
        [.accumulate (.scratch .error) [.neuron g .responsibility, .scratch .influence]]) =
      Function.update (Function.update σ (.scratch .influence) y) (.scratch .error)
        (gs.foldl (fun sum g => sum + σ (.neuron g .responsibility) * (c.fill σ).influence u g)
          (σ (.scratch .error))) := by
  induction gs generalizing σ with
  | nil => exact ⟨σ (.scratch .influence), by simp⟩
  | cons g gs ih =>
    obtain ⟨hg, hgs⟩ := List.forall_mem_cons.mp hgs
    rw [List.flatMap_cons, run_append, run_append, run_influenceCode h hu hg (by simp) (by simp)]
    simp only [run_cons, run_nil, exec]
    obtain ⟨y, hy⟩ := ih hgs (Function.update
      (Function.update σ (.scratch .influence) ((c.fill σ).influence u g)) (.scratch .error)
      (σ (.scratch .error) + σ (.neuron g .responsibility) * (c.fill σ).influence u g))
    refine ⟨y, ?_⟩
    simp only [product, List.map_cons, List.map_nil, List.foldl_cons, List.foldl_nil,
      Function.update_self, ne_eq, reduceCtorEq, not_false_eq_true, Function.update_of_ne,
      Symbol.scratch.injEq, fill_update_scratch] at hy ⊢
    rw [hy, Function.update_comm (by simp), Function.update_idem, Function.update_comm (by simp),
      Function.update_idem]

variable [NeutralOne α]

/-- The error that comes back through outgoing links, summed up in a scratch place. -/
theorem run_projectedErrors (h : c.Sound) (hu : u < c.neurons.size) (hσ : c.Neutral σ) :
    run (Function.update σ (.scratch .error) 0) ((c.neuron u).projected.toList.map fun l =>
      .accumulate (.scratch .error) ([.neuron (c.link l).target .responsibility] ++
        c.gainFactor l ++ [.weight l])) =
      Function.update σ (.scratch .error) ((c.fill σ).projectedError u) := by
  let zeroed := Function.update σ (.scratch .error) 0
  have hzeroed : c.Neutral zeroed := hσ.update (by simp) _
  have hterm : ∀ l, product (([Symbol.neuron (c.link l).target .responsibility] ++
      c.gainFactor l ++ [Symbol.weight l]).map zeroed) =
      σ (.neuron (c.link l).target .responsibility) * σ (.gain l) * σ (.weight l) := by
    intro l
    have hproduct := hzeroed.product_cons_gain l (.neuron (c.link l).target .responsibility) []
      [.weight l]
    rw [hproduct]
    simp [product, zeroed]
  show run zeroed _ = _
  rw [run_accumulates, projectedError_fill h hu]
  · simp only [hterm]
    simp [zeroed]
  · intro l _ hmem
    rcases gainFactor_cases c l with hl | hl <;> simp [hl] at hmem

/-- The error terms of a neuron without a target. -/
theorem assignInner_fill (h : c.Sound) (hu : u < c.neurons.size) (hσ : c.Neutral σ) :
    (c.fill σ).assignError u none = c.fill (run σ (c.innerErrorCode u)) := by
  -- the numbers once the first share of the error is there and the place for sums is free again
  let halfway := Function.update (Function.update σ (.neuron u .projected)
    (σ (.neuron u .derivative) * (c.fill σ).projectedError u)) (.scratch .error) 0
  have hhalfway : run σ ([.const (.scratch .error) 0] ++
      ((c.neuron u).projected.toList.map fun l =>
        .accumulate (.scratch .error) ([.neuron (c.link l).target .responsibility] ++
          c.gainFactor l ++ [.weight l])) ++
      [.product (.neuron u .projected) [.neuron u .derivative, .scratch .error],
        .const (.scratch .error) 0]) = halfway := by
    have hstart : run σ [.const (.scratch .error) 0] = Function.update σ (.scratch .error) 0 := rfl
    rw [run_append, run_append, hstart, run_projectedErrors h hu hσ]
    simp only [run_cons, run_nil, exec, halfway, product, List.map_cons, List.map_nil,
      List.foldl_cons, List.foldl_nil]
    rw [Function.update_comm (by simp)]
    simp only [ne_eq, reduceCtorEq, not_false_eq_true, Function.update_of_ne, Function.update_self,
      Function.update_idem]
    exact Function.update_comm (by simp) _ _ _
  have hinfluence : ∀ g ∈ (c.neuron u).trace.extended.keys,
      (c.fill halfway).influence u g = (c.fill σ).influence u g := by
    intro g hg
    have hlt := h.extended_lt hu hg
    rw [influence_fill h hu hlt, influence_fill h hu hlt]
    simp [halfway, sourceSymbol]
  have hgated : (c.neuron u).trace.extended.keys.toList.foldl
      (fun sum g => sum + halfway (.neuron g .responsibility) * (c.fill halfway).influence u g)
      (halfway (.scratch .error)) = (c.fill σ).gatedError u := by
    rw [gatedError_fill h hu]
    have hzero : halfway (.scratch .error) = 0 := by simp [halfway]
    rw [hzero]
    refine List.foldl_ext _ _ _ fun sum g hg => ?_
    rw [hinfluence g hg]
    simp [halfway]
  obtain ⟨y, hy⟩ := run_gatedErrors h hu (c.neuron u).trace.extended.keys.toList
    (fun g hg => h.extended_lt hu hg) halfway
  rw [hgated] at hy
  rw [innerErrorCode, run_append, run_append, hhalfway, hy]
  refine modifyNeuron_fill (fun _ => ?_) (fun v hv => ?_) fun l => ?_
  · simp [Neuron.filled, exec, product, halfway, neuron_fill hu]
  · simp [Neuron.filled, exec, product, halfway, hv]
  · simp [Link.filled, exec, product, halfway]

/-! ## Corrections -/

omit [NeutralOne α] in
/-- The code of one incoming link moves its weight along the gradient. -/
theorem run_correctLinkCode (h : c.Sound) (hu : u < c.neurons.size)
    (hl : l ∈ (c.neuron u).inputs) :
    run σ (c.correctLinkCode u l) =
      Function.update (Function.update σ (.scratch .gradient) ((c.fill σ).gradient u l)) (.weight l)
        (σ (.weight l) + σ .rate * (c.fill σ).gradient u l) := by
  rw [correctLinkCode, run_append, run_append, run_accumulates, gradient_fill h hu hl]
  · simp [exec, product]
  · simp

omit [NeutralOne α] in
theorem correctWeight_fill (c : Circuit α) (l : LinkId) (x : α) (σ : Environment α) :
    ((c.fill σ).modifyLink l fun k => { k with weight := k.weight + x }) =
      c.fill (Function.update σ (.weight l) (σ (.weight l) + x)) := by
  refine modifyLink_fill (fun _ => ?_) (fun k hk => ?_) fun v => ?_
  · simp [Link.filled]
  · simp [Link.filled, hk]
  · simp [Neuron.filled]

omit [NeutralOne α] in
/-- No gradient depends on a weight that is corrected, so the weights may be corrected one after
another. -/
theorem correctWeights_fill (h : c.Sound) (hu : u < c.neurons.size) :
    (c.fill σ).correctWeights u (σ .rate) =
      c.fill (run σ ((c.neuron u).inputs.toList.flatMap (c.correctLinkCode u))) := by
  -- on the links still to be corrected; the gradients stay those of the start
  have hfold : ∀ (ls : List LinkId) (τ : Environment α), (∀ l ∈ ls, l ∈ (c.neuron u).inputs) →
      τ .rate = σ .rate →
      (∀ l ∈ (c.neuron u).inputs, (c.fill τ).gradient u l = (c.fill σ).gradient u l) →
      ls.foldl (fun d l => d.modifyLink l fun k =>
        { k with weight := k.weight + σ .rate * (c.fill σ).gradient u l }) (c.fill τ) =
        c.fill (run τ (ls.flatMap (c.correctLinkCode u))) := by
    intro ls
    induction ls with
    | nil => exact fun τ _ _ _ => rfl
    | cons l ls ih =>
      intro τ hls hrate hgradient
      obtain ⟨hl, hls⟩ := List.forall_mem_cons.mp hls
      rw [List.foldl_cons, correctWeight_fill, List.flatMap_cons, run_append,
        run_correctLinkCode h hu hl, hrate, hgradient l hl, Function.update_comm (by simp)]
      have hsame : ∀ (x y : α), ∀ k ∈ (c.neuron u).inputs,
          (c.fill (Function.update (Function.update τ (.weight l) x) (.scratch .gradient) y)).gradient
            u k = (c.fill σ).gradient u k := by
        intro x y k hk
        rw [← hgradient k hk, gradient_fill h hu hk, gradient_fill h hu hk]
        simp
      rw [← fill_update_scratch c _ .gradient ((c.fill σ).gradient u l)]
      exact ih _ hls (by simpa using hrate) (hsame _ _)
  rw [correctWeights, neuron_fill hu]
  exact hfold _ σ (fun l hl => hl) rfl fun _ _ => rfl

omit [NeutralOne α] in
theorem correctBias_fill (c : Circuit α) (u : NeuronId) (σ : Environment α) :
    (c.fill σ).correctBias u (σ .rate) =
      c.fill (run σ [.accumulate (.neuron u .bias) [.rate, .neuron u .responsibility]]) := by
  refine modifyNeuron_fill (fun _ => ?_) (fun v hv => ?_) fun l => ?_
  · simp [Neuron.filled, exec, product]
  · simp [Neuron.filled, exec, product, hv]
  · simp [Link.filled, exec, product]

/-! ## The whole step -/

omit [NeutralOne α] in
/-- Backward code writes numbers of its neuron, weights of links into it and scratch places. -/
theorem writes_propagationCode {target : Option Nat} {i : Instr Symbol α} {s : Symbol}
    (hi : i ∈ c.propagationCode u target) (hs : s ∈ i.writes) :
    (∃ a, s = .neuron u a) ∨ (∃ l ∈ (c.neuron u).inputs, s = .weight l) ∨ ∃ p, s = .scratch p := by
  have hinfluence := fun g => @writes_influenceCode _ _ c u g (.scratch .influence) s i
  simp only [propagationCode, correctLinkCode, List.mem_append, List.mem_cons, List.not_mem_nil,
    or_false, List.mem_flatMap, List.mem_map] at hi
  rcases hi with (hi | ⟨l, hl, (rfl | ⟨g, -, rfl⟩) | rfl⟩) | rfl
  · cases target with
    | some t =>
      simp only [targetErrorCode, List.mem_cons, List.not_mem_nil, or_false] at hi
      rcases hi with rfl | rfl
      · exact .inl ⟨_, List.mem_singleton.mp hs⟩
      · exact .inl ⟨_, List.mem_singleton.mp hs⟩
    | none =>
      simp only [innerErrorCode, List.mem_append, List.mem_cons, List.not_mem_nil, or_false,
        List.mem_flatMap, List.mem_map] at hi
      rcases hi with (((rfl | ⟨l, -, rfl⟩) | rfl | rfl) | ⟨g, -, hi | rfl⟩) | rfl | rfl
      · exact .inr (.inr ⟨_, List.mem_singleton.mp hs⟩)
      · exact .inr (.inr ⟨_, List.mem_singleton.mp hs⟩)
      · exact .inl ⟨_, List.mem_singleton.mp hs⟩
      · exact .inr (.inr ⟨_, List.mem_singleton.mp hs⟩)
      · exact .inr (.inr ⟨_, hinfluence g hi hs⟩)
      · exact .inr (.inr ⟨_, List.mem_singleton.mp hs⟩)
      · exact .inl ⟨_, List.mem_singleton.mp hs⟩
      · exact .inl ⟨_, List.mem_singleton.mp hs⟩
  · exact .inr (.inr ⟨_, List.mem_singleton.mp hs⟩)
  · exact .inr (.inr ⟨_, List.mem_singleton.mp hs⟩)
  · exact .inr (.inl ⟨l, hl, List.mem_singleton.mp hs⟩)
  · exact .inl ⟨_, List.mem_singleton.mp hs⟩

omit [NeutralOne α] in
/-- Rate, targets and gains stay what they are. -/
theorem run_propagationCode_of_ne {target : Option Nat} {s : Symbol} (hn : ∀ v a, s ≠ .neuron v a)
    (hw : ∀ l, s ≠ .weight l) (hp : ∀ p, s ≠ .scratch p) :
    run σ (c.propagationCode u target) s = σ s := by
  refine run_of_not_mem_writes fun i hi hs => ?_
  rcases writes_propagationCode hi hs with ⟨a, rfl⟩ | ⟨l, -, rfl⟩ | ⟨p, rfl⟩
  · exact hn u a rfl
  · exact hw l rfl
  · exact hp p rfl

omit [NeutralOne α] in
theorem neutral_propagate (hσ : c.Neutral σ) (u : NeuronId) (target : Option Nat) :
    c.Neutral (run σ (c.propagationCode u target)) :=
  hσ.of_agree fun _ _ => run_propagationCode_of_ne (by simp) (by simp) (by simp)

omit [NeutralOne α] in
/-- Any part of the code leaves the rate alone. -/
theorem rate_not_mem_writes {target : Option Nat} {i : Instr Symbol α}
    (hi : i ∈ c.propagationCode u target) : .rate ∉ i.writes := by
  intro hs
  rcases writes_propagationCode hi hs with ⟨a, he⟩ | ⟨l, -, he⟩ | ⟨p, he⟩ <;> cases he

/-- A backward step of a filled circuit, with rate and target from the environment, fills it with what
the backward code makes of the environment. -/
theorem propagateNeuron_fill (h : c.Sound) (hu : u < c.neurons.size) (hσ : c.Neutral σ)
    (target : Option Nat) :
    (c.fill σ).propagateNeuron u (some (σ .rate)) (target.map fun t => σ (.target t)) =
      c.fill (run σ (c.propagationCode u target)) := by
  -- with or without a target, the code starts with a part that gives the error terms
  have herror : ∃ code, (c.fill σ).assignError u (target.map fun t => σ (.target t)) =
      c.fill (run σ code) ∧ run σ code .rate = σ .rate ∧
      c.propagationCode u target = code ++ (c.neuron u).inputs.toList.flatMap (c.correctLinkCode u) ++
        [.accumulate (.neuron u .bias) [.rate, .neuron u .responsibility]] := by
    cases target with
    | some t => exact ⟨_, assignTarget_fill c u t σ, by simp [targetErrorCode, exec], rfl⟩
    | none =>
      refine ⟨_, assignInner_fill h hu hσ, ?_, rfl⟩
      refine run_of_not_mem_writes fun i hi => ?_
      have hmem : i ∈ c.propagationCode u none := by
        simp only [propagationCode, List.mem_append]
        exact .inl (.inl hi)
      exact rate_not_mem_writes hmem
  obtain ⟨code, herror, hrate, hcode⟩ := herror
  have hcorrected : run (run σ code) ((c.neuron u).inputs.toList.flatMap (c.correctLinkCode u))
      .rate = σ .rate := by
    rw [run_of_not_mem_writes, hrate]
    intro i hi
    have hmem : i ∈ c.propagationCode u none := by
      simp only [propagationCode, List.mem_append]
      exact .inl (.inr hi)
    exact rate_not_mem_writes hmem
  rw [propagateNeuron, Option.getD_some, herror, hcode, run_append, run_append, ← hcorrected,
    ← correctBias_fill, hcorrected, ← hrate, correctWeights_fill h hu]

end Circuit

end GatedNetwork
