import GatedNetwork.Proofs.Arithmetic
import GatedNetwork.Proofs.Circuit.Fill
import GatedNetwork.Proofs.Circuit.Sound

/-!
# Forward code does what forward steps do

A circuit filled with an environment takes a forward step to the circuit filled with what the forward
code makes of that environment.

The code leaves out a gain that was 1 when it was written and that nobody drives. `Circuit.Neutral`
says that such gains are still 1; the code of a sound circuit never writes one of them, so it stays
that way.

* `fire_fill` — the next state
* `retrace_fill` — the traces
* `driveGains_fill` — the gains of gated links
* `step_fill` — the whole step
-/

namespace GatedNetwork

variable {α : Type} [Arithmetic α]

open Environment

namespace Circuit

variable {c : Circuit α} {σ τ : Environment α} {u g : NeuronId} {l : LinkId}

/-! ## Gains that are left out -/

/-- Gains that code leaves out are 1. -/
def Neutral (c : Circuit α) (σ : Environment α) : Prop :=
  ∀ l, c.gainFactor l = [] → σ (.gain l) = 1

theorem gainFactor_cases (c : Circuit α) (l : LinkId) :
    c.gainFactor l = [] ∨ c.gainFactor l = [.gain l] := by
  unfold gainFactor
  split
  · exact .inl rfl
  · exact .inr rfl

/-- A driven gain is never left out. -/
theorem gainFactor_of_gated (h : (c.link l).gater = some g) : c.gainFactor l = [.gain l] := by
  simp [gainFactor, h]

theorem eq_of_mem_gainFactor {s : Symbol} (h : s ∈ c.gainFactor l) : s = .gain l := by
  rcases gainFactor_cases c l with hl | hl
  · exact absurd (hl ▸ h) List.not_mem_nil
  · exact List.mem_singleton.mp (hl ▸ h)

namespace Neutral

theorem of_agree (h : c.Neutral σ) (ha : ∀ l, c.gainFactor l = [] → τ (.gain l) = σ (.gain l)) :
    c.Neutral τ :=
  fun l hl => (ha l hl).trans (h l hl)

theorem update {s : Symbol} (h : c.Neutral σ) (hs : ∀ l, s ≠ .gain l) (x : α) :
    c.Neutral (Function.update σ s x) :=
  h.of_agree fun l _ => Function.update_of_ne (hs l).symm _ _

/-- Code that drives no gain but those it names as factors keeps the others. -/
theorem run {code : List (Instr Symbol α)} (h : c.Neutral σ)
    (hcode : ∀ i ∈ code, ∀ l, .gain l ∈ i.writes → c.gainFactor l ≠ []) :
    c.Neutral (run σ code) :=
  h.of_agree fun l hl => run_of_not_mem_writes fun i hi hw => hcode i hi l hw hl

variable [NeutralOne α]

/-- The numbers of a circuit are neutral for its own code. -/
theorem load (c : Circuit α) : c.Neutral c.load := by
  intro l hl
  unfold gainFactor at hl
  split at hl
  · next h => exact NeutralOne.eq_one _ (Bool.and_eq_true_iff.mp h).2
  · cases hl

/-- A gain in front of other factors may be left out. -/
theorem product_gain_cons (h : c.Neutral σ) (l : LinkId) (s : Symbol) (ss : List Symbol) :
    product ((c.gainFactor l ++ s :: ss).map σ) = product ((.gain l :: s :: ss).map σ) := by
  rcases gainFactor_cases c l with hl | hl
  · simp only [hl, List.nil_append, List.map_cons, product, List.foldl_cons, h l hl,
      NeutralOne.one_mul]
  · rw [hl, List.singleton_append]

/-- A gain after other factors may be left out. -/
theorem product_cons_gain (h : c.Neutral σ) (l : LinkId) (s : Symbol) (ss ts : List Symbol) :
    product (((s :: ss) ++ c.gainFactor l ++ ts).map σ) =
      product (((s :: ss) ++ [Symbol.gain l] ++ ts).map σ) := by
  rcases gainFactor_cases c l with hl | hl
  · simp only [hl, List.append_nil, List.cons_append, List.map_cons, List.map_append, product,
      List.foldl_append, List.map_nil, List.foldl_cons, List.foldl_nil, h l hl,
      NeutralOne.mul_one]
  · rw [hl]

end Neutral

/-! ## Quantities of a filled circuit -/

section Quantities

variable (h : c.Sound)

include h

theorem Sound.input_lt (hu : u < c.neurons.size) (hl : l ∈ (c.neuron u).inputs) :
    l < c.links.size :=
  ((h.mem_inputs u hu l).mp hl).1

theorem loopOf_fill (hu : u < c.neurons.size) :
    (c.fill σ).loopOf u = (c.loopOf u).filled σ (c.neuron u).loop := by
  rw [loopOf, (sameWiring_fill c σ).loop, link_fill (h.loop_lt u hu), loopOf]

theorem recurrence_fill (hu : u < c.neurons.size) :
    (c.fill σ).recurrence u = σ (.gain (c.neuron u).loop) * σ (.weight (c.neuron u).loop) := by
  rw [recurrence, loopOf_fill h hu]
  rfl

theorem sourceActivation_fill (hl : l < c.links.size) :
    (c.fill σ).sourceActivation l = σ (c.sourceSymbol l) := by
  rw [sourceActivation, (sameWiring_fill c σ).source, neuron_fill (h.ends_lt l hl).1]
  rfl

theorem nextState_fill (hu : u < c.neurons.size) :
    (c.fill σ).nextState u = (c.neuron u).inputs.toList.foldl
      (fun sum l => sum + σ (c.sourceSymbol l) * σ (.weight l) * σ (.gain l))
      (σ (.gain (c.neuron u).loop) * σ (.weight (c.neuron u).loop) * σ (.neuron u .state) +
        σ (.neuron u .bias)) := by
  rw [nextState, recurrence_fill h hu, neuron_fill hu]
  refine List.foldl_ext _ _ _ fun sum l hl => ?_
  have hlt := h.input_lt hu hl
  rw [sourceActivation_fill h hlt, link_fill hlt]
  rfl

theorem influence_fill (hu : u < c.neurons.size) (hg : g < c.neurons.size) :
    (c.fill σ).influence u g = ((c.neuron u).trace.influencesOn g).toList.foldl
      (fun sum l => sum + σ (.weight l) * σ (c.sourceSymbol l))
      (if (c.loopOf g).gater = some u then σ (.neuron g .previous) else 0) := by
  rw [influence, (sameWiring_fill c σ).influencesOn, loopOf_fill h hg, neuron_fill hg]
  refine List.foldl_ext _ _ _ fun sum l hl => ?_
  have hlt := ((h.mem_influences u hu g l).mp hl).1
  rw [sourceActivation_fill h hlt, link_fill hlt]
  rfl

theorem nextEligibility_fill (hu : u < c.neurons.size) (hl : l ∈ (c.neuron u).inputs) (x : α) :
    (c.fill σ).nextEligibility u l x =
      σ (.gain (c.neuron u).loop) * σ (.weight (c.neuron u).loop) * x +
        σ (.gain l) * σ (c.sourceSymbol l) := by
  have hlt := h.input_lt hu hl
  rw [nextEligibility, recurrence_fill h hu, sourceActivation_fill h hlt, link_fill hlt]
  rfl

/-- A neuron keeps traces for neurons that exist. -/
theorem Sound.extended_lt (hu : u < c.neurons.size) (hg : g ∈ (c.neuron u).trace.extended.keys) :
    g < c.neurons.size := by
  obtain ⟨l, hl, -, rfl⟩ := (h.mem_extended u hu g).mp hg
  exact (h.ends_lt l hl).2

end Quantities

/-! ## The next state -/

variable [NeutralOne α]

/-- The product of the recurrence and one more number. -/
theorem product_recurrence (hσ : c.Neutral σ) (u : NeuronId) (s : Symbol) :
    product ((c.recurrenceFactors u ++ [s]).map σ) =
      σ (.gain (c.neuron u).loop) * σ (.weight (c.neuron u).loop) * σ s := by
  simp only [recurrenceFactors, List.append_assoc, List.singleton_append]
  rw [hσ.product_gain_cons]
  rfl

/-- What the forward code makes of the numbers of a neuron, the traces apart. -/
def fired (c : Circuit α) (u : NeuronId) (σ : Environment α) : Environment α :=
  let x := (c.fill σ).nextState u
  let y := Arithmetic.squash (c.neuron u).transfer x
  Function.update (Function.update (Function.update (Function.update σ
    (.neuron u .previous) (σ (.neuron u .state))) (.neuron u .state) x)
    (.neuron u .activation) y.1) (.neuron u .derivative) y.2

theorem run_fireCode (h : c.Sound) (hu : u < c.neurons.size) (hσ : c.Neutral σ) :
    run σ (c.fireCode u) = c.fired u σ := by
  -- what holds after the old state was saved, and after loop and bias were summed up
  let start := Function.update σ (.neuron u .previous) (σ (.neuron u .state))
  have hstart : c.Neutral start := hσ.update (by simp) _
  let based := Function.update start (.neuron u .state)
    (σ (.gain (c.neuron u).loop) * σ (.weight (c.neuron u).loop) * σ (.neuron u .state) +
      σ (.neuron u .bias))
  have hbased : c.Neutral based := hstart.update (by simp) _
  have hrecurrence : run σ [.copy (.neuron u .previous) (.neuron u .state),
      .product (.neuron u .state) (c.recurrenceFactors u ++ [.neuron u .previous]),
      .sum (.neuron u .state) (.neuron u .state) (.neuron u .bias)] = based := by
    simp only [run_cons, run_nil, exec]
    rw [product_recurrence hstart]
    simp [based, start]
  have hterm : ∀ l, product (([c.sourceSymbol l, .weight l] ++ c.gainFactor l).map based) =
      σ (c.sourceSymbol l) * σ (.weight l) * σ (.gain l) := by
    intro l
    have hproduct := hbased.product_cons_gain l (c.sourceSymbol l) [.weight l] []
    simp only [List.append_nil] at hproduct
    rw [List.cons_append] at hproduct ⊢
    rw [hproduct]
    simp [product, based, start, sourceSymbol]
  have hsum : run based ((c.neuron u).inputs.toList.map fun l =>
      .accumulate (.neuron u .state) ([c.sourceSymbol l, .weight l] ++ c.gainFactor l)) =
      Function.update start (.neuron u .state) ((c.fill σ).nextState u) := by
    rw [run_accumulates, nextState_fill h hu]
    · simp only [hterm]
      simp [based]
    · intro l _ hmem
      rcases gainFactor_cases c l with hl | hl <;> simp [hl, sourceSymbol] at hmem
  rw [fireCode, run_append, run_append, hrecurrence, hsum]
  simp [exec, fired, start]

omit [NeutralOne α] in
/-- Firing changes four numbers of one neuron. -/
theorem fire_fill (c : Circuit α) (u : NeuronId) (σ : Environment α) :
    (c.fill σ).fire u = c.fill (c.fired u σ) := by
  refine modifyNeuron_fill (fun _ => ?_) (fun v hv => ?_) fun l => ?_
  · simp [Neuron.filled, fired]
  · simp [Neuron.filled, fired, hv]
  · simp [Link.filled, fired]

/-! ## Traces -/

omit [NeutralOne α] in
/-- Code for the influence of a neuron on another puts it into its place and changes nothing else. -/
theorem run_influenceCode (h : c.Sound) (hu : u < c.neurons.size) (hg : g < c.neurons.size)
    {p : Symbol} (hweight : ∀ l, p ≠ .weight l) (hneuron : ∀ v a, p ≠ .neuron v a) :
    run σ (c.influenceCode u g p) = Function.update σ p ((c.fill σ).influence u g) := by
  have hsource : ∀ l, c.sourceSymbol l ≠ p := fun l => (hneuron _ _).symm
  rw [influenceCode, run_cons, run_accumulates, influence_fill h hu hg]
  · split
    · simp [exec, product, (hweight _).symm, hsource]
    · simp [exec, product, (hweight _).symm, hsource]
  · intro l _ hmem
    simp only [List.mem_cons, List.not_mem_nil, or_false] at hmem
    rcases hmem with hp | hp
    · exact hweight l hp
    · exact hsource l hp.symm

/-- The traces of a neuron as `retrace` leaves them. -/
def retraced (c : Circuit α) (u : NeuronId) (σ : Environment α) : Environment α
  | .eligibility v l =>
    if v = u then (c.fill σ).nextEligibility u l (σ (.eligibility u l)) else σ (.eligibility v l)
  | .extended v g l =>
    if v = u then
      (c.fill σ).recurrence g * σ (.extended u g l) + σ (.neuron u .derivative) *
        (c.fill σ).nextEligibility u l (σ (.eligibility u l)) * (c.fill σ).influence u g
    else σ (.extended v g l)
  | s => σ s

omit [NeutralOne α] in
theorem retrace_fill (h : c.Sound) (hu : u < c.neurons.size) :
    (c.fill σ).retrace u = c.fill (c.retraced u σ) := by
  refine modifyNeuron_fill (fun _ => ?_) (fun v hv => ?_) fun l => ?_
  · simp only [Neuron.filled, retraced, if_true]
    congr 2
    · ext l
      simp only [IdMap.find?_mapWithKey]
      cases (c.neuron u).trace.eligibility.find? l <;> rfl
    · refine IdMap.ext fun g => ?_
      simp only [IdMap.find?_mapWithKey]
      cases hg : (c.neuron u).trace.extended.find? g with
      | none => rfl
      | some xs =>
        refine congrArg some (IdMap.ext fun l => ?_)
        -- the new entry is built from the eligibility of the same link, so there has to be one
        have hkeys : xs.keys = (c.neuron u).trace.eligibility.keys := by
          rw [h.extended_keys u hu g xs hg, h.eligibility_keys u hu]
        simp only [IdMap.find?_mapWithKey]
        cases hl : xs.find? l with
        | none => rfl
        | some x =>
          have hmem : l ∈ (c.neuron u).trace.eligibility.keys := by
            rw [← hkeys]
            exact IdMap.mem_keys_iff.mpr ⟨x, hl⟩
          obtain ⟨e, he⟩ := IdMap.mem_keys_iff.mp hmem
          simp [he]
  · simp [Neuron.filled, retraced, hv]
  · simp [Link.filled, retraced]

omit [NeutralOne α] in
theorem writes_traceLinkCode {gs : List NeuronId} {i : Instr Symbol α} {s : Symbol}
    (hi : i ∈ c.traceLinkCode u gs l) (hs : s ∈ i.writes) :
    s = .eligibility u l ∨ ∃ g, s = .extended u g l := by
  simp only [traceLinkCode, List.mem_append, List.mem_cons, List.not_mem_nil, or_false,
    List.mem_flatMap] at hi
  rcases hi with (rfl | rfl) | ⟨g, -, rfl | rfl⟩
  · exact .inl (List.mem_singleton.mp hs)
  · exact .inl (List.mem_singleton.mp hs)
  · exact .inr ⟨g, List.mem_singleton.mp hs⟩
  · exact .inr ⟨g, List.mem_singleton.mp hs⟩

/-- The first part of the code of one incoming link brings its eligibility up to date. -/
theorem run_eligibilityCode (hσ : c.Neutral σ) :
    run σ [.product (.eligibility u l) (c.recurrenceFactors u ++ [.eligibility u l]),
        .accumulate (.eligibility u l) (c.gainFactor l ++ [c.sourceSymbol l])] =
      Function.update σ (.eligibility u l)
        (σ (.gain (c.neuron u).loop) * σ (.weight (c.neuron u).loop) * σ (.eligibility u l) +
          σ (.gain l) * σ (c.sourceSymbol l)) := by
  have hnext := hσ.update (s := .eligibility u l) (by simp)
  simp only [run_cons, run_nil, exec]
  rw [product_recurrence hσ, (hnext _).product_gain_cons]
  simp [product, sourceSymbol]

/-- The other part brings an extended trace up to date for every gated neuron. -/
theorem run_extendedCode (hσ : c.Neutral σ) {gs : List NeuronId} (hgs : gs.Nodup) (hg : g ∈ gs) :
    run σ (gs.flatMap fun g =>
        [.product (.extended u g l) (c.recurrenceFactors g ++ [.extended u g l]),
          .accumulate (.extended u g l)
            [.neuron u .derivative, .eligibility u l, .influence u g]]) (.extended u g l) =
      σ (.gain (c.neuron g).loop) * σ (.weight (c.neuron g).loop) * σ (.extended u g l) +
        σ (.neuron u .derivative) * σ (.eligibility u l) * σ (.influence u g) := by
  rw [run_flatMap_of_independent hgs hg]
  · simp only [run_cons, run_nil, exec]
    rw [product_recurrence hσ]
    simp [product]
  -- the other blocks write entries of other neurons and mention none of `g`
  · intro g' _ hne i hi
    have hw : i.writes = [.extended u g' l] := by
      simp only [List.mem_cons, List.not_mem_nil, or_false] at hi
      rcases hi with rfl | rfl <;> rfl
    rw [hw]
    constructor
    · simp [Ne.symm hne]
    · intro t ht hmem
      rw [List.mem_singleton] at hmem
      subst hmem
      simp only [mentions, List.mem_flatMap, List.mem_cons, List.not_mem_nil, or_false,
        exists_eq_or_imp, exists_eq_left, Instr.places, recurrenceFactors, List.mem_append] at ht
      have hgain := fun k => @eq_of_mem_gainFactor _ _ c k (.extended u g' l)
      simp [hne] at ht
      exact absurd (hgain _ ht) (by simp)

/-- The code of one incoming link, where the influences have their places filled. -/
theorem run_traceLinkCode (hσ : c.Neutral σ) {gs : List NeuronId} (hgs : gs.Nodup) :
    run σ (c.traceLinkCode u gs l) (.eligibility u l) =
        σ (.gain (c.neuron u).loop) * σ (.weight (c.neuron u).loop) * σ (.eligibility u l) +
          σ (.gain l) * σ (c.sourceSymbol l) ∧
      ∀ g ∈ gs, run σ (c.traceLinkCode u gs l) (.extended u g l) =
        σ (.gain (c.neuron g).loop) * σ (.weight (c.neuron g).loop) * σ (.extended u g l) +
          σ (.neuron u .derivative) *
            (σ (.gain (c.neuron u).loop) * σ (.weight (c.neuron u).loop) * σ (.eligibility u l) +
              σ (.gain l) * σ (c.sourceSymbol l)) * σ (.influence u g) := by
  rw [traceLinkCode, run_append, run_eligibilityCode hσ]
  constructor
  · rw [run_of_not_mem_writes, Function.update_self]
    intro i hi
    obtain ⟨g, -, hi⟩ := List.mem_flatMap.mp hi
    simp only [List.mem_cons, List.not_mem_nil, or_false] at hi
    rcases hi with rfl | rfl <;> simp [Instr.writes]
  · intro g hg
    rw [run_extendedCode (hσ.update (by simp) _) hgs hg]
    simp

omit [NeutralOne α] in
theorem writes_influenceCode {p s : Symbol} {i : Instr Symbol α} (hi : i ∈ c.influenceCode u g p)
    (hs : s ∈ i.writes) : s = p := by
  simp only [influenceCode, List.mem_cons, List.mem_map] at hi
  rcases hi with rfl | ⟨l, -, rfl⟩
  · split at hs
    · exact List.mem_singleton.mp hs
    · exact List.mem_singleton.mp hs
  · exact List.mem_singleton.mp hs

omit [NeutralOne α] in
theorem mentions_influenceCode {p s : Symbol} (hs : s ∈ mentions (c.influenceCode u g p)) :
    s = p ∨ s = .neuron g .previous ∨
      ∃ l ∈ ((c.neuron u).trace.influencesOn g).toList, s = .weight l ∨ s = c.sourceSymbol l := by
  simp only [mentions, influenceCode, List.flatMap_cons, List.mem_append, List.mem_flatMap,
    List.mem_map] at hs
  rcases hs with hs | ⟨_, ⟨l, hl, rfl⟩, hs⟩
  · split at hs
    · simp only [Instr.places, List.mem_cons, List.not_mem_nil, or_false] at hs
      rcases hs with hs | hs
      · exact .inl hs
      · exact .inr (.inl hs)
    · exact .inl (List.mem_singleton.mp hs)
  · simp only [Instr.places, List.mem_cons, List.not_mem_nil, or_false] at hs
    rcases hs with hs | hs | hs
    · exact .inl hs
    · exact .inr (.inr ⟨l, hl, .inl hs⟩)
    · exact .inr (.inr ⟨l, hl, .inr hs⟩)

omit [NeutralOne α] in
/-- All influences of a neuron in their places. -/
theorem run_influences (h : c.Sound) (hu : u < c.neurons.size) :
    (∀ g ∈ (c.neuron u).trace.extended.keys,
      run σ ((c.neuron u).trace.extended.keys.toList.flatMap
        fun g => c.influenceCode u g (.influence u g)) (.influence u g) =
          (c.fill σ).influence u g) ∧
      ∀ s, (∀ g, s ≠ .influence u g) →
        run σ ((c.neuron u).trace.extended.keys.toList.flatMap
          fun g => c.influenceCode u g (.influence u g)) s = σ s := by
  constructor
  · intro g hg
    rw [run_flatMap_of_independent (IdSet.nodup _) hg,
      run_influenceCode h hu (h.extended_lt hu hg) (by simp) (by simp), Function.update_self]
    -- no block reads or writes the influence that another one sets
    intro g' _ hne i hi
    constructor
    · intro hw
      exact hne (by simpa using (writes_influenceCode hi hw).symm)
    · intro t ht hw
      obtain rfl := writes_influenceCode hi hw
      rcases mentions_influenceCode ht with he | he | ⟨l, -, he | he⟩
      · exact hne (by simpa using he)
      · cases he
      · cases he
      · cases he
  · intro s hs
    refine run_of_not_mem_writes fun i hi hw => ?_
    obtain ⟨g, -, hi⟩ := List.mem_flatMap.mp hi
    exact hs g (writes_influenceCode hi hw)

omit [NeutralOne α] in
theorem mentions_traceLinkCode {gs : List NeuronId} {s : Symbol}
    (hs : s ∈ mentions (c.traceLinkCode u gs l)) :
    s = .eligibility u l ∨ (∃ g ∈ gs, s = .extended u g l ∨ s = .influence u g ∨
      s ∈ c.recurrenceFactors g) ∨ s ∈ c.recurrenceFactors u ∨ s ∈ c.gainFactor l ∨
      s = c.sourceSymbol l ∨ s = .neuron u .derivative := by
  simp only [mentions, traceLinkCode, List.flatMap_append, List.flatMap_cons, List.flatMap_nil,
    List.mem_append, List.mem_flatMap, Instr.places, List.mem_cons, List.not_mem_nil,
    or_false] at hs
  grind

omit [NeutralOne α] in
theorem eq_of_mem_recurrenceFactors {s : Symbol} (hs : s ∈ c.recurrenceFactors u) :
    s = .gain (c.neuron u).loop ∨ s = .weight (c.neuron u).loop := by
  rcases List.mem_append.mp hs with hs | hs
  · exact .inl (eq_of_mem_gainFactor hs)
  · exact .inr (List.mem_singleton.mp hs)

omit [NeutralOne α] in
/-- The code of one incoming link leaves the traces of another alone. -/
theorem traceLinkCode_independent {gs : List NeuronId} {k : LinkId} {s : Symbol} (hne : k ≠ l)
    (hs : s = .eligibility u l ∨ ∃ g, s = .extended u g l) :
    ∀ i ∈ c.traceLinkCode u gs k, s ∉ i.writes ∧
      ∀ t ∈ mentions (c.traceLinkCode u gs l), t ∉ i.writes := by
  intro i hi
  constructor
  · intro hw
    have hother := writes_traceLinkCode hi hw
    have he : l = k := by
      rcases hs with rfl | ⟨g, rfl⟩
      · simpa using hother
      · simpa using hother
    exact hne he.symm
  · intro t ht hw
    have hown := writes_traceLinkCode hi hw
    rcases mentions_traceLinkCode ht with rfl | ⟨g, -, rfl | rfl | hr⟩ | hr | hg | rfl | rfl
    · simp [Ne.symm hne] at hown
    · simp [Ne.symm hne] at hown
    · simp at hown
    · rcases eq_of_mem_recurrenceFactors hr with rfl | rfl <;> simp at hown
    · rcases eq_of_mem_recurrenceFactors hr with rfl | rfl <;> simp at hown
    · obtain rfl := eq_of_mem_gainFactor hg
      simp at hown
    · simp [sourceSymbol] at hown
    · simp at hown

omit [NeutralOne α] in
/-- The code of incoming links writes traces and nothing else. -/
theorem run_traceLinkCodes_of_ne {gs : List NeuronId} {ls : List LinkId} {s : Symbol}
    (heligibility : ∀ l, s ≠ .eligibility u l) (hextended : ∀ g l, s ≠ .extended u g l) :
    run σ (ls.flatMap (c.traceLinkCode u gs)) s = σ s := by
  refine run_of_not_mem_writes fun i hi hw => ?_
  obtain ⟨l, -, hi⟩ := List.mem_flatMap.mp hi
  rcases writes_traceLinkCode hi hw with rfl | ⟨g, rfl⟩
  · exact heligibility l rfl
  · exact hextended g l rfl

omit [NeutralOne α] in
/-- Each trace comes from the code of one incoming link. -/
theorem run_traceLinkCodes {gs : List NeuronId} {ls : List LinkId} {s : Symbol} (hls : ls.Nodup)
    (hl : l ∈ ls) (hs : s = .eligibility u l ∨ ∃ g, s = .extended u g l) :
    run σ (ls.flatMap (c.traceLinkCode u gs)) s = run σ (c.traceLinkCode u gs l) s :=
  run_flatMap_of_independent hls hl fun _ _ hne => traceLinkCode_independent hne hs

/-- The traces of a neuron after the code of all its incoming links. -/
theorem run_traceLinks (h : c.Sound) (hu : u < c.neurons.size) (hσ : c.Neutral σ) {s : Symbol}
    (hs : c.Keeps s) :
    run σ ((c.neuron u).trace.extended.keys.toList.flatMap
        (fun g => c.influenceCode u g (.influence u g)) ++
      (c.neuron u).inputs.toList.flatMap
        (c.traceLinkCode u (c.neuron u).trace.extended.keys.toList)) s = c.retraced u σ s := by
  obtain ⟨hinfluence, hkeep⟩ := run_influences (σ := σ) h hu
  rw [run_append]
  -- only where the influences were placed matters from here on, not how they got there
  generalize run σ ((c.neuron u).trace.extended.keys.toList.flatMap
    fun g => c.influenceCode u g (.influence u g)) = placed at hinfluence hkeep ⊢
  have hplaced : c.Neutral placed := hσ.of_agree fun l _ => hkeep _ (by simp)
  have hinputs := IdSet.nodup (c.neuron u).inputs
  have hlink := fun l => run_traceLinkCode (u := u) (l := l) hplaced (IdSet.nodup
    (c.neuron u).trace.extended.keys)
  have hsource : ∀ l, placed (c.sourceSymbol l) = σ (c.sourceSymbol l) :=
    fun l => hkeep _ (by simp [sourceSymbol])
  cases s with
  | eligibility v l =>
    by_cases hv : v = u
    · subst hv
      have hl : l ∈ (c.neuron v).inputs := h.eligibility_keys v hu ▸ hs.2
      rw [run_traceLinkCodes hinputs hl (.inl rfl), (hlink l).1, retraced, if_pos rfl,
        nextEligibility_fill h hu hl, hsource]
      simp only [ne_eq, reduceCtorEq, not_false_eq_true, implies_true, hkeep]
    · rw [run_traceLinkCodes_of_ne (by simp [hv]) (by simp), hkeep _ (by simp), retraced, if_neg hv]
  | extended v g l =>
    by_cases hv : v = u
    · subst hv
      -- a trace has an entry for every incoming link and no other
      obtain ⟨-, xs, hg, hl⟩ := hs
      rw [h.extended_keys v hu g xs hg] at hl
      have hg : g ∈ (c.neuron v).trace.extended.keys := IdMap.mem_keys_iff.mpr ⟨xs, hg⟩
      rw [run_traceLinkCodes hinputs hl (.inr ⟨g, rfl⟩), (hlink l).2 g hg, retraced, if_pos rfl,
        nextEligibility_fill h hu hl, hsource, hinfluence g hg,
        recurrence_fill h (h.extended_lt hu hg)]
      simp only [ne_eq, reduceCtorEq, not_false_eq_true, implies_true, hkeep]
    · rw [run_traceLinkCodes_of_ne (by simp) (by simp [hv]), hkeep _ (by simp), retraced, if_neg hv]
  | neuron v a => exact (run_traceLinkCodes_of_ne (by simp) (by simp)).trans (hkeep _ (by simp))
  | weight l => exact (run_traceLinkCodes_of_ne (by simp) (by simp)).trans (hkeep _ (by simp))
  | gain l => exact (run_traceLinkCodes_of_ne (by simp) (by simp)).trans (hkeep _ (by simp))
  | rate => exact hs.elim
  | target i => exact hs.elim
  | influence v g => exact hs.elim
  | scratch p => exact hs.elim

/-! ## Gains -/

omit [NeutralOne α] in
theorem driveGains_fill (hu : u < c.neurons.size) :
    (c.fill σ).driveGains u =
      c.fill (run σ ((c.neuron u).gated.toList.map fun l =>
        .copy (.gain l) (.neuron u .activation))) := by
  have hfold : ∀ (ls : List LinkId) (σ : Environment α) (x : α), σ (.neuron u .activation) = x →
      ls.foldl (fun d l => d.setGain l x) (c.fill σ) =
        c.fill (run σ (ls.map fun l => .copy (.gain l) (.neuron u .activation))) := by
    intro ls
    induction ls with
    | nil => exact fun σ x _ => rfl
    | cons l ls ih =>
      intro σ x hx
      rw [List.foldl_cons, List.map_cons, run_cons]
      have hstore : (c.fill σ).setGain l x = c.fill (Function.update σ (.gain l) x) :=
        store_fill c σ (.gain l) x
      rw [hstore, exec, hx]
      exact ih _ x (by simpa using hx)
  rw [driveGains, neuron_fill hu]
  exact hfold _ σ _ rfl

/-! ## The whole step -/

/-- The trace code brings traces and gains up to date. -/
theorem retrace_driveGains_fill (h : c.Sound) (hu : u < c.neurons.size) (hσ : c.Neutral σ) :
    ((c.fill σ).retrace u).driveGains u = c.fill (run σ (c.traceCode u)) := by
  rw [retrace_fill h hu, traceCode, run_append,
    fill_congr fun s hs => (run_traceLinks h hu hσ hs).symm, driveGains_fill hu]

/-- A forward step of a filled circuit fills it with what the forward code makes of the
environment. -/
theorem step_fill (h : c.Sound) (hu : u < c.neurons.size) (hσ : c.Neutral σ) :
    (c.fill σ).step u = c.fill (run σ (c.fireCode u ++ c.traceCode u)) := by
  have hfired : c.Neutral (c.fired u σ) := hσ.of_agree fun l _ => by simp [fired]
  rw [step, fire_fill, retrace_driveGains_fill h hu hfired, run_append, run_fireCode h hu hσ]

omit [NeutralOne α] in
/-- Forward code writes numbers of its neuron, the gains that this one drives, and influences. -/
theorem writes_stepCode {i : Instr Symbol α} {s : Symbol}
    (hi : i ∈ c.fireCode u ++ c.traceCode u) (hs : s ∈ i.writes) :
    (∃ a, s = .neuron u a) ∨ (∃ l, s = .eligibility u l) ∨ (∃ g l, s = .extended u g l) ∨
      (∃ l ∈ (c.neuron u).gated, s = .gain l) ∨ ∃ g, s = .influence u g := by
  simp only [fireCode, traceCode, List.mem_append, List.mem_cons, List.not_mem_nil, or_false,
    List.mem_map, List.mem_flatMap] at hi
  rcases hi with (((rfl | rfl | rfl) | ⟨k, -, rfl⟩) | rfl) | (⟨g, -, hi⟩ | ⟨k, -, hi⟩) |
    ⟨k, hk, rfl⟩
  · exact .inl ⟨_, List.mem_singleton.mp hs⟩
  · exact .inl ⟨_, List.mem_singleton.mp hs⟩
  · exact .inl ⟨_, List.mem_singleton.mp hs⟩
  · exact .inl ⟨_, List.mem_singleton.mp hs⟩
  · -- activation and derivative
    rcases List.mem_cons.mp hs with hs | hs
    · exact .inl ⟨_, hs⟩
    · exact .inl ⟨_, List.mem_singleton.mp hs⟩
  · exact .inr (.inr (.inr (.inr ⟨g, writes_influenceCode hi hs⟩)))
  · rcases writes_traceLinkCode hi hs with hs | ⟨g, hs⟩
    · exact .inr (.inl ⟨k, hs⟩)
    · exact .inr (.inr (.inl ⟨g, k, hs⟩))
  · -- the last part of the code, which hands the activation to the gated links
    exact .inr (.inr (.inr (.inl ⟨k, hk, List.mem_singleton.mp hs⟩)))

omit [NeutralOne α] in
/-- Forward code drives gains of gated links only. -/
theorem gater_of_gain_mem_writes (h : c.Sound) (hu : u < c.neurons.size) {i : Instr Symbol α}
    (hi : i ∈ c.fireCode u ++ c.traceCode u) (hw : .gain l ∈ i.writes) :
    (c.link l).gater = some u := by
  rcases writes_stepCode hi hw with ⟨_, he⟩ | ⟨_, he⟩ | ⟨_, _, he⟩ | ⟨k, hk, he⟩ | ⟨_, he⟩
  all_goals cases he
  exact ((h.mem_gated u hu l).mp hk).2

omit [NeutralOne α] in
theorem neutral_step (h : c.Sound) (hu : u < c.neurons.size) (hσ : c.Neutral σ) :
    c.Neutral (run σ (c.fireCode u ++ c.traceCode u)) := by
  refine hσ.run fun i hi l hw => ?_
  rw [gainFactor_of_gated (gater_of_gain_mem_writes h hu hi hw)]
  simp

/-- Clamping a neuron sets three numbers. -/
def clamped (u : NeuronId) (x : α) (σ : Environment α) : Environment α :=
  Function.update (Function.update (Function.update σ (.neuron u .activation) x)
    (.neuron u .derivative) 0) (.neuron u .bias) 0

omit [NeutralOne α] in
theorem clamp_fill (c : Circuit α) (u : NeuronId) (x : α) (σ : Environment α) :
    (c.fill σ).clamp u x = c.fill (clamped u x σ) := by
  refine modifyNeuron_fill (fun _ => ?_) (fun v hv => ?_) fun l => ?_
  · simp [Neuron.filled, clamped]
  · simp [Neuron.filled, clamped, hv]
  · simp [Link.filled, clamped]

end Circuit

end GatedNetwork
