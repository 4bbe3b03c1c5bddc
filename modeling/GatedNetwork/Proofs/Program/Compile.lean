import GatedNetwork.Proofs.Circuit.Request
import GatedNetwork.Proofs.Program.Backward

/-!
# Programs of sound circuits

In a sound circuit, everything a step follows is there, so each step of an existing neuron passes its
check and each neuron can be compiled. The symbols of a program are listed once each, cover its code
and all have a record in the circuit, so its memory can be written back.

* `Sound.requireStep` — steps pass their check
* `Sound.compile` — compiling succeeds
* `fits_lower` — programs fit the circuit they come from
-/

namespace GatedNetwork

variable {α : Type} [Arithmetic α]

namespace Circuit

variable {c : Circuit α} {u g : NeuronId} {l : LinkId} {s : Symbol}

/-! ## Checks -/

namespace Sound

variable (h : c.Sound)

include h

theorem resolves (hu : u < c.neurons.size) : c.resolves u = true := by
  simp only [Circuit.resolves, Bool.and_eq_true, List.all_eq_true, hasNeuron_iff, hasLink_iff]
  refine ⟨hu, ⟨⟨⟨⟨hu, h.loop_lt u hu⟩, ?_⟩, ?_⟩, ?_⟩, ?_⟩
  · intro l hl
    have hlt := ((h.mem_inputs u hu l).mp hl).1
    exact ⟨hlt, (h.ends_lt l hlt).1⟩
  · intro l hl
    have hlt := ((h.mem_projected u hu l).mp hl).1
    exact ⟨hlt, (h.ends_lt l hlt).2⟩
  · intro l hl
    have hlt := ((h.mem_gated u hu l).mp hl).1
    exact ⟨hlt, (h.ends_lt l hlt).2⟩
  · intro g hg
    have hlt := h.extended_lt hu hg
    refine ⟨⟨hlt, h.loop_lt g hlt⟩, fun l hl => ?_⟩
    have hlt := ((h.mem_influences u hu g l).mp hl).1
    exact ⟨hlt, (h.ends_lt l hlt).1⟩

/-- A neuron that exists has all the entries its step looks up. -/
theorem isTraced (hu : u < c.neurons.size) : c.isTraced u = true := by
  simp only [Circuit.isTraced, List.all_eq_true, Bool.and_eq_true, ← IdMap.mem_keys]
  intro l hl
  constructor
  · rw [h.eligibility_keys u hu]
    exact hl
  · rintro ⟨g, xs⟩ hmem
    rw [h.extended_keys u hu g xs (IdMap.find?_of_mem_entries hmem)]
    exact hl

/-- A neuron that exists passes the check before a step. -/
theorem requireStep (hu : u < c.neurons.size) : c.requireStep u = .ok () := by
  rw [Circuit.requireStep, require_eq_ok_iff, h.resolves hu, h.isTraced hu]
  rfl

/-- Neurons that exist can be compiled. -/
theorem requireCompilable {ps : List Placement} (hps : ∀ p ∈ ps, p.neuron < c.neurons.size) :
    c.requireCompilable ps = .ok () := by
  refine forM_eq_ok_iff.mpr fun p hp => ?_
  rw [require_eq_ok_iff]
  split
  · exact hasNeuron_iff.mpr (hps p hp)
  · exact h.resolves (hps p hp)

/-- Neurons that exist can be compiled. -/
theorem compile {ps : List Placement} (hps : ∀ p ∈ ps, p.neuron < c.neurons.size) :
    c.compile ps = .ok (c.lower ps) := by
  rw [Circuit.compile, h.requireCompilable hps]
  rfl

end Sound

/-- What a single step answers and leaves, once it has passed its check. -/
theorem activateNeuron_ok {input : Option α}
    (h : (if input.isSome then c.requireNeuron u else c.requireStep u) = .ok ()) :
    Edit.activateNeuron u input c =
      .ok ((c.activateNeuron u input).neuron u).activation (c.activateNeuron u input) :=
  Op.checked_of_ok () h

/-- A step of a neuron that exists succeeds. -/
theorem step_ok (h : c.Sound) (hu : u < c.neurons.size) :
    Edit.activateNeuron u none c = .ok ((c.step u).neuron u).activation (c.step u) :=
  activateNeuron_ok (h.requireStep hu)

theorem clamp_ok (hu : u < c.neurons.size) (x : α) :
    Edit.activateNeuron u (some x) c = .ok ((c.clamp u x).neuron u).activation (c.clamp u x) :=
  activateNeuron_ok (require_eq_ok_iff.mpr (hasNeuron_iff.mpr hu))

/-! ## What code names -/

/-- May code name this symbol? It has a record, and a gain is not one of those that are left out. -/
def Names (c : Circuit α) (s : Symbol) : Prop :=
  c.houses s = true ∧ ∀ l, s = .gain l → c.gainFactor l ≠ []

theorem names_neuron (hu : u < c.neurons.size) (a : Attribute) : c.Names (.neuron u a) :=
  ⟨hasNeuron_iff.mpr hu, by simp⟩

theorem names_weight (hl : l < c.links.size) : c.Names (.weight l) :=
  ⟨hasLink_iff.mpr hl, by simp⟩

theorem names_eligibility (hu : u < c.neurons.size) (l : LinkId) : c.Names (.eligibility u l) :=
  ⟨hasNeuron_iff.mpr hu, by simp⟩

theorem names_extended (hu : u < c.neurons.size) (g : NeuronId) (l : LinkId) :
    c.Names (.extended u g l) :=
  ⟨hasNeuron_iff.mpr hu, by simp⟩

/-- Places that only a program has need no record. -/
theorem names_place (hs : s.record? = none) : c.Names s := by
  cases s <;> simp_all [Symbol.record?, Names, houses]

/-- The gain in a product is that of a link that exists. -/
theorem names_gainFactor (hl : l < c.links.size) (hs : s ∈ c.gainFactor l) : c.Names s := by
  have he := eq_of_mem_gainFactor hs
  refine ⟨he ▸ hasLink_iff.mpr hl, fun k hk hnil => ?_⟩
  obtain rfl : k = l := by simpa [he] using hk.symm
  exact absurd (hnil ▸ hs) List.not_mem_nil

section Names

variable (h : c.Sound)

include h

theorem names_sourceSymbol (hl : l < c.links.size) : c.Names (c.sourceSymbol l) :=
  names_neuron (h.ends_lt l hl).1 _

theorem names_recurrenceFactors (hu : u < c.neurons.size) (hs : s ∈ c.recurrenceFactors u) :
    c.Names s := by
  rcases List.mem_append.mp hs with hs | hs
  · exact names_gainFactor (h.loop_lt u hu) hs
  · rw [List.mem_singleton.mp hs]
    exact names_weight (h.loop_lt u hu)

theorem names_influenceCode (hu : u < c.neurons.size) (hg : g < c.neurons.size) {p : Symbol}
    (hp : c.Names p) (hs : s ∈ mentions (c.influenceCode u g p)) : c.Names s := by
  rcases mentions_influenceCode hs with rfl | rfl | ⟨l, hl, hs⟩
  · exact hp
  · exact names_neuron hg _
  · have hlt := ((h.mem_influences u hu g l).mp hl).1
    rcases hs with rfl | rfl
    · exact names_weight hlt
    · exact names_sourceSymbol h hlt

/-- The code of the next state names what exists. -/
theorem names_fireCode (hu : u < c.neurons.size) (hs : s ∈ mentions (c.fireCode u)) :
    c.Names s := by
  have hown : ∀ a, c.Names (.neuron u a) := names_neuron hu
  simp only [mentions, fireCode, List.flatMap_append, List.flatMap_cons, List.flatMap_nil,
    List.append_nil, List.mem_append, List.mem_flatMap, List.mem_map, Instr.places,
    List.mem_cons, List.not_mem_nil, or_false] at hs
  rcases hs with ((hs | hs | hs) | ⟨_, ⟨l, hl, rfl⟩, hs⟩) | hs
  · rcases hs with rfl | rfl <;> exact hown _
  · rcases hs with rfl | hs | rfl
    · exact hown _
    · exact names_recurrenceFactors h hu hs
    · exact hown _
  · rcases hs with rfl | rfl | rfl <;> exact hown _
  · have hlt := h.input_lt hu hl
    simp only [List.mem_append, List.mem_cons, List.not_mem_nil, or_false] at hs
    rcases hs with rfl | (rfl | rfl) | hs
    · exact hown _
    · exact names_sourceSymbol h hlt
    · exact names_weight hlt
    · exact names_gainFactor hlt hs
  · rcases hs with rfl | rfl | rfl <;> exact hown _

/-- The code of the traces names what exists. -/
theorem names_traceCode (hu : u < c.neurons.size) (hs : s ∈ mentions (c.traceCode u)) :
    c.Names s := by
  simp only [mentions, traceCode, List.flatMap_append, List.mem_append] at hs
  rcases hs with (hs | hs) | hs
  · rw [List.flatMap_assoc] at hs
    obtain ⟨g, hg, hs⟩ := List.mem_flatMap.mp hs
    exact names_influenceCode h hu (h.extended_lt hu hg) (names_place rfl) hs
  · rw [List.flatMap_assoc] at hs
    obtain ⟨l, hl, hs⟩ := List.mem_flatMap.mp hs
    have hlt := h.input_lt hu hl
    rcases mentions_traceLinkCode hs with rfl | ⟨g, hg, rfl | rfl | hs⟩ | hs | hs | rfl | rfl
    · exact names_eligibility hu l
    · exact names_extended hu g l
    · exact names_place rfl
    · exact names_recurrenceFactors h (h.extended_lt hu hg) hs
    · exact names_recurrenceFactors h hu hs
    · exact names_gainFactor hlt hs
    · exact names_sourceSymbol h hlt
    · exact names_neuron hu _
  · simp only [List.flatMap_map, List.mem_flatMap, Instr.places, List.mem_cons, List.not_mem_nil,
      or_false] at hs
    obtain ⟨l, hl, rfl | rfl⟩ := hs
    · obtain ⟨hlt, hg⟩ := (h.mem_gated u hu l).mp hl
      have hfactor := gainFactor_of_gated hg
      exact names_gainFactor hlt (hfactor ▸ List.mem_singleton_self _)
    · exact names_neuron hu _

theorem names_innerErrorCode (hu : u < c.neurons.size) (hs : s ∈ mentions (c.innerErrorCode u)) :
    c.Names s := by
  have hown : ∀ a, c.Names (.neuron u a) := names_neuron hu
  simp only [mentions, innerErrorCode, List.flatMap_append, List.flatMap_cons, List.flatMap_nil,
    List.append_nil, List.mem_append, Instr.places, List.mem_cons, List.not_mem_nil,
    or_false] at hs
  -- the projected error, its product with the derivative, the gated error, the sum of both
  rcases hs with (((rfl | hs) | hs | rfl) | hs) | hs
  · exact names_place rfl
  · simp only [List.flatMap_map, List.mem_flatMap, List.mem_cons, List.mem_append,
      List.not_mem_nil, or_false] at hs
    obtain ⟨l, hl, hs⟩ := hs
    have hlt := ((h.mem_projected u hu l).mp hl).1
    rcases hs with rfl | (rfl | hs) | rfl
    · exact names_place rfl
    · exact names_neuron (h.ends_lt l hlt).2 _
    · exact names_gainFactor hlt hs
    · exact names_weight hlt
  · rcases hs with rfl | rfl | rfl
    · exact hown _
    · exact hown _
    · exact names_place rfl
  · exact names_place rfl
  · rw [List.flatMap_assoc] at hs
    obtain ⟨g, hg, hs⟩ := List.mem_flatMap.mp hs
    have hlt := h.extended_lt hu hg
    rw [List.flatMap_append, List.mem_append] at hs
    rcases hs with hs | hs
    · exact names_influenceCode h hu hlt (names_place rfl) hs
    · simp only [List.flatMap_cons, List.flatMap_nil, List.append_nil, List.mem_cons,
        List.not_mem_nil, or_false] at hs
      rcases hs with rfl | rfl | rfl
      · exact names_place rfl
      · exact names_neuron hlt _
      · exact names_place rfl
  · rcases hs with (rfl | rfl | rfl) | rfl | rfl | rfl
    · exact hown _
    · exact hown _
    · exact names_place rfl
    · exact hown _
    · exact hown _
    · exact hown _

theorem names_correctLinkCode (hu : u < c.neurons.size) (hl : l ∈ (c.neuron u).inputs)
    (hs : s ∈ mentions (c.correctLinkCode u l)) : c.Names s := by
  have hlt := h.input_lt hu hl
  simp only [mentions, correctLinkCode, List.flatMap_append, List.flatMap_cons, List.flatMap_nil,
    List.append_nil, List.mem_append, List.flatMap_map, List.mem_flatMap, Instr.places,
    List.mem_cons, List.not_mem_nil, or_false] at hs
  rcases hs with ((rfl | rfl | rfl) | ⟨g, hg, rfl | rfl | rfl⟩) | rfl | rfl | rfl
  · exact names_place rfl
  · exact names_neuron hu _
  · exact names_eligibility hu l
  · exact names_place rfl
  · exact names_neuron (h.extended_lt hu hg) _
  · exact names_extended hu g l
  · exact names_weight hlt
  · exact names_place rfl
  · exact names_place rfl

/-- The code of a backward step names what exists. -/
theorem names_propagationCode (hu : u < c.neurons.size) (target : Option Nat)
    (hs : s ∈ mentions (c.propagationCode u target)) : c.Names s := by
  have hown : ∀ a, c.Names (.neuron u a) := names_neuron hu
  simp only [mentions, propagationCode, List.flatMap_append, List.mem_append] at hs
  rcases hs with (hs | hs) | hs
  · cases target with
    | none => exact names_innerErrorCode h hu hs
    | some t =>
      simp only [targetErrorCode, List.flatMap_cons, List.flatMap_nil, List.append_nil,
        List.mem_append, Instr.places, List.mem_cons, List.not_mem_nil, or_false] at hs
      rcases hs with (rfl | rfl | rfl) | rfl | rfl
      · exact hown _
      · exact names_place rfl
      · exact hown _
      · exact hown _
      · exact hown _
  · rw [List.flatMap_assoc] at hs
    obtain ⟨l, hl, hs⟩ := List.mem_flatMap.mp hs
    exact names_correctLinkCode h hu hl hs
  · simp only [List.flatMap_cons, List.flatMap_nil, List.append_nil, Instr.places, List.mem_cons,
      List.not_mem_nil, or_false] at hs
    rcases hs with rfl | rfl | rfl
    · exact hown _
    · exact names_place rfl
    · exact hown _

end Names

/-! ## The symbols of a program -/

/-- Code mentions only symbols that its neuron brings along. -/
theorem mem_neuronSymbols_of_mem_mentions {duty : Duty}
    (hs : s ∈ mentions (c.neuronCode u duty).activation ∨
      s ∈ mentions (c.neuronCode u duty).trace ∨
      s ∈ mentions (c.neuronCode u duty).propagation) : s ∈ c.neuronSymbols u duty := by
  cases duty with
  | input =>
    rcases hs with hs | hs | hs
    · exact List.mem_cons_of_mem _ hs
    · exact absurd hs List.not_mem_nil
    · exact absurd hs List.not_mem_nil
  | inner =>
    simp only [neuronSymbols, List.mem_append]
    rcases hs with hs | hs | hs
    · exact .inl (.inl (.inl (.inr hs)))
    · exact .inl (.inl (.inr hs))
    · exact .inr hs
  | output t =>
    refine List.mem_cons_of_mem _ (List.mem_cons_of_mem _ ?_)
    simp only [List.mem_append]
    rcases hs with hs | hs | hs
    · exact .inl (.inl (.inl (.inr hs)))
    · exact .inl (.inl (.inr hs))
    · exact .inr hs

theorem activation_mem_neuronSymbols (c : Circuit α) (u : NeuronId) (duty : Duty) :
    .neuron u .activation ∈ c.neuronSymbols u duty := by
  cases duty <;> simp [neuronSymbols]

theorem target_mem_neuronSymbols (c : Circuit α) (u : NeuronId) (t : Nat) :
    .target t ∈ c.neuronSymbols u (.output t) := List.mem_cons_self

/-- Whatever an existing neuron brings into a program may be named. -/
theorem names_neuronSymbols (h : c.Sound) (hu : u < c.neurons.size) {duty : Duty}
    (hs : s ∈ c.neuronSymbols u duty) : c.Names s := by
  have hown : ∀ a, c.Names (.neuron u a) := names_neuron hu
  have hbody : ∀ target, s ∈ [Symbol.neuron u .previous, .neuron u .state, .neuron u .bias,
        .neuron u .activation, .neuron u .derivative] ++ mentions (c.fireCode u) ++
        mentions (c.traceCode u) ++ [.neuron u .responsibility, .neuron u .projected] ++
        mentions (c.propagationCode u target) → c.Names s := by
    intro target hs
    simp only [List.mem_append, List.mem_cons, List.not_mem_nil, or_false] at hs
    rcases hs with (((hs | hs) | hs) | hs) | hs
    · rcases hs with rfl | rfl | rfl | rfl | rfl <;> exact hown _
    · exact names_fireCode h hu hs
    · exact names_traceCode h hu hs
    · rcases hs with rfl | rfl <;> exact hown _
    · exact names_propagationCode h hu target hs
  cases duty with
  | input =>
    simp only [neuronSymbols, neuronCode, clampCode, mentions, List.flatMap_cons, List.flatMap_nil,
      List.append_nil, List.mem_cons, List.mem_append, Instr.places, List.not_mem_nil,
      or_false] at hs
    rcases hs with rfl | rfl | rfl <;> exact hown _
  | inner => exact hbody none hs
  | output t =>
    rcases List.mem_cons.mp hs with rfl | hs
    · exact names_place rfl
    · rcases List.mem_cons.mp hs with rfl | hs
      · exact hown _
      · exact hbody (some t) hs

/-- The symbols are the rate and those of each neuron. -/
theorem mem_symbolsOf {duties : List (Placement × Duty)} :
    s ∈ c.symbolsOf duties ↔ s = .rate ∨ ∃ d ∈ duties, s ∈ c.neuronSymbols d.1.neuron d.2 := by
  rw [symbolsOf, List.mem_eraseDups, List.mem_cons, List.mem_flatMap]

omit [Arithmetic α] in
/-- Erasing repetitions leaves none. -/
theorem nodup_eraseDups (ss : List Symbol) : ss.eraseDups.Nodup := by
  -- on the length, since what is left of the tail is filtered
  induction hn : ss.length using Nat.strongRecOn generalizing ss with
  | _ n ih =>
    cases ss with
    | nil => simp
    | cons s ss =>
      rw [List.eraseDups_cons, List.nodup_cons, List.mem_eraseDups]
      constructor
      · simp
      · refine ih _ ?_ _ rfl
        rw [← hn, List.length_cons]
        exact Nat.lt_succ_of_le (List.length_filter_le _ _)

/-- No symbol is listed twice. -/
theorem nodup_symbolsOf (c : Circuit α) (duties : List (Placement × Duty)) :
    (c.symbolsOf duties).Nodup :=
  nodup_eraseDups _

omit [Arithmetic α] in
/-- Duties are given to the placed neurons, in their order. -/
theorem map_fst_duties (t : Nat) (ps : List Placement) :
    (Placement.duties t ps).map (·.1) = ps := by
  induction ps generalizing t with
  | nil => rfl
  | cons p ps ih =>
    unfold Placement.duties
    split <;> rw [List.map_cons, ih]

omit [Arithmetic α] in
theorem mem_of_mem_duties {t : Nat} {ps : List Placement} {d : Placement × Duty}
    (hd : d ∈ Placement.duties t ps) : d.1 ∈ ps := by
  have hmem := List.mem_map_of_mem (f := (·.1)) hd
  rwa [map_fst_duties] at hmem

/-- Every symbol of a program may be named in code of the circuit it was compiled from. -/
theorem names_symbols (h : c.Sound) {ps : List Placement}
    (hps : ∀ p ∈ ps, p.neuron < c.neurons.size) : ∀ s ∈ (c.lower ps).symbols, c.Names s := by
  intro s hs
  rcases mem_symbolsOf.mp hs with rfl | ⟨d, hd, hs⟩
  · exact names_place rfl
  · exact names_neuronSymbols h (hps _ (mem_of_mem_duties hd)) hs

theorem SameWiring.houses {d : Circuit α} (hw : SameWiring c d) (s : Symbol) :
    d.houses s = c.houses s := by
  cases s <;> simp [Circuit.houses, hasNeuron, hasLink, hw.neurons, hw.links]

/-- A program fits all circuits of the same wiring alike. -/
theorem SameWiring.fits {d : Circuit α} (hw : SameWiring c d) (p : Program α) :
    p.fits d = p.fits c := by
  unfold Program.fits
  rw [funext hw.houses]

/-- So the memory of a program can be written back, whatever it holds. -/
theorem fits_lower (h : c.Sound) {ps : List Placement}
    (hps : ∀ p ∈ ps, p.neuron < c.neurons.size) {d : Circuit α} (hd : SameWiring c d)
    (m : Memory α) : Program.fits { c.lower ps with memory := m } d = true := by
  refine List.all_eq_true.mpr fun s hs => ?_
  rw [hd.houses]
  exact (names_symbols h hps s hs).1

/-- Writing the memory of a program back into a circuit that it fits fills that circuit with what the
memory shows. -/
theorem restoreInto_lower {ps : List Placement} {d : Circuit α} {m : Memory α}
    (hfits : (c.lower ps).fits d = true) (hsize : m.size = (c.lower ps).symbols.length) :
    Program.restoreInto { c.lower ps with memory := m } d =
      .ok () (d.fill (m.view (c.lower ps).symbols d.load)) := by
  have hstore := storeAll_zip d d.load (nodup_symbolsOf c (Placement.duties 0 ps)) hsize
  rw [fill_load] at hstore
  refine Eq.trans ?_ (congrArg _ hstore)
  exact Op.checked_of_ok () (require_eq_ok_iff.mpr hfits)

/-- Gains that the code of a program leaves out have no slot, so they stay what they are, whatever its
memory holds. -/
theorem neutral_view [NeutralOne α] (h : c.Sound) {ps : List Placement}
    (hps : ∀ p ∈ ps, p.neuron < c.neurons.size) {σ : Environment α} (hσ : c.Neutral σ)
    {m : Memory α} (hsize : m.size = (c.lower ps).symbols.length) :
    c.Neutral (m.view (c.lower ps).symbols σ) := by
  -- a gain with a slot would be a factor somewhere
  refine hσ.of_agree fun l hl => Memory.view_of_not_mem hsize fun hmem => ?_
  exact (names_symbols h hps _ hmem).2 l rfl hl

end Circuit

end GatedNetwork
