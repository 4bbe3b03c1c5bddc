import GatedNetwork.Proofs.Circuit.SameWiring
import GatedNetwork.Proofs.Program.Slots

/-!
# Circuits filled with numbers

`Circuit.fill` gives every number of a circuit the value an environment has for its symbol. Loading
and filling are inverse to each other, and storing the number of a symbol is filling with an updated
environment, so whatever changes numbers only can be followed in the environment alone.

* `fill_load` — a circuit filled with its own numbers is itself
* `store_fill`, `storeAll_fill` — storing updates the environment
* `fill_congr` — only the symbols of fields matter
* `storeAll_zip` — writing back the memory of a program fills the circuit with the view of that memory
-/

namespace GatedNetwork

variable {α : Type}

/-- The record of neuron `u` with its numbers from an environment. -/
def Neuron.filled (σ : Environment α) (u : NeuronId) (n : Neuron α) : Neuron α where
  activation := σ (.neuron u .activation)
  state := σ (.neuron u .state)
  previous := σ (.neuron u .previous)
  bias := σ (.neuron u .bias)
  derivative := σ (.neuron u .derivative)
  transfer := n.transfer
  error :=
    { responsibility := σ (.neuron u .responsibility)
      projected := σ (.neuron u .projected)
      gated := σ (.neuron u .gated) }
  trace :=
    { eligibility := n.trace.eligibility.mapWithKey fun l _ => σ (.eligibility u l)
      extended := n.trace.extended.mapWithKey fun g xs =>
        xs.mapWithKey fun l _ => σ (.extended u g l)
      influences := n.trace.influences }
  inputs := n.inputs
  projected := n.projected
  gated := n.gated
  loop := n.loop

/-- The record of link `l` with its numbers from an environment. -/
def Link.filled (σ : Environment α) (l : LinkId) (k : Link α) : Link α :=
  { k with weight := σ (.weight l), gain := σ (.gain l) }

namespace Circuit

/-- The circuit with all its numbers from an environment. -/
def fill (c : Circuit α) (σ : Environment α) : Circuit α :=
  { c with
    neurons := c.neurons.mapIdx fun u n => n.filled σ u
    links := c.links.mapIdx fun l k => k.filled σ l }

variable [Arithmetic α] {c d : Circuit α} {σ τ : Environment α} {u v : NeuronId} {l : LinkId}

/-! ## Reading a filled circuit -/

omit [Arithmetic α] in
@[simp] theorem size_neurons_fill : (c.fill σ).neurons.size = c.neurons.size := by
  simp [fill]

omit [Arithmetic α] in
@[simp] theorem size_links_fill : (c.fill σ).links.size = c.links.size := by
  simp [fill]

theorem neuron_fill (h : u < c.neurons.size) : (c.fill σ).neuron u = (c.neuron u).filled σ u := by
  simp [neuron, fill, h]

theorem link_fill (h : l < c.links.size) : (c.fill σ).link l = (c.link l).filled σ l := by
  simp [link, fill, h]

/-- Filling changes numbers only. -/
theorem sameWiring_fill (c : Circuit α) (σ : Environment α) : SameWiring c (c.fill σ) where
  neurons := size_neurons_fill
  links := size_links_fill
  ensembles := rfl
  projections := rfl
  neuron := by
    intro u
    by_cases hu : u < c.neurons.size
    · rw [neuron_fill hu]
      simp only [Neuron.bare, Neuron.filled, IdMap.map_const_mapWithKey]
      congr 2
      exact IdMap.map_mapWithKey_of_eq _ _ _ _ fun _ _ => IdMap.map_const_mapWithKey _ _ _
    · rw [neuron_of_le (Nat.le_of_not_lt hu), neuron_of_le (by simpa using hu)]
  link := by
    intro l
    by_cases hl : l < c.links.size
    · rw [link_fill hl]
      rfl
    · rw [link_of_le (Nat.le_of_not_lt hl), link_of_le (by simpa using hl)]

/-! ## When two circuits are equal -/

/-- Circuits with equal records in equal places are equal. -/
theorem ext_records (hidentity : d.identity = c.identity) (hsettings : d.settings = c.settings)
    (hneurons : d.neurons.size = c.neurons.size) (hlinks : d.links.size = c.links.size)
    (hneuron : ∀ u < c.neurons.size, d.neuron u = c.neuron u)
    (hlink : ∀ l < c.links.size, d.link l = c.link l)
    (hensembles : d.ensembles = c.ensembles) (hprojections : d.projections = c.projections)
    (hgenerator : d.generator = c.generator) : d = c := by
  obtain ⟨_, _, ns, ks, _, _, _⟩ := c
  obtain ⟨_, _, ns', ks', _, _, _⟩ := d
  simp only at hidentity hsettings hneurons hlinks hensembles hprojections hgenerator
  subst hidentity hsettings hensembles hprojections hgenerator
  congr 1
  · refine Array.ext hneurons fun i hi hi' => ?_
    simpa [neuron, hi, hi'] using hneuron i hi'
  · refine Array.ext hlinks fun i hi hi' => ?_
    simpa [link, hi, hi'] using hlink i hi'

/-- A filled circuit is any circuit that differs from it in numbers and has them from the
environment. -/
theorem eq_fill (hd : d.identity = c.identity ∧ d.settings = c.settings ∧
      d.ensembles = c.ensembles ∧ d.projections = c.projections ∧ d.generator = c.generator)
    (hneurons : d.neurons.size = c.neurons.size) (hlinks : d.links.size = c.links.size)
    (hneuron : ∀ u < c.neurons.size, d.neuron u = (c.neuron u).filled σ u)
    (hlink : ∀ l < c.links.size, d.link l = (c.link l).filled σ l) : d = c.fill σ := by
  obtain ⟨hid, hset, hens, hproj, hgen⟩ := hd
  refine ext_records hid hset ?_ ?_ ?_ ?_ hens hproj hgen
  · rw [hneurons, size_neurons_fill]
  · rw [hlinks, size_links_fill]
  · intro u hu
    rw [size_neurons_fill] at hu
    rw [hneuron u hu, neuron_fill hu]
  · intro l hl
    rw [size_links_fill] at hl
    rw [hlink l hl, link_fill hl]

/-- A record filled with the numbers of its circuit is itself. -/
theorem filled_load (c : Circuit α) (u : NeuronId) :
    (c.neuron u).filled c.load u = c.neuron u := by
  -- only the traces are not read back by definition: they are rebuilt key by key
  have heligibility : ((c.neuron u).trace.eligibility.mapWithKey
      fun l _ => c.load (.eligibility u l)) = (c.neuron u).trace.eligibility :=
    IdMap.mapWithKey_eq_self fun l e hl => by simp [load, hl]
  have hextended : ((c.neuron u).trace.extended.mapWithKey fun g xs =>
      xs.mapWithKey fun l _ => c.load (.extended u g l)) = (c.neuron u).trace.extended :=
    IdMap.mapWithKey_eq_self fun g xs hg => IdMap.mapWithKey_eq_self fun l x hl => by
      simp [load, hg, hl]
  unfold Neuron.filled
  rw [heligibility, hextended]
  rfl

/-- A circuit filled with its own numbers is itself. -/
theorem fill_load (c : Circuit α) : c.fill c.load = c :=
  (eq_fill ⟨rfl, rfl, rfl, rfl, rfl⟩ rfl rfl (fun u _ => (filled_load c u).symm)
    fun _ _ => rfl).symm

/-! ## Which symbols matter -/

/-- Does the circuit have a field for a symbol? -/
def Keeps (c : Circuit α) : Symbol → Prop
  | .neuron u _ => u < c.neurons.size
  | .weight l => l < c.links.size
  | .gain l => l < c.links.size
  | .eligibility u l => u < c.neurons.size ∧ l ∈ (c.neuron u).trace.eligibility.keys
  | .extended u g l =>
    u < c.neurons.size ∧ ∃ xs, (c.neuron u).trace.extended.find? g = some xs ∧ l ∈ xs.keys
  | .rate => False
  | .target _ => False
  | .influence _ _ => False
  | .scratch _ => False

theorem filled_congr (h : ∀ s, c.Keeps s → σ s = τ s) (hu : u < c.neurons.size) :
    (c.neuron u).filled σ u = (c.neuron u).filled τ u := by
  unfold Neuron.filled
  simp only [h (.neuron u _) hu]
  congr 2
  · refine IdMap.mapWithKey_congr fun l x hl => ?_
    exact h (.eligibility u l) ⟨hu, IdMap.mem_keys_iff.mpr ⟨x, hl⟩⟩
  · refine IdMap.mapWithKey_congr fun g xs hg => IdMap.mapWithKey_congr fun l x hl => ?_
    exact h (.extended u g l) ⟨hu, xs, hg, IdMap.mem_keys_iff.mpr ⟨x, hl⟩⟩

/-- Environments that agree on all fields of a circuit fill it alike. -/
theorem fill_congr (h : ∀ s, c.Keeps s → σ s = τ s) : c.fill σ = c.fill τ := by
  refine eq_fill ⟨rfl, rfl, rfl, rfl, rfl⟩ size_neurons_fill size_links_fill ?_ ?_
  · intro u hu
    rw [neuron_fill hu, filled_congr h hu]
  · intro l hl
    rw [link_fill hl, Link.filled, Link.filled, h (.weight l) hl, h (.gain l) hl]

/-! ## Writing to a filled circuit -/

/-- Changing one neuron of a filled circuit is filling it with an environment that agrees about
everything else. -/
theorem modifyNeuron_fill {f : Neuron α → Neuron α}
    (hself : u < c.neurons.size → f ((c.neuron u).filled σ u) = (c.neuron u).filled τ u)
    (hneuron : ∀ v ≠ u, (c.neuron v).filled σ v = (c.neuron v).filled τ v)
    (hlink : ∀ l, (c.link l).filled σ l = (c.link l).filled τ l) :
    (c.fill σ).modifyNeuron u f = c.fill τ := by
  refine eq_fill ⟨rfl, rfl, rfl, rfl, rfl⟩ (by simp) (by simp) ?_ ?_
  · intro v hv
    by_cases hvu : v = u
    · subst hvu
      rw [neuron_modifyNeuron_self (by simpa using hv), neuron_fill hv, hself hv]
    · rw [neuron_modifyNeuron_ne hvu, neuron_fill hv, hneuron v hvu]
  · intro l hl
    rw [link_modifyNeuron, link_fill hl, hlink]

theorem modifyLink_fill {f : Link α → Link α}
    (hself : l < c.links.size → f ((c.link l).filled σ l) = (c.link l).filled τ l)
    (hlink : ∀ k ≠ l, (c.link k).filled σ k = (c.link k).filled τ k)
    (hneuron : ∀ v, (c.neuron v).filled σ v = (c.neuron v).filled τ v) :
    (c.fill σ).modifyLink l f = c.fill τ := by
  refine eq_fill ⟨rfl, rfl, rfl, rfl, rfl⟩ (by simp) (by simp) ?_ ?_
  · intro v hv
    rw [neuron_modifyLink, neuron_fill hv, hneuron]
  · intro k hk
    by_cases hkl : k = l
    · subst hkl
      rw [link_modifyLink_self (by simpa using hk), link_fill hk, hself hk]
    · rw [link_modifyLink_ne hkl, link_fill hk, hlink k hkl]

/-- Storing the number of a symbol in a filled circuit updates the environment. -/
theorem store_fill (c : Circuit α) (σ : Environment α) (s : Symbol) (x : α) :
    (c.fill σ).store x s = c.fill (Function.update σ s x) := by
  cases s with
  | neuron u a =>
    refine modifyNeuron_fill (fun _ => ?_) (fun v hv => ?_) fun l => ?_
    · cases a <;> simp [Neuron.filled, Attribute.set]
    · simp [Neuron.filled, hv]
    · simp [Link.filled]
  | weight l =>
    refine modifyLink_fill (fun _ => ?_) (fun k hk => ?_) fun v => ?_
    · simp [Link.filled]
    · simp [Link.filled, hk]
    · simp [Neuron.filled]
  | gain l =>
    refine modifyLink_fill (fun _ => ?_) (fun k hk => ?_) fun v => ?_
    · simp [Link.filled]
    · simp [Link.filled, hk]
    · simp [Neuron.filled]
  | eligibility u l =>
    refine modifyNeuron_fill (fun _ => ?_) (fun v hv => ?_) fun l => ?_
    · have hmap : ((c.neuron u).trace.eligibility.mapWithKey
          fun k _ => σ (.eligibility u k)).modify l (fun _ => x) =
          (c.neuron u).trace.eligibility.mapWithKey
            fun k _ => Function.update σ (.eligibility u l) x (.eligibility u k) := by
        rw [IdMap.modify_mapWithKey]
        refine IdMap.mapWithKey_congr fun k _ _ => ?_
        by_cases hk : k = l <;> simp [hk]
      simp [Neuron.filled, hmap]
    · simp [Neuron.filled, hv]
    · simp [Link.filled]
  | extended u g l =>
    refine modifyNeuron_fill (fun _ => ?_) (fun v hv => ?_) fun l => ?_
    · have hmap : ((c.neuron u).trace.extended.mapWithKey fun j xs =>
            xs.mapWithKey fun k _ => σ (.extended u j k)).modify g
            (fun xs => xs.modify l fun _ => x) =
          (c.neuron u).trace.extended.mapWithKey fun j xs => xs.mapWithKey
            fun k _ => Function.update σ (.extended u g l) x (.extended u j k) := by
        rw [IdMap.modify_mapWithKey]
        refine IdMap.mapWithKey_congr fun j xs _ => ?_
        by_cases hj : j = g
        · rw [if_pos hj, IdMap.modify_mapWithKey]
          refine IdMap.mapWithKey_congr fun k _ _ => ?_
          by_cases hk : k = l <;> simp [hj, hk]
        · rw [if_neg hj]
          simp [hj]
      simp [Neuron.filled, hmap]
    · simp [Neuron.filled, hv]
    · simp [Link.filled]
  -- no circuit has a field for what only a program needs
  | rate => exact fill_congr fun s hs => by cases s <;> simp_all [Keeps]
  | target i => exact fill_congr fun s hs => by cases s <;> simp_all [Keeps]
  | influence u g => exact fill_congr fun s hs => by cases s <;> simp_all [Keeps]
  | scratch p => exact fill_congr fun s hs => by cases s <;> simp_all [Keeps]

theorem storeAll_fill (c : Circuit α) (σ : Environment α) (values : List (Symbol × α)) :
    (c.fill σ).storeAll values = c.fill (Memory.putEach σ values) := by
  induction values generalizing σ with
  | nil => rfl
  | cons v values ih =>
    show ((c.fill σ).store v.2 v.1).storeAll values = _
    rw [store_fill, ih]
    rfl

/-! ## Writing back a memory -/

omit [Arithmetic α] in
/-- Numbers put under all symbols of a list, one for each, are seen there. -/
theorem putEach_zip {symbols : List Symbol} (hnodup : symbols.Nodup) {xs : List α}
    (hlen : xs.length = symbols.length) (base : Environment α) :
    Memory.putEach base (symbols.zip xs) = fun s => xs[symbols.idxOf s]?.getD (base s) := by
  induction symbols generalizing xs base with
  | nil =>
    obtain rfl := List.eq_nil_of_length_eq_zero hlen
    rfl
  | cons t symbols ih =>
    obtain ⟨ht, hnodup⟩ := List.nodup_cons.mp hnodup
    cases xs with
    | nil => simp at hlen
    | cons x xs =>
      have hlen' : xs.length = symbols.length := by simpa using hlen
      show Memory.putEach (Function.update base t x) (symbols.zip xs) = _
      rw [ih hnodup hlen']
      funext s
      by_cases hs : s = t
      · subst hs
        -- the symbol is not listed again, so nothing is put over its number
        have hnone : xs[symbols.idxOf s]? = none := by
          have hidx := List.idxOf_eq_length ht
          exact List.getElem?_eq_none (by omega)
        simp [hnone]
      · have hidx : (t :: symbols).idxOf s = symbols.idxOf s + 1 := by
          rw [List.idxOf_cons_ne _ (Ne.symm hs)]
        simp [hidx, hs]

/-- Writing the memory of a program back fills the circuit with what the memory shows. -/
theorem storeAll_zip (c : Circuit α) (τ : Environment α) {symbols : List Symbol}
    (hnodup : symbols.Nodup) {m : Memory α} (hsize : m.size = symbols.length) :
    (c.fill τ).storeAll (symbols.zip m.toList) = c.fill (m.view symbols τ) := by
  rw [storeAll_fill, putEach_zip hnodup hsize]
  simp only [Array.getElem?_toList]
  rfl

end Circuit

end GatedNetwork
