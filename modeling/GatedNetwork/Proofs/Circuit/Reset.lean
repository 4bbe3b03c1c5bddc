import GatedNetwork.Proofs.Circuit.Fill
import GatedNetwork.Proofs.Circuit.Sound

/-!
# What a reset writes

A reset draws numbers and writes them, and it writes zeros. Neither what it writes nor where depends on
the numbers it finds: only wiring, range and generator matter. So a reset of a filled circuit fills it
with an environment in which certain symbols have been overwritten.

* `Renews` — the symbols a reset of one neuron overwrites
* `Fresh` — the numbers it may write there
* `renewing_resetAll` — resets in turn write the same over any environment
* `redrawn_resetAll` — what becomes of the records of neurons and links
-/

namespace GatedNetwork

variable {α : Type}

/-- The environment with some of its numbers overwritten. -/
def Environment.overlaid (ρ : Symbol → Option α) (σ : Environment α) : Environment α :=
  fun s => (ρ s).getD (σ s)

/-- The traces with all their numbers zero. -/
def Traces.blank [Arithmetic α] (t : Traces α) : Traces α :=
  { t with
    eligibility := t.eligibility.map fun _ => 0
    extended := t.extended.map fun xs => xs.map fun _ => 0 }

namespace Circuit

/-- The circuit with another state of its generator. -/
def withGenerator (c : Circuit α) (g : Generator) : Circuit α := { c with generator := g }

variable [Arithmetic α] {c d : Circuit α} {u : NeuronId} {l : LinkId} {g : Generator}

open Environment

/-! ## What is written where -/

/-- Is the number of a symbol overwritten when a neuron is reset? Its derivative is not, nor are
gains. -/
def Renews (c : Circuit α) (u : NeuronId) : Symbol → Prop
  | .neuron v a => v = u ∧ a ≠ .derivative
  | .weight l => l ∈ c.incident u
  | .eligibility v _ => v = u
  | .extended v _ _ => v = u
  | _ => False

/-- A number that the generator can give for a weight or a bias. -/
def Drawn (c : Circuit α) (x : α) : Prop :=
  ∃ word, x = c.settings.initRange * Arithmetic.spread word

/-- What a reset may write for a symbol: weights and biases are drawn, all else is zero. -/
def Fresh (c : Circuit α) : Symbol → α → Prop
  | .weight _, x => c.Drawn x
  | .neuron _ .bias, x => c.Drawn x
  | _, x => x = 0

/-- Numbers for all symbols of a set and no other, each as a reset may write it. -/
structure Renewal (c : Circuit α) (W : Symbol → Prop) (ρ : Symbol → Option α) : Prop where
  written : ∀ s, W s → ∃ x, ρ s = some x ∧ c.Fresh s x
  kept : ∀ s, ¬ W s → ρ s = none

/-- An operation that writes fresh numbers for a set of symbols. They depend on the generator but not on
the numbers they are written over. -/
def Renewing (c : Circuit α) (W : Symbol → Prop) (f : Circuit α → Circuit α) : Prop :=
  ∀ g, ∃ g' ρ, c.Renewal W ρ ∧
    ∀ σ, f ((c.withGenerator g).fill σ) = (c.withGenerator g').fill (overlaid ρ σ)

namespace Renewing

variable {W W' : Symbol → Prop} {f f' : Circuit α → Circuit α}

theorem id (c : Circuit α) : c.Renewing (fun _ => False) fun d => d :=
  fun g => ⟨g, fun _ => none, ⟨fun _ h => h.elim, fun _ _ => rfl⟩, fun _ => rfl⟩

/-- The numbers written later count. -/
theorem comp (h : c.Renewing W f) (h' : c.Renewing W' f') :
    c.Renewing (fun s => W s ∨ W' s) fun d => f' (f d) := by
  intro g
  obtain ⟨g₁, ρ₁, hρ₁, hf⟩ := h g
  obtain ⟨g₂, ρ₂, hρ₂, hf'⟩ := h' g₁
  refine ⟨g₂, fun s => (ρ₂ s).or (ρ₁ s), ⟨fun s hs => ?_, fun s hs => ?_⟩, fun σ => ?_⟩
  · by_cases hs' : W' s
    · obtain ⟨x, hx, hfresh⟩ := hρ₂.written s hs'
      exact ⟨x, by rw [hx, Option.some_or], hfresh⟩
    · obtain ⟨x, hx, hfresh⟩ := hρ₁.written s (hs.resolve_right hs')
      exact ⟨x, by rw [hρ₂.kept s hs', hx, Option.none_or], hfresh⟩
  · obtain ⟨h₁, h₂⟩ := not_or.mp hs
    rw [hρ₁.kept s h₁, hρ₂.kept s h₂, Option.none_or]
  · show f' (f _) = _
    rw [hf, hf']
    congr 1
    funext s
    simp only [overlaid]
    cases ρ₂ s <;> rfl

theorem congr (h : c.Renewing W f) (hW : ∀ s, W' s ↔ W s) : c.Renewing W' f := by
  intro g
  obtain ⟨g', ρ, hρ, hf⟩ := h g
  exact ⟨g', ρ, ⟨fun s hs => hρ.written s ((hW s).mp hs), fun s hs => hρ.kept s (hs ∘ (hW s).mpr)⟩,
    hf⟩

/-- Only what the operation does to circuits that differ in numbers and generator matters. -/
theorem of_eq (h : c.Renewing W f)
    (he : ∀ g σ, f' ((c.withGenerator g).fill σ) = f ((c.withGenerator g).fill σ)) :
    c.Renewing W f' := by
  intro g
  obtain ⟨g', ρ, hρ, hf⟩ := h g
  exact ⟨g', ρ, hρ, fun σ => (he g σ).trans (hf σ)⟩

/-- One after another. -/
theorem foldl {β : Type} {f : Circuit α → β → Circuit α} {W : β → Symbol → Prop}
    (h : ∀ b, c.Renewing (W b) fun d => f d b) (bs : List β) :
    c.Renewing (fun s => ∃ b ∈ bs, W b s) fun d => bs.foldl f d := by
  induction bs with
  | nil => exact (Renewing.id c).congr fun s => by simp
  | cons b bs ih => exact ((h b).comp ih).congr fun s => by simp

end Renewing

/-! ## The parts of a reset -/

omit [Arithmetic α] in
/-- Storing a drawn number, seen in the environment. -/
theorem overlaid_single (s : Symbol) (x : α) (σ : Environment α) :
    overlaid (fun t => if t = s then some x else none) σ = Function.update σ s x := by
  funext t
  by_cases ht : t = s
  · subst ht
    simp [overlaid]
  · simp [overlaid, ht]

theorem renewing_redrawWeight (c : Circuit α) (l : LinkId) :
    c.Renewing (· = .weight l) fun d => d.redrawWeight l := by
  intro g
  refine ⟨g.next.2, fun s => if s = .weight l then
    some (c.settings.initRange * Arithmetic.spread g.next.1) else none, ⟨?_, ?_⟩, fun σ => ?_⟩
  · rintro s rfl
    exact ⟨_, if_pos rfl, _, rfl⟩
  · exact fun s hs => if_neg hs
  · rw [overlaid_single, ← store_fill]
    rfl

/-- Traces and error terms of a neuron. -/
def Clears (u : NeuronId) : Symbol → Prop
  | .neuron v a => v = u ∧ (a = .responsibility ∨ a = .projected ∨ a = .gated)
  | .eligibility v _ => v = u
  | .extended v _ _ => v = u
  | _ => False

instance (u : NeuronId) : DecidablePred (Clears u) := by
  intro s
  cases s <;> unfold Clears <;> infer_instance

theorem clearNeuron_fill (c : Circuit α) (u : NeuronId) (σ : Environment α) :
    (c.fill σ).clearNeuron u =
      c.fill (overlaid (fun s => if Clears u s then some 0 else none) σ) := by
  refine modifyNeuron_fill (fun _ => ?_) (fun v hv => ?_) fun l => ?_
  · simp only [Neuron.filled, overlaid, Clears, reduceCtorEq, or_self, and_false, true_and, or_true,
      true_or, if_true, if_false, Option.getD_some, Option.getD_none, IdMap.map]
    congr 2
    · exact IdMap.map_const_mapWithKey _ _ _
    · refine IdMap.ext fun g => ?_
      simp only [IdMap.find?_mapWithKey]
      cases (c.neuron u).trace.extended.find? g with
      | none => rfl
      | some xs => exact congrArg some (IdMap.map_const_mapWithKey _ _ _)
  · simp [Neuron.filled, overlaid, Clears, hv]
  · simp [Link.filled, overlaid, Clears]

theorem renewing_clearNeuron (c : Circuit α) (u : NeuronId) :
    c.Renewing (Clears u) fun d => d.clearNeuron u := by
  intro g
  refine ⟨g, fun s => if Clears u s then some 0 else none, ⟨fun s hs => ⟨0, if_pos hs, ?_⟩,
    fun s hs => if_neg hs⟩, clearNeuron_fill _ u⟩
  cases s with
  | neuron v a => rcases hs.2 with rfl | rfl | rfl <;> rfl
  | weight l => exact hs.elim
  | _ => rfl

/-- The last write of a reset: a drawn bias, and no state. -/
theorem renewing_rest (c : Circuit α) (u : NeuronId) :
    c.Renewing (fun s => ∃ a ∈ [Attribute.bias, .previous, .state, .activation], s = .neuron u a)
      fun d => d.draw.2.modifyNeuron u fun n =>
        { n with bias := d.draw.1, previous := 0, state := 0, activation := 0 } := by
  intro g
  let x := c.settings.initRange * Arithmetic.spread g.next.1
  refine ⟨g.next.2, fun
    | .neuron v .bias => if v = u then some x else none
    | .neuron v .previous => if v = u then some 0 else none
    | .neuron v .state => if v = u then some 0 else none
    | .neuron v .activation => if v = u then some 0 else none
    | _ => none, ⟨fun s hs => ?_, fun s hs => ?_⟩, fun σ => ?_⟩
  · obtain ⟨a, ha, rfl⟩ := hs
    simp only [List.mem_cons, List.not_mem_nil, or_false] at ha
    rcases ha with rfl | rfl | rfl | rfl
    · exact ⟨x, if_pos rfl, _, rfl⟩
    · exact ⟨0, if_pos rfl, rfl⟩
    · exact ⟨0, if_pos rfl, rfl⟩
    · exact ⟨0, if_pos rfl, rfl⟩
  · cases s with
    | neuron v a =>
      have hv : v = u → a ∉ [Attribute.bias, .previous, .state, .activation] := by
        rintro rfl ha
        exact hs ⟨a, ha, rfl⟩
      cases a <;> simp_all
    | _ => rfl
  · show ((c.withGenerator g.next.2).fill σ).modifyNeuron u _ = _
    refine modifyNeuron_fill (fun _ => ?_) (fun v hv => ?_) fun l => ?_
    · simp only [Neuron.filled, overlaid, if_true, Option.getD_some, Option.getD_none]
      rfl
    · simp [Neuron.filled, overlaid, hv]
    · simp [Link.filled, overlaid]

/-! ## Whole resets -/

theorem SameWiring.isLoop (h : SameWiring c d) (l : LinkId) : d.isLoop l = c.isLoop l := by
  simp only [Circuit.isLoop, h.target, h.loop]

theorem SameWiring.incident (h : SameWiring c d) (u : NeuronId) : d.incident u = c.incident u := by
  simp only [Circuit.incident, h.inputs, h.projected, h.gated, h.isLoop]

theorem renewing_resetNeuron (c : Circuit α) (u : NeuronId) :
    c.Renewing (c.Renews u) fun d => d.resetNeuron u := by
  have hparts := ((renewing_clearNeuron c u).comp
    (.foldl (renewing_redrawWeight c) (c.incident u).toList)).comp (renewing_rest c u)
  refine (hparts.congr fun s => ?_).of_eq fun g σ => ?_
  · cases s with
    | neuron v a => cases a <;> simp [Renews, Clears]
    | _ => simp [Renews, Clears]
  · have hw := (sameWiring_fill (c.withGenerator g) σ).trans (sameWiring_clearNeuron _ u)
    show resetNeuron _ u = _
    simp only [resetNeuron, hw.incident]
    rfl

/-- Resetting several neurons overwrites what resetting each of them does. -/
theorem renewing_resetAll (c : Circuit α) (us : List NeuronId) :
    c.Renewing (fun s => ∃ u ∈ us, c.Renews u s) fun d => d.resetAll us :=
  .foldl (renewing_resetNeuron c) us

/-- The weights drawn with a neuron are those of the links that start there, end there or are gated there,
loops excepted. -/
theorem Sound.mem_incident_iff (h : c.Sound) (hu : u < c.neurons.size) :
    l ∈ c.incident u ↔ l < c.links.size ∧ (c.link l).source ≠ (c.link l).target ∧
      ((c.link l).source = u ∨ (c.link l).target = u ∨ (c.link l).gater = some u) := by
  have hloop : l < c.links.size →
      ((!c.isLoop l) = true ↔ (c.link l).source ≠ (c.link l).target) := by
    intro hl
    rw [Bool.not_eq_true', ← Bool.not_eq_true, h.isLoop_iff hl]
  rw [incident, IdSet.mem_filter, IdSet.mem_union, IdSet.mem_union, h.mem_inputs u hu,
    h.mem_projected u hu, h.mem_gated u hu]
  constructor
  · rintro ⟨(⟨hl, ht, -⟩ | ⟨hl, hs, -⟩) | ⟨hl, hg⟩, hi⟩
    · exact ⟨hl, (hloop hl).mp hi, .inr (.inl ht)⟩
    · exact ⟨hl, (hloop hl).mp hi, .inl hs⟩
    · exact ⟨hl, (hloop hl).mp hi, .inr (.inr hg)⟩
  · rintro ⟨hl, hne, hs | ht | hg⟩
    · exact ⟨.inl (.inr ⟨hl, hs, hs ▸ hne.symm⟩), (hloop hl).mpr hne⟩
    · exact ⟨.inl (.inl ⟨hl, ht, ht ▸ hne⟩), (hloop hl).mpr hne⟩
    · exact ⟨.inr ⟨hl, hg⟩, (hloop hl).mpr hne⟩

/-! ## What is left of a circuit -/

/-- Is one of these neurons an end or the gater of a link that is no loop? -/
def Touches (c : Circuit α) (us : List NeuronId) (l : LinkId) : Prop :=
  l < c.links.size ∧ (c.link l).source ≠ (c.link l).target ∧
    ((c.link l).source ∈ us ∨ (c.link l).target ∈ us ∨ ∃ u ∈ us, (c.link l).gater = some u)

instance (c : Circuit α) (us : List NeuronId) (l : LinkId) : Decidable (c.Touches us l) :=
  inferInstanceAs (Decidable (_ ∧ _ ∧ _))

/-- Touched links are those whose weights are drawn with one of the neurons. -/
theorem Sound.touches_iff (h : c.Sound) {us : List NeuronId} (hus : ∀ u ∈ us, u < c.neurons.size) :
    c.Touches us l ↔ l < c.links.size ∧ ∃ u ∈ us, l ∈ c.incident u := by
  constructor
  · rintro ⟨hl, hne, hs | ht | ⟨u, hu, hg⟩⟩
    · exact ⟨hl, _, hs, (h.mem_incident_iff (hus _ hs)).mpr ⟨hl, hne, .inl rfl⟩⟩
    · exact ⟨hl, _, ht, (h.mem_incident_iff (hus _ ht)).mpr ⟨hl, hne, .inr (.inl rfl)⟩⟩
    · exact ⟨hl, u, hu, (h.mem_incident_iff (hus u hu)).mpr ⟨hl, hne, .inr (.inr hg)⟩⟩
  · rintro ⟨hl, u, hu, hi⟩
    obtain ⟨-, hne, rfl | rfl | hg⟩ := (h.mem_incident_iff (hus u hu)).mp hi
    · exact ⟨hl, hne, .inl hu⟩
    · exact ⟨hl, hne, .inr (.inl hu)⟩
    · exact ⟨hl, hne, .inr (.inr ⟨u, hu, hg⟩)⟩

/-- What a reset of some neurons makes of a circuit, if drawn numbers have a certain property: these
neurons are left with a drawn bias and with no state, no error and no trace, the links they touch with
a drawn weight. All else stays, except for the generator. -/
structure Redrawn (P : α → Prop) (us : List NeuronId) (c d : Circuit α) : Prop where
  neuron : ∀ u ∈ us, ∃ bias, P bias ∧ d.neuron u =
    { c.neuron u with
      activation := 0, state := 0, previous := 0, bias
      error := .zero
      trace := (c.neuron u).trace.blank }
  others : ∀ u ∉ us, d.neuron u = c.neuron u
  link : ∀ l, c.Touches us l → ∃ weight, P weight ∧ d.link l = { c.link l with weight }
  spared : ∀ l, ¬ c.Touches us l → d.link l = c.link l
  neurons : d.neurons.size = c.neurons.size
  links : d.links.size = c.links.size
  ensembles : d.ensembles = c.ensembles
  projections : d.projections = c.projections
  identity : d.identity = c.identity
  settings : d.settings = c.settings

theorem Redrawn.mono {P Q : α → Prop} {us : List NeuronId} (h : Redrawn P us c d)
    (hPQ : ∀ x, P x → Q x) : Redrawn Q us c d :=
  { h with
    neuron := by
      intro u hu
      obtain ⟨bias, hbias, he⟩ := h.neuron u hu
      exact ⟨bias, hPQ bias hbias, he⟩
    link := by
      intro l hl
      obtain ⟨weight, hweight, he⟩ := h.link l hl
      exact ⟨weight, hPQ weight hweight, he⟩ }

variable {us : List NeuronId} {τ : Environment α}

/-- A reset fills the circuit with fresh numbers where it writes and with the old ones elsewhere. -/
theorem resetAll_eq_fill (c : Circuit α) (us : List NeuronId) :
    ∃ g τ, c.resetAll us = (c.withGenerator g).fill τ ∧
      (∀ s, (∃ u ∈ us, c.Renews u s) → c.Fresh s (τ s)) ∧
      ∀ s, (¬ ∃ u ∈ us, c.Renews u s) → τ s = c.load s := by
  obtain ⟨g, ρ, hρ, hreset⟩ := renewing_resetAll c us c.generator
  refine ⟨g, overlaid ρ c.load, ?_, fun s hs => ?_, fun s hs => ?_⟩
  · rw [← hreset]
    show _ = (c.fill c.load).resetAll us
    rw [fill_load]
  · obtain ⟨x, hx, hfresh⟩ := hρ.written s hs
    rwa [overlaid, hx, Option.getD_some]
  · rw [overlaid, hρ.kept s hs, Option.getD_none]

theorem filled_of_fresh (hfresh : ∀ s, c.Renews u s → c.Fresh s (τ s))
    (hderivative : τ (.neuron u .derivative) = (c.neuron u).derivative) :
    (c.neuron u).filled τ u =
      { c.neuron u with
        activation := 0, state := 0, previous := 0, bias := τ (.neuron u .bias)
        error := .zero
        trace := (c.neuron u).trace.blank } := by
  have hzero : ∀ a, a ≠ .bias → a ≠ .derivative → τ (.neuron u a) = 0 := by
    intro a hbias hderivative
    have hwritten := hfresh (.neuron u a) ⟨rfl, hderivative⟩
    cases a <;> first | exact hwritten | exact absurd rfl hbias
  have heligibility : ∀ l, τ (.eligibility u l) = 0 := fun l => hfresh (.eligibility u l) rfl
  have hextended : ∀ g l, τ (.extended u g l) = 0 := fun g l => hfresh (.extended u g l) rfl
  simp only [Neuron.filled, heligibility, hextended, hderivative, hzero, ne_eq, reduceCtorEq,
    not_false_eq_true]
  rfl

theorem filled_of_kept (hown : ∀ a, τ (.neuron u a) = c.load (.neuron u a))
    (heligibility : ∀ l, τ (.eligibility u l) = c.load (.eligibility u l))
    (hextended : ∀ g l, τ (.extended u g l) = c.load (.extended u g l)) :
    (c.neuron u).filled τ u = c.neuron u := by
  refine Eq.trans ?_ (filled_load c u)
  simp only [Neuron.filled, hown, heligibility, hextended]

theorem redrawn_resetAll (h : c.Sound) (hus : ∀ u ∈ us, u < c.neurons.size) :
    Redrawn c.Drawn us c (c.resetAll us) := by
  obtain ⟨g, τ, hall, hfresh, hkept⟩ := resetAll_eq_fill c us
  have hneuron : ∀ u < c.neurons.size, (c.resetAll us).neuron u = (c.neuron u).filled τ u := by
    intro u hu
    rw [hall]
    exact neuron_fill (c := c.withGenerator g) hu
  have hlink : ∀ l < c.links.size, (c.resetAll us).link l = (c.link l).filled τ l := by
    intro l hl
    rw [hall]
    exact link_fill (c := c.withGenerator g) hl
  have hgain : ∀ l, τ (.gain l) = (c.link l).gain := fun l => hkept (.gain l) fun ⟨_, _, hr⟩ => hr
  have hw := sameWiring_resetAll c us
  refine
    { neuron := fun u hu => ⟨τ (.neuron u .bias), ?_, ?_⟩
      others := fun u hu => ?_
      link := fun l hl => ⟨τ (.weight l), ?_, ?_⟩
      spared := fun l hl => ?_
      neurons := hw.neurons
      links := hw.links
      ensembles := hw.ensembles
      projections := hw.projections
      identity := by rw [hall]; rfl
      settings := by rw [hall]; rfl }
  · exact hfresh (.neuron u .bias) ⟨u, hu, rfl, nofun⟩
  · rw [hneuron u (hus u hu)]
    exact filled_of_fresh (fun s hs => hfresh s ⟨u, hu, hs⟩)
      (hkept (.neuron u .derivative) fun ⟨_, _, hr⟩ => hr.2 rfl)
  · by_cases hlt : u < c.neurons.size
    · rw [hneuron u hlt]
      refine filled_of_kept (fun a => hkept _ ?_) (fun l => hkept _ ?_) fun g l => hkept _ ?_
      · rintro ⟨v, hv, rfl, -⟩
        exact hu hv
      · rintro ⟨v, hv, rfl⟩
        exact hu hv
      · rintro ⟨v, hv, rfl⟩
        exact hu hv
    · rw [neuron_of_le (Nat.le_of_not_lt hlt), neuron_of_le (hw.neurons ▸ Nat.le_of_not_lt hlt)]
  · obtain ⟨-, u, hu, hi⟩ := (h.touches_iff hus).mp hl
    exact hfresh (.weight l) ⟨u, hu, hi⟩
  · rw [hlink l hl.1, Link.filled, hgain]
  · by_cases hlt : l < c.links.size
    · have hweight : τ (.weight l) = (c.link l).weight :=
        hkept (.weight l) fun hr => hl ((h.touches_iff hus).mpr ⟨hlt, hr⟩)
      rw [hlink l hlt, Link.filled, hgain, hweight]
    · rw [link_of_le (Nat.le_of_not_lt hlt), link_of_le (hw.links ▸ Nat.le_of_not_lt hlt)]

end Circuit

end GatedNetwork
