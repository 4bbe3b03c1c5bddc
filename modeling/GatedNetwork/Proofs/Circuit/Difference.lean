import GatedNetwork.Proofs.Circuit.Reset

/-!
# Circuits that differ in some numbers only

Two circuits of the same wiring, with the same transfer functions, settings and generator, may differ in
numbers. `Circuit.DiffersIn W` says that they do so at most under the symbols of a set. It is an
equivalence for each set, and what an operation changes is a difference between the circuits before and
after it.

* `DiffersIn.eq_fill`, `differsIn_fill` — such circuits are one circuit, filled in two ways
* `differsIn_step`, `differsIn_propagateNeuron` — what the steps of a neuron change
* `DiffersIn.resetAll` — a reset makes up for a difference in what it writes
-/

namespace GatedNetwork

variable {α : Type} [Arithmetic α]

theorem Neuron.filled_of_bare {m n : Neuron α} (hbare : n.bare = m.bare)
    (htransfer : n.transfer = m.transfer) (σ : Environment α) (u : NeuronId) :
    n.filled σ u = m.filled σ u := by
  have hfilled : ∀ n : Neuron α, n.filled σ u = { n.bare.filled σ u with transfer := n.transfer } := by
    intro n
    simp only [Neuron.filled, Neuron.bare]
    congr 2
    · ext l
      simp only [IdMap.find?_mapWithKey, IdMap.find?_map]
      cases n.trace.eligibility.find? l <;> rfl
    · refine IdMap.ext fun g => ?_
      simp only [IdMap.find?_mapWithKey, IdMap.find?_map]
      cases n.trace.extended.find? g with
      | none => rfl
      | some xs =>
        refine congrArg some (IdMap.ext fun l => ?_)
        simp only [IdMap.find?_mapWithKey, IdMap.find?_map]
        cases xs.find? l <;> rfl
  rw [hfilled n, hfilled m, hbare, htransfer]

namespace Circuit

variable {c d e : Circuit α} {σ τ : Environment α} {u v : NeuronId} {l : LinkId}
  {W W' : Symbol → Prop}

/-! ## Numbers of a filled circuit -/

theorem load_fill_of_keeps {s : Symbol} (h : c.Keeps s) : (c.fill σ).load s = σ s := by
  cases s with
  | neuron u a =>
    rw [load, neuron_fill h]
    cases a <;> rfl
  | weight l => rw [load, link_fill h, Link.filled]
  | gain l => rw [load, link_fill h, Link.filled]
  | eligibility u l =>
    obtain ⟨x, hx⟩ := IdMap.mem_keys_iff.mp h.2
    rw [load, neuron_fill h.1, Neuron.filled, IdMap.find?_mapWithKey, hx]
    rfl
  | extended u g l =>
    obtain ⟨hu, xs, hg, hl⟩ := h
    obtain ⟨x, hx⟩ := IdMap.mem_keys_iff.mp hl
    rw [load, neuron_fill hu, Neuron.filled, IdMap.find?_mapWithKey, hg]
    simp [IdMap.find?_mapWithKey, hx]
  | rate => exact h.elim
  | target i => exact h.elim
  | influence u g => exact h.elim
  | scratch p => exact h.elim

/-- What is no field has no number of its own. -/
theorem load_fill_of_not_keeps {s : Symbol} (h : ¬ c.Keeps s) : (c.fill σ).load s = c.load s := by
  have hneuron : ∀ {u}, ¬ u < c.neurons.size → (c.fill σ).neuron u = c.neuron u := by
    intro u hu
    rw [neuron_of_le (Nat.le_of_not_lt hu), neuron_of_le (by simpa using hu)]
  have hlink : ∀ {l}, ¬ l < c.links.size → (c.fill σ).link l = c.link l := by
    intro l hl
    rw [link_of_le (Nat.le_of_not_lt hl), link_of_le (by simpa using hl)]
  cases s with
  | neuron u a => rw [load, load, hneuron h]
  | weight l => rw [load, load, hlink h]
  | gain l => rw [load, load, hlink h]
  | eligibility u l =>
    by_cases hu : u < c.neurons.size
    · have hnone : (c.neuron u).trace.eligibility.find? l = none := by
        rw [Option.eq_none_iff_forall_ne_some]
        exact fun x hx => h ⟨hu, IdMap.mem_keys_iff.mpr ⟨x, hx⟩⟩
      simp only [load, neuron_fill hu, Neuron.filled, IdMap.find?_mapWithKey, hnone, Option.map_none]
    · rw [load, load, hneuron hu]
  | extended u g l =>
    by_cases hu : u < c.neurons.size
    · rw [load, load, neuron_fill hu, Neuron.filled, IdMap.find?_mapWithKey]
      cases hg : (c.neuron u).trace.extended.find? g with
      | none => rfl
      | some xs =>
        have hnone : xs.find? l = none := by
          rw [Option.eq_none_iff_forall_ne_some]
          exact fun x hx => h ⟨hu, xs, hg, IdMap.mem_keys_iff.mpr ⟨x, hx⟩⟩
        simp [IdMap.find?_mapWithKey, hnone]
    · rw [load, load, hneuron hu]
  | rate => rfl
  | target i => rfl
  | influence u g => rfl
  | scratch p => rfl

/-! ## Differences -/

/-- Two circuits differ at most in the numbers of some symbols. -/
structure DiffersIn (W : Symbol → Prop) (c d : Circuit α) : Prop where
  wiring : SameWiring c d
  transfer : ∀ u, (d.neuron u).transfer = (c.neuron u).transfer
  identity : d.identity = c.identity
  settings : d.settings = c.settings
  generator : d.generator = c.generator
  load : ∀ s, ¬ W s → d.load s = c.load s

namespace DiffersIn

theorem refl (W : Symbol → Prop) (c : Circuit α) : DiffersIn W c c :=
  ⟨.refl c, fun _ => rfl, rfl, rfl, rfl, fun _ _ => rfl⟩

theorem symm (h : DiffersIn W c d) : DiffersIn W d c where
  wiring := h.wiring.symm
  transfer := fun u => (h.transfer u).symm
  identity := h.identity.symm
  settings := h.settings.symm
  generator := h.generator.symm
  load := fun s hs => (h.load s hs).symm

theorem trans (h : DiffersIn W c d) (h' : DiffersIn W d e) : DiffersIn W c e where
  wiring := h.wiring.trans h'.wiring
  transfer := fun u => (h'.transfer u).trans (h.transfer u)
  identity := h'.identity.trans h.identity
  settings := h'.settings.trans h.settings
  generator := h'.generator.trans h.generator
  load := fun s hs => (h'.load s hs).trans (h.load s hs)

theorem mono (h : DiffersIn W c d) (hW : ∀ s, W s → W' s) : DiffersIn W' c d :=
  { h with load := fun s hs => h.load s (hs ∘ hW s) }

/-- The second circuit is the first one, filled with other numbers. -/
theorem eq_fill (h : DiffersIn W c d) : d = c.fill d.load := by
  refine Circuit.eq_fill ⟨h.identity, h.settings, h.wiring.ensembles, h.wiring.projections,
    h.generator⟩ h.wiring.neurons h.wiring.links (fun u hu => ?_) fun l _ => ?_
  · rw [← Neuron.filled_of_bare (h.wiring.neuron u) (h.transfer u)]
    exact (filled_load d u).symm
  · have hsource := h.wiring.source l
    have htarget := h.wiring.target l
    have hgater := h.wiring.gater l
    rw [Link.filled, ← hsource, ← htarget, ← hgater]
    rfl

/-- Without a difference they are one circuit. -/
theorem eq (h : DiffersIn W c d) (hW : ∀ s, ¬ W s) : d = c := by
  rw [h.eq_fill, funext fun s => h.load s (hW s), fill_load]

end DiffersIn

theorem differsIn_fill (c : Circuit α) (h : ∀ s, c.Keeps s → ¬ W s → τ s = σ s) :
    DiffersIn W (c.fill σ) (c.fill τ) where
  wiring := (sameWiring_fill c σ).symm.trans (sameWiring_fill c τ)
  transfer := by
    intro u
    by_cases hu : u < c.neurons.size
    · rw [neuron_fill hu, neuron_fill hu]
      rfl
    · rw [neuron_of_le (by simpa using hu), neuron_of_le (by simpa using hu)]
  identity := rfl
  settings := rfl
  generator := rfl
  load := by
    intro s hs
    by_cases hk : c.Keeps s
    · rw [load_fill_of_keeps hk, load_fill_of_keeps hk, h s hk hs]
    · rw [load_fill_of_not_keeps hk, load_fill_of_not_keeps hk]

/-- What is done to two circuits that differ in some numbers may be followed in the environments they are
filled with. -/
theorem DiffersIn.map {f : Circuit α → Circuit α} {F : Environment α → Environment α}
    (h : DiffersIn W c d) (hf : ∀ σ, f (c.fill σ) = c.fill (F σ))
    (hF : (∀ s, ¬ W s → d.load s = c.load s) →
      ∀ s, c.Keeps s → ¬ W' s → F d.load s = F c.load s) : DiffersIn W' (f c) (f d) := by
  have hc : f c = c.fill (F c.load) := by rw [← hf, fill_load]
  have hd : f d = c.fill (F d.load) := by rw [← hf, ← h.eq_fill]
  rw [hc, hd]
  exact differsIn_fill c (hF h.load)

/-! ## What writes change -/

/-- The numbers of the record of a neuron. -/
def OwnedBy (u : NeuronId) : Symbol → Prop
  | .neuron v _ => v = u
  | .eligibility v _ => v = u
  | .extended v _ _ => v = u
  | _ => False

theorem differsIn_modifyNeuron {f : Neuron α → Neuron α} (hw : SameWiring c (c.modifyNeuron u f))
    (htransfer : ∀ n, (f n).transfer = n.transfer) :
    DiffersIn (OwnedBy u) c (c.modifyNeuron u f) where
  wiring := hw
  transfer := by
    intro v
    rcases neuron_modifyNeuron_cases c u f v with h | ⟨-, -, h⟩
    · rw [h]
    · rw [h, htransfer]
  identity := rfl
  settings := rfl
  generator := rfl
  load := by
    intro s hs
    cases s with
    | neuron v a => rw [load, load, neuron_modifyNeuron_ne hs]
    | eligibility v l => rw [load, load, neuron_modifyNeuron_ne hs]
    | extended v g l => rw [load, load, neuron_modifyNeuron_ne hs]
    | _ => rfl

theorem differsIn_setGain (c : Circuit α) (l : LinkId) (x : α) :
    DiffersIn (· = .gain l) c (c.setGain l x) where
  wiring := sameWiring_setGain c l x
  transfer := fun _ => rfl
  identity := rfl
  settings := rfl
  generator := rfl
  load := by
    intro s hs
    cases s with
    | weight k =>
      rcases link_modifyLink_cases c l (fun k => { k with gain := x }) k with h | ⟨-, -, h⟩ <;>
        rw [load, load, setGain, h]
    | gain k =>
      have hk : k ≠ l := by
        rintro rfl
        exact hs rfl
      rw [load, load, setGain, link_modifyLink_ne hk]
    | _ => rfl

theorem differsIn_modifyWeight (c : Circuit α) (l : LinkId) (f : Link α → α) :
    DiffersIn (· = .weight l) c (c.modifyLink l fun k => { k with weight := f k }) where
  wiring := sameWiring_modifyLink c l fun _ => rfl
  transfer := fun _ => rfl
  identity := rfl
  settings := rfl
  generator := rfl
  load := by
    intro s hs
    cases s with
    | gain k =>
      rcases link_modifyLink_cases c l (fun k => { k with weight := f k }) k with h | ⟨-, -, h⟩ <;>
        rw [load, load, h]
    | weight k =>
      have hk : k ≠ l := by
        rintro rfl
        exact hs rfl
      rw [load, load, link_modifyLink_ne hk]
    | _ => rfl

/-- What no step of a fold changes, the fold does not. -/
theorem differsIn_foldl {β : Type} {f : Circuit α → β → Circuit α} {bs : List β}
    (hf : ∀ b ∈ bs, ∀ d, SameWiring c d → DiffersIn W d (f d b)) :
    DiffersIn W c (bs.foldl f c) := by
  have hfold : ∀ d, DiffersIn W c d → DiffersIn W c (bs.foldl f d) := by
    induction bs with
    | nil => exact fun d hd => hd
    | cons b bs ih =>
      obtain ⟨hb, hbs⟩ := List.forall_mem_cons.mp hf
      exact fun d hd => ih hbs (f d b) (hd.trans (hb d hd.wiring))
  exact hfold c (.refl W c)

/-! ## What steps change -/

theorem differsIn_clamp (c : Circuit α) (u : NeuronId) (x : α) :
    DiffersIn (OwnedBy u) c (c.clamp u x) :=
  differsIn_modifyNeuron (sameWiring_clamp c u x) fun _ => rfl

/-- A forward step changes the record of its neuron and the gains that this one drives. -/
theorem differsIn_step (c : Circuit α) (u : NeuronId) :
    DiffersIn (fun s => OwnedBy u s ∨ ∃ l ∈ (c.neuron u).gated, s = .gain l) c (c.step u) := by
  have hfire : DiffersIn (OwnedBy u) c (c.fire u) :=
    differsIn_modifyNeuron (sameWiring_fire c u) fun _ => rfl
  have hretrace : DiffersIn (OwnedBy u) (c.fire u) ((c.fire u).retrace u) :=
    differsIn_modifyNeuron (sameWiring_retrace _ u) fun _ => rfl
  have hown := hfire.trans hretrace
  refine (hown.mono fun s hs => .inl hs).trans (differsIn_foldl fun l hl d _ => ?_)
  rw [hown.wiring.gated] at hl
  exact (differsIn_setGain d l _).mono fun s hs => .inr ⟨l, hl, hs⟩

/-- A backward step changes the record of its neuron and the weights of the links into it. -/
theorem differsIn_propagateNeuron (c : Circuit α) (u : NeuronId) (rate target : Option α) :
    DiffersIn (fun s => OwnedBy u s ∨ ∃ l ∈ (c.neuron u).inputs, s = .weight l) c
      (c.propagateNeuron u rate target) := by
  have hassign : DiffersIn (OwnedBy u) c (c.assignError u target) := by
    have hw := sameWiring_assignError c u target
    cases target with
    | some t => exact differsIn_modifyNeuron hw fun _ => rfl
    | none => exact differsIn_modifyNeuron hw fun _ => rfl
  refine ((hassign.mono fun s hs => .inl hs).trans (differsIn_foldl fun l hl d _ => ?_)).trans
    ((differsIn_modifyNeuron (sameWiring_correctBias _ u _) fun _ => rfl).mono
      fun s hs => .inl hs)
  rw [hassign.wiring.inputs] at hl
  exact (differsIn_modifyWeight d l _).mono fun s hs => .inr ⟨l, hl, hs⟩

/-! ## What a reset makes up for -/

/-- A reset writes the same into circuits that differ in some numbers. -/
theorem DiffersIn.resetAll (h : DiffersIn W c d) (us : List NeuronId) :
    DiffersIn (fun s => W s ∧ ¬ ∃ u ∈ us, c.Renews u s) (c.resetAll us) (d.resetAll us) := by
  obtain ⟨g, ρ, hρ, hreset⟩ := renewing_resetAll c us c.generator
  have hc : c.resetAll us = (c.withGenerator g).fill (Environment.overlaid ρ c.load) := by
    rw [← hreset]
    show _ = (c.fill c.load).resetAll us
    rw [fill_load]
  have hd : d.resetAll us = (c.withGenerator g).fill (Environment.overlaid ρ d.load) := by
    rw [← hreset]
    exact congrArg (·.resetAll us) h.eq_fill
  rw [hc, hd]
  refine differsIn_fill _ fun s _ hs => ?_
  by_cases hr : ∃ u ∈ us, c.Renews u s
  · obtain ⟨x, hx, -⟩ := hρ.written s hr
    rw [Environment.overlaid, Environment.overlaid, hx, Option.getD_some, Option.getD_some]
  · rw [Environment.overlaid, Environment.overlaid, h.load s fun hW => hs ⟨hW, hr⟩]

end Circuit

end GatedNetwork
