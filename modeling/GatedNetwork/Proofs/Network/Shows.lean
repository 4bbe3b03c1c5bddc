import GatedNetwork.Proofs.Network.Request

/-!
# What a network shows

While a program is live the circuit of a network lags behind. `Network.Shows` relates a network to the
circuit that restoring would leave, whatever mode it is in: the circuit itself without a live program,
and otherwise the circuit filled with what the memory of the program holds. The program may have been
compiled from an earlier state of the circuit.

* `restore_ok`, `invalidate_ok`, `prepare_ok` — moves between the modes leave what is shown
* `alike_request` — a request is answered as by the circuit shown, and what it leaves shows what the
  request makes of that circuit
* `upkeep_ok` — upkeep leaves what is shown, or shows a copy of it
-/

namespace GatedNetwork

variable {α : Type} [Arithmetic α]

namespace Network

open Circuit

/-- The circuit that a network stands for, in each of its modes. A live program comes from a circuit
`b` that the network's own is filled from, with gains that are left out of the code still one. -/
inductive Shows (layers : Layers) : Network α → Circuit α → Prop
  | pending (c : Circuit α) : Shows layers ⟨c, layers, .pending⟩ c
  | interpreted (c : Circuit α) : Shows layers ⟨c, layers, .interpreted⟩ c
  | compiled {b : Circuit α} {τ : Environment α} {m : Memory α} :
      b.Runs layers → b.Neutral τ → m.size = (b.program layers).symbols.length →
      Shows layers ⟨b.fill τ, layers, .compiled { b.program layers with memory := m }⟩
        (b.fill (m.view (b.program layers).symbols τ))

/-- A network without a live program, and its circuit. -/
inductive Rests (layers : Layers) : Network α → Circuit α → Prop
  | pending (c : Circuit α) : Rests layers ⟨c, layers, .pending⟩ c
  | interpreted (c : Circuit α) : Rests layers ⟨c, layers, .interpreted⟩ c

variable {layers : Layers} {n : Network α} {c d : Circuit α}

theorem Rests.shows (h : Rests layers n d) : Shows layers n d := by
  cases h with
  | pending => exact .pending d
  | interpreted => exact .interpreted d

namespace Shows

theorem layers_eq (h : Shows layers n d) : n.layers = layers := by
  cases h <;> rfl

theorem sameWiring (h : Shows layers n d) : SameWiring n.circuit d := by
  cases h with
  | pending => exact .refl d
  | interpreted => exact .refl d
  | compiled _ _ _ => exact (sameWiring_fill _ _).symm.trans (sameWiring_fill _ _)

/-- A destination names the same for a network and for the circuit it shows. -/
theorem entrance (h : Shows layers n d) (destination : Destination) :
    n.circuit.entrance destination = d.entrance destination := by
  have hidentity : n.circuit.identity = d.identity := by
    cases h <;> rfl
  unfold Circuit.entrance
  rw [hidentity]

end Shows

/-! ## Between the modes -/

/-- The circuit of a network after it has been restored. -/
def restored (n : Network α) : Circuit α := (restore.final n).circuit

omit [Arithmetic α] in
theorem onCircuit_ok {β : Type} {op : Edit α β} {b : β} (h : op n.circuit = .ok b c) :
    onCircuit op n = .ok b { n with circuit := c } := by
  simp only [onCircuit, h]

omit [Arithmetic α] in
theorem onCircuit_error {β : Type} {op : Edit α β} {e : Error} (h : op n.circuit = .error e c) :
    onCircuit op n = .error e { n with circuit := c } := by
  simp only [onCircuit, h]

omit [Arithmetic α] in
theorem discard_ok (layers : Layers) (mode : Mode α) (d : Circuit α) :
    ∃ n', discard ⟨d, layers, mode⟩ = .ok () n' ∧ Rests layers n' d := by
  cases mode with
  | pending => exact ⟨_, rfl, .pending d⟩
  | interpreted => exact ⟨_, rfl, .interpreted d⟩
  | compiled p => exact ⟨_, rfl, .pending d⟩

variable [NeutralOne α]

/-- Restoring leaves the circuit shown, and a live program stays good. -/
theorem restore_ok (h : Shows layers n d) :
    restore n = .ok () { n with circuit := d } ∧ Shows layers { n with circuit := d } d := by
  cases h with
  | pending => exact ⟨rfl, .pending d⟩
  | interpreted => exact ⟨rfl, .interpreted d⟩
  | @compiled b τ m hb hτ hm =>
    refine ⟨onCircuit_ok (restoreInto_fill hb τ hm), ?_⟩
    -- the program is still that of `b`, over a circuit filled with its own memory
    have hneutral := neutral_program hb.sound hb.inhabits hτ hm
    have hshows : Shows layers _ _ := .compiled hb hneutral hm
    rwa [Memory.view_view] at hshows

/-- The circuit that a network shows is its own once it is restored. -/
theorem Shows.restored (h : Shows layers n d) : n.restored = d := by
  rw [Network.restored, Op.final_of_ok (restore_ok h).1]

/-- Invalidating succeeds and leaves a network at rest. -/
theorem invalidate_ok (h : Shows layers n d) :
    ∃ n', invalidate n = .ok () n' ∧ Rests layers n' d := by
  obtain ⟨n', hdiscard, hrests⟩ := discard_ok n.layers n.mode d
  rw [h.layers_eq] at hrests
  exact ⟨n', (Op.bind_of_ok (restore_ok h).1).trans hdiscard, hrests⟩

/-- Compiling succeeds, and the new program starts with the numbers of the circuit. -/
theorem compile_ok (h : Shows layers n d) (hd : d.Runs layers) :
    compile n = .ok () ⟨d, layers, .compiled (d.program layers)⟩ ∧
      Shows layers ⟨d, layers, .compiled (d.program layers)⟩ d := by
  constructor
  · refine (Op.bind_of_ok (restore_ok h).1).trans ?_
    rw [← h.layers_eq] at hd ⊢
    exact Op.checked_of_ok _ (hd.sound.compile hd.inhabits)
  · -- a circuit is itself filled with its own numbers, which the new memory holds
    have hsize : (d.program layers).memory.size = (d.program layers).symbols.length := by
      simp [program, lower]
    have hview : (d.program layers).memory.view (d.program layers).symbols d.load = d.load :=
      Memory.view_map _ _
    have hshows : Shows layers _ _ := .compiled hd (Neutral.load d) hsize
    rwa [hview, fill_load] at hshows

/-- Preparing succeeds, and then the network is compiled or steps by itself. -/
theorem prepare_ok (h : Shows layers n d) (hd : d.Runs layers) :
    ∃ n', prepare n = .ok () n' ∧ Shows layers n' d ∧ n'.mode ≠ .pending := by
  cases h with
  | pending =>
    obtain ⟨hcompile, hshows⟩ := compile_ok (.pending d) hd
    exact ⟨_, hcompile, hshows, by simp⟩
  | interpreted => exact ⟨_, rfl, .interpreted d, by simp⟩
  | compiled hb hτ hm => exact ⟨_, rfl, .compiled hb hτ hm, by simp⟩

/-! ## Running -/

omit [Arithmetic α] [NeutralOne α] in
/-- An operation on the circuit of a network without a live program. -/
theorem alike_onCircuit (h : Rests layers n d) {β : Type} (op : Edit α β) :
    Op.Alike (Rests layers) (onCircuit op n) (op d) := by
  have hrests : ∀ c, Rests layers { n with circuit := c } c := by
    cases h with
    | pending => exact .pending
    | interpreted => exact .interpreted
  have hcircuit : n.circuit = d := by
    cases h <;> rfl
  rw [← hcircuit]
  cases ho : op n.circuit with
  | ok b c =>
    rw [onCircuit_ok ho]
    exact .ok b (hrests c)
  | error e c =>
    rw [onCircuit_error ho]
    exact .error e (hrests c)

/-- An edit of a network answers as it does in the circuit that the network shows. -/
theorem alike_edit (h : Shows layers n d) {β : Type} (op : Edit α β) :
    Op.Alike (Shows layers) (edit op n) (op d) := by
  obtain ⟨n', hinvalidate, hrests⟩ := invalidate_ok h
  unfold edit
  rw [Op.bind_of_ok hinvalidate]
  exact (alike_onCircuit hrests op).mono fun _ _ => Rests.shows

omit [NeutralOne α] in
/-- The output of a forward pass is what the outputs end up with. -/
theorem stepForward_outputs (h : d.Distinct layers) {input : List α}
    (hlen : input.length = (d.members layers.input).length) :
    stepForward input layers d =
      .ok ((d.members layers.output).map fun u =>
          ((d.forwardPass layers input).neuron u).activation)
        (d.forwardPass layers input) := by
  rw [stepForward_ok h.hosts.runs hlen, activateAll_fst _ h.nodup]
  rfl

omit [Arithmetic α] [NeutralOne α] in
theorem onProgram_ok {β : Type} {op : Op (Program α) β} {p p' : Program α} {b : β}
    (h : op p = .ok b p') :
    onProgram op ⟨c, layers, .compiled p⟩ = .ok (some b) ⟨c, layers, .compiled p'⟩ := by
  simp only [onProgram, h]

omit [Arithmetic α] [NeutralOne α] in
theorem checkSize_ok {what : Sized} {expected : Network α → Nat} {got : Nat}
    (h : expected n = got) : checkSize what expected got n = .ok () n :=
  Op.read_of_ok (f := fun n => checkLength what (expected n) got) (checkLength_eq_ok_iff.mpr h)

omit [Arithmetic α] [NeutralOne α] in
theorem readSize_ok {what : Sized} {size : Circuit α → Nat} {got : Nat} (h : size d = got) :
    Op.read (fun c => checkLength what (size c) got) d = .ok () d :=
  Op.read_of_ok (f := fun c => checkLength what (size c) got) (checkLength_eq_ok_iff.mpr h)

omit [NeutralOne α] in
/-- With the right number of values, a forward pass of a network that gets ready with a program is a
forward pass of the program, -/
theorem activate_of_program {p p' : Program α} {input outputs : List α}
    (hlen : n.inputSize = input.length) (hprepare : prepare n = .ok () ⟨c, layers, .compiled p⟩)
    (hrun : Program.activate input p = .ok outputs p') :
    activate input n = .ok outputs ⟨c, layers, .compiled p'⟩ := by
  have hcheck : checkSize .input inputSize input.length n = .ok () n := checkSize_ok hlen
  exact (Op.bind_of_ok hcheck).trans ((Op.bind_of_ok hprepare).trans
    (Op.bind_of_ok (onProgram_ok hrun)))

omit [NeutralOne α] in
/-- and without a program one of its circuit. -/
theorem activate_of_steps {input outputs : List α} (hlen : n.inputSize = input.length)
    (hprepare : prepare n = .ok () ⟨c, layers, .interpreted⟩)
    (hstep : stepForward input layers c = .ok outputs d) :
    activate input n = .ok outputs ⟨d, layers, .interpreted⟩ := by
  have hcheck : checkSize .input inputSize input.length n = .ok () n := checkSize_ok hlen
  exact (Op.bind_of_ok hcheck).trans ((Op.bind_of_ok hprepare).trans (onCircuit_ok hstep))

omit [NeutralOne α] in
/-- So it is for a backward pass. -/
theorem propagate_of_program {p p' : Program α} {rate : α} {target : List α}
    (hlen : n.outputSize = target.length) (hprepare : prepare n = .ok () ⟨c, layers, .compiled p⟩)
    (hrun : Program.propagate rate target p = .ok () p') :
    propagate rate target n = .ok () ⟨c, layers, .compiled p'⟩ := by
  have hcheck : checkSize .target outputSize target.length n = .ok () n := checkSize_ok hlen
  exact (Op.bind_of_ok hcheck).trans ((Op.bind_of_ok hprepare).trans
    (Op.bind_of_ok (onProgram_ok hrun)))

omit [NeutralOne α] in
theorem propagate_of_steps {rate : α} {target : List α} (hlen : n.outputSize = target.length)
    (hprepare : prepare n = .ok () ⟨c, layers, .interpreted⟩)
    (hstep : stepBackward rate target layers c = .ok () d) :
    propagate rate target n = .ok () ⟨d, layers, .interpreted⟩ := by
  have hcheck : checkSize .target outputSize target.length n = .ok () n := checkSize_ok hlen
  exact (Op.bind_of_ok hcheck).trans ((Op.bind_of_ok hprepare).trans (onCircuit_ok hstep))

omit [NeutralOne α] in
theorem Shows.inputSize (h : Shows layers n d) :
    n.inputSize = (d.members layers.input).length := by
  rw [Network.inputSize, h.layers_eq, h.sameWiring.members]

omit [NeutralOne α] in
theorem Shows.outputSize (h : Shows layers n d) :
    n.outputSize = (d.members layers.output).length := by
  rw [Network.outputSize, h.layers_eq, h.sameWiring.members]

omit [NeutralOne α] in
/-- Step by step, a network answers what each output had when it fired. -/
theorem activate_interpreted (hd : d.Hosts layers) {input : List α}
    (hlen : input.length = (d.members layers.input).length) :
    activate input ⟨d, layers, .interpreted⟩ =
      .ok (((d.clampAll ((d.members layers.input).zip input)).stepAll
          (d.hiddenMembers layers)).activateAll ((d.members layers.output).map (·, none))).1
        ⟨d.forwardPass layers input, layers, .interpreted⟩ :=
  activate_of_steps hlen.symm rfl (stepForward_ok hd.runs hlen)

/-- With a program, which reads the outputs from its memory at the end, it answers what the outputs
end up with. -/
theorem activate_compiled (h : Shows layers n d) (hd : d.Hosts layers) (hmode : n.mode ≠ .interpreted)
    {input : List α} (hlen : input.length = (d.members layers.input).length) :
    ∃ n', activate input n = .ok ((d.members layers.output).map fun u =>
        ((d.forwardPass layers input).neuron u).activation) n' ∧
      Shows layers n' (d.forwardPass layers input) := by
  have hsize : n.inputSize = input.length := h.inputSize.trans hlen.symm
  obtain ⟨n₁, hprepare, hshows, hready⟩ := prepare_ok h hd.runs
  cases hshows with
  | pending => exact absurd rfl hready
  | interpreted =>
    -- getting ready leaves the interpreter only to a network that had it
    obtain ⟨c, layers, mode⟩ := n
    cases mode with
    | pending => cases (compile_ok h hd.runs).1.symm.trans hprepare
    | interpreted => exact absurd rfl hmode
    | compiled p => cases hprepare
  | @compiled b τ m hb hτ hm =>
    rw [(sameWiring_fill b _).members] at hlen
    obtain ⟨m', hm', hrun, hfill⟩ := activate_program hb.sound hb.inhabits hτ hm hlen
    have houtputs : ((b.fill (m.view (b.program layers).symbols τ)).members layers.output).map
        (fun u => (((b.fill (m.view (b.program layers).symbols τ)).forwardPass layers
          input).neuron u).activation) =
        (b.members layers.output).map fun u =>
          m'.view (b.program layers).symbols τ (.neuron u .activation) := by
      rw [← hfill, (sameWiring_fill b _).members]
      refine List.map_congr_left fun u hu => ?_
      rw [neuron_fill (hb.inhabits.output_lt u hu)]
      rfl
    rw [houtputs, ← hfill]
    exact ⟨_, activate_of_program hsize hprepare hrun, .compiled hb hτ hm'⟩

/-- With the right number of values a network takes a forward pass, and then shows the circuit after
that pass. It answers what the outputs end up with, if none is listed twice. -/
theorem activate_ok (h : Shows layers n d) (hd : d.Hosts layers) {input : List α}
    (hlen : input.length = (d.members layers.input).length) :
    ∃ outputs n', activate input n = .ok outputs n' ∧
      Shows layers n' (d.forwardPass layers input) ∧
      ((d.members layers.output).Nodup → outputs = (d.members layers.output).map fun u =>
        ((d.forwardPass layers input).neuron u).activation) := by
  cases h with
  | interpreted =>
    refine ⟨_, _, activate_interpreted hd hlen, .interpreted _, fun hnodup => ?_⟩
    -- no later step may change what an output had when it fired
    exact activateAll_fst _ hnodup
  | pending =>
    obtain ⟨n', hactivate, hshows⟩ := activate_compiled (.pending d) hd nofun hlen
    exact ⟨_, n', hactivate, hshows, fun _ => rfl⟩
  | compiled hb hτ hm =>
    obtain ⟨n', hactivate, hshows⟩ := activate_compiled (.compiled hb hτ hm) hd nofun hlen
    exact ⟨_, n', hactivate, hshows, fun _ => rfl⟩

omit [NeutralOne α] in
/-- Without a program, training is a backward pass of the circuit. -/
theorem propagate_interpreted (hd : d.Hosts layers) (rate : α) {target : List α}
    (hlen : target.length = (d.members layers.output).length) :
    propagate rate target ⟨d, layers, .interpreted⟩ =
      .ok () ⟨d.backwardPass layers rate target, layers, .interpreted⟩ :=
  propagate_of_steps hlen.symm rfl (stepBackward_ok hd.runs rate hlen)

/-- With the right number of values a network takes a backward pass, and then shows the circuit after
that pass. -/
theorem propagate_ok (h : Shows layers n d) (hd : d.Hosts layers) (rate : α) {target : List α}
    (hlen : target.length = (d.members layers.output).length) :
    ∃ n', propagate rate target n = .ok () n' ∧
      Shows layers n' (d.backwardPass layers rate target) := by
  have hsize : n.outputSize = target.length := h.outputSize.trans hlen.symm
  obtain ⟨n₁, hprepare, hshows, hmode⟩ := prepare_ok h hd.runs
  cases hshows with
  | pending => exact absurd rfl hmode
  | interpreted =>
    have hstep := stepBackward_ok hd.runs rate hlen
    exact ⟨_, propagate_of_steps hsize hprepare hstep, .interpreted _⟩
  | @compiled b τ m hb hτ hm =>
    rw [(sameWiring_fill b _).members] at hlen
    obtain ⟨m', hm', hrun, hfill⟩ := propagate_program hb.sound hb.inhabits hτ hm rate hlen
    refine ⟨_, propagate_of_program hsize hprepare hrun, ?_⟩
    rw [← hfill]
    exact .compiled hb hτ hm'

omit [NeutralOne α] in
/-- The wrong number of values is refused before anything happens. -/
theorem alike_refused (h : Shows layers n d) {what : Sized} {expected : Network α → Nat}
    {size : Circuit α → Nat} {got : Nat} (hsize : expected n = size d) (hne : got ≠ size d)
    {β : Type} (f : Unit → Op (Network α) β) (f' : Unit → Edit α β) :
    Op.Alike (Shows layers) ((checkSize what expected got >>= f) n)
      (((Op.read fun c => checkLength what (size c) got) >>= f') d) := by
  have hcheck : checkLength what (size d) got = .error (.sizeMismatch what (size d) got) := by
    simp [checkLength, require, Ne.symm hne]
  have hn : checkSize what expected got n = .error (.sizeMismatch what (size d) got) n := by
    refine Op.read_of_error (f := fun n => checkLength what (expected n) got) ?_
    rw [hsize, hcheck]
  have hd := Op.read_of_error (f := fun c => checkLength what (size c) got) hcheck
  rw [Op.bind_of_error hn, Op.bind_of_error hd]
  exact .error _ h

/-- A network answers an input as the circuit it shows does. -/
theorem alike_activate (h : Shows layers n d) (hd : d.Distinct layers) (input : List α) :
    Op.Alike (Shows layers) ((Request.activate input).perform n)
      ((Request.activate input).effect layers d) := by
  refine Op.Alike.map ?_ _
  by_cases hlen : input.length = (d.members layers.input).length
  · obtain ⟨outputs, n', hactivate, hshows, houtputs⟩ := activate_ok h hd.hosts hlen
    rw [hactivate, Op.bind_of_ok (readSize_ok hlen.symm), stepForward_outputs hd hlen, houtputs hd.nodup]
    exact .ok _ hshows
  · exact alike_refused h h.inputSize hlen _ _

/-- A network is trained as the circuit it shows is. -/
theorem alike_propagate (h : Shows layers n d) (hd : d.Hosts layers) (rate : α)
    (target : List α) :
    Op.Alike (Shows layers) ((Request.propagate rate target).perform n)
      ((Request.propagate rate target).effect layers d) := by
  refine Op.Alike.map ?_ _
  by_cases hlen : target.length = (d.members layers.output).length
  · obtain ⟨n', hpropagate, hshows⟩ := propagate_ok h hd rate hlen
    rw [hpropagate, Op.bind_of_ok (readSize_ok hlen.symm), stepBackward_ok hd.runs rate hlen]
    exact .ok _ hshows
  · exact alike_refused h h.outputSize hlen _ _

/-! ## Wiring -/

/-- A network projects as the circuit it shows does. -/
theorem alike_project (h : Shows layers n d) (destination : Destination)
    (topology : Option Topology) (weight : Option α) :
    Op.Alike (Shows layers) (project destination topology weight n)
      ((do
        let target ← Op.read fun c => c.resolve destination
        Edit.project layers.output (.ensemble target) topology weight : Edit α ProjectionId) d) := by
  have hresolve : n.circuit.resolve destination = d.resolve destination := by
    unfold resolve hasEnsemble
    rw [h.entrance, h.sameWiring.ensembles]
  refine (Op.Alike.read h hresolve).bind fun e n₁ d₁ hn₁ hd₁ _ => ?_
  obtain ⟨-, rfl⟩ := Op.read_eq_ok hn₁
  obtain ⟨-, rfl⟩ := Op.read_eq_ok hd₁
  obtain ⟨n₂, hinvalidate, hrests⟩ := invalidate_ok h
  rw [Op.bind_of_ok hinvalidate]
  show Op.Alike _ (onCircuit (Edit.project n₂.layers.output (.ensemble e) topology weight) n₂) _
  rw [hrests.shows.layers_eq]
  exact (alike_onCircuit hrests _).mono fun _ _ => Rests.shows

/-- A network gates as the circuit it shows does. -/
theorem alike_gate (h : Shows layers n d) (projection : ProjectionId) (side : GateSide) :
    Op.Alike (Shows layers) ((Request.gate projection side).perform n)
      ((Request.gate projection side).effect layers d) := by
  refine Op.Alike.map ?_ _
  obtain ⟨n₂, hinvalidate, hrests⟩ := invalidate_ok h
  unfold gate
  rw [Op.bind_of_ok hinvalidate]
  show Op.Alike _ (onCircuit (Edit.gate n₂.layers.output projection side) n₂) _
  rw [hrests.shows.layers_eq]
  exact (alike_onCircuit hrests _).mono fun _ _ => Rests.shows

/-! ## Forgetting -/

omit [NeutralOne α] in
/-- All neurons of the layer set are cleared, one after another. -/
theorem clearEnsembles_eq (h : d.Runs layers) :
    layers.ensembles.forM Edit.clearEnsemble d = .ok () (d.clearAll (d.placed layers)) := by
  have hfold : d.clearAll (d.placed layers) =
      layers.ensembles.foldl (fun c e => c.clearAll (d.members e)) d := by
    rw [placed_eq_flatMap]
    exact List.foldl_flatMap
  rw [hfold]
  refine forM_ok (fun d e => sameWiring_clearAll d _) fun e he d' hw => ?_
  have hruns := h.of_sameWiring hw
  rw [← hw.members]
  refine Op.checked_of_ok () (bind_eq_ok_iff.mpr ⟨(), ?_, ?_⟩)
  · exact require_eq_ok_iff.mpr (hruns.ensembles e he)
  · exact requireNeurons_eq_ok_iff.mpr fun u hu => hruns.member_lt he hu

omit [NeutralOne α] in
theorem clearEnsembles_ok (h : d.Runs layers) :
    ∃ d', layers.ensembles.forM Edit.clearEnsemble d = .ok () d' ∧ SameWiring d d' :=
  ⟨_, clearEnsembles_eq h, sameWiring_clearAll d _⟩

omit [NeutralOne α] in
/-- All neurons of the layer set are reset, one after another. -/
theorem resetEnsembles_eq (h : d.Runs layers) :
    layers.ensembles.forM Edit.resetEnsemble d = .ok () (d.resetAll (d.placed layers)) := by
  have hfold : d.resetAll (d.placed layers) =
      layers.ensembles.foldl (fun c e => c.resetAll (d.members e)) d := by
    rw [placed_eq_flatMap]
    exact List.foldl_flatMap
  rw [hfold]
  refine forM_ok (fun d e => sameWiring_resetAll d _) fun e he d' hw => ?_
  have hruns := h.of_sameWiring hw
  rw [← hw.members]
  refine Op.checked_of_ok () (bind_eq_ok_iff.mpr ⟨(), ?_, ?_⟩)
  · exact require_eq_ok_iff.mpr (hruns.ensembles e he)
  · refine forM_eq_ok_iff.mpr fun u hu => ?_
    exact require_eq_ok_iff.mpr (hruns.sound.resolves (hruns.member_lt he hu))

omit [NeutralOne α] in
theorem resetEnsembles_ok (h : d.Runs layers) :
    ∃ d', layers.ensembles.forM Edit.resetEnsemble d = .ok () d' ∧ SameWiring d d' :=
  ⟨_, resetEnsembles_eq h, sameWiring_resetAll d _⟩

/-- Forgetting succeeds, so the live program that it leaves behind for a moment is dropped. -/
theorem alike_forget (h : Shows layers n d) {f : EnsembleId → Edit α Unit}
    (hf : ∃ d', layers.ensembles.forM f d = .ok () d' ∧ SameWiring d d') :
    Op.Alike (Shows layers)
      ((do restore; onCircuit ((← get).layers.ensembles.forM f); discard : Op (Network α) Unit) n)
      (layers.ensembles.forM f d) := by
  obtain ⟨d', hd', -⟩ := hf
  obtain ⟨n', hdiscard, hrests⟩ := discard_ok n.layers n.mode d'
  have hcircuit : onCircuit (n.layers.ensembles.forM f) { n with circuit := d } =
      .ok () { n with circuit := d' } := by
    rw [h.layers_eq]
    exact onCircuit_ok hd'
  rw [Op.bind_of_ok (restore_ok h).1, hd']
  show Op.Alike _ ((onCircuit (n.layers.ensembles.forM f) >>= fun _ => discard)
    { n with circuit := d }) _
  rw [Op.bind_of_ok hcircuit, hdiscard]
  rw [h.layers_eq] at hrests
  exact .ok () hrests.shows

/-- The snapshot of a network is that of the circuit it shows. -/
theorem alike_snapshot (h : Shows layers n d) :
    Op.Alike (Shows layers) (Request.snapshot.perform n) (Request.snapshot.effect layers d) := by
  refine Op.Alike.map ?_ _
  obtain ⟨hrestore, hshows⟩ := restore_ok h
  unfold snapshot
  rw [Op.bind_of_ok hrestore]
  refine Op.Alike.read hshows ?_
  unfold placements
  rw [h.layers_eq]

/-! ## Every request -/

/-- A request is answered as by the circuit shown, and what it leaves shows what the request makes of
that circuit. -/
theorem alike_request (h : Shows layers n d) (hd : d.Distinct layers) (r : Request α) :
    Op.Alike (Shows layers) (r.perform n) (r.effect layers d) := by
  cases r with
  | activate input => exact alike_activate h hd input
  | propagate rate target => exact alike_propagate h hd.hosts rate target
  | project target topology weight => exact (alike_project h (.ensemble target) topology weight).map _
  | gate projection side => exact alike_gate h projection side
  | clear => exact (alike_forget h (clearEnsembles_ok hd.hosts.runs)).map _
  | reset => exact (alike_forget h (resetEnsembles_ok hd.hosts.runs)).map _
  | snapshot => exact alike_snapshot h
  | edit r => exact (alike_edit h r.perform).map _

/-! ## Upkeep -/

/-- The layer set of a network after upkeep. -/
def Upkeep.bind (layers : Layers) : Upkeep → Layers
  | copy identity => layers.bind identity
  | _ => layers

/-- The circuit shown after upkeep. -/
def Upkeep.shown (d : Circuit α) : Upkeep → Circuit α
  | copy identity => d.copy identity
  | _ => d

omit [NeutralOne α] in
/-- A copy shows a copy. -/
theorem Shows.copy (h : Shows layers n d) (i : Identity) :
    Shows (layers.bind i) (n.copy i) (d.copy i) := by
  cases h with
  | pending => exact .pending (d.copy i)
  | interpreted => exact .interpreted (d.copy i)
  | @compiled b τ m hb hτ hm =>
    have hcopy : (b.copy i).Runs (layers.bind i) :=
      { sound := hb.sound.of_sameWiring (sameWiring_copy b i)
        ensembles := hb.ensembles
        inhabits := hb.inhabits }
    exact .compiled hcopy hτ hm

/-- Upkeep succeeds. It leaves what is shown, or shows a copy of it. -/
theorem upkeep_ok (h : Shows layers n d) (hd : d.Runs layers) (u : Upkeep) :
    ∃ n', u.perform n = .ok () n' ∧ Shows (u.bind layers) n' (u.shown d) := by
  cases u with
  | compile => exact ⟨_, compile_ok h hd⟩
  | restore => exact ⟨_, restore_ok h⟩
  | invalidate =>
    obtain ⟨n', hinvalidate, hrests⟩ := invalidate_ok h
    exact ⟨n', hinvalidate, hrests.shows⟩
  | setOptimize on =>
    refine ⟨_, Op.bind_of_ok (restore_ok h).1, ?_⟩
    cases on with
    | false =>
      rw [← h.layers_eq]
      exact .interpreted d
    | true =>
      rw [← h.layers_eq]
      exact .pending d
  | idle =>
    obtain ⟨n', hinvalidate, hrests⟩ := invalidate_ok h
    refine ⟨n', (Op.bind_of_ok hinvalidate).trans ?_, hrests.shows⟩
    cases hrests <;> rfl
  | copy i => exact ⟨_, rfl, h.copy i⟩

end Network

end GatedNetwork
