import GatedNetwork.Proofs.Network.Reachable
import GatedNetwork.Proofs.Program.Intact

/-!
# Valid networks

A network is valid if its circuit can host its layer set and a live program serves that circuit: it is
intact, its symbols have records there, and it takes as many inputs and targets as the layer set has
neurons for them. Nothing is said about the numbers, so no law of arithmetic is needed, and all of this
holds of networks over double precision, too.

* `Valid.restore_ok`, `Valid.invalidate_ok`, `Valid.prepare_ok` — moves between the modes succeed
* `Valid.activate_ok`, `Valid.propagate_ok` — running succeeds with the right number of values
* `valid_of_reachable` — networks within reach are valid
-/

namespace GatedNetwork

variable {α : Type} [Arithmetic α]

/-! ## Programs that belong to a circuit -/

/-- A program that can be a network's live program. -/
structure Program.Serves (p : Program α) (c : Circuit α) (layers : Layers) : Prop where
  intact : p.Intact
  fits : p.fits c = true
  inputs : p.inputs.length = (c.members layers.input).length
  targets : p.targets.length = (c.members layers.output).length

namespace Circuit

variable {c d : Circuit α} {layers : Layers}

/-- A circuit is served by the program it is compiled to. -/
theorem serves_program (h : c.Runs layers) : (c.program layers).Serves c layers where
  intact := intact_lower c _
  fits := fits_lower h.sound h.inhabits (.refl c) _
  inputs := by rw [inputs_program, List.length_map, List.length_map]
  targets := by rw [targets_program, List.length_map, List.length_map, List.length_range]

end Circuit

namespace Program.Serves

variable {p : Program α} {c d : Circuit α} {layers : Layers}

theorem of_sameWiring (h : p.Serves c layers) (hw : Circuit.SameWiring c d) :
    p.Serves d layers where
  intact := h.intact
  fits := (hw.fits p).trans h.fits
  inputs := h.inputs.trans (congrArg List.length (hw.members _)).symm
  targets := h.targets.trans (congrArg List.length (hw.members _)).symm

omit [Arithmetic α] in
/-- A program serves a circuit with any numbers in its memory. -/
theorem withMemory (h : p.Serves c layers) {m : Memory α} (hm : m.size = p.memory.size) :
    Program.Serves { p with memory := m } c layers where
  intact := h.intact.withMemory hm
  fits := h.fits
  inputs := h.inputs
  targets := h.targets

end Program.Serves

/-- The mode of a network whose live program was dropped. -/
def Mode.dropped : Mode α → Mode α
  | .compiled _ => .pending
  | mode => mode

omit [Arithmetic α] in
theorem Mode.dropped_ne_compiled (mode : Mode α) (p : Program α) : mode.dropped ≠ .compiled p := by
  cases mode <;> simp [Mode.dropped]

namespace Network

open Circuit

/-- A network whose circuit hosts its layer set and whose live program serves that circuit. -/
structure Valid (n : Network α) : Prop where
  hosts : n.circuit.Hosts n.layers
  live : ∀ p, n.mode = .compiled p → p.Serves n.circuit n.layers

variable {n : Network α} {c d : Circuit α} {layers : Layers}

/-! ## Operations on the parts -/

omit [Arithmetic α] in
/-- An operation on the circuit changes nothing else of a network. -/
theorem final_onCircuit {β : Type} (op : Edit α β) (n : Network α) :
    (onCircuit op).final n = { n with circuit := op.final n.circuit } := by
  cases ho : op n.circuit with
  | ok b d => rw [Op.final_of_ok (onCircuit_ok ho), Op.final_of_ok ho]
  | error e d => rw [Op.final_of_error (onCircuit_error ho), Op.final_of_error ho]

omit [Arithmetic α] in
theorem answer_onCircuit {β : Type} (op : Edit α β) (n : Network α) :
    (onCircuit op).answer n = op.answer n.circuit := by
  cases ho : op n.circuit with
  | ok b d => rw [Op.answer_of_ok (onCircuit_ok ho), Op.answer_of_ok ho]
  | error e d => rw [Op.answer_of_error (onCircuit_error ho), Op.answer_of_error ho]

omit [Arithmetic α] in
/-- Discarding a program always succeeds. -/
theorem discard_eq (n : Network α) : discard n = .ok () { n with mode := n.mode.dropped } := by
  obtain ⟨c, layers, mode⟩ := n
  cases mode <;> rfl

omit [Arithmetic α] in
/-- Without a live program there is nothing to restore. -/
theorem restored_eq (hn : n.isCompiled = false) : n.restored = n.circuit := by
  obtain ⟨c, layers, mode⟩ := n
  cases mode with
  | pending => rfl
  | interpreted => rfl
  | compiled p => cases hn

/-! ## Refusals -/

omit [Arithmetic α] in
/-- The wrong number of values is refused, and nothing is done. -/
theorem checkSize_error {what : Sized} {expected : Network α → Nat} {got : Nat}
    (hne : expected n ≠ got) {β : Type} (f : Unit → Op (Network α) β) :
    (checkSize what expected got >>= f) n = .error (.sizeMismatch what (expected n) got) n := by
  refine Op.bind_of_error (Op.read_of_error (f := fun n => checkLength what (expected n) got) ?_)
  simp [checkLength, require, hne]

/-- Inputs of the wrong length are refused, and nothing is changed. -/
theorem activate_error {input : List α} (hne : n.inputSize ≠ input.length) :
    activate input n = .error (.sizeMismatch .input n.inputSize input.length) n :=
  checkSize_error hne _

/-- Targets of the wrong length are refused, and nothing is changed. -/
theorem propagate_error (rate : α) {target : List α} (hne : n.outputSize ≠ target.length) :
    propagate rate target n = .error (.sizeMismatch .target n.outputSize target.length) n :=
  checkSize_error hne _

/-- So is a destination that is not there. -/
theorem project_error {destination : Destination} {e : Error}
    (he : n.circuit.resolve destination = .error e) (topology : Option Topology)
    (weight : Option α) : project destination topology weight n = .error e n := by
  have hread : Op.read (fun n : Network α => n.circuit.resolve destination) n = .error e n :=
    Op.read_of_error he
  exact Op.bind_of_error hread

namespace Valid

theorem of_pending (h : c.Hosts layers) : Valid ⟨c, layers, .pending⟩ := ⟨h, nofun⟩

theorem of_interpreted (h : c.Hosts layers) : Valid ⟨c, layers, .interpreted⟩ := ⟨h, nofun⟩

theorem of_dropped (h : c.Hosts layers) (mode : Mode α) : Valid ⟨c, layers, mode.dropped⟩ :=
  ⟨h, fun p hp => absurd hp (mode.dropped_ne_compiled p)⟩

/-- The circuit may differ in numbers. -/
theorem withCircuit (h : n.Valid) (hw : SameWiring n.circuit d) :
    Valid { n with circuit := d } where
  hosts := h.hosts.of_sameWiring hw
  live := fun p hp => (h.live p hp).of_sameWiring hw

theorem withMemory (h : n.Valid) {p : Program α} (hp : n.mode = .compiled p) {m : Memory α}
    (hm : m.size = p.memory.size) :
    Valid { n with mode := .compiled { p with memory := m } } where
  hosts := h.hosts
  live := by
    intro q hq
    cases hq
    exact (h.live p hp).withMemory hm

/-! ## Between the modes -/

/-- Restoring succeeds and changes numbers of the circuit only. -/
theorem restore_ok (h : n.Valid) :
    restore n = .ok () { n with circuit := n.restored } ∧ SameWiring n.circuit n.restored := by
  have hrestore : ∃ d, restore n = .ok () { n with circuit := d } ∧ SameWiring n.circuit d := by
    obtain ⟨c, layers, mode⟩ := n
    cases mode with
    | pending => exact ⟨c, rfl, .refl c⟩
    | interpreted => exact ⟨c, rfl, .refl c⟩
    | compiled p =>
      refine ⟨_, onCircuit_ok (Op.checked_of_ok () ?_), sameWiring_storeAll c p.values⟩
      exact require_eq_ok_iff.mpr (h.live p rfl).fits
  obtain ⟨d, hd, hw⟩ := hrestore
  have hrestored : n.restored = d := by rw [Network.restored, Op.final_of_ok hd]
  rw [hrestored]
  exact ⟨hd, hw⟩

/-- Restoring keeps the wiring. -/
theorem sameWiring_restored (h : n.Valid) : SameWiring n.circuit n.restored := h.restore_ok.2

theorem transfer_restored (h : n.Valid) (u : NeuronId) :
    (n.restored.neuron u).transfer = (n.circuit.neuron u).transfer := by
  cases hmode : n.mode with
  | compiled p =>
    have hrestore : restore n = .ok () { n with circuit := n.circuit.storeAll p.values } := by
      obtain ⟨c, layers, mode⟩ := n
      cases hmode
      exact onCircuit_ok (Op.checked_of_ok () (require_eq_ok_iff.mpr (h.live p rfl).fits))
    rw [Network.restored, Op.final_of_ok hrestore]
    exact transfer_storeAll _ _ _
  | _ => rw [restored_eq (by rw [isCompiled, program?, hmode]; rfl)]

theorem hosts_restored (h : n.Valid) : n.restored.Hosts n.layers :=
  h.hosts.of_sameWiring h.sameWiring_restored

/-- Invalidating restores the circuit and drops the program. -/
theorem invalidate_ok (h : n.Valid) :
    invalidate n = .ok () ⟨n.restored, n.layers, n.mode.dropped⟩ :=
  (Op.bind_of_ok h.restore_ok.1).trans (discard_eq _)

/-- Compiling succeeds, and starts from the restored circuit. -/
theorem compile_ok (h : n.Valid) :
    compile n = .ok () ⟨n.restored, n.layers, .compiled (n.restored.program n.layers)⟩ := by
  refine (Op.bind_of_ok h.restore_ok.1).trans (Op.checked_of_ok _ ?_)
  exact h.hosts_restored.consistent.sound.compile h.hosts_restored.runs.inhabits

theorem of_program (h : c.Hosts layers) : Valid ⟨c, layers, .compiled (c.program layers)⟩ where
  hosts := h
  live := by
    intro p hp
    cases hp
    exact serves_program h.runs

/-- Getting ready to run succeeds. -/
theorem prepare_ok (h : n.Valid) :
    ∃ mode, prepare n = .ok () { n with mode } ∧ Valid { n with mode } ∧ mode ≠ .pending := by
  obtain ⟨c, layers, mode⟩ := n
  cases mode with
  | pending => exact ⟨_, h.compile_ok, .of_program h.hosts, nofun⟩
  | interpreted => exact ⟨.interpreted, rfl, h, nofun⟩
  | compiled p => exact ⟨.compiled p, rfl, h, nofun⟩

/-! ## Running -/

/-- Inputs of the right length are answered in every mode. -/
theorem activate_ok (h : n.Valid) {input : List α} (hlen : n.inputSize = input.length) :
    ∃ outputs n', activate input n = .ok outputs n' ∧ n'.Valid ∧ n'.layers = n.layers ∧
      SameWiring n.circuit n'.circuit := by
  obtain ⟨mode, hprepare, hvalid, hmode⟩ := h.prepare_ok
  cases mode with
  | pending => exact absurd rfl hmode
  | interpreted =>
    have hstep := stepForward_ok h.hosts.runs hlen.symm
    have hw := sameWiring_forwardPass n.circuit n.layers input
    exact ⟨_, _, activate_of_steps hlen hprepare hstep, hvalid.withCircuit hw, rfl, hw⟩
  | compiled p =>
    have hserves := hvalid.live p rfl
    obtain ⟨outputs, m, hrun, hm, -⟩ := hserves.intact.activate_ok (hlen.symm.trans hserves.inputs.symm)
    exact ⟨_, _, activate_of_program hlen hprepare hrun, hvalid.withMemory rfl hm, rfl, .refl _⟩

/-- Targets of the right length are accepted in every mode. -/
theorem propagate_ok (h : n.Valid) (rate : α) {target : List α}
    (hlen : n.outputSize = target.length) :
    ∃ n', propagate rate target n = .ok () n' ∧ n'.Valid ∧ n'.layers = n.layers ∧
      SameWiring n.circuit n'.circuit := by
  obtain ⟨mode, hprepare, hvalid, hmode⟩ := h.prepare_ok
  cases mode with
  | pending => exact absurd rfl hmode
  | interpreted =>
    have hstep := stepBackward_ok h.hosts.runs rate hlen.symm
    have hw := sameWiring_backwardPass n.circuit n.layers rate target
    exact ⟨_, propagate_of_steps hlen hprepare hstep, hvalid.withCircuit hw, rfl, hw⟩
  | compiled p =>
    have hserves := hvalid.live p rfl
    obtain ⟨m, hrun, hm⟩ := hserves.intact.propagate_ok rate (hlen.symm.trans hserves.targets.symm)
    exact ⟨_, propagate_of_program hlen hprepare hrun, hvalid.withMemory rfl hm, rfl, .refl _⟩

/-! ## Editing, wiring, forgetting and looking -/

/-- An edit is an operation on the restored circuit. -/
theorem edit_eq (h : n.Valid) {β : Type} (op : Edit α β) :
    edit op n = onCircuit op ⟨n.restored, n.layers, n.mode.dropped⟩ :=
  Op.bind_of_ok h.invalidate_ok

/-- So is a gate. -/
theorem gate_eq (h : n.Valid) (projection : ProjectionId) (side : GateSide) :
    gate projection side n = onCircuit (Edit.gate n.layers.output projection side)
      ⟨n.restored, n.layers, n.mode.dropped⟩ :=
  Op.bind_of_ok h.invalidate_ok

/-- A projection whose destination is there wires the restored circuit. -/
theorem project_eq (h : n.Valid) {destination : Destination} {e : EnsembleId}
    (he : n.circuit.resolve destination = .ok e) (topology : Option Topology)
    (weight : Option α) :
    project destination topology weight n =
      onCircuit (Edit.project n.layers.output (.ensemble e) topology weight)
        ⟨n.restored, n.layers, n.mode.dropped⟩ := by
  have hread : Op.read (fun n : Network α => n.circuit.resolve destination) n = .ok e n :=
    Op.read_of_ok he
  exact (Op.bind_of_ok hread).trans (Op.bind_of_ok h.invalidate_ok)

/-- Forgetting succeeds if it does in the restored circuit. -/
theorem forget_ok (h : n.Valid) {f : EnsembleId → Edit α Unit}
    (hf : n.layers.ensembles.forM f n.restored = .ok () d) :
    (do restore; onCircuit ((← get).layers.ensembles.forM f); discard : Op (Network α) Unit) n =
      .ok () ⟨d, n.layers, n.mode.dropped⟩ := by
  have hcircuit : onCircuit (n.layers.ensembles.forM f) { n with circuit := n.restored } =
      .ok () { n with circuit := d } := onCircuit_ok hf
  exact (Op.bind_of_ok h.restore_ok.1).trans ((Op.bind_of_ok hcircuit).trans (discard_eq _))

/-- A snapshot can be taken at any time, and shows the restored circuit. -/
theorem snapshot_ok (h : n.Valid) :
    snapshot n = .ok (n.restored.snapshot (n.restored.placements n.layers))
      { n with circuit := n.restored } := by
  refine (Op.bind_of_ok h.restore_ok.1).trans (Op.read_of_ok ?_)
  refine bind_eq_ok_iff.mpr ⟨(), ?_, rfl⟩
  rw [requireNeurons_eq_ok_iff]
  intro u hu
  obtain ⟨p, hp, rfl⟩ := List.mem_map.mp hu
  exact h.hosts_restored.runs.inhabits p hp

end Valid

/-! ## Requests -/

/-- The request to the circuit that a request to a network with these layers comes down to, if it may
change the wiring. -/
def Request.rewiring (layers : Layers) : Request α → Option (Circuit.Request α)
  | .project target topology weight => some (.project layers.output (.ensemble target) topology weight)
  | .gate projection side => some (.gate layers.output projection side)
  | .edit r => some r
  | _ => none

/-- What an operation leaves is the network with other numbers, or with its restored circuit after one
of some requests to it. Either way it is valid. -/
structure Leaves (n n' : Network α) (among : Circuit.Request α → Prop) : Prop where
  valid : n'.Valid
  layers : n'.layers = n.layers
  circuit : SameWiring n.circuit n'.circuit ∨
    ∃ r, among r ∧ n'.circuit = r.perform.final n.restored

namespace Valid

variable {among : Circuit.Request α → Prop}

theorem leaves_self (h : n.Valid) : Leaves n n among := ⟨h, rfl, .inl (.refl _)⟩

/-- An operation on the restored circuit that is the operation of a request. -/
theorem leaves_onCircuit (h : n.Valid) {β : Type} {op : Edit α β} {r : Circuit.Request α}
    {f : β → Circuit.Answer α} (hop : r.perform = f <$> op) (hr : among r) :
    Leaves n ((onCircuit op).final ⟨n.restored, n.layers, n.mode.dropped⟩) among := by
  have hfinal : r.perform.final n.restored = op.final n.restored := by rw [hop, Op.final_map]
  rw [final_onCircuit]
  refine ⟨.of_dropped ?_ n.mode, rfl, .inr ⟨r, hr, hfinal.symm⟩⟩
  exact hfinal ▸ keeps_hosts r n.restored h.hosts_restored

theorem leaves_forget (h : n.Valid) {f : EnsembleId → Edit α Unit}
    (hf : n.layers.ensembles.forM f n.restored = .ok () d) (hw : SameWiring n.restored d) :
    Leaves n ((do restore; onCircuit ((← get).layers.ensembles.forM f); discard :
      Op (Network α) Unit).final n) among := by
  rw [Op.final_of_ok (h.forget_ok hf)]
  exact ⟨.of_dropped (h.hosts_restored.of_sameWiring hw) n.mode, rfl,
    .inl (h.sameWiring_restored.trans hw)⟩

theorem leaves_project (h : n.Valid) (destination : Destination) (topology : Option Topology)
    (weight : Option α) :
    Leaves n ((project destination topology weight).final n) fun r => ∃ e,
      n.circuit.resolve destination = .ok e ∧
        r = .project n.layers.output (.ensemble e) topology weight := by
  cases he : n.circuit.resolve destination with
  | error e =>
    rw [Op.final_of_error (project_error he topology weight)]
    exact h.leaves_self
  | ok e =>
    unfold Op.final
    rw [h.project_eq he]
    exact h.leaves_onCircuit (f := .id) rfl ⟨e, rfl, rfl⟩

/-- Whatever is asked of a valid network, it stays valid. -/
theorem leaves_request (h : n.Valid) (r : Request α) :
    Leaves n (r.perform.final n) (· ∈ r.rewiring n.layers) := by
  cases r <;> simp only [Request.perform, Op.final_map]
  case activate input =>
    by_cases hlen : n.inputSize = input.length
    · obtain ⟨outputs, n', hactivate, hvalid, hlayers, hw⟩ := h.activate_ok hlen
      rw [Op.final_of_ok hactivate]
      exact ⟨hvalid, hlayers, .inl hw⟩
    · rw [Op.final_of_error (activate_error hlen)]
      exact h.leaves_self
  case propagate rate target =>
    by_cases hlen : n.outputSize = target.length
    · obtain ⟨n', hpropagate, hvalid, hlayers, hw⟩ := h.propagate_ok rate hlen
      rw [Op.final_of_ok hpropagate]
      exact ⟨hvalid, hlayers, .inl hw⟩
    · rw [Op.final_of_error (propagate_error rate hlen)]
      exact h.leaves_self
  case project target topology weight =>
    obtain ⟨hvalid, hlayers, hw | ⟨r, ⟨e, he, rfl⟩, hr⟩⟩ :=
      h.leaves_project (.ensemble target) topology weight
    · exact ⟨hvalid, hlayers, .inl hw⟩
    · obtain ⟨rfl, -⟩ : target = e ∧ n.circuit.hasEnsemble e = true := by
        simpa [Circuit.entrance] using resolve_eq_ok_iff.mp he
      exact ⟨hvalid, hlayers, .inr ⟨_, rfl, hr⟩⟩
  case gate projection side =>
    unfold Op.final
    rw [h.gate_eq]
    exact h.leaves_onCircuit (f := fun _ => .done) rfl rfl
  case clear =>
    obtain ⟨d, hd, hw⟩ := clearEnsembles_ok h.hosts_restored.runs
    exact h.leaves_forget hd hw
  case reset =>
    obtain ⟨d, hd, hw⟩ := resetEnsembles_ok h.hosts_restored.runs
    exact h.leaves_forget hd hw
  case snapshot =>
    rw [Op.final_of_ok h.snapshot_ok]
    exact ⟨h.withCircuit h.sameWiring_restored, rfl, .inl h.sameWiring_restored⟩
  case edit r =>
    unfold Op.final
    rw [h.edit_eq]
    exact h.leaves_onCircuit (f := id) (id_map _).symm rfl

/-- Upkeep succeeds. It leaves a valid network of the same wiring. -/
theorem upkeep_ok (h : n.Valid) (u : Upkeep) :
    ∃ n', u.perform n = .ok () n' ∧ n'.Valid ∧ SameWiring n.circuit n'.circuit := by
  have hw := h.sameWiring_restored
  cases u with
  | compile => exact ⟨_, h.compile_ok, .of_program h.hosts_restored, hw⟩
  | restore => exact ⟨_, h.restore_ok.1, h.withCircuit hw, hw⟩
  | invalidate => exact ⟨_, h.invalidate_ok, .of_dropped h.hosts_restored n.mode, hw⟩
  | setOptimize on =>
    refine ⟨_, Op.bind_of_ok h.restore_ok.1, ?_, hw⟩
    cases on with
    | true => exact .of_pending h.hosts_restored
    | false => exact .of_interpreted h.hosts_restored
  | idle => exact ⟨_, (h.edit_eq _).trans rfl, .of_dropped h.hosts_restored n.mode, hw⟩
  | copy i =>
    -- nothing that a program serves for depends on the identity
    refine ⟨n.copy i, rfl, ⟨h.hosts.copy i, fun p hp => ?_⟩, sameWiring_copy n.circuit i⟩
    obtain ⟨hintact, hfits, hinputs, htargets⟩ := h.live p hp
    exact ⟨hintact, hfits, hinputs, htargets⟩

end Valid

/-! ## Networks within reach -/

theorem valid_create (hc : c.Consistent) (hp : c.Inhabits layers)
    (hn : Network.create c layers = .ok n) : n.Valid := by
  obtain ⟨hensembles, rfl⟩ := create_eq_ok hn
  exact .of_pending ⟨hc, hc.sound, hensembles, hp⟩

/-- What is imported from a snapshot is a network in order. -/
theorem valid_imported {s : Snapshot α} {identity : Identity} {settings : Settings α}
    (hn : s.toNetwork identity settings = .ok n) : n.Valid := by
  obtain ⟨hcheck, hn⟩ := Snapshot.toNetwork_eq_ok_iff.mp hn
  exact valid_create (Snapshot.consistent_build hcheck _ _)
    ((Snapshot.peopled_build _ _ _).inhabits _) hn

/-- Every network within reach is valid. -/
theorem valid_of_reachable (h : n.Reachable) : n.Valid := by
  induction h with
  | create hc hp hn => exact valid_create hc hp hn
  | imported hn => exact valid_imported hn
  | request r _ ih => exact (ih.leaves_request r).valid
  | project destination topology weight _ ih =>
    exact (ih.leaves_project destination topology weight).valid
  | upkeep u _ ih =>
    obtain ⟨n', hupkeep, hvalid, -⟩ := ih.upkeep_ok u
    rwa [Op.final_of_ok hupkeep]
  | overwrite _ hmode hsize ih => exact ih.withMemory hmode hsize

end Network

end GatedNetwork
