import GatedNetwork.Proofs.Circuit.Failure
import GatedNetwork.Proofs.Network.Valid

/-!
# What a failed call leaves behind

Running a network fails for the number of values only, before anything is done, so a failure leaves the
network as it was. Wiring its output checks the destination first. What is checked after that, the
sizes of a projection from one neuron to one and everything about a gate, is checked once the live
program is restored and dropped: such a failure leaves the network without the program. Nothing else is
changed, so a network without a live program is left as it was.

* `Valid.error_of_project`, `Valid.error_of_gate` — the causes of failure that come late
* `left_by_failure` — what each failed call leaves
* `not_left_by_failure` — a gate on a compiled network that fails, and what it changes
-/

namespace GatedNetwork

variable {α : Type} [Arithmetic α]

namespace Network

open Circuit

variable {n n' : Network α} {e : Error}

/-- What is left of a network whose live program is restored and dropped. -/
def settled (n : Network α) : Network α := ⟨n.restored, n.layers, n.mode.dropped⟩

omit [Arithmetic α] in
/-- Nothing is lost without a live program, and with one it always is. -/
theorem settled_eq_iff : n.settled = n ↔ n.isCompiled = false := by
  constructor
  · intro h
    rw [← h]
    unfold settled isCompiled program? Mode.dropped
    cases n.mode <;> rfl
  · intro h
    rw [settled, restored_eq h]
    obtain ⟨c, layers, mode⟩ := n
    cases mode with
    | pending => rfl
    | interpreted => rfl
    | compiled p => cases h

omit [Arithmetic α] in
/-- An operation on the circuit that checks first and fails leaves the network alone. -/
theorem onCircuit_checked_eq_error {β π : Type} {check : Circuit α → Except Error π}
    {act : π → Circuit α → β × Circuit α} (h : onCircuit (Op.checked check act) n = .error e n') :
    check n.circuit = .error e ∧ n' = n := by
  cases hc : check n.circuit with
  | error e' =>
    rw [onCircuit_error (Op.checked_error hc)] at h
    cases h
    exact ⟨rfl, rfl⟩
  | ok plan =>
    rw [onCircuit_ok (Op.checked_ok hc)] at h
    cases h

namespace Valid

theorem eq_of_activate_error (h : n.Valid) {input : List α} (he : activate input n = .error e n') :
    n' = n := by
  by_cases hlen : n.inputSize = input.length
  · obtain ⟨outputs, m, hactivate, -⟩ := h.activate_ok hlen
    rw [hactivate] at he
    cases he
  · rw [activate_error hlen] at he
    cases he
    rfl

theorem eq_of_propagate_error (h : n.Valid) {rate : α} {target : List α}
    (he : propagate rate target n = .error e n') : n' = n := by
  by_cases hlen : n.outputSize = target.length
  · obtain ⟨m, hpropagate, -⟩ := h.propagate_ok rate hlen
    rw [hpropagate] at he
    cases he
  · rw [propagate_error rate hlen] at he
    cases he
    rfl

/-- Wiring fails for a destination that is not there, before anything is done, or else for sizes that
do not match, after the live program is gone. -/
theorem error_of_project (h : n.Valid) {destination : Destination} {topology : Option Topology}
    {weight : Option α} (he : project destination topology weight n = .error e n') :
    (n.circuit.resolve destination = .error e ∧ n' = n) ∨
      ((∃ target, n.circuit.resolve destination = .ok target) ∧ (e.IsOneToOne ∨ e.IsDangling) ∧
        n' = n.settled) := by
  cases hd : n.circuit.resolve destination with
  | error e' =>
    rw [project_error hd] at he
    cases he
    exact .inl ⟨rfl, rfl⟩
  | ok target =>
    rw [h.project_eq hd] at he
    obtain ⟨hplan, rfl⟩ := onCircuit_checked_eq_error he
    have hensembles := h.hosts_restored.runs.ensembles _ (Runs.output_mem n.layers)
    have htarget : n.restored.hasEnsemble target = true := by
      have hfound := (resolve_eq_ok_iff.mp hd).2
      unfold hasEnsemble at hfound ⊢
      rwa [h.sameWiring_restored.ensembles]
    exact .inr ⟨⟨target, rfl⟩, failsWith_planProjection hensembles htarget topology e hplan, rfl⟩

/-- A gate is checked after the live program is gone. -/
theorem error_of_gate (h : n.Valid) {projection : ProjectionId} {side : GateSide}
    (he : gate projection side n = .error e n') :
    (e.IsGate ∨ e.IsDangling) ∧ n' = n.settled := by
  rw [h.gate_eq] at he
  obtain ⟨hplan, rfl⟩ := onCircuit_checked_eq_error he
  exact ⟨failsWith_planGating _ _ _ e hplan, rfl⟩

end Valid

/-- Failing to run a network, or to wire it to a destination that is not there, changes nothing. A
failure that comes from sizes of a projection or from a gate leaves the network with its circuit
restored and without its live program, and so changes nothing exactly if there was none. -/
theorem left_by_failure (h : n.Reachable) :
    (∀ input e n', activate input n = .error e n' → n' = n) ∧
    (∀ rate target e n', propagate rate target n = .error e n' → n' = n) ∧
    (∀ destination topology weight e n', project destination topology weight n = .error e n' →
      (n.circuit.resolve destination = .error e ∧ n' = n) ∨
        ((∃ target, n.circuit.resolve destination = .ok target) ∧
          (e.IsOneToOne ∨ e.IsDangling) ∧ n' = n.settled)) ∧
    (∀ projection side e n', gate projection side n = .error e n' →
      (e.IsGate ∨ e.IsDangling) ∧ n' = n.settled) ∧
    (n.settled = n ↔ n.isCompiled = false) := by
  have hvalid := valid_of_reachable h
  exact ⟨fun _ _ _ he => hvalid.eq_of_activate_error he,
    fun _ _ _ _ he => hvalid.eq_of_propagate_error he,
    fun _ _ _ _ _ he => hvalid.error_of_project he,
    fun _ _ _ _ he => hvalid.error_of_gate he, settled_eq_iff⟩

/-- Two ensembles, of one neuron and of two, all linked. -/
def fan : Circuit Int :=
  performAll (.empty 0 ⟨7, 2, 1⟩) [.addEnsemble 1, .addEnsemble 2, .project 0 (.ensemble 1) none none]

/-- A network over them after a compiled pass, which the circuit does not know of yet. -/
def fanned : Network Int :=
  (Request.activate [5]).perform.final ⟨fan, (Layers.unbound 0 [] 1).bind fan.identity, .pending⟩

theorem reachable_fanned : fanned.Reachable :=
  .request _ (reachable_of_requests (by decide +kernel) (by decide +kernel))

theorem left_by_failure_fanned :
    fanned.Reachable ∧ fanned.isCompiled = true ∧
      (activate [1, 2]).answer fanned = .error (.sizeMismatch .input 1 2) ∧
      (project (.ensemble 9) none none).answer fanned =
        .error (.destination (.unknownTarget 9)) ∧
      ∀ projection side e n', gate projection side fanned = .error e n' →
        (e.IsGate ∨ e.IsDangling) ∧ n' = fanned.settled :=
  ⟨reachable_fanned, by decide +kernel, by decide +kernel, by decide +kernel,
    (left_by_failure reachable_fanned).2.2.2.1⟩

/-- A gate on a projection that is not there, and a projection whose sizes do not match: both fail, but
drop the live program and write its memory back into the circuit first. -/
theorem not_left_by_failure :
    fanned.Reachable ∧ fanned.isCompiled = true ∧
      (gate 9 .links).answer fanned = .error (.gate (.unknownProjection 9)) ∧
      (project (.ensemble 0) (some .oneToOne) none).answer fanned =
        .error (.sizeMismatch .oneToOneTarget 2 1) ∧
      ((gate 9 .links).final fanned).isCompiled = false ∧
      ((project (.ensemble 0) (some .oneToOne) none).final fanned).isCompiled = false ∧
      ((gate 9 .links).final fanned).circuit.neurons ≠ fanned.circuit.neurons :=
  ⟨reachable_fanned, by decide +kernel, by decide +kernel, by decide +kernel, by decide +kernel,
    by decide +kernel, by decide +kernel⟩

end Network

end GatedNetwork
