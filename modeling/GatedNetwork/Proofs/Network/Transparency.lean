import GatedNetwork.Proofs.Network.Refinement
import GatedNetwork.Proofs.Network.Shows

/-!
# Compiled running is transparent

Whatever upkeep stands between the requests of a run, compiling, restoring, dropping programs,
switching compiled running on and off or going on with a copy, the requests have the answers they
would have step by step in the circuit, and the same circuit is there to be restored in the end:
`run_interpreted`.

A copy has an identity of its own. So an edit that wires to a layer set which is bound to the original
can tell the two apart, and is left out: `run_copy_owned`.
-/

namespace GatedNetwork

variable {α : Type} [Arithmetic α]

namespace Network

open Circuit

variable {layers : Layers} {n : Network α} {c d : Circuit α} {i : Identity}

variable [NeutralOne α]

/-- One request in a run. -/
theorem request_ok (h : Shows (layers.bind i) n (d.copy i)) (hd : d.Distinct layers) {r : Request α}
    (hr : r.Indifferent d.identity i) :
    r.perform.answer n = (r.effect layers).answer d ∧
      Shows (layers.bind i) (r.perform.final n) (((r.effect layers).final d).copy i) := by
  have hrequest := alike_request h (hd.copy i) r
  rw [effect_bind] at hrequest
  have hcopy : Op.Alike (IsCopy i) (r.effect layers (d.copy i)) (r.effect layers d) :=
    alike_effect hr
  have hfinal : (r.effect layers).final (d.copy i) = ((r.effect layers).final d).copy i :=
    hcopy.final
  rw [← hfinal]
  exact ⟨hrequest.answer_eq.trans hcopy.answer_eq, hrequest.final⟩

/-- A run succeeds, its answers are those of the effects on the circuit shown at first, and in the end
it shows what these make of that circuit, under the identity of the last copy. -/
theorem run_ok {es : List (Event α)} (h : Shows (layers.bind i) n (d.copy i)) (hd : d.Distinct layers)
    (hes : Indifferent d.identity i es) :
    ∃ n' j, run es n = .ok (effects layers (requests es) d).1 n' ∧
      Shows (layers.bind j) n' ((effects layers (requests es) d).2.copy j) := by
  induction es generalizing n d i with
  | nil => exact ⟨n, i, rfl, h⟩
  | cons e es ih =>
    cases e with
    | request r =>
      obtain ⟨hr, hes⟩ := hes
      obtain ⟨hanswer, hshows⟩ := request_ok h hd hr
      -- the original keeps its identity, so the rest of the run is indifferent to it as before
      rw [← identity_effect layers r d] at hes
      obtain ⟨n', j, hrun, hshows'⟩ := ih hshows (keeps_effect keeps_distinct layers r d hd) hes
      refine ⟨n', j, ?_, hshows'⟩
      have hobserve : Op.observe r.perform n =
          .ok ((r.effect layers).answer d) (r.perform.final n) := by
        rw [Op.observe, hanswer]
      exact (Op.bind_of_ok hobserve).trans (Op.bind_of_ok hrun)
    | upkeep u =>
      obtain ⟨n₁, hupkeep, hshows⟩ := upkeep_ok h (hd.copy i).hosts.runs u
      -- a copy changes the identity that is shown, all other upkeep leaves it
      have hgo : ∃ j, Shows (layers.bind j) n₁ (d.copy j) ∧ Indifferent d.identity j es := by
        cases u with
        | copy j => exact ⟨j, hshows, hes⟩
        | _ => exact ⟨i, hshows, hes⟩
      obtain ⟨j, hshows, hes⟩ := hgo
      obtain ⟨n', k, hrun, hshows'⟩ := ih hshows hd hes
      exact ⟨n', k, (Op.bind_of_ok hupkeep).trans hrun, hshows'⟩

/-- The run of the same requests, step by step from the start. -/
def interpreted (es : List (Event α)) : List (Event α) :=
  .upkeep (.setOptimize false) :: (requests es).map .request

omit [Arithmetic α] [NeutralOne α] in
theorem requests_interpreted (es : List (Event α)) : requests (interpreted es) = requests es := by
  show ((requests es).map Event.request).filterMap _ = _
  rw [List.filterMap_map]
  exact List.filterMap_some

omit [Arithmetic α] [NeutralOne α] in
theorem indifferent_interpreted (i : Identity) (es : List (Event α)) :
    Indifferent i i (interpreted es) := by
  show Indifferent i i ((requests es).map Event.request)
  induction requests es with
  | nil => trivial
  | cons r rs ih => exact ⟨r.indifferent_self i, ih⟩

/-- Inserting upkeep into a run changes no answer, and not the circuit that is there after a last
restore, its identity excepted. -/
theorem run_interpreted (hc : c.Consistent) (hp : c.Peopled)
    (hn : Network.create c layers = .ok n) (hdistinct : (c.members layers.output).Nodup)
    (es : List (Event α)) (hes : Indifferent c.identity c.identity es) :
    ∃ answers n₁ n₁' n₂ n₂',
      run es n = .ok answers n₁ ∧ restore n₁ = .ok () n₁' ∧
      run (interpreted es) n = .ok answers n₂ ∧ restore n₂ = .ok () n₂' ∧
      n₁'.circuit = n₂'.circuit.copy n₁'.circuit.identity := by
  obtain ⟨hensembles, rfl⟩ := create_eq_ok hn
  have hshows : Shows (layers.bind c.identity) _ (c.copy c.identity) := .pending c
  have hhost : c.Distinct layers := ⟨⟨hc, ⟨hc.sound, hensembles, hp.inhabits layers⟩⟩, hdistinct⟩
  obtain ⟨n₁, i, hrun₁, hshows₁⟩ := run_ok hshows hhost hes
  obtain ⟨n₂, j, hrun₂, hshows₂⟩ := run_ok hshows hhost (indifferent_interpreted c.identity es)
  rw [requests_interpreted] at hrun₂ hshows₂
  exact ⟨_, n₁, _, n₂, _, hrun₁, (restore_ok hshows₁).1, hrun₂, (restore_ok hshows₂).1, rfl⟩

/-- Compiled passes with a late gate between them, and a copy that goes on. -/
def mixedRun : List (Event Int) :=
  [.request (.activate [5]), .upkeep .compile, .request (.propagate 2 [7]), .upkeep (.copy 4),
    .request (.edit (.gateLink 1 5)), .upkeep (.setOptimize true), .request (.activate [-1]),
    .upkeep .restore, .request .snapshot, .request (.project 9 none none), .request .clear,
    .upkeep .idle, .request (.activate [3]), .upkeep .invalidate, .request (.gate 0 .links)]

theorem run_interpreted_mixedRun :
    layeredRing.Consistent ∧ layeredRing.Peopled ∧ (layeredRing.members 2).Nodup ∧
      Indifferent layeredRing.identity layeredRing.identity mixedRun ∧
      ∃ n, Network.create layeredRing (.unbound 0 [1] 2) = .ok n ∧
      ∃ answers n₁ n₁' n₂ n₂',
        run mixedRun n = .ok answers n₁ ∧ restore n₁ = .ok () n₁' ∧
        run (interpreted mixedRun) n = .ok answers n₂ ∧ restore n₂ = .ok () n₂' ∧
        n₁'.circuit = n₂'.circuit.copy n₁'.circuit.identity := by
  have hconsistent : layeredRing.Consistent :=
    consistent_performAll (consistent_performAll (consistent_empty 0 ⟨7, 2, 1⟩) _) _
  have hpeopled : layeredRing.Peopled := by
    unfold Peopled
    decide +kernel
  have hdistinct : (layeredRing.members 2).Nodup := by decide +kernel
  have hensembles : ∀ e ∈ (Layers.unbound 0 [1] 2).ensembles, layeredRing.hasEnsemble e = true := by
    decide +kernel
  have hrun : Indifferent layeredRing.identity layeredRing.identity mixedRun := by
    simp [mixedRun, Indifferent, Request.Indifferent, Circuit.Request.Indifferent]
  obtain ⟨n, hn⟩ := create_ok hensembles
  exact ⟨hconsistent, hpeopled, hdistinct, hrun, n, hn,
    run_interpreted hconsistent hpeopled hn hdistinct mixedRun hrun⟩

/-! ## A layer set bound to the original -/

/-- Two ensembles of one neuron each. -/
def pair : Circuit Int := performAll (.empty 0 ⟨7, 2, 1⟩) [.addEnsemble 1, .addEnsemble 1]

/-- Wires the input to the input of a layer set, which is bound to the circuit of identity 0. -/
def wireOwned : Request Int :=
  .edit (.project 0 (.layers ((Layers.unbound 0 [] 1).bind 0)) none none)

/-- The original takes a layer set that is bound to it, and a copy refuses it. -/
theorem run_copy_owned :
    pair.Consistent ∧ pair.Peopled ∧ (pair.members 1).Nodup ∧
      ∃ n, Network.create pair (.unbound 0 [] 1) = .ok n ∧
        (run [.upkeep (.copy 1), .request wireOwned]).answer n =
          .ok [.error (.destination .foreignLayers)] ∧
        (run (interpreted [.upkeep (.copy 1), .request wireOwned])).answer n =
          .ok [.ok (.circuit (.id 0))] := by
  refine ⟨consistent_performAll (consistent_empty 0 ⟨7, 2, 1⟩) _, ?_, by decide +kernel,
    ⟨pair, (Layers.unbound 0 [] 1).bind 0, .pending⟩, rfl, by decide +kernel, by decide +kernel⟩
  unfold Peopled
  decide +kernel

end Network

end GatedNetwork
