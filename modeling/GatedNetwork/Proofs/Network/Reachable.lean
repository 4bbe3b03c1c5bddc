import GatedNetwork.Proofs.Circuit.Reachable
import GatedNetwork.Proofs.Network.Shows

/-!
# Networks within reach

`Network.Reachable` holds the networks that can come about: those made over a consistent circuit or
from a snapshot, and what requests, upkeep and writes to the memory of a live program make of them, in
any order. All of them show a circuit that can host them: `shows_of_reachable`.
-/

namespace GatedNetwork

variable {α : Type} [Arithmetic α]

namespace Network

open Circuit

/-- The networks that creation, imports, requests, upkeep and writes to memory lead to. A request
counts whether it succeeds or fails. -/
inductive Reachable : Network α → Prop where
  | create {c : Circuit α} {layers : Layers} {n : Network α} : c.Consistent → c.Inhabits layers →
      Network.create c layers = .ok n → Reachable n
  | imported {s : Snapshot α} {identity : Identity} {settings : Settings α} {n : Network α} :
      s.toNetwork identity settings = .ok n → Reachable n
  | request {n : Network α} (r : Request α) : Reachable n → Reachable (r.perform.final n)
  /-- Wires the output to any destination. -/
  | project {n : Network α} (destination : Destination) (topology : Option Topology)
      (weight : Option α) : Reachable n →
      Reachable ((project destination topology weight).final n)
  | upkeep {n : Network α} (u : Upkeep) : Reachable n → Reachable (u.perform.final n)
  /-- Puts any numbers into the memory of a live program. -/
  | overwrite {n : Network α} {p : Program α} {m : Memory α} : Reachable n →
      n.mode = .compiled p → m.size = p.memory.size →
      Reachable { n with mode := .compiled { p with memory := m } }

/-- Networks over circuits that requests have made are within reach. -/
theorem reachable_of_requests {identity : Identity} {settings : Settings α}
    {rs : List (Circuit.Request α)} {layers : Layers}
    (hinhabits : (performAll (.empty identity settings) rs).Inhabits layers)
    (hensembles : ∀ e ∈ layers.ensembles,
      (performAll (.empty identity settings) rs).hasEnsemble e = true) :
    Reachable ⟨performAll (.empty identity settings) rs,
      layers.bind (performAll (.empty identity settings) rs).identity, .pending⟩ := by
  obtain ⟨n, hn⟩ := create_ok hensembles
  have hreachable : Reachable n :=
    .create (consistent_performAll (consistent_empty identity settings) rs) hinhabits hn
  obtain ⟨-, rfl⟩ := create_eq_ok hn
  exact hreachable

variable [NeutralOne α] {layers : Layers} {n : Network α} {c d : Circuit α}

/-- A host stays shown, whatever is asked of the network. -/
theorem shows_request (h : Shows layers n d) (hd : d.Hosts layers) (r : Request α) :
    ∃ d', Shows layers (r.perform.final n) d' ∧ d'.Hosts layers := by
  have hkeeps := keeps_effect keeps_hosts layers r d hd
  cases r with
  | activate input =>
    by_cases hlen : input.length = (d.members layers.input).length
    · obtain ⟨outputs, n', hactivate, hshows, -⟩ := activate_ok h hd hlen
      refine ⟨d.forwardPass layers input, ?_, hd.of_sameWiring (sameWiring_forwardPass d _ _)⟩
      have hperform : (Request.activate input).perform n = .ok (.outputs outputs) n' :=
        Op.map_of_ok hactivate
      rwa [Op.final_of_ok hperform]
    · have hrefused : Op.Alike (Shows layers) ((Request.activate input).perform n)
          ((Request.activate input).effect layers d) :=
        Op.Alike.map (alike_refused h h.inputSize hlen _ _) _
      exact ⟨_, hrefused.final, hkeeps⟩
  | propagate rate target => exact ⟨_, (alike_propagate h hd rate target).final, hkeeps⟩
  | project target topology weight =>
    exact ⟨_, ((alike_project h (.ensemble target) topology weight).map _).final, hkeeps⟩
  | gate projection side => exact ⟨_, (alike_gate h projection side).final, hkeeps⟩
  | clear => exact ⟨_, ((alike_forget h (clearEnsembles_ok hd.runs)).map _).final, hkeeps⟩
  | reset => exact ⟨_, ((alike_forget h (resetEnsembles_ok hd.runs)).map _).final, hkeeps⟩
  | snapshot => exact ⟨_, (alike_snapshot h).final, hkeeps⟩
  | edit r => exact ⟨_, ((alike_edit h r.perform).map _).final, hkeeps⟩

theorem shows_project (h : Shows layers n d) (hd : d.Hosts layers) (destination : Destination)
    (topology : Option Topology) (weight : Option α) :
    ∃ d', Shows layers ((project destination topology weight).final n) d' ∧ d'.Hosts layers := by
  refine ⟨_, (alike_project h destination topology weight).final, ?_⟩
  refine Op.Keeps.bind (P := (·.Hosts layers)) (Op.Keeps.read _) (fun e => ?_) d hd
  exact Op.Keeps.of_map (keeps_hosts (.project _ _ topology weight))

theorem shows_upkeep (h : Shows layers n d) (hd : d.Hosts layers) (u : Upkeep) :
    ∃ layers' d', Shows layers' (u.perform.final n) d' ∧ d'.Hosts layers' := by
  obtain ⟨n', hupkeep, hshows⟩ := upkeep_ok h hd.runs u
  rw [Op.final_of_ok hupkeep]
  refine ⟨_, _, hshows, ?_⟩
  cases u with
  | copy i => exact hd.copy i
  | _ => exact hd

omit [NeutralOne α] in
theorem shows_create (hc : c.Consistent) (hp : c.Inhabits layers)
    (hn : Network.create c layers = .ok n) :
    Shows (layers.bind c.identity) n c ∧ c.Hosts (layers.bind c.identity) := by
  obtain ⟨hensembles, rfl⟩ := create_eq_ok hn
  exact ⟨.pending c, hc, hc.sound, hensembles, hp⟩

/-- Every network within reach shows a circuit that can host it. -/
theorem shows_of_reachable (h : n.Reachable) :
    ∃ layers d, Shows layers n d ∧ d.Hosts layers := by
  induction h with
  | create hc hp hn => exact ⟨_, _, shows_create hc hp hn⟩
  | imported hn =>
    obtain ⟨hcheck, hn⟩ := Snapshot.toNetwork_eq_ok_iff.mp hn
    exact ⟨_, _, shows_create (Snapshot.consistent_build hcheck _ _)
      ((Snapshot.peopled_build _ _ _).inhabits _) hn⟩
  | request r _ ih =>
    obtain ⟨layers, d, hshows, hd⟩ := ih
    exact ⟨layers, shows_request hshows hd r⟩
  | project destination topology weight _ ih =>
    obtain ⟨layers, d, hshows, hd⟩ := ih
    exact ⟨layers, shows_project hshows hd destination topology weight⟩
  | upkeep u _ ih =>
    obtain ⟨layers, d, hshows, hd⟩ := ih
    exact shows_upkeep hshows hd u
  | overwrite _ hmode hsize ih =>
    obtain ⟨layers, d, hshows, hd⟩ := ih
    cases hshows with
    | pending => cases hmode
    | interpreted => cases hmode
    | @compiled b τ m hb hτ hm =>
      cases hmode
      -- other numbers in the memory, and so a circuit filled with other numbers
      have hw := (sameWiring_fill b (m.view (b.program layers).symbols τ)).symm
      exact ⟨layers, _, .compiled hb hτ (hsize.trans hm),
        hd.of_sameWiring (hw.trans (sameWiring_fill b _))⟩

end Network

end GatedNetwork
