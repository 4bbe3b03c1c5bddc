import GatedNetwork.Proofs.Arithmetic
import GatedNetwork.Proofs.Snapshot.Build

/-!
# Circuits within reach

`Circuit.Reachable` holds the circuits that can come about: those without neurons, what any request
makes of one of them, copies, and the circuits of imported networks, in any order.

* `consistent_of_reachable`, `peopled_of_reachable` — the invariants of requests hold of all of them
* `sound_of_reachable` — so all indexes of such a circuit mirror its table of links
-/

namespace GatedNetwork

namespace Circuit

variable {α : Type} [Arithmetic α]

/-- The circuits that requests, copies and imports lead to. A request counts whether it succeeds or
fails. -/
inductive Reachable : Circuit α → Prop where
  | new (identity : Identity) (settings : Settings α) : Reachable (.empty identity settings)
  | perform {c : Circuit α} (r : Request α) : Reachable c → r.Grounded c →
      Reachable (r.perform.final c)
  | copy {c : Circuit α} (identity : Identity) : Reachable c → Reachable (c.copy identity)
  | imported {s : Snapshot α} {identity : Identity} {settings : Settings α} {n : Network α} :
      s.toNetwork identity settings = .ok n → Reachable n.circuit

variable {c : Circuit α}

theorem sameWiring_copy (c : Circuit α) (identity : Identity) : SameWiring c (c.copy identity) :=
  ⟨rfl, rfl, rfl, rfl, fun _ => rfl, fun _ => rfl⟩

theorem consistent_of_reachable (h : c.Reachable) : c.Consistent := by
  induction h with
  | new identity settings => exact consistent_empty identity settings
  | perform r _ _ ih => exact consistent_perform ih r
  | copy identity _ ih => exact ih.of_sameWiring (sameWiring_copy _ identity)
  | imported hn =>
    obtain ⟨hcheck, heq⟩ := Snapshot.toNetwork_eq_ok hn
    rw [heq]
    exact Snapshot.consistent_build hcheck _ _

theorem peopled_of_reachable (h : c.Reachable) : c.Peopled := by
  induction h with
  | new identity settings => exact peopled_empty identity settings
  | perform r _ hr ih => exact peopled_perform ih hr
  | copy identity _ ih => exact ih.of_sameWiring (sameWiring_copy _ identity)
  | imported hn =>
    rw [(Snapshot.toNetwork_eq_ok hn).2]
    exact Snapshot.peopled_build _ _ _

/-- In every circuit within reach, the loops, the links listed with their ends and their gaters, and
the keys of all traces mirror the table of links. -/
theorem sound_of_reachable (h : c.Reachable) : c.Sound :=
  (consistent_of_reachable h).sound

theorem reachable_performAll {rs : List (Request α)} (h : c.Reachable)
    (hrs : ∀ r ∈ rs, ∀ d : Circuit α, r.Grounded d) : (c.performAll rs).Reachable := by
  induction rs generalizing c with
  | nil => exact h
  | cons r rs ih =>
    obtain ⟨hr, hrest⟩ := List.forall_mem_cons.mp hrs
    exact ih (.perform r h (hr c)) hrest

/-- Three neurons in a ring. The second gates a link into itself and its own loop, then the third
takes over the gate of the link. -/
def ring : Circuit Int :=
  performAll (.empty 0 ⟨7, 2, 1⟩)
    [.addNeuron, .addNeuron, .addNeuron, .connect 0 1 (some 4), .gateLink 1 3, .gateLink 1 1,
      .connect 1 2 none, .connect 2 0 (some 1), .gateLink 2 3, .activateNeuron 1 none]

/-- The link into the second neuron has changed its gater, whose traces go on following its loop. -/
theorem sound_of_reachable_ring :
    ring.Reachable ∧ ring.Sound ∧ (ring.link 3).gater = some 2 ∧
      (ring.neuron 1).trace.extended.keys.toList = [1] ∧
      ((ring.neuron 2).trace.influencesOn 1).toList = [3] := by
  have h : ring.Reachable :=
    reachable_performAll (.new 0 ⟨7, 2, 1⟩) (by simp [Request.Grounded])
  exact ⟨h, sound_of_reachable h, by decide +kernel, by decide +kernel, by decide +kernel⟩

end Circuit

end GatedNetwork
