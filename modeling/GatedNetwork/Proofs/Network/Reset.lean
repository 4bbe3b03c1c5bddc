import Mathlib.Algebra.Order.Field.Basic
import GatedNetwork.Proofs.Circuit.Reset
import GatedNetwork.Proofs.ExactArithmetic
import GatedNetwork.Proofs.Network.Valid

/-!
# Resetting a network

A reset restores the network, resets its neurons in canonical order and drops the live program. Later
neurons draw weights again that earlier ones have drawn, but nothing that a reset writes is kept from
before, so it does not matter how often a link is reached.

* `Valid.reset_ok` — what a reset makes of the restored circuit
* `reset_redraws` — in exact arithmetic all drawn numbers lie within the range; what else is set to zero,
  and what is left
-/

namespace GatedNetwork

namespace Network

open Circuit

section

variable {α : Type} [Arithmetic α] {n : Network α}

theorem Valid.reset_ok (h : n.Valid) :
    reset n =
      .ok () ⟨n.restored.resetAll (n.restored.placed n.layers), n.layers, n.mode.dropped⟩ :=
  h.forget_ok (resetEnsembles_eq h.hosts_restored.runs)

end

variable {α : Type} [FractionArithmetic α] {n : Network α}

/-- Strictly within a range around zero. -/
def Within (range x : α) : Prop := -range < x ∧ x < range

/-- For every network within reach, in whatever mode: a reset succeeds and leaves the restored circuit
but for this. The neurons of the layers have a bias strictly within the initial range, no activation, no
state, no error and zeros in all their traces. The links that start or end at one of them or are gated by
one of them have a weight strictly within the range, except for loops, gated or not. -/
theorem reset_redraws (h : n.Reachable) (hrange : 0 < n.restored.settings.initRange) :
    restore n = .ok () { n with circuit := n.restored } ∧
      ∃ d, reset n = .ok () ⟨d, n.layers, n.mode.dropped⟩ ∧
        Redrawn (Within n.restored.settings.initRange) (n.restored.placed n.layers) n.restored d := by
  have hvalid := valid_of_reachable h
  have hruns := hvalid.hosts_restored.runs
  refine ⟨hvalid.restore_ok.1, _, hvalid.reset_ok, (redrawn_resetAll hruns.sound hruns.placed_lt).mono ?_⟩
  rintro _ ⟨word, rfl⟩
  exact range_mul_spread hrange word

/-- An input and two outputs; beside the layers, two more neurons. The second output gates the loop of the
first one, which gates the link between the neurons beside the layers. -/
def meddling : Circuit ℚ := performAll (.empty 0 ⟨7, 1 / 10, 1⟩)
  [.addEnsemble 1, .addEnsemble 2, .addEnsemble 2, .connect 0 1 (some 2), .connect 0 2 (some 1),
    .connect 1 1 (some 3), .connect 3 4 (some 9), .gateLink 2 1, .gateLink 1 7]

theorem reset_redraws_meddling :
    ∃ n : Network ℚ, n.Reachable ∧ 0 < n.restored.settings.initRange ∧
      ∃ d, reset n = .ok () ⟨d, n.layers, n.mode.dropped⟩ ∧
        Redrawn (Within n.restored.settings.initRange) (n.restored.placed n.layers) n.restored d ∧
        Within (1 / 10) (d.link 7).weight ∧ (d.link 1).weight = 3 := by
  have hcreated : Reachable
      ⟨meddling, (Layers.unbound 0 [] 1).bind meddling.identity, .pending⟩ :=
    reachable_of_requests (by unfold Inhabits; decide +kernel) (by decide +kernel)
  have hreachable :=
    ((hcreated.request (.activate [2])).request (.propagate 1 [3, 1])).request (.activate [1])
  obtain ⟨n, hn, hreachable⟩ : ∃ n : Network ℚ, n = _ ∧ n.Reachable := ⟨_, rfl, hreachable⟩
  have hrange : n.restored.settings.initRange = 1 / 10 := by
    rw [hn]
    decide +kernel
  have hpositive : 0 < n.restored.settings.initRange := by
    rw [hrange]
    decide +kernel
  obtain ⟨-, d, hreset, hredrawn⟩ := reset_redraws hreachable hpositive
  refine ⟨n, hreachable, hpositive, d, hreset, hredrawn, ?_, ?_⟩
  · have htouched : n.restored.Touches (n.restored.placed n.layers) 7 := by
      rw [hn]
      decide +kernel
    obtain ⟨weight, hweight, he⟩ := hredrawn.link 7 htouched
    rwa [he, ← hrange]
  · have hspared : ¬ n.restored.Touches (n.restored.placed n.layers) 1 := by
      rw [hn]
      decide +kernel
    have hloop : (n.restored.link 1).weight = 3 := by
      rw [hn]
      decide +kernel
    rw [hredrawn.spared 1 hspared, hloop]

end Network

end GatedNetwork
